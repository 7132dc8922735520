/-!
# Spans

A span is the stretch of a text between two byte offsets.

## Main definitions

* `Span`: two byte offsets
* `Span.shift`: the same stretch in a text that begins earlier
-/

namespace ExprReader

/-- The bytes from `start` up to, but not including, `stop`. -/
structure Span where
  start : Nat
  stop : Nat
  deriving DecidableEq, Repr, Inhabited

namespace Span

/-- The number of bytes between the two offsets. -/
def length (s : Span) : Nat := s.stop - s.start

/-- The two offsets are the same. -/
def isEmpty (s : Span) : Bool := s.start == s.stop

/-- The span with both offsets increased by `n`. -/
def shift (n : Nat) (s : Span) : Span := ⟨s.start + n, s.stop + n⟩

/-- The empty span at an offset. -/
def point (offset : Nat) : Span := ⟨offset, offset⟩

end Span

end ExprReader
