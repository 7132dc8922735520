import ExprReader.Diagnostic.Basic
import ExprReader.Token.Basic

/-!
# A cursor over tokens

A parser holds the tokens that lie ahead, the one it took last, and the diagnostics so far.
Comments say nothing to it and are left out from the start. The token that marks the end of a
text can be looked at and is never passed.

## Main definitions

* `Cursor`: the state of a parser
* `Cursor.advance`: takes the current token
* `Cursor.accept`: takes the current token if it is of one of some kinds
* `Cursor.fail`: reports a fault at the current token
* `Cursor.synchronize`: skips what belongs to a faulty statement

## Main results

* `advance_shorter`: taking a token other than the end leaves fewer tokens ahead
* `accept_shorter`: so does accepting one
-/

namespace ExprReader

/-- The state of a parser. -/
structure Cursor where
  /-- The tokens ahead, without comments; the first is the current one. -/
  rest : List Token
  /-- The token taken last. -/
  previous : Option Token
  /-- Where a fault is reported when no token is ahead. -/
  brink : Span
  /-- What has been reported, in order. -/
  diagnostics : List Diagnostic
  deriving DecidableEq, Repr

namespace Cursor

/-- The cursor before the first of some tokens. -/
def ofTokens (tokens : List Token) : Cursor where
  rest := tokens.filter fun t => !t.isComment
  previous := none
  brink := (tokens.getLast?.map Token.span).getD (.point 0)
  diagnostics := []

/-- The current token. -/
def peek (p : Cursor) : Option Token := p.rest.head?

/-- No token is ahead but the one that marks the end. -/
def atEnd (p : Cursor) : Bool := p.peek.all Token.isEof

/-- Takes the current token; the one that marks the end stays current. -/
def advance (p : Cursor) : Cursor :=
  match p.rest with
  | [] => p
  | t :: rest => { p with rest := if t.isEof then p.rest else rest, previous := some t }

/-- Takes the current token if it is of one of the kinds. -/
def accept (p : Cursor) (kinds : List Token.Kind) : Option (Token × Cursor) :=
  match p.peek with
  | some t => if t.kind ∈ kinds ∧ !t.isEof then some (t, p.advance) else none
  | none => none

/-- Where a fault at the current token is reported. At the end of the text that is behind the
token taken last. -/
def here (p : Cursor) : Span :=
  match p.peek, p.previous with
  | some t, some last => if t.isEof then .point last.span.stop else t.span
  | some t, none => t.span
  | none, _ => p.brink

/-- Reports a fault at a span. -/
def report (p : Cursor) (fault : Fault) (span : Span) : Cursor :=
  { p with diagnostics := p.diagnostics ++ [.error fault span] }

/-- Reports a fault at the current token. -/
def fail (p : Cursor) (fault : Fault) : Cursor := p.report fault p.here

@[simp] theorem rest_report (p : Cursor) (fault : Fault) (span : Span) :
    (p.report fault span).rest = p.rest := rfl

@[simp] theorem rest_fail (p : Cursor) (fault : Fault) : (p.fail fault).rest = p.rest := rfl

theorem advance_le (p : Cursor) : p.advance.rest.length ≤ p.rest.length := by
  unfold advance
  split
  · simp
  · rename_i t rest heq
    dsimp only
    split <;> simp [heq]

/-- Taking a token other than the end leaves fewer tokens ahead. -/
theorem advance_shorter {p : Cursor} {t : Token} (ht : p.peek = some t) (heof : t.isEof = false) :
    p.advance.rest.length < p.rest.length := by
  unfold advance
  split
  · rename_i heq
    simp [peek, heq] at ht
  · rename_i u rest heq
    obtain rfl : u = t := by simpa [peek, heq] using ht
    simp [heof, heq]

/-- Accepting a token leaves fewer tokens ahead. -/
theorem accept_shorter {p after : Cursor} {kinds : List Token.Kind} {t : Token}
    (h : p.accept kinds = some (t, after)) : after.rest.length < p.rest.length := by
  unfold accept at h
  split at h
  · rename_i u hu
    split at h
    · rename_i hkind
      obtain ⟨rfl, rfl⟩ := Prod.mk.inj (Option.some.inj h)
      exact advance_shorter hu (by simpa using hkind.2)
    · simp at h
  · simp at h

/-! ## Going on after a fault -/

/-- The kinds of the words that begin a statement. -/
def statementStart : List Token.Kind :=
  [.kwClass, .kwFn, .kwVar, .kwFor, .kwIf, .kwWhile, .kwPrint, .kwReturn]

/-- A statement ends before the current token: a semicolon was taken last, or the current token
begins a statement. -/
def atBoundary (p : Cursor) : Bool :=
  p.previous.any (fun t => t.kind == .semicolon)
    || p.peek.any fun t => statementStart.contains t.kind

/-- Takes tokens up to the next boundary of statements, or to the end. -/
def skipToBoundary (p : Cursor) : Cursor :=
  if p.atEnd || p.atBoundary then p else p.advance.skipToBoundary
termination_by p.rest.length
decreasing_by
  -- the end has not been reached, so the current token is taken
  rename_i h
  simp only [Bool.or_eq_true, not_or, Bool.not_eq_true] at h
  obtain ⟨hend, -⟩ := h
  simp only [atEnd, Option.all_eq_false] at hend
  obtain ⟨t, ht, heof⟩ := hend
  exact advance_shorter ht heof

/-- Takes at least one token, and then on to the next boundary of statements. -/
def synchronize (p : Cursor) : Cursor := p.advance.skipToBoundary

end Cursor

end ExprReader
