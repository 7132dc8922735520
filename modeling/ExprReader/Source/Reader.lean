/-!
# Input that comes in lines

A reader holds the bytes that are still to come, and perhaps the reason why it breaks after them
instead of ending. Lines are taken off its front one at a time.

## Main definitions

* `Reader`: bytes to come, and what happens after them
* `Reader.takeLine`: the next line, its line feed included

## Main results

* `takeLine_shorter`: a line that is not empty leaves fewer bytes
-/

namespace ExprReader

/-- Input that has not been read yet. -/
structure Reader where
  /-- The bytes to come. -/
  bytes : List UInt8
  /-- Why reading fails after these bytes; without a reason the input ends there. -/
  failure : Option String
  deriving DecidableEq, Repr

namespace Reader

/-- Input that ends after its bytes. -/
def ofBytes (bytes : List UInt8) : Reader := ⟨bytes, none⟩

/-- Input that breaks after its first `n` bytes. -/
def breakingAfter (n : Nat) (reason : String) (bytes : List UInt8) : Reader :=
  ⟨bytes.take n, some reason⟩

/-- The byte that ends a line. -/
def lineFeed : UInt8 := 10

/-- The next line up to and with its line feed, or what is left where the input ends; the empty
line means that nothing is left. If the input breaks first, the line begun is lost. -/
def takeLine (r : Reader) : Except String (List UInt8) × Reader :=
  let front := r.bytes.takeWhile (· != lineFeed)
  match r.bytes.dropWhile (· != lineFeed), r.failure with
  | lf :: rest, _ => (.ok (front ++ [lf]), { r with bytes := rest })
  | [], none => (.ok front, { r with bytes := [] })
  | [], some reason => (.error reason, { r with bytes := [] })

/-- A line that is not empty leaves fewer bytes. -/
theorem takeLine_shorter {r after : Reader} {line : List UInt8}
    (h : r.takeLine = (.ok line, after)) (hline : line ≠ []) :
    after.bytes.length < r.bytes.length := by
  have hsplit := r.bytes.takeWhile_append_dropWhile (p := (· != lineFeed))
  have hlength := congrArg List.length hsplit
  unfold takeLine at h
  split at h
  · rename_i heq
    obtain ⟨-, rfl⟩ := Prod.mk.inj h
    simp only [heq, List.length_append, List.length_cons] at hlength
    simp only
    omega
  · -- the last line has no line feed, but it is not empty
    rename_i heq _
    obtain ⟨hl, rfl⟩ := Prod.mk.inj h
    obtain rfl := Except.ok.inj hl
    simp only [heq, List.length_append, List.length_nil] at hlength
    have := List.length_pos_iff.2 hline
    simp only [List.length_nil]
    omega
  · simp at h

end Reader

end ExprReader
