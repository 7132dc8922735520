/-!
# Text from bytes that may not be UTF-8

Bytes are read as UTF-8. Where they are not, each longest part that could have been the beginning
of a character becomes one replacement character, and so does each byte that cannot begin one.

## Main definitions

* `tailRanges? b`: the ranges in which the bytes after a first byte `b` must lie
* `decodeFirst b rest`: the first character of `b :: rest`, and the bytes after it
* `decode bytes`: the whole text

## Main results

* `decode_cons_ascii`: a byte below 128 is the character of that number, whatever follows
-/

namespace ExprReader.Text

/-- What stands for bytes that are no character. -/
def replacement : Char := '\ufffd'

/-- The ranges, first and last byte, in which the bytes after a first byte must lie one by one;
none if no character begins with it. They leave out overlong forms, surrogates and numbers beyond
the last code point. -/
def tailRanges? (b : UInt8) : Option (List (UInt8 × UInt8)) :=
  if b < 0x80 then some []
  -- bytes that only continue a character, and the first bytes of overlong forms of two
  else if b < 0xC2 then none
  else if b < 0xE0 then some [(0x80, 0xBF)]
  -- without overlong forms of three
  else if b = 0xE0 then some [(0xA0, 0xBF), (0x80, 0xBF)]
  -- without surrogates
  else if b = 0xED then some [(0x80, 0x9F), (0x80, 0xBF)]
  else if b < 0xF0 then some [(0x80, 0xBF), (0x80, 0xBF)]
  -- without overlong forms of four
  else if b = 0xF0 then some [(0x90, 0xBF), (0x80, 0xBF), (0x80, 0xBF)]
  else if b < 0xF4 then some [(0x80, 0xBF), (0x80, 0xBF), (0x80, 0xBF)]
  -- without numbers beyond the last code point
  else if b = 0xF4 then some [(0x80, 0x8F), (0x80, 0xBF), (0x80, 0xBF)]
  else none

-- `^` on `Nat` stays that of the core library where a library with powers of its own is loaded
attribute [local instance (high)] instPowNat

/-- The number that a first byte and the `n` bytes after it spell: the low bits of the first, then
six bits of each of the others. -/
def codePoint (b : UInt8) (tail : List UInt8) : Nat :=
  let high := if tail.isEmpty then b.toNat else b.toNat % 2 ^ (6 - tail.length)
  tail.foldl (fun number t => number * 64 + t.toNat % 64) high

/-- Reads bytes as long as each lies in its range: the bytes read, whether all ranges were met,
and the bytes left. -/
def takeTail : List (UInt8 × UInt8) → List UInt8 → List UInt8 × Bool × List UInt8
  | [], bytes => ([], true, bytes)
  | _ :: _, [] => ([], false, [])
  | (first, last) :: ranges, b :: bytes =>
    if first ≤ b ∧ b ≤ last then
      let (tail, complete, left) := takeTail ranges bytes
      (b :: tail, complete, left)
    -- the byte that does not fit may begin a character, so it is left
    else ([], false, b :: bytes)

/-- The first character of the bytes `b :: rest`, and the bytes after it. -/
def decodeFirst (b : UInt8) (rest : List UInt8) : Char × List UInt8 :=
  match tailRanges? b with
  | none => (replacement, rest)
  | some ranges =>
    match takeTail ranges rest with
    | (tail, true, left) => (Char.ofNat (codePoint b tail), left)
    | (_, false, left) => (replacement, left)

theorem length_takeTail (ranges : List (UInt8 × UInt8)) (bytes : List UInt8) :
    (takeTail ranges bytes).2.2.length ≤ bytes.length := by
  fun_induction takeTail ranges bytes with
  | case1 => simp
  | case2 => simp
  | case3 first last ranges b bytes h tail complete left heq ih =>
    simp only [heq] at ih
    simp only [List.length_cons]
    omega
  | case4 => simp

theorem length_decodeFirst (b : UInt8) (rest : List UInt8) :
    (decodeFirst b rest).2.length ≤ rest.length := by
  unfold decodeFirst
  split
  · simp
  · rename_i ranges _
    have := length_takeTail ranges rest
    split <;> simp_all

/-- The text of some bytes, with a replacement character for each part that is no character. -/
def decode : List UInt8 → List Char
  | [] => []
  | b :: rest => (decodeFirst b rest).1 :: decode (decodeFirst b rest).2
termination_by bytes => bytes.length
decreasing_by exact Nat.lt_succ_of_le (length_decodeFirst b rest)

@[simp] theorem decode_nil : decode [] = [] := by rw [decode]

/-- A byte below 128 is the character of that number, whatever follows. -/
theorem decode_cons_ascii {b : UInt8} (h : b < 0x80) (rest : List UInt8) :
    decode (b :: rest) = Char.ofNat b.toNat :: decode rest := by
  rw [decode]
  simp [decodeFirst, tailRanges?, h, takeTail, codePoint]

end ExprReader.Text
