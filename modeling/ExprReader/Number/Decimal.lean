/-!
# Numbers in decimal writing

A number is written as an optional sign and then either one of the words `inf`, `infinity` and
`nan` in any letter case, or digits with at most one point among them, at least one digit, and an
optional exponent: the letter `e` in either case, an optional sign and at least one digit.

## Main definitions

* `Decimal`: what such a writing denotes
* `Decimal.ofChars?`: reads the writing, and refuses every other text

## Main results

* `digitValue_lt`: a digit counts less than ten
-/

namespace ExprReader

/-- What a number in decimal writing denotes. -/
inductive Decimal
  /-- A quantity beyond all others. -/
  | infinite (negative : Bool)
  /-- No quantity at all. -/
  | nan
  /-- The quantity `mantissa * 10 ^ exponent`, or its opposite. -/
  | finite (negative : Bool) (mantissa : Nat) (exponent : Int)
  deriving DecidableEq, Repr

namespace Decimal

/-- What a digit counts. -/
def digitValue (c : Char) : Nat := c.toNat - '0'.toNat

theorem digitValue_lt {c : Char} (h : c.isDigit) : digitValue c < 10 := by
  simp only [Char.isDigit, Bool.and_eq_true, decide_eq_true_eq] at h
  have h₂ : c.val.toNat ≤ 57 := UInt32.le_iff_toNat_le.1 h.2
  simp only [digitValue, Char.toNat, Char.reduceVal, UInt32.reduceToNat]
  omega

/-- The number that digits spell. -/
def natOfDigits (digits : List Char) : Nat :=
  digits.foldl (fun number c => number * 10 + digitValue c) 0

/-- Takes off a sign: whether it is a minus, and what follows it. -/
def takeSign : List Char → Bool × List Char
  | '-' :: rest => (true, rest)
  | '+' :: rest => (false, rest)
  | cs => (false, cs)

/-- The value of an exponent, letter included; without one it is zero. -/
def exponent? : List Char → Option Int
  | [] => some 0
  | c :: rest =>
    let (negative, digits) := takeSign rest
    if (c = 'e' || c = 'E') && !digits.isEmpty && digits.all Char.isDigit then
      some (if negative then -(natOfDigits digits : Int) else natOfDigits digits)
    else none

/-- A number without sign, written in digits. -/
def unsigned? (negative : Bool) (cs : List Char) : Option Decimal := do
  let whole := cs.takeWhile Char.isDigit
  let afterWhole := cs.dropWhile Char.isDigit
  let (fraction, rest) :=
    match afterWhole with
    | '.' :: tail => (tail.takeWhile Char.isDigit, tail.dropWhile Char.isDigit)
    | _ => ([], afterWhole)
  -- a point alone is no number
  if whole.isEmpty && fraction.isEmpty then none
  let exponent ← exponent? rest
  return .finite negative (natOfDigits (whole ++ fraction)) (exponent - fraction.length)

/-- Reads a number in decimal writing; there is none in a text of any other form. -/
def ofChars? (cs : List Char) : Option Decimal :=
  let (negative, body) := takeSign cs
  let word := String.ofList (body.map Char.toLower)
  if word = "inf" ∨ word = "infinity" then some (.infinite negative)
  else if word = "nan" then some .nan
  else unsigned? negative body

end Decimal

end ExprReader
