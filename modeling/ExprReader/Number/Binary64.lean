import ExprReader.Number.Decimal

/-!
# Binary floating-point numbers of 64 bits

A number is held as its bits: one for the sign, eleven for the exponent, fifty-two for the
fraction. A decimal is turned into the nearest number, and of two that are equally near into the
one with the even last bit.

## Main definitions

* `Binary64`: a number by its bits
* `Binary64.roundRatio num den`: the bits of the number nearest to a fraction
* `Binary64.ofDecimal`: the number nearest to a decimal

## Main results

* `beq_self`: a number equals itself unless it is no quantity
-/

namespace ExprReader

/-- A floating-point number of 64 bits. -/
structure Binary64 where
  /-- Sign, exponent and fraction, from the highest bit to the lowest. -/
  bits : UInt64
  deriving DecidableEq, Repr

namespace Binary64

-- `^` on `Nat` stays that of the core library where a library with powers of its own is loaded
attribute [local instance (high)] instPowNat

/-- The bits of positive infinity; among the bits without the sign, only numbers that are no
quantity lie above them. -/
def infinityBits : Nat := 0x7FF0000000000000

/-- The bits without the sign. -/
def magnitudeBits (x : Binary64) : Nat := x.bits.toNat % 2 ^ (63 : Nat)

/-- The sign bit is set. -/
def isNegative (x : Binary64) : Bool := decide (2 ^ (63 : Nat) ≤ x.bits.toNat)

/-- The bits stand for no quantity. -/
def isNaN (x : Binary64) : Bool := decide (infinityBits < x.magnitudeBits)

/-- Numbers are equal if they have the same bits or are both zero; what is no quantity equals
nothing, not even itself. -/
protected def beq (x y : Binary64) : Bool :=
  !x.isNaN && !y.isNaN && (x.bits == y.bits || x.magnitudeBits == 0 && y.magnitudeBits == 0)

instance : BEq Binary64 := ⟨Binary64.beq⟩

theorem beq_self (x : Binary64) : (x == x) = !x.isNaN := by
  simp [BEq.beq, Binary64.beq]

/-- A number from its sign and the other bits. -/
def ofMagnitude (negative : Bool) (magnitude : Nat) : Binary64 :=
  ⟨UInt64.ofNat (if negative then magnitude + 2 ^ (63 : Nat) else magnitude)⟩

/-- One bit pattern that is no quantity. -/
def nan : Binary64 := ofMagnitude false 0x7FF8000000000000

/-- The quotient to the nearest whole number, a half to the even neighbour. -/
def divHalfEven (num den : Nat) : Nat :=
  let quotient := num / den
  let twice := 2 * (num % den)
  if twice < den then quotient
  else if twice = den then quotient + quotient % 2
  else quotient + 1

/-- The exponent of the last place that a number near `num / den` has: the quotient fills 53 bits
at that place, unless it lies below the smallest exponent. -/
def lastPlace (num den : Nat) : Int :=
  -- the logarithms tell the exponent of the quotient up to one
  let guess : Int := (num.log2 : Int) - den.log2 - 52
  let fits := if 0 ≤ guess then 2 ^ (52 : Nat) * (den * 2 ^ guess.toNat) ≤ num
    else 2 ^ (52 : Nat) * den ≤ num * 2 ^ (-guess).toNat
  max (-1074) (if fits then guess else guess - 1)

/-- The bits, sign left out, of the number nearest to `num / den`.

With the last place at `2 ^ place`, the bits are the rounded quotient on top of `place + 1074`
steps of the exponent field: the leading bit of a full quotient adds one more step, and a quotient
that rounds up to 54 bits carries into the field. -/
def roundRatio (num den : Nat) : Nat :=
  let place := lastPlace num den
  let quotient := if 0 ≤ place then divHalfEven num (den * 2 ^ place.toNat)
    else divHalfEven (num * 2 ^ (-place).toNat) den
  min infinityBits ((place + 1074).toNat * 2 ^ (52 : Nat) + quotient)

/-- The bits, sign left out, of the number nearest to `mantissa * 10 ^ exponent`. The first two
bounds only keep the powers small: beyond them the answer is infinity or zero anyway. -/
def roundDecimal (mantissa : Nat) (exponent : Int) : Nat :=
  let digits := (Nat.toDigits 10 mantissa).length
  if mantissa = 0 ∨ digits + exponent < -330 then 0
  else if 310 < digits + exponent then infinityBits
  else if 0 ≤ exponent then roundRatio (mantissa * 10 ^ exponent.toNat) 1
  else roundRatio mantissa (10 ^ (-exponent).toNat)

/-- The number nearest to a decimal. -/
def ofDecimal : Decimal → Binary64
  | .nan => nan
  | .infinite negative => ofMagnitude negative infinityBits
  | .finite negative mantissa exponent => ofMagnitude negative (roundDecimal mantissa exponent)

/-- The number that a text writes in decimal, if it writes one. -/
def ofChars? (cs : List Char) : Option Binary64 := (Decimal.ofChars? cs).map ofDecimal

end Binary64

end ExprReader
