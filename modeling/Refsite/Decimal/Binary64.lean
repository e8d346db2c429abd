namespace Refsite

/-- The number `± mantissa · 2 ^ exponent`, with a mantissa below `2 ^ 53`. Zero has a sign. -/
structure Binary64 where
  negative : Bool
  mantissa : Nat
  exponent : Int
  deriving DecidableEq, Repr, Inhabited

namespace Binary64

def twoTo (n : Nat) : Nat := Nat.pow 2 n

def tenTo (n : Nat) : Nat := Nat.pow 10 n

def zero (negative : Bool) : Binary64 := ⟨negative, 0, -1074⟩

def isZero (x : Binary64) : Bool := x.mantissa == 0

def leastExponent : Int := -1074

def greatestExponent : Int := 971

def divNearest (num den : Nat) : Nat :=
  let quotient := num / den
  let rest := 2 * (num % den)
  if rest > den || (rest == den && quotient % 2 == 1) then quotient + 1 else quotient

def inUnits (num den : Nat) (exponent : Int) : Nat :=
  divNearest (num * twoTo (-exponent).toNat) (den * twoTo exponent.toNat)

/-- The exponent at which a positive quotient `num / den` has a mantissa of 53 bits. -/
def fullExponent (num den : Nat) : Int :=
  let guess : Int := (Nat.log2 num : Int) - Nat.log2 den - 52
  -- The guess leaves the quotient above a quarter and below once the full 53 bits.
  if num * twoTo (-guess).toNat ≥ den * twoTo guess.toNat * twoTo 52 then guess else guess - 1

def ofMantissa? (negative : Bool) (mantissa : Nat) (exponent : Int) : Option Binary64 :=
  if mantissa == twoTo 53 then
    if exponent + 1 > greatestExponent then none else some ⟨negative, twoTo 52, exponent + 1⟩
  else if exponent > greatestExponent then none
  else if mantissa == 0 then some (zero negative)
  else some ⟨negative, mantissa, exponent⟩

/-- The double nearest to the positive quotient `num / den`, or none where it is out of range. -/
def ofQuotient? (negative : Bool) (num den : Nat) : Option Binary64 :=
  let exponent := max leastExponent (fullExponent num den)
  ofMantissa? negative (inUnits num den exponent) exponent

def decimalLength (n : Nat) : Nat := (Nat.toDigits 10 n).length

def ofDecimal? (negative : Bool) (digits : Nat) (scale : Int) : Option Binary64 :=
  if digits == 0 then some (zero negative)
  else
    let point := (decimalLength digits : Int) + scale
    if point > 310 then none
    else if point < -324 then some (zero negative)
    else ofQuotient? negative (digits * tenTo scale.toNat) (tenTo (-scale).toNat)

def toInt? (x : Binary64) : Option Int :=
  let sign (n : Nat) : Int := if x.negative then -(n : Int) else n
  let unit := twoTo (-x.exponent).toNat
  if x.mantissa % unit == 0 then some (sign (x.mantissa / unit * twoTo x.exponent.toNat)) else none

end Binary64

end Refsite
