import Refsite.Decimal.Binary64
namespace Refsite.Binary64

structure Decimal where
  digits : Nat
  scale : Int
  deriving DecidableEq, Repr

def point (mantissa : Nat) (exponent : Int) : Int :=
  let num := mantissa * twoTo exponent.toNat
  let den := twoTo (-exponent).toNat
  let guess : Int := (decimalLength num : Int) - decimalLength den
  if num * tenTo (-guess).toNat ≥ den * tenTo guess.toNat then guess + 1 else guess

def quarter (exponent scale : Int) : Nat :=
  twoTo (exponent - 2 + (2 - exponent).toNat).toNat * tenTo (-scale).toNat

def step (exponent scale : Int) : Nat := twoTo (2 - exponent).toNat * tenTo scale.toNat

/-- The distance from a double to the least number that is read as it, in quarters of its last place:
half as much where the doubles below are closer to one another. -/
def gapBelow (mantissa : Nat) (exponent : Int) : Nat :=
  if mantissa == twoTo 52 && exponent > leastExponent then 1 else 2

def isInside (mantissa : Nat) (exponent scale : Int) (n : Nat) : Bool :=
  let low := (4 * mantissa - gapBelow mantissa exponent) * quarter exponent scale
  let high := (4 * mantissa + 2) * quarter exponent scale
  let value := n * step exponent scale
  if mantissa % 2 == 0 then low ≤ value && value ≤ high else low < value && value < high

def nearest (value step : Nat) : Nat :=
  let below := value / step
  let above := below + 1
  if 2 * value < (below + above) * step then below
  else if 2 * value > (below + above) * step then above
  else if below % 2 == 0 then below else above

/-- The decimal with `count` digits that reads back as `mantissa · 2 ^ exponent`, if there is one:
the nearer of the value's two neighbours on that grid, or else the other. -/
def withDigits? (mantissa : Nat) (exponent : Int) (count : Nat) : Option Decimal :=
  let scale := point mantissa exponent - count
  let step := step exponent scale
  let value := 4 * mantissa * quarter exponent scale
  let nearer := nearest value step
  let other := if nearer == value / step then value / step + 1 else value / step
  if isInside mantissa exponent scale nearer then some ⟨nearer, scale⟩
  else if isInside mantissa exponent scale other then some ⟨other, scale⟩
  else none

def Decimal.trim : (fuel : Nat) → Decimal → Decimal
  | 0, d => d
  | fuel + 1, d =>
    if d.digits != 0 && d.digits % 10 == 0 then trim fuel ⟨d.digits / 10, d.scale + 1⟩ else d

def shortest (mantissa : Nat) (exponent : Int) : Decimal :=
  let found := (List.range 17).findSome? fun n => withDigits? mantissa exponent (n + 1)
  (found.getD ⟨mantissa, 0⟩).trim 20

/-- Where the point may stand for the positional form, and the least width of an exponent. -/
structure Layout where
  firstPoint : Int
  lastPoint : Int
  exponentWidth : Nat
  deriving DecidableEq, Repr

def zeros (n : Nat) : List Char := List.replicate n '0'

def scientific : List Char → List Char
  | [] => []
  | [d] => [d]
  | d :: digits => d :: '.' :: digits

def Layout.place (l : Layout) (digits : List Char) (place : Int) : List Char :=
  if l.firstPoint ≤ place && place ≤ l.lastPoint then
    if place ≤ 0 then '0' :: '.' :: zeros (-place).toNat ++ digits
    else
      let whole := digits.take place.toNat ++ zeros (place.toNat - digits.length)
      let part := digits.drop place.toNat
      whole ++ '.' :: (if part.isEmpty then ['0'] else part)
  else
    let power := place - 1
    let powerDigits := Nat.toDigits 10 power.natAbs
    scientific digits ++ 'e' :: (if power < 0 then '-' else '+') ::
      zeros (l.exponentWidth - powerDigits.length) ++ powerDigits

def write (l : Layout) (x : Binary64) : List Char :=
  let body :=
    if x.isZero then ['0', '.', '0']
    else
      let d := shortest x.mantissa x.exponent
      let digits := Nat.toDigits 10 d.digits
      l.place digits (digits.length + d.scale)
  if x.negative then '-' :: body else body

end Refsite.Binary64
