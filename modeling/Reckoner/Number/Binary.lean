/-!
# Doubles as exact numbers

A finite double is a sign, a natural mantissa and a power of two, so questions about it (which
decimal is nearest, which decimals read back as it) are questions about natural numbers. `Double`
is what a `Float` denotes, `Double.ofFloat` and `Double.toFloat` go between the two, and
`Binary.nearest` rounds a quotient of natural numbers to the nearest double, a tie going to the
even mantissa.
-/

namespace Reckoner

def twoTo (k : Nat) : Nat := Nat.pow 2 k

def tenTo (k : Nat) : Nat := Nat.pow 10 k

/-- `n / d` rounded to a natural number, a half going to the even neighbour. -/
def roundQuotient (n d : Nat) : Nat :=
  let q := n / d
  let twice := 2 * (n % d)
  if twice < d then q else if d < twice then q + 1 else q + q % 2

/-- The number `± mantissa * 2 ^ exponent`. -/
structure Binary where
  negative : Bool
  mantissa : Nat
  exponent : Int
deriving Repr, DecidableEq

/-- What a double denotes. -/
inductive Double where
  | notANumber
  | infinite (negative : Bool)
  | finite (value : Binary)
deriving Repr, DecidableEq

namespace Binary

/-- The exponent of the smallest positive double. -/
def leastExponent : Int := -1074

/-- The largest exponent that a mantissa of 53 bits may have in a finite double. -/
def greatestExponent : Int := 971

/-- The magnitude is `numerator / denominator`. -/
def numerator (b : Binary) : Nat := b.mantissa * twoTo b.exponent.toNat

/-- A power of two, and 1 when the exponent is not negative. -/
def denominator (b : Binary) : Nat := twoTo (-b.exponent).toNat

/-- The binary logarithm of a positive quotient, rounded down. -/
def floorLog2 (num den : Nat) : Int :=
  let k : Int := num.log2 - den.log2
  if den * twoTo k.toNat ≤ num * twoTo (-k).toNat then k else k - 1

/-- The value of the last place of the doubles around a quotient, as a power of two. -/
def lastPlace (num den : Nat) : Int :=
  max (floorLog2 num den - 52) leastExponent

/-- The double nearest to `± num / den`, were the exponents of doubles unbounded above. -/
def nearest (negative : Bool) (num den : Nat) : Binary :=
  if num = 0 then ⟨negative, 0, leastExponent⟩ else
  let e := lastPlace num den
  let m := roundQuotient (num * twoTo (-e).toNat) (den * twoTo e.toNat)
  if m = twoTo 53 then ⟨negative, twoTo 52, e + 1⟩ else ⟨negative, m, e⟩

end Binary

namespace Double

/-- A double taken apart: a sign bit, 11 bits of exponent and 52 of fraction. -/
def ofFloat (x : Float) : Double :=
  let bits := x.toBits.toNat
  let negative := decide (twoTo 63 ≤ bits)
  let exponent : Nat := bits / twoTo 52 % twoTo 11
  let fraction : Nat := bits % twoTo 52
  if exponent = 2047 then
    if fraction = 0 then .infinite negative else .notANumber
  else if exponent = 0 then .finite ⟨negative, fraction, Binary.leastExponent⟩
  else .finite ⟨negative, twoTo 52 + fraction, (exponent : Int) - 1075⟩

/-- A rounded number as a double: past the largest finite one it is infinite. -/
def ofBinary (b : Binary) : Double :=
  if Binary.greatestExponent < b.exponent then .infinite b.negative else .finite b

/-- The bits below the sign. A mantissa without its leading bit stands for itself. -/
def magnitudeBits : Double → Nat
  | .notANumber => 2047 * twoTo 52 + twoTo 51
  | .infinite _ => 2047 * twoTo 52
  | .finite b =>
    if b.mantissa < twoTo 52 then b.mantissa
    else (b.exponent + 1075).toNat * twoTo 52 + (b.mantissa - twoTo 52)

def isNegative : Double → Bool
  | .notANumber => false
  | .infinite negative => negative
  | .finite b => b.negative

def toFloat (d : Double) : Float :=
  Float.ofBits (UInt64.ofNat ((if d.isNegative then twoTo 63 else 0) + d.magnitudeBits))

end Double

/-- An integer as a double, if it does not round past the largest finite one. -/
def floatOfInt? (n : Int) : Option Float :=
  match Double.ofBinary (.nearest (n < 0) n.natAbs 1) with
  | .finite b => some (Double.finite b).toFloat
  | _ => none

end Reckoner
