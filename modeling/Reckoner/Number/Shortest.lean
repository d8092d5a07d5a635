import Reckoner.Number.Binary

/-!
# The shortest decimal of a double

A double is written with the fewest digits that read back as it, and of several such decimals the
nearest. The decimals that read back form an interval around the value: it reaches half way to
the neighbouring doubles, and its ends belong to it when the mantissa is even. On the grid of
decimals with `n` digits only the two neighbours of the value have to be tried.
-/

namespace Reckoner

/-- The number `digits * 10 ^ scale`. -/
structure Decimal where
  digits : Nat
  scale : Int
deriving Repr, DecidableEq

/-- The exponent of the first decimal digit of a positive quotient. -/
def leadingExponent (num den : Nat) : Int :=
  if den ≤ num then ((Nat.toDigits 10 (num / den)).length : Int) - 1
  else -((Nat.toDigits 10 ((den - 1) / num)).length : Int)

namespace Binary

/-- The distance to the next smaller double in quarters of the last place, halved: it shrinks
below a power of two. -/
def gapBelow (b : Binary) : Nat :=
  if b.mantissa = twoTo 52 ∧ leastExponent < b.exponent then 1 else 2

/-- Does `c * 10 ^ scale` read back as the magnitude of `b`? -/
def readsBack (b : Binary) (c : Nat) (scale : Int) : Bool :=
  let candidate := 4 * c * tenTo scale.toNat * b.denominator
  let quarter := twoTo b.exponent.toNat * tenTo (-scale).toNat
  let low := (4 * b.mantissa - b.gapBelow) * quarter
  let high := (4 * b.mantissa + 2) * quarter
  if b.mantissa % 2 = 0 then low ≤ candidate && candidate ≤ high
  else low < candidate && candidate < high

/-- The nearer neighbour on the grid `10 ^ scale`, if one reads back; a tie goes to the even
one. -/
def onGrid? (b : Binary) (scale : Int) : Option Decimal :=
  let num := b.numerator * tenTo (-scale).toNat
  let den := b.denominator * tenTo scale.toNat
  let below := num / den
  match b.readsBack below scale, b.readsBack (below + 1) scale with
  | true, true => some ⟨roundQuotient num den, scale⟩
  | true, false => some ⟨below, scale⟩
  | false, true => some ⟨below + 1, scale⟩
  | false, false => none

/-- The shortest decimal of a positive magnitude. Seventeen digits are always enough. -/
def shortest (b : Binary) : Decimal :=
  let top := leadingExponent b.numerator b.denominator
  ((List.range 17).findSome? fun (n : Nat) => b.onGrid? (top - n)).getD
    ⟨roundQuotient b.numerator b.denominator, 0⟩

end Binary

/-! ## Its text -/

namespace Decimal

/-- Numbers from this power of ten on are written with the point in its place. -/
def leastPositional : Int := -4

/-- Numbers from this power of ten on are written with an exponent. -/
def firstScientific : Int := 16

/-- An exponent: a sign and at least two digits. -/
def exponentText (e : Int) : String :=
  let digits := toString e.natAbs
  (if e < 0 then "e-" else "e+") ++ (if digits.length < 2 then "0" ++ digits else digits)

/-- The digits without the zeros at their end, and the power of ten of the first. -/
def significant (d : Decimal) : List Char × Int :=
  let all := Nat.toDigits 10 d.digits
  ((all.reverse.dropWhile (· == '0')).reverse, d.scale + all.length - 1)

/-- The text of a positive decimal. A whole number keeps a zero behind the point when it is
written without an exponent. -/
def text (d : Decimal) : String :=
  let (digits, top) := d.significant
  let zeros (n : Int) := List.replicate n.toNat '0'
  if leastPositional ≤ top && top < firstScientific then
    let whole := if top < 0 then ['0'] else (digits ++ zeros (top + 1 - digits.length)).take (top + 1).toNat
    let fraction := if top < 0 then zeros (-top - 1) ++ digits else digits.drop (top + 1).toNat
    String.ofList (whole ++ '.' :: (if fraction.isEmpty then ['0'] else fraction))
  else
    let fraction := if digits.length ≤ 1 then [] else '.' :: digits.drop 1
    String.ofList (digits.take 1 ++ fraction) ++ exponentText top

end Decimal

/-- The text of a finite number: its shortest decimal behind the sign. -/
def Binary.text (b : Binary) : String :=
  (if b.negative then "-" else "") ++ (if b.mantissa = 0 then "0.0" else b.shortest.text)

/-- The text that reads back as the double. -/
def Double.text : Double → String
  | .notANumber => "nan"
  | .infinite negative => if negative then "-inf" else "inf"
  | .finite b => b.text

end Reckoner
