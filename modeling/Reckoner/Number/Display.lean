import Reckoner.Number.Shortest

/-!
# Numbers on display

A number is shown rounded to at most so many decimal places, without the zeros at the end and
without a sign on zero; from 10^16 on it is shown by its shortest decimal. Rounding goes through
the nearest double: first the value is rounded to a multiple of the unit of display, then that
decimal to a double, and the double is printed to the same number of places.
-/

namespace Reckoner

def maxPlaces : Nat := 17

abbrev DigitCap := Fin (maxPlaces + 1)

namespace DigitCap

/-- A new session shows nine places. -/
def standard : DigitCap := 9

def ofInt? (n : Int) : Option DigitCap :=
  if h : 0 ≤ n ∧ n ≤ maxPlaces then some ⟨n.toNat, by omega⟩ else none

end DigitCap

namespace Binary

/-- How many units of `10 ^ -places` the magnitude is, rounded with a half going to the even
neighbour. -/
def unitsAt (b : Binary) (places : Nat) : Nat :=
  roundQuotient (b.numerator * tenTo places) b.denominator

def roundTo (b : Binary) (places : Nat) : Binary :=
  nearest b.negative (b.unitsAt places) (tenTo places)

/-- Is the magnitude at least 10^16? -/
def isHuge (b : Binary) : Bool :=
  tenTo 16 * b.denominator ≤ b.numerator

end Binary

/-- The low `width` decimal digits of a number, most significant first. -/
def lowDigits (width n : Nat) : List Char :=
  match width with
  | 0 => []
  | w + 1 => lowDigits w (n / 10) ++ [Nat.digitChar (n % 10)]

/-- The text of `units * 10 ^ -places`, with neither zeros at the end of the fraction nor a point
that nothing follows. -/
def fixedText (units places : Nat) : String :=
  let whole := toString (units / tenTo places)
  let fraction := ((lowDigits places units).reverse.dropWhile (· == '0')).reverse
  if fraction.isEmpty then whole else whole ++ "." ++ String.ofList fraction

def Binary.display (places : Nat) (b : Binary) : String :=
  let r := b.roundTo places
  if r.mantissa = 0 then "0"
  else if r.isHuge then r.text
  else (if r.negative then "-" else "") ++ fixedText (r.unitsAt places) places

def displayNumber (places : Nat) (x : Float) : String :=
  match Double.ofFloat x with
  | .finite b => b.display places
  | special => special.text

end Reckoner
