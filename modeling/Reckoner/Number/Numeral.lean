import Reckoner.Number.Binary
import Reckoner.Text.Blank
import Reckoner.Text.Digit

/-!
# Numerals

How numbers are written: a sign, digits with at most one point, and an exponent, or one of the
words `inf`, `infinity` and `nan` in any case. Digits of every script are read by their value, an
underscore may stand between two digits, and blanks around the numeral are dropped.

`Numeral.read?` says what a text writes, `Numeral.toFloat` gives the nearest double, and
`Whole.read` reads the texts that write an integer.
-/

namespace Reckoner

/-! ## Characters -/

/-- Digits of every script and blanks beyond ASCII in their ASCII form; no other character beyond
ASCII may stand in a numeral. -/
def numeralChar? (c : Char) : Option Char :=
  if c.toNat < 127 then some c
  else if Text.isBlank c then some ' '
  else (Text.decimalValue? c).map Nat.digitChar

def trimBlanks (cs : List Char) : List Char :=
  ((cs.dropWhile Text.isAsciiBlank).reverse.dropWhile Text.isAsciiBlank).reverse

/-- An ASCII digit. -/
def isNumeralDigit (c : Char) : Bool :=
  '0' ≤ c && c ≤ '9'

def digitsValue (cs : List Char) : Nat :=
  cs.foldl (fun n c => 10 * n + (c.toNat - 48)) 0

/-- Drops the underscores, each of which has to stand between two digits; `previous` is the
character in front. -/
def joinDigits? (previous : Option Char) : List Char → Option (List Char)
  | [] => some []
  | '_' :: c :: rest =>
    if previous.any isNumeralDigit && isNumeralDigit c then
      (joinDigits? (some c) rest).map (c :: ·)
    else none
  | c :: rest => if c = '_' then none else (joinDigits? (some c) rest).map (c :: ·)

/-- The sign in front of a text, `true` for minus, and the rest. -/
def splitSign : List Char → Bool × List Char
  | '-' :: rest => (true, rest)
  | '+' :: rest => (false, rest)
  | cs => (false, cs)

/-! ## Numerals -/

inductive Numeral where
  | notANumber
  | infinite (negative : Bool)
  /-- The number `± digits * 10 ^ scale`. -/
  | decimal (negative : Bool) (digits : Nat) (scale : Int)
deriving Repr, DecidableEq

namespace Numeral

/-- An exponent after its mark: digits behind an optional sign. -/
def readExponent? (cs : List Char) : Option Int :=
  let (negative, ds) := splitSign cs
  if ds.isEmpty || !ds.all isNumeralDigit then none
  else if negative then some (-(digitsValue ds : Int)) else some (digitsValue ds)

/-- A numeral of digits: a whole part, a fraction, not both empty, and an exponent. -/
def readDecimal? (negative : Bool) (cs : List Char) : Option Numeral :=
  let whole := cs.takeWhile isNumeralDigit
  let afterWhole := cs.dropWhile isNumeralDigit
  let fraction := match afterWhole with
    | '.' :: rest => rest.takeWhile isNumeralDigit
    | _ => []
  let afterFraction := match afterWhole with
    | '.' :: rest => rest.dropWhile isNumeralDigit
    | _ => afterWhole
  let number (exponent : Int) : Numeral :=
    .decimal negative (digitsValue (whole ++ fraction)) (exponent - fraction.length)
  if whole.isEmpty && fraction.isEmpty then none
  else match afterFraction with
    | [] => some (number 0)
    | c :: rest => if c = 'e' || c = 'E' then (readExponent? rest).map number else none

def readUnsigned? (negative : Bool) (cs : List Char) : Option Numeral :=
  match String.ofList (cs.map Char.toLower) with
  | "nan" => some .notANumber
  | "inf" => some (.infinite negative)
  | "infinity" => some (.infinite negative)
  | _ => readDecimal? negative cs

def read? (s : String) : Option Numeral := do
  let cs ← s.toList.mapM numeralChar?
  let ds ← joinDigits? none (trimBlanks cs)
  let (negative, body) := splitSign ds
  readUnsigned? negative body

/-- The double that a numeral stands for: the nearest one, a tie going to the even mantissa.
Scales far beyond the range of doubles are settled without the power of ten. -/
def toDouble : Numeral → Double
  | .notANumber => .notANumber
  | .infinite negative => .infinite negative
  | .decimal negative digits scale =>
    if digits = 0 ∨ scale < -(400 + digits.log2 : Int) then
      .finite ⟨negative, 0, Binary.leastExponent⟩
    else if 400 < scale then .infinite negative
    else .ofBinary (.nearest negative (digits * tenTo scale.toNat) (tenTo (-scale).toNat))

def toFloat (n : Numeral) : Float := n.toDouble.toFloat

end Numeral

/-! ## Whole numbers -/

namespace Whole

def maxDigits : Nat := 4300

inductive Fault where
  | malformed
  | tooManyDigits (count : Nat)
deriving Repr, DecidableEq

/-- The integer that a text writes. The digits at its front are counted before the rest is
looked at. -/
def read (s : String) : Except Fault Int :=
  let cs := s.toList.map fun c => (numeralChar? c).getD '?'
  let (negative, body) := splitSign (trimBlanks cs)
  let front := (body.takeWhile fun c => isNumeralDigit c || c == '_').filter isNumeralDigit
  if maxDigits < front.length then .error (.tooManyDigits front.length)
  else match joinDigits? none body with
    | none => .error .malformed
    | some ds =>
      if ds.isEmpty || !ds.all isNumeralDigit then .error .malformed
      else if negative then .ok (-(digitsValue ds : Int)) else .ok (digitsValue ds)

end Whole

end Reckoner
