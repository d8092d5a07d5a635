import Reckoner.Text.CodeRanges

/-!
# Digits

Two notions of a digit. A *decimal* digit is one of ten consecutive characters that a script
writes its numbers with, so it has a value from 0 to 9 and may stand in a numeral. A *digit* is
any of those and also the superscripts, subscripts and circled digits, which look like digits and
may not.
-/

namespace Reckoner.Text

/-- The code points of the zeros; each is followed by the nine other digits of its script. -/
def decimalZeros : List Nat :=
  [48, 1632, 1776, 1984, 2406, 2534, 2662, 2790, 2918, 3046, 3174, 3302, 3430, 3558, 3664, 3792,
   3872, 4160, 4240, 6112, 6160, 6470, 6608, 6784, 6800, 6992, 7088, 7232, 7248, 42528, 43216,
   43264, 43472, 43504, 43600, 44016, 65296, 66720, 68912, 69734, 69872, 69942, 70096, 70384,
   70736, 70864, 71248, 71360, 71472, 71904, 72016, 72784, 73040, 73120, 73552, 92768, 92864,
   93008, 120782, 120792, 120802, 120812, 120822, 123200, 123632, 124144, 125264, 130032]

/-- The value of a decimal digit of any script. -/
def decimalValue? (c : Char) : Option Nat :=
  (decimalZeros.find? fun z => z ≤ c.toNat && c.toNat < z + 10).map (c.toNat - ·)

/-- Digits that have no place in a numeral: superscripts, subscripts, circled digits and the like. -/
def typographicDigitRanges : CodeRanges :=
  [(178, 179), (185, 185), (4969, 4977), (6618, 6618), (8304, 8304), (8308, 8313), (8320, 8329),
   (9312, 9320), (9332, 9340), (9352, 9360), (9450, 9450), (9461, 9469), (9471, 9471),
   (10102, 10110), (10112, 10120), (10122, 10130), (68160, 68163), (69216, 69224), (69714, 69722),
   (127232, 127242)]

/-- A decimal digit or a typographic variant of one. -/
def isDigit (c : Char) : Bool :=
  (decimalValue? c).isSome || typographicDigitRanges.contains c.toNat

/-- A decimal digit stands for a number below ten. -/
theorem decimalValue?_lt {c : Char} {d : Nat} (h : decimalValue? c = some d) : d < 10 := by
  simp only [decimalValue?, Option.map_eq_some_iff] at h
  obtain ⟨z, hz, rfl⟩ := h
  have := List.find?_some hz
  simp only [Bool.and_eq_true, decide_eq_true_eq] at this
  omega

end Reckoner.Text
