import Mathlib.Data.List.Induction
import Mathlib.Data.List.TakeWhile
import Mathlib.Data.Nat.Digits.Defs
import Reckoner.Number.Numeral

/-!
# Whole numbers in digits of any script

A text may be made of digits and yet be no whole number, in two ways. A superscript or a circled
digit is a digit without a place in a numeral, and a numeral has at most `Whole.maxDigits` digits.
`Text.decimalNumber?` is the number that the decimal digits of a text write, whatever their scripts
and however many; `Whole.read_of_isDigit` says what reading a text of digits comes to.

A digit is read in its ASCII form, and what has none becomes a question mark (`Whole.form`). No
sign, blank or underscore comes about in this way, so nothing but digits is left to be looked at.
-/

namespace Reckoner

/-! ## Digits -/

namespace Text

def isDecimal (c : Char) : Bool :=
  (decimalValue? c).isSome

/-- The number that a text writes, if it consists of decimal digits, one or more. -/
def decimalNumber? (text : String) : Option Nat :=
  if !text.isEmpty && text.toList.all isDecimal then
    some (Nat.ofDigits 10 (text.toList.filterMap decimalValue?).reverse)
  else none

def leadingDecimals (text : String) : Nat :=
  (text.toList.takeWhile isDecimal).length

theorem of_decimalNumber?_eq_some {text : String} {n : Nat} (h : decimalNumber? text = some n) :
    text ≠ "" ∧ ∀ c ∈ text.toList, isDecimal c = true := by
  rw [decimalNumber?] at h
  split at h
  · next hdecimal => simpa using hdecimal
  · cases h

theorem leadingDecimals_of_decimalNumber? {text : String} {n : Nat}
    (h : decimalNumber? text = some n) : leadingDecimals text = text.length := by
  rw [leadingDecimals, List.takeWhile_eq_self_iff.mpr (of_decimalNumber?_eq_some h).2,
    String.length_toList]

theorem exists_zero_of_decimalValue? {c : Char} {d : Nat} (h : decimalValue? c = some d) :
    ∃ z ∈ decimalZeros, c.toNat = z + d ∧ d < 10 := by
  have hd := decimalValue?_lt h
  obtain ⟨z, hfound, rfl⟩ := Option.map_eq_some_iff.mp h
  have hrange := List.find?_some hfound
  simp only [Bool.and_eq_true, decide_eq_true_eq] at hrange
  exact ⟨z, List.mem_of_find?_eq_some hfound, by omega, hd⟩

theorem not_isBlank_of_isDigit {c : Char} (h : isDigit c = true) : isBlank c = false := by
  have hdecimal : ∀ z ∈ decimalZeros, ∀ blank ∈ blankRanges,
      z + 9 < blank.1 ∨ blank.2 < z := by decide
  have htypographic : ∀ range ∈ typographicDigitRanges, ∀ blank ∈ blankRanges,
      range.2 < blank.1 ∨ blank.2 < range.1 := by decide
  by_contra hblank
  obtain ⟨blank, hmem, hlo, hhi⟩ :=
    CodeRanges.exists_range_of_contains (Bool.of_not_eq_false hblank)
  rcases Bool.or_eq_true _ _ |>.mp h with hvalue | hrange
  · obtain ⟨d, hd⟩ := Option.isSome_iff_exists.mp hvalue
    obtain ⟨z, hz, hc, hlt⟩ := exists_zero_of_decimalValue? hd
    rcases hdecimal z hz blank hmem with hbefore | hafter <;> omega
  · obtain ⟨range, hr, hfirst, hlast⟩ := CodeRanges.exists_range_of_contains hrange
    rcases htypographic range hr blank hmem with hbefore | hafter <;> omega

end Text

/-- A decimal digit is read in its ASCII form. -/
theorem numeralChar?_of_decimalValue? {c : Char} {d : Nat} (h : Text.decimalValue? c = some d) :
    numeralChar? c = some d.digitChar := by
  have hascii : ∀ z ∈ Text.decimalZeros, z < 127 → z = 48 := by decide
  have hdigit : Text.isDigit c = true := by rw [Text.isDigit, h]; rfl
  rw [numeralChar?]
  split
  · next hlt =>
    obtain ⟨z, hz, hc, hd⟩ := Text.exists_zero_of_decimalValue? h
    have hz48 := hascii z hz (by omega)
    have hform : d.digitChar = c := by
      rw [← Char.toNat_inj, Nat.toNat_digitChar_of_lt_ten hd]
      omega
    rw [hform]
  · rw [if_neg (by simp [Text.not_isBlank_of_isDigit hdigit]), h, Option.map_some]

/-- A digit that is no decimal digit has no place in a numeral. -/
theorem numeralChar?_of_not_decimal {c : Char} (h : Text.isDigit c = true)
    (hdecimal : Text.decimalValue? c = none) : numeralChar? c = none := by
  have hbeyond : ∀ range ∈ Text.typographicDigitRanges, 127 ≤ range.1 := by decide
  have htypographic : Text.typographicDigitRanges.contains c.toNat = true := by
    simpa [Text.isDigit, hdecimal] using h
  obtain ⟨range, hr, hfirst, -⟩ := Text.CodeRanges.exists_range_of_contains htypographic
  have hrange := hbeyond range hr
  rw [numeralChar?, if_neg (by omega), if_neg (by simp [Text.not_isBlank_of_isDigit h]), hdecimal,
    Option.map_none]

/-! ## Texts without blanks and underscores -/

section

variable {cs : List Char}

theorem trimBlanks_eq_self (h : ∀ c ∈ cs, Text.isAsciiBlank c = false) : trimBlanks cs = cs := by
  have hfront : ∀ {cs : List Char}, (∀ c ∈ cs, Text.isAsciiBlank c = false) →
      cs.dropWhile Text.isAsciiBlank = cs :=
    fun hcs => List.dropWhile_eq_self_iff.mpr fun hl => by
      rw [hcs _ (List.getElem_mem hl)]
      exact Bool.false_ne_true
  rw [trimBlanks, hfront h, hfront (by simpa using h), List.reverse_reverse]

theorem joinDigits?_eq_self (h : ∀ c ∈ cs, c ≠ '_') (previous : Option Char) :
    joinDigits? previous cs = some cs := by
  fun_induction joinDigits? previous cs with
  | case1 => rfl
  | case2 | case3 => exact absurd rfl (h '_' List.mem_cons_self)
  | case4 previous rest => exact absurd rfl (h '_' List.mem_cons_self)
  | case5 previous c rest _ hc ih =>
    rw [ih fun d hd => h d (List.mem_cons_of_mem c hd)]
    rfl

end

/-! ## Reading -/

namespace Whole

/-- A character as it is read. -/
def form (c : Char) : Char :=
  (numeralChar? c).getD '?'

theorem form_cases {c : Char} (h : Text.isDigit c = true) :
    Text.decimalValue? c = none ∧ form c = '?'
      ∨ ∃ d, Text.decimalValue? c = some d ∧ d < 10 ∧ form c = d.digitChar := by
  cases hvalue : Text.decimalValue? c with
  | none => exact .inl ⟨rfl, by rw [form, numeralChar?_of_not_decimal h hvalue]; rfl⟩
  | some d =>
    refine .inr ⟨d, rfl, Text.decimalValue?_lt hvalue, ?_⟩
    rw [form, numeralChar?_of_decimalValue? hvalue]
    rfl

/-- A character that is none of those that reading treats apart. -/
structure Plain (c : Char) : Prop where
  blank : Text.isAsciiBlank c = false
  minus : c ≠ '-'
  plus : c ≠ '+'
  underscore : c ≠ '_'

theorem plain_form {c : Char} (h : Text.isDigit c = true) : Plain (form c) := by
  have hdigits : ∀ d < 10, Text.isAsciiBlank d.digitChar = false ∧ d.digitChar ≠ '-'
      ∧ d.digitChar ≠ '+' ∧ d.digitChar ≠ '_' := by decide
  rcases form_cases h with ⟨-, hc⟩ | ⟨d, -, hd, hc⟩
  · rw [hc]
    exact ⟨by decide, by decide, by decide, by decide⟩
  · obtain ⟨hblank, hminus, hplus, hunderscore⟩ := hdigits d hd
    rw [hc]
    exact ⟨hblank, hminus, hplus, hunderscore⟩

theorem isNumeralDigit_form {c : Char} (h : Text.isDigit c = true) :
    isNumeralDigit (form c) = Text.isDecimal c := by
  have hdigits : ∀ d < 10, isNumeralDigit d.digitChar = true := by decide
  rcases form_cases h with ⟨hvalue, hc⟩ | ⟨d, hvalue, hd, hc⟩
  · rw [hc, Text.isDecimal, hvalue]
    decide
  · rw [hc, Text.isDecimal, hvalue, hdigits d hd]
    rfl

theorem splitSign_of_plain {cs : List Char} (h : ∀ c ∈ cs, Plain c) :
    splitSign cs = (false, cs) := by
  unfold splitSign
  split
  · exact absurd rfl (h '-' List.mem_cons_self).minus
  · exact absurd rfl (h '+' List.mem_cons_self).plus
  · rfl

/-- The number that digits write does not depend on the script. -/
theorem digitsValue_map_form {cs : List Char} (h : ∀ c ∈ cs, Text.isDecimal c = true) :
    digitsValue (cs.map form) = Nat.ofDigits 10 (cs.filterMap Text.decimalValue?).reverse := by
  induction cs using List.reverseRecOn with
  | nil => rfl
  | append_singleton cs c ih =>
    obtain ⟨d, hd⟩ := Option.isSome_iff_exists.mp (h c (by simp))
    have hform : (form c).toNat = 48 + d := by
      rw [form, numeralChar?_of_decimalValue? hd, Option.getD_some,
        Nat.toNat_digitChar_of_lt_ten (Text.decimalValue?_lt hd)]
    have hlast : digitsValue ((cs ++ [c]).map form)
        = 10 * digitsValue (cs.map form) + ((form c).toNat - 48) := by
      rw [List.map_append, digitsValue, List.foldl_append]
      rfl
    rw [hlast, hform, ih fun c' hc' => h c' (List.mem_append_left _ hc'), List.filterMap_append,
      List.filterMap_cons_some hd, List.filterMap_nil, List.reverse_append, List.reverse_singleton,
      List.singleton_append, Nat.ofDigits_cons, Nat.add_sub_cancel_left, Nat.add_comm]

/-- What is counted before the rest is looked at. -/
theorem length_front {cs : List Char} (h : ∀ c ∈ cs, Text.isDigit c = true) :
    (((cs.map form).takeWhile fun c => isNumeralDigit c || c == '_').filter isNumeralDigit).length
      = (cs.takeWhile Text.isDecimal).length := by
  induction cs with
  | nil => rfl
  | cons c rest ih =>
    have hdigit := isNumeralDigit_form (h c List.mem_cons_self)
    have hplain := plain_form (h c List.mem_cons_self)
    have hrest := ih fun d hd => h d (List.mem_cons_of_mem c hd)
    cases hvalue : Text.isDecimal c with
    | true =>
      rw [hvalue] at hdigit
      rw [List.map_cons, List.takeWhile_cons_of_pos (by simp [hdigit]),
        List.filter_cons_of_pos hdigit, List.takeWhile_cons_of_pos hvalue, List.length_cons,
        List.length_cons, hrest]
    | false =>
      rw [hvalue] at hdigit
      rw [List.map_cons, List.takeWhile_cons_of_neg (by simp [hdigit, hplain.underscore]),
        List.takeWhile_cons_of_neg (by simp [hvalue])]
      rfl

/-- **Reading digits.** A text of digits is read as the number that its decimal digits write. It is
refused if it begins with too many of them, and else if it has other digits as well. -/
theorem read_of_isDigit {text : String} (hne : text ≠ "")
    (h : ∀ c ∈ text.toList, Text.isDigit c = true) :
    read text = if maxDigits < Text.leadingDecimals text then
        .error (.tooManyDigits (Text.leadingDecimals text))
      else match Text.decimalNumber? text with
        | some n => .ok n
        | none => .error .malformed := by
  have hplain : ∀ c ∈ text.toList.map form, Plain c :=
    List.forall_mem_map.mpr fun c hc => plain_form (h c hc)
  have hbody : splitSign (trimBlanks (text.toList.map fun c => (numeralChar? c).getD '?'))
      = (false, text.toList.map form) := by
    rw [← splitSign_of_plain hplain]
    exact congrArg splitSign (trimBlanks_eq_self fun c hc => (hplain c hc).blank)
  have hfront : (((text.toList.map form).takeWhile fun c => isNumeralDigit c || c == '_').filter
      isNumeralDigit).length = Text.leadingDecimals text := length_front h
  have hempty : (text.toList.map form).isEmpty = false := by simpa using hne
  have hall : (text.toList.map form).all isNumeralDigit = true
      ↔ ∀ c ∈ text.toList, Text.isDecimal c = true := by
    rw [List.all_map, List.all_eq_true]
    exact forall₂_congr fun c hc => by rw [Function.comp, isNumeralDigit_form (h c hc)]
  have hjoin := joinDigits?_eq_self (fun c hc => (hplain c hc).underscore) none
  simp only [read, hbody, hfront, hjoin, hempty, Bool.false_or,
    Bool.not_eq_true', Bool.false_eq_true, if_false]
  refine if_congr Iff.rfl rfl ?_
  by_cases hdecimal : ∀ c ∈ text.toList, Text.isDecimal c = true
  · rw [if_neg (by simp [hall.mpr hdecimal]), digitsValue_map_form hdecimal, Text.decimalNumber?,
      if_pos (by simpa using ⟨hne, hdecimal⟩)]
  · rw [if_pos (Bool.not_eq_true _ ▸ mt hall.mp hdecimal), Text.decimalNumber?,
      if_neg fun hn => hdecimal (by simpa [hne] using hn)]

end Whole

end Reckoner
