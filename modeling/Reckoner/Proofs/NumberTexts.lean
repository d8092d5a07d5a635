import Reckoner.Proofs.DisplayedNumbers
import Reckoner.Proofs.ShortestDecimals
import Reckoner.Proofs.WholeNumbers

/-!
# Number texts

The text of a double is read as the double again (`Double.toDouble_read?_text`), and its digits are
those of a shortest decimal (`Binary.isShortest_shortest`). From 10^16 on this is what is shown of a
number (`displayNumber_of_huge`); a smaller number is shown by a canonical decimal, and this is read
as the number that it shows (`IsCanonicalDecimal.read?`).

A decimal is written with its point among the digits, with zeros before or behind them, or with an
exponent (`Decimal.writesNumber_text`). Each of these texts has a whole part, a fraction and maybe
an exponent, and reading puts them together again (`Numeral.read?_positional`).
-/

namespace Reckoner

/-! ## Texts of decimals -/

/-- The characters that decimals are written with. -/
def IsDecimalChar (c : Char) : Prop :=
  c.isDigit = true ∨ c ∈ ['.', 'e', '+', '-']

namespace Positional

def chars (p : Positional) : List Char :=
  p.whole ++ if p.fraction.isEmpty then [] else '.' :: p.fraction

theorem text_eq (p : Positional) (negative : Bool) :
    p.text negative = (if negative then "-" else "") ++ String.ofList p.chars := by
  apply String.toList_injective
  rw [text, chars]
  split <;> split <;> simp_all

theorem isDecimalChar_of_mem {p : Positional} {c : Char}
    (hdigits : ∀ c ∈ p.whole ++ p.fraction, c.isDigit = true) (hc : c ∈ p.chars) :
    IsDecimalChar c := by
  rcases List.mem_append.mp hc with hwhole | hfraction
  · exact .inl (hdigits c (List.mem_append_left _ hwhole))
  · split at hfraction
    · cases hfraction
    · rcases List.mem_cons.mp hfraction with rfl | hfraction
      · exact .inr (by decide)
      · exact .inl (hdigits c (List.mem_append_right _ hfraction))

end Positional

namespace Decimal

/-- The digits of an exponent, two at least. -/
def exponentDigits (n : ℕ) : List Char :=
  (if (Nat.toDigits 10 n).length < 2 then ['0'] else []) ++ Nat.toDigits 10 n

theorem isDigit_of_mem_exponentDigits {n : ℕ} {c : Char} (h : c ∈ exponentDigits n) :
    c.isDigit = true := by
  rcases List.mem_append.mp h with hzero | hdigit
  · split at hzero
    · rw [List.mem_singleton.mp hzero]
      rfl
    · cases hzero
  · exact Nat.isDigit_of_mem_toDigits (by decide) (by decide) hdigit

theorem digitsValue_exponentDigits (n : ℕ) : digitsValue (exponentDigits n) = n := by
  have hvalue : Nat.ofDigitChars 10 (exponentDigits n) 0 = n := by
    rw [exponentDigits, Nat.ofDigitChars_append]
    split
    · exact Nat.ofDigitChars_ten_toDigits
    · exact Nat.ofDigitChars_ten_toDigits
  exact hvalue

theorem exponentText_eq (e : ℤ) : exponentText e
    = String.ofList ('e' :: (if e < 0 then '-' else '+') :: exponentDigits e.natAbs) := by
  have hlength : (toString e.natAbs).length = (Nat.toDigits 10 e.natAbs).length := by
    rw [Nat.toString_eq_ofList_toDigits, String.length_ofList]
  rw [exponentText, exponentDigits, ← hlength]
  apply String.toList_injective
  rw [Nat.toString_eq_ofList_toDigits]
  split <;> split <;> simp

end Decimal

/-- What may follow the digits: nothing, or an exponent. -/
def WritesExponent (tail : String) (e : ℤ) : Prop :=
  tail = "" ∧ e = 0 ∨ tail = Decimal.exponentText e

/-! ## Reading them -/

namespace Numeral

theorem readExponent?_exponentDigits (e : ℤ) :
    readExponent? ((if e < 0 then '-' else '+') :: Decimal.exponentDigits e.natAbs) = some e := by
  have hall : (Decimal.exponentDigits e.natAbs).all isNumeralDigit = true :=
    List.all_eq_true.mpr fun _ => Decimal.isDigit_of_mem_exponentDigits
  have hempty : (Decimal.exponentDigits e.natAbs).isEmpty = false := by
    simp [Decimal.exponentDigits, Nat.toDigits_ne_nil]
  by_cases he : e < 0
  · rw [if_pos he, readExponent?]
    simp [splitSign, hall, hempty, Decimal.digitsValue_exponentDigits, abs_of_neg he]
  · rw [if_neg he, readExponent?]
    simp [splitSign, hall, hempty, Decimal.digitsValue_exponentDigits,
      abs_of_nonneg (not_lt.mp he)]

theorem exists_tail {tail : String} {e : ℤ} (h : WritesExponent tail e) : ∃ cs : List Char,
    tail = String.ofList cs ∧ (∀ c ∈ cs, IsDecimalChar c) ∧
      (cs = [] ∧ e = 0 ∨ ∃ rest, cs = 'e' :: rest ∧ readExponent? rest = some e) := by
  rcases h with ⟨rfl, rfl⟩ | rfl
  · exact ⟨[], rfl, fun c hc => absurd hc List.not_mem_nil, .inl ⟨rfl, rfl⟩⟩
  · refine ⟨_, Decimal.exponentText_eq e, fun c hc => ?_,
      .inr ⟨_, rfl, readExponent?_exponentDigits e⟩⟩
    rcases List.mem_cons.mp hc with rfl | hc
    · exact .inr (by decide)
    · rcases List.mem_cons.mp hc with rfl | hc
      · exact .inr (by split <;> decide)
      · exact .inl (Decimal.isDigit_of_mem_exponentDigits hc)

theorem readDecimal?_positional {p : Positional} (hne : p.whole ≠ [])
    (hdigits : ∀ c ∈ p.whole ++ p.fraction, c.isDigit = true) (negative : Bool)
    {tail : List Char} {e : ℤ}
    (htail : tail = [] ∧ e = 0 ∨ ∃ rest, tail = 'e' :: rest ∧ readExponent? rest = some e) :
    readDecimal? negative (p.chars ++ tail)
      = some (.decimal negative p.units (e - p.fraction.length)) := by
  have hempty : p.whole.isEmpty = false := by simpa using hne
  have hpoint : isNumeralDigit '.' = false := rfl
  have hmark : isNumeralDigit 'e' = false := rfl
  have hunits : digitsValue (p.whole ++ p.fraction) = p.units := rfl
  have hwhole : ∀ c ∈ p.whole, isNumeralDigit c = true := fun c hc =>
    hdigits c (List.mem_append_left _ hc)
  have hfraction : ∀ c ∈ p.fraction, isNumeralDigit c = true := fun c hc =>
    hdigits c (List.mem_append_right _ hc)
  rw [readDecimal?, Positional.chars, List.append_assoc, List.takeWhile_append_of_pos hwhole,
    List.dropWhile_append_of_pos hwhole, ← hunits]
  generalize p.fraction = fraction at *
  by_cases hnil : fraction = []
  · subst hnil
    rcases htail with ⟨rfl, rfl⟩ | ⟨rest, rfl, hrest⟩
    · simp [hempty]
    · simp [hempty, hmark, hrest]
  · have hsome : fraction.isEmpty = false := by simpa using hnil
    rcases htail with ⟨rfl, rfl⟩ | ⟨rest, rfl, hrest⟩
    · simp [hempty, hsome, hpoint, List.takeWhile_eq_self_iff.mpr hfraction,
        List.dropWhile_eq_nil_iff.mpr hfraction]
    · simp [hempty, hsome, hpoint, hmark, hrest, List.takeWhile_append_of_pos hfraction,
        List.dropWhile_append_of_pos hfraction]

/-- The characters of a decimal are read as they are. -/
theorem of_isDecimalChar {c : Char} (h : IsDecimalChar c) :
    numeralChar? c = some c ∧ Text.isAsciiBlank c = false ∧ c ≠ '_' := by
  have hdigits : ∀ d < 10, numeralChar? d.digitChar = some d.digitChar
      ∧ Text.isAsciiBlank d.digitChar = false ∧ d.digitChar ≠ '_' := by decide
  rcases h with hdigit | hmark
  · obtain ⟨hchar, hlt⟩ := digitChar_of_isDigit hdigit
    rw [← hchar]
    exact hdigits _ hlt
  · simp only [List.mem_cons, List.not_mem_nil, or_false] at hmark
    rcases hmark with rfl | rfl | rfl | rfl <;> exact ⟨rfl, rfl, by decide⟩

theorem mapM_numeralChar? {cs : List Char} (h : ∀ c ∈ cs, numeralChar? c = some c) :
    cs.mapM numeralChar? = some cs := by
  induction cs with
  | nil => rfl
  | cons c rest ih =>
    rw [List.mapM_cons, h c List.mem_cons_self, ih fun d hd => h d (List.mem_cons_of_mem c hd)]
    rfl

/-- What begins with a digit is none of the words. -/
theorem readUnsigned?_of_digit {c : Char} (hc : c.isDigit = true) (negative : Bool)
    (cs : List Char) : readUnsigned? negative (c :: cs) = readDecimal? negative (c :: cs) := by
  have hdigits : ∀ d < 10, d.digitChar.toLower ≠ 'n' ∧ d.digitChar.toLower ≠ 'i' := by decide
  obtain ⟨hchar, hlt⟩ := digitChar_of_isDigit hc
  have hlower := hdigits _ hlt
  rw [hchar] at hlower
  have hhead : ∀ s : String, String.ofList ((c :: cs).map Char.toLower) = s →
      s.toList.head? = some c.toLower := by
    rintro _ rfl
    rw [String.toList_ofList]
    rfl
  unfold readUnsigned?
  split
  · next h => exact absurd (Option.some.inj (hhead _ h)).symm hlower.1
  · next h => exact absurd (Option.some.inj (hhead _ h)).symm hlower.2
  · next h => exact absurd (Option.some.inj (hhead _ h)).symm hlower.2
  · rfl

theorem read?_of_digit (negative : Bool) {c : Char} {cs : List Char} (hc : c.isDigit = true)
    (hcs : ∀ d ∈ c :: cs, IsDecimalChar d) :
    read? ((if negative then "-" else "") ++ String.ofList (c :: cs))
      = readDecimal? negative (c :: cs) := by
  have htext : ((if negative then "-" else "") ++ String.ofList (c :: cs)).toList
      = (if negative then ['-'] else []) ++ c :: cs := by
    cases negative <;> simp
  have hchars : ∀ d ∈ (if negative then ['-'] else []) ++ c :: cs, IsDecimalChar d :=
    fun d hd => by
      rcases List.mem_append.mp hd with hsign | hbody
      · split at hsign
        · rw [List.mem_singleton.mp hsign]
          exact .inr (by decide)
        · cases hsign
      · exact hcs d hbody
  have hsign : splitSign ((if negative then ['-'] else []) ++ c :: cs) = (negative, c :: cs) := by
    cases negative with
    | true => rfl
    | false =>
      unfold splitSign
      split
      · next heq =>
        rw [(List.cons.inj heq).1] at hc
        cases hc
      · next heq =>
        rw [(List.cons.inj heq).1] at hc
        cases hc
      · rfl
  rw [read?, htext, mapM_numeralChar? fun d hd => (of_isDecimalChar (hchars d hd)).1]
  simp only [Option.bind_eq_bind, Option.bind_some]
  rw [trimBlanks_eq_self fun d hd => (of_isDecimalChar (hchars d hd)).2.1,
    joinDigits?_eq_self (fun d hd => (of_isDecimalChar (hchars d hd)).2.2) none, Option.bind_some,
    hsign]
  exact readUnsigned?_of_digit hc negative cs

/-- A decimal is read as its digits without the point, and the power of ten of the last one. -/
theorem read?_positional {p : Positional} (hne : p.whole ≠ [])
    (hdigits : ∀ c ∈ p.whole ++ p.fraction, c.isDigit = true) (negative : Bool) {tail : String}
    {e : ℤ} (htail : WritesExponent tail e) :
    read? (p.text negative ++ tail) = some (.decimal negative p.units (e - p.fraction.length)) := by
  obtain ⟨cs, rfl, hcs, hexponent⟩ := exists_tail htail
  have hchars : ∀ c ∈ p.chars ++ cs, IsDecimalChar c := fun c hc =>
    (List.mem_append.mp hc).elim (Positional.isDecimalChar_of_mem hdigits) (hcs c)
  rw [p.text_eq, String.append_assoc, ← String.ofList_append,
    ← readDecimal?_positional hne hdigits negative hexponent]
  obtain ⟨c, rest, hsplit⟩ := List.exists_cons_of_ne_nil hne
  have hfirst : c.isDigit = true := hdigits c (List.mem_append_left _ (hsplit ▸ List.mem_cons_self))
  rw [Positional.chars, hsplit] at hchars ⊢
  exact read?_of_digit negative hfirst hchars

end Numeral

/-- A canonical decimal is read as the number that it shows. -/
theorem IsCanonicalDecimal.read? {places : ℕ} {q : ℚ} {text : String}
    (h : IsCanonicalDecimal places q text) : ∃ (c : ℕ) (scale : ℤ),
      Numeral.read? text = some (.decimal (decide (q < 0)) c scale) ∧ c * 10 ^ scale = |q| := by
  obtain ⟨d, hd, hvalue, -, rfl⟩ := h
  have hread := Numeral.read?_positional hd.whole_ne_nil hd.isDigit (decide (q < 0))
    (.inl ⟨rfl, rfl⟩ : WritesExponent "" 0)
  rw [String.append_empty] at hread
  refine ⟨_, _, hread, ?_⟩
  rw [← hvalue, Positional.value, zero_sub, zpow_neg, zpow_natCast, div_eq_mul_inv]

/-! ## The text of a decimal -/

/-- The text writes a number: it has digits, a point maybe, and maybe an exponent. -/
def WritesNumber (text : String) (q : ℚ) : Prop :=
  ∃ (p : Positional) (tail : String) (e : ℤ), p.whole ≠ [] ∧
    (∀ c ∈ p.whole ++ p.fraction, c.isDigit = true) ∧ WritesExponent tail e ∧
    text = p.text false ++ tail ∧ p.units * 10 ^ (e - p.fraction.length) = q

theorem WritesNumber.read? {text : String} {q : ℚ} (h : WritesNumber text q) (negative : Bool) :
    ∃ (c : ℕ) (scale : ℤ), Numeral.read? ((if negative then "-" else "") ++ text)
      = some (.decimal negative c scale) ∧ c * 10 ^ scale = q := by
  obtain ⟨p, tail, e, hne, hdigits, htail, rfl, hvalue⟩ := h
  have hsigned : (if negative then "-" else "") ++ (p.text false ++ tail)
      = p.text negative ++ tail := by
    rw [p.text_eq negative, p.text_eq false, if_neg Bool.false_ne_true, String.empty_append,
      String.append_assoc]
  exact ⟨_, _, hsigned ▸ Numeral.read?_positional hne hdigits negative htail, hvalue⟩

theorem isDigit_of_mem_zeros {c : Char} (n : ℕ) (h : c ∈ List.replicate n '0') :
    c.isDigit = true := by
  rw [List.eq_of_mem_replicate h]
  rfl

theorem writesNumber_of_fraction (whole fraction : List Char) (hwhole : whole ≠ [])
    (hfraction : fraction ≠ []) (hdigits : ∀ c ∈ whole ++ fraction, c.isDigit = true) :
    WritesNumber (String.ofList (whole ++ '.' :: fraction))
      (Nat.ofDigitChars 10 (whole ++ fraction) 0 * 10 ^ (-(fraction.length : ℤ))) := by
  refine ⟨⟨whole, fraction⟩, "", 0, hwhole, hdigits, .inl ⟨rfl, rfl⟩, ?_, ?_⟩
  · have hsome : fraction.isEmpty = false := by simpa using hfraction
    rw [Positional.text_eq, Positional.chars, hsome]
    simp
  · rw [zero_sub]
    rfl

namespace Decimal

section Layouts

variable {digits : List Char} (hne : digits ≠ []) (hdigits : ∀ c ∈ digits, c.isDigit = true)

include hne hdigits

/-- Zeros in front of the digits. -/
theorem writesNumber_below_one (zeros : ℕ) :
    WritesNumber (String.ofList (['0'] ++ '.' :: (List.replicate zeros '0' ++ digits)))
      (Nat.ofDigitChars 10 digits 0 * 10 ^ (-((zeros : ℤ) + digits.length))) := by
  have hunits : Nat.ofDigitChars 10 (['0'] ++ (List.replicate zeros '0' ++ digits)) 0
      = Nat.ofDigitChars 10 digits 0 := by
    rw [Nat.ofDigitChars_append, Nat.ofDigitChars_append, Nat.ofDigitChars_replicate_zero]
    rfl
  have h := writesNumber_of_fraction ['0'] (List.replicate zeros '0' ++ digits)
    (List.cons_ne_nil _ _) (by simp [hne]) fun c hc => by
      rw [← List.append_assoc] at hc
      rcases List.mem_append.mp hc with hzero | hdigit
      · exact isDigit_of_mem_zeros (zeros + 1) (List.replicate_succ ▸ hzero)
      · exact hdigits c hdigit
  rw [hunits, List.length_append, List.length_replicate, Nat.cast_add] at h
  exact h

/-- The point among the digits. -/
theorem writesNumber_among {places : ℕ} (hplaces : 0 < places) (hlt : places < digits.length) :
    WritesNumber (String.ofList (digits.take places ++ '.' :: digits.drop places))
      (Nat.ofDigitChars 10 digits 0 * 10 ^ ((places : ℤ) - digits.length)) := by
  have h := writesNumber_of_fraction (digits.take places) (digits.drop places)
    (by simpa [hne] using hplaces.ne') (by simpa using hlt)
    (by rw [List.take_append_drop]; exact hdigits)
  rw [List.take_append_drop, List.length_drop, Nat.cast_sub hlt.le, neg_sub] at h
  exact h

/-- Zeros behind the digits, and one behind the point. -/
theorem writesNumber_whole (zeros : ℕ) :
    WritesNumber (String.ofList (digits ++ List.replicate zeros '0' ++ '.' :: ['0']))
      (Nat.ofDigitChars 10 digits 0 * 10 ^ (zeros : ℤ)) := by
  have hunits : Nat.ofDigitChars 10 (digits ++ List.replicate zeros '0' ++ ['0']) 0
      = Nat.ofDigitChars 10 digits 0 * 10 ^ (zeros + 1) := by
    rw [ofDigitChars_concat, Nat.ofDigitChars_append, Nat.ofDigitChars_replicate_zero,
      Nat.pow_succ, Nat.mul_comm, Nat.mul_comm (10 ^ zeros), Nat.mul_assoc]
    rfl
  have h := writesNumber_of_fraction (digits ++ List.replicate zeros '0') ['0']
    (by simp [hne]) (List.cons_ne_nil _ _) fun c hc => by
      rw [List.append_assoc] at hc
      rcases List.mem_append.mp hc with hdigit | hzero
      · exact hdigits c hdigit
      · exact isDigit_of_mem_zeros (zeros + 1) (List.replicate_succ' ▸ hzero)
  have hvalue : ((Nat.ofDigitChars 10 digits 0 * 10 ^ (zeros + 1) : ℕ) : ℚ) * 10 ^ (-(1 : ℤ))
      = Nat.ofDigitChars 10 digits 0 * 10 ^ (zeros : ℤ) := by
    rw [Nat.cast_mul, mul_assoc, cast_ten_pow_mul_zpow, Nat.cast_succ, add_neg_cancel_right]
  rw [hunits, List.length_singleton, Nat.cast_one, hvalue] at h
  exact h

/-- From one on the digits are filled up with zeros, or they reach behind the point. -/
theorem writesNumber_from_one {top : ℤ} (htop : 0 ≤ top) : WritesNumber
    (String.ofList ((digits ++ List.replicate (top + 1 - digits.length).toNat '0').take
      (top + 1).toNat ++ '.' :: if (digits.drop (top + 1).toNat).isEmpty then ['0']
        else digits.drop (top + 1).toNat))
    (Nat.ofDigitChars 10 digits 0 * 10 ^ (top + 1 - digits.length)) := by
  rcases le_or_gt digits.length (top + 1).toNat with hle | hlt
  · have hlast : top + 1 - digits.length = ((top + 1 - digits.length).toNat : ℤ) := by omega
    have hfull : (digits ++ List.replicate (top + 1 - digits.length).toNat '0').take
        (top + 1).toNat = digits ++ List.replicate (top + 1 - digits.length).toNat '0' := by
      refine List.take_of_length_le ?_
      rw [List.length_append, List.length_replicate]
      omega
    rw [List.drop_eq_nil_of_le hle, hfull, hlast]
    exact writesNumber_whole hne hdigits _
  · have hlast : top + 1 - digits.length = ((top + 1).toNat : ℤ) - digits.length := by omega
    have hnone : (top + 1 - digits.length).toNat = 0 := by omega
    have hsome : (digits.drop (top + 1).toNat).isEmpty = false := by simpa using hlt
    rw [hnone, hsome, hlast, List.replicate_zero, List.append_nil]
    exact writesNumber_among hne hdigits (by omega) hlt

theorem writesNumber_scientific (top : ℤ) : WritesNumber
    (String.ofList (digits.take 1 ++ if digits.length ≤ 1 then [] else '.' :: digits.drop 1)
      ++ exponentText top)
    (Nat.ofDigitChars 10 digits 0 * 10 ^ (top + 1 - digits.length)) := by
  refine ⟨⟨digits.take 1, digits.drop 1⟩, _, top, by simpa using hne, ?_, .inr rfl, ?_, ?_⟩
  · rw [List.take_append_drop]
    exact hdigits
  · have hfraction : (digits.drop 1).isEmpty = true ↔ digits.length ≤ 1 := by
      rw [List.isEmpty_iff, List.drop_eq_nil_iff]
    rw [Positional.text_eq, Positional.chars, if_neg Bool.false_ne_true, String.empty_append]
    simp only [hfraction]
  · rw [Positional.units, List.take_append_drop, List.length_drop]
    have hpos := List.length_pos_iff.mpr hne
    congr 2
    omega

end Layouts

theorem writesNumber_text {d : Decimal} (hd : 0 < d.digits) : WritesNumber d.text d.value := by
  have hvalue := d.value_eq_significant
  have hdigits : ∀ c ∈ d.significant.1, c.isDigit = true := fun c => isDigit_of_mem_significant
  have hne : d.significant.1 ≠ [] := fun hnil => by
    have hpos : 0 < d.value := mul_pos (by exact_mod_cast hd) (ten_zpow_pos _)
    rw [hvalue, hnil] at hpos
    simp at hpos
  rw [hvalue, text]
  unfold length
  clear hvalue
  generalize d.significant = s at *
  obtain ⟨digits, top⟩ := s
  dsimp only at *
  split
  · split
    · next hneg =>
      have hsome : (List.replicate (-top - 1).toNat '0' ++ digits).isEmpty = false := by simp [hne]
      have hlast : top + 1 - digits.length = -(((-top - 1).toNat : ℤ) + digits.length) := by omega
      rw [hsome, hlast]
      exact writesNumber_below_one hne hdigits (-top - 1).toNat
    · next hnonneg => exact writesNumber_from_one hne hdigits (not_lt.mp hnonneg)
  · exact writesNumber_scientific hne hdigits top

end Decimal

/-! ## The text of a double -/

namespace Binary

variable {b : Binary}

theorem toDouble_read?_text (hb : b.Canonical) (hgreatest : b.exponent ≤ greatestExponent) :
    (Numeral.read? b.text).map Numeral.toDouble = some (.finite b) := by
  rcases Nat.eq_zero_or_pos b.mantissa with hzero | hpos
  · have hexponent : b.exponent = leastExponent := by
      refine le_antisymm (not_lt.mp fun hlt => ?_) hb.least_le
      have hleading := hb.leading hlt
      omega
    obtain ⟨negative, mantissa, exponent⟩ := b
    dsimp only at hzero hexponent
    rw [hzero, hexponent]
    cases negative <;> decide
  · have hreads := (isShortest_shortest hb hpos hgreatest).reads
    have hattracts := (Decimal.readsAs_iff hb hpos hgreatest).mp hreads
    have hdigits : 0 < b.shortest.digits := Nat.pos_of_ne_zero fun hzero => by
      have hvalue := hattracts.pos hb hpos
      rw [Decimal.value, hzero, Nat.cast_zero, zero_mul] at hvalue
      exact absurd hvalue (lt_irrefl 0)
    obtain ⟨c, scale, hread, hvalue⟩ := (Decimal.writesNumber_text hdigits).read? b.negative
    rw [text, if_neg hpos.ne', hread, Option.map_some,
      (Numeral.toDouble_eq_iff hb hpos hgreatest _ _ _).mpr ⟨rfl, hvalue ▸ hattracts⟩]

end Binary

/-- **The text of a double** is read as the double. -/
theorem Double.toDouble_read?_text (x : Float) :
    (Numeral.read? (Double.ofFloat x).text).map Numeral.toDouble = some (Double.ofFloat x) := by
  cases hx : Double.ofFloat x with
  | notANumber => decide
  | infinite negative => cases negative <;> decide
  | finite b =>
    exact Binary.toDouble_read?_text (Binary.canonical_of_ofFloat hx)
      (Binary.exponent_le_of_ofFloat hx)

/-- A number from 10^16 on is shown by a shortest decimal, which is read as the number. -/
theorem displayNumber_of_huge {x : Float} {b : Binary} (hx : Double.ofFloat x = .finite b)
    (hlarge : 10 ^ 16 ≤ |b.value|) (places : ℕ) :
    (∃ d : Decimal, b.IsShortest d ∧
      displayNumber places x = (if b.negative then "-" else "") ++ d.text) ∧
    (Numeral.read? (displayNumber places x)).map Numeral.toDouble = some (Double.ofFloat x) := by
  have hb := Binary.canonical_of_ofFloat hx
  have hgreatest := Binary.exponent_le_of_ofFloat hx
  rw [Binary.abs_value] at hlarge
  have hpos : 0 < b.mantissa := Nat.pos_of_ne_zero fun hzero => by
    rw [Binary.magnitude_eq_zero_iff.mpr hzero] at hlarge
    norm_num at hlarge
  have hdisplay : displayNumber places x = b.text := by
    rw [displayNumber, hx]
    exact Binary.display_of_le hb places hlarge
  rw [hdisplay, hx]
  refine ⟨⟨b.shortest, Binary.isShortest_shortest hb hpos hgreatest, ?_⟩,
    Binary.toDouble_read?_text hb hgreatest⟩
  rw [Binary.text, if_neg hpos.ne']

end Reckoner
