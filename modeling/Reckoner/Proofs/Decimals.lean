import Mathlib.Algebra.Order.Field.Basic
import Mathlib.Algebra.Order.Ring.Rat
import Mathlib.Data.List.DropRight
import Mathlib.Data.List.Induction
import Mathlib.Data.Rat.Cast.Order
import Mathlib.Tactic.Positivity
import Mathlib.Tactic.Ring
import Reckoner.Number.Display

/-!
# Canonical decimals

A decimal is canonical when no zero of it can be left out: the whole part has none in front of
another digit, and the fraction has none at its end. Each number has at most one canonical decimal
(`Positional.Canonical.eq_of_value_eq`), and a whole number of units of `10 ^ -places` has one with
at most so many places (`Positional.canonical_ofUnits`).

The digits are characters, and `Nat.ofDigitChars` is the number that they write. The other way,
`Nat.toDigits` writes a number without zeros in front and `lowDigits` writes the end of a number.
-/

namespace Reckoner

/-! ## Digits -/

/-- A digit and its number. -/
theorem digitChar_of_isDigit {c : Char} (h : c.isDigit = true) :
    (c.toNat - 48).digitChar = c ∧ c.toNat - 48 < 10 := by
  have hrange : 48 ≤ c.toNat ∧ c.toNat ≤ 57 := by
    rw [Char.isDigit, Bool.and_eq_true, decide_eq_true_eq, decide_eq_true_eq] at h
    exact h
  refine ⟨?_, by omega⟩
  rw [← Char.toNat_inj, Nat.toNat_digitChar_of_lt_ten (by omega)]
  omega

theorem ofDigitChars_concat (cs : List Char) (c : Char) (init : ℕ) :
    Nat.ofDigitChars 10 (cs ++ [c]) init = 10 * Nat.ofDigitChars 10 cs init + (c.toNat - 48) := by
  rw [Nat.ofDigitChars_append]
  rfl

section

variable {cs : List Char} (h : ∀ c ∈ cs, c.isDigit = true)

include h

/-- The digits at the end of a number can be read off it. -/
theorem lowDigits_ofDigitChars (init : ℕ) :
    lowDigits cs.length (Nat.ofDigitChars 10 cs init) = cs := by
  induction cs using List.reverseRecOn with
  | nil => rfl
  | append_singleton cs c ih =>
    obtain ⟨hchar, hlt⟩ := digitChar_of_isDigit (h c (by simp))
    rw [List.length_append, List.length_singleton, lowDigits, ofDigitChars_concat,
      Nat.mul_add_div (by decide), Nat.div_eq_of_lt hlt, Nat.add_zero, Nat.mul_add_mod,
      Nat.mod_eq_of_lt hlt, hchar, ih fun c' hc' => h c' (List.mem_append_left _ hc')]

/-- And so can the number in front of them. -/
theorem ofDigitChars_div (init : ℕ) :
    Nat.ofDigitChars 10 cs init / 10 ^ cs.length = init := by
  induction cs using List.reverseRecOn with
  | nil => exact Nat.div_one init
  | append_singleton cs c ih =>
    have hlt := (digitChar_of_isDigit (h c (by simp))).2
    rw [List.length_append, List.length_singleton, Nat.pow_succ', ← Nat.div_div_eq_div_mul,
      ofDigitChars_concat, Nat.mul_add_div (by decide), Nat.div_eq_of_lt hlt, Nat.add_zero,
      ih fun c' hc' => h c' (List.mem_append_left _ hc')]

/-- Digits with no zero in front are those of the number that they write. -/
theorem toDigits_ofDigitChars (hne : cs ≠ []) (hfirst : cs.head? = some '0' → cs = ['0']) :
    Nat.toDigits 10 (Nat.ofDigitChars 10 cs 0) = cs := by
  induction cs using List.reverseRecOn with
  | nil => exact absurd rfl hne
  | append_singleton cs c ih =>
    obtain ⟨hchar, hlt⟩ := digitChar_of_isDigit (h c (by simp))
    rw [ofDigitChars_concat]
    by_cases hcs : cs = []
    · rw [hcs, Nat.ofDigitChars_nil, Nat.mul_zero, Nat.zero_add, Nat.toDigits_of_lt_base hlt, hchar]
      rfl
    · have hhead : cs.head? ≠ some '0' := fun hzero => by
        have hlength := congrArg List.length
          (hfirst (by rw [List.head?_append_of_ne_nil _ hcs, hzero]))
        simp [hcs] at hlength
      have hih := ih (fun c' hc' => h c' (List.mem_append_left _ hc')) hcs
        fun hzero => absurd hzero hhead
      have hpos : 0 < Nat.ofDigitChars 10 cs 0 := by
        refine Nat.pos_of_ne_zero fun hzero => hhead ?_
        rw [← hih, hzero]
        rfl
      rw [Nat.toDigits_eq_if (by decide), if_neg (by omega), Nat.mul_add_div (by decide),
        Nat.div_eq_of_lt hlt, Nat.add_zero, Nat.mul_add_mod, Nat.mod_eq_of_lt hlt, hchar, hih]

end

theorem toDigits_of_head? {n : ℕ} (h : (Nat.toDigits 10 n).head? = some '0') : n = 0 := by
  induction n using Nat.strongRecOn with
  | ind n ih =>
    rw [Nat.toDigits_eq_if (by decide)] at h
    split at h
    · next hlt => exact Nat.digitChar_eq_zero.mp (Option.some.inj h)
    · next hge =>
      rw [List.head?_append_of_ne_nil _ Nat.toDigits_ne_nil] at h
      have hzero := ih (n / 10) (by omega) h
      omega

/-- What is dropped at the end of some digits is a row of zeros. -/
theorem exists_append_zeros (cs : List Char) :
    ∃ z, cs = cs.rdropWhile (· == '0') ++ List.replicate z '0' := by
  have hzeros : cs.rtakeWhile (· == '0') = List.replicate _ '0' :=
    List.eq_replicate_iff.mpr ⟨rfl, fun c hc => by simpa using List.mem_rtakeWhile_imp hc⟩
  exact ⟨_, List.rdropWhile_append_rtakeWhile.symm.trans (congrArg _ hzeros)⟩

theorem length_lowDigits (width n : ℕ) : (lowDigits width n).length = width := by
  induction width generalizing n with
  | zero => rfl
  | succ w ih => rw [lowDigits, List.length_append, ih, List.length_singleton]

theorem isDigit_of_mem_lowDigits {width n : ℕ} {c : Char} (h : c ∈ lowDigits width n) :
    c.isDigit = true := by
  induction width generalizing n with
  | zero => cases h
  | succ w ih =>
    rcases List.mem_append.mp h with hfront | hlast
    · exact ih hfront
    · rw [List.mem_singleton.mp hlast, Nat.isDigit_digitChar, decide_eq_true_eq]
      exact Nat.mod_lt n (by decide)

/-- A number is written by the digits at its end behind those of the rest. -/
theorem ofDigitChars_lowDigits (width n : ℕ) :
    Nat.ofDigitChars 10 (lowDigits width n) (n / 10 ^ width) = n := by
  induction width generalizing n with
  | zero => exact Nat.div_one n
  | succ w ih =>
    have hlast := Nat.toNat_digitChar_of_lt_ten (Nat.mod_lt n (by decide : 0 < 10))
    rw [lowDigits, ofDigitChars_concat, Nat.pow_succ', ← Nat.div_div_eq_div_mul, ih]
    omega

/-! ## Decimals -/

/-- A decimal: the digits in front of the point and those behind it. -/
@[ext]
structure Positional where
  whole : List Char
  fraction : List Char

namespace Positional

/-- The number that all digits write, read without the point. -/
def units (d : Positional) : ℕ :=
  Nat.ofDigitChars 10 (d.whole ++ d.fraction) 0

def value (d : Positional) : ℚ :=
  d.units / 10 ^ d.fraction.length

/-- The text: a sign, the whole part, and the fraction behind a point unless it is empty. -/
def text (d : Positional) (negative : Bool) : String :=
  (if negative then "-" else "")
    ++ (String.ofList d.whole ++ if d.fraction.isEmpty then "" else "." ++ String.ofList d.fraction)

/-- At most so many decimal places, and no zero that could be left out. -/
structure Canonical (d : Positional) (places : ℕ) : Prop where
  isDigit : ∀ c ∈ d.whole ++ d.fraction, c.isDigit = true
  whole_ne_nil : d.whole ≠ []
  first : d.whole.head? = some '0' → d.whole = ['0']
  last : d.fraction.getLast? ≠ some '0'
  length_le : d.fraction.length ≤ places

namespace Canonical

variable {d d' : Positional} {places places' : ℕ} (h : d.Canonical places)

include h

theorem whole_eq : d.whole = Nat.toDigits 10 (d.units / 10 ^ d.fraction.length) := by
  rw [units, Nat.ofDigitChars_append,
    ofDigitChars_div fun c hc => h.isDigit c (List.mem_append_right _ hc),
    toDigits_ofDigitChars (fun c hc => h.isDigit c (List.mem_append_left _ hc)) h.whole_ne_nil
      h.first]

theorem fraction_eq : d.fraction = lowDigits d.fraction.length d.units := by
  rw [units, Nat.ofDigitChars_append,
    lowDigits_ofDigitChars fun c hc => h.isDigit c (List.mem_append_right _ hc)]

/-- The last digit of a fraction counts. -/
theorem units_mod_ten (hne : d.fraction ≠ []) : d.units % 10 ≠ 0 := by
  intro hzero
  have hsplit := List.dropLast_append_getLast hne
  obtain ⟨hchar, hlt⟩ := digitChar_of_isDigit
    (h.isDigit _ (List.mem_append_right _ (List.getLast_mem hne)))
  rw [units, ← hsplit, ← List.append_assoc, ofDigitChars_concat, Nat.mul_add_mod,
    Nat.mod_eq_of_lt hlt] at hzero
  rw [hzero] at hchar
  exact h.last (by rw [List.getLast?_eq_getLast_of_ne_nil hne, ← hchar]; rfl)

/-- No decimal of the same number has a shorter fraction. -/
theorem length_fraction_le {n k : ℕ} (heq : d.value = n / 10 ^ k) : d.fraction.length ≤ k := by
  by_contra! hlt
  have hunits : d.units = n * 10 ^ (d.fraction.length - k) := by
    have hpow : (10 : ℚ) ^ d.fraction.length = 10 ^ (d.fraction.length - k) * 10 ^ k := by
      rw [← pow_add, Nat.sub_add_cancel hlt.le]
    rw [value, div_eq_div_iff (by positivity) (by positivity), hpow, ← mul_assoc] at heq
    exact_mod_cast mul_right_cancel₀ (by positivity : (10 : ℚ) ^ k ≠ 0) heq
  refine h.units_mod_ten (List.ne_nil_of_length_pos (by omega)) ?_
  obtain ⟨j, hj⟩ := Nat.exists_eq_add_of_lt hlt
  rw [hunits, hj, show k + j + 1 - k = j + 1 by omega, Nat.pow_succ, ← Nat.mul_assoc,
    Nat.mul_mod_left]

/-- A point is written exactly when the number is not a whole one. -/
theorem fraction_eq_nil_iff : d.fraction = [] ↔ ∃ n : ℕ, d.value = n := by
  constructor
  · intro hnil
    exact ⟨d.units, by rw [value, hnil, List.length_nil, pow_zero, div_one]⟩
  · rintro ⟨n, hn⟩
    have hle := h.length_fraction_le (n := n) (k := 0) (by rw [hn, pow_zero, div_one])
    exact List.length_eq_zero_iff.mp (Nat.le_zero.mp hle)

/-- A number has at most one canonical decimal. -/
theorem eq_of_value_eq (h' : d'.Canonical places') (heq : d.value = d'.value) : d = d' := by
  have hlength : d.fraction.length = d'.fraction.length :=
    le_antisymm (h.length_fraction_le heq) (h'.length_fraction_le heq.symm)
  have hunits : d.units = d'.units := by
    rw [value, value, hlength] at heq
    exact_mod_cast (div_left_inj' (by positivity)).mp heq
  have hwhole : d.whole = d'.whole := by rw [h.whole_eq, h'.whole_eq, hunits, hlength]
  have hfraction : d.fraction = d'.fraction := by
    rw [h.fraction_eq, h'.fraction_eq, hunits, hlength]
  exact Positional.ext hwhole hfraction

end Canonical

/-! ## Decimals of units -/

/-- The decimal of `units * 10 ^ -places`. -/
def ofUnits (units places : ℕ) : Positional :=
  ⟨Nat.toDigits 10 (units / tenTo places), (lowDigits places units).rdropWhile (· == '0')⟩

theorem text_ofUnits (n places : ℕ) (negative : Bool) :
    (ofUnits n places).text negative = (if negative then "-" else "") ++ fixedText n places := by
  have hfixed : fixedText n places = if (ofUnits n places).fraction.isEmpty then
      String.ofList (ofUnits n places).whole
    else String.ofList (ofUnits n places).whole ++ "."
      ++ String.ofList (ofUnits n places).fraction := by
    rw [fixedText, Nat.toString_eq_ofList_toDigits]
    rfl
  rw [text, hfixed]
  congr 1
  split
  · rw [String.append_empty]
  · rw [String.append_assoc]

theorem canonical_ofUnits (n places : ℕ) : (ofUnits n places).Canonical places where
  isDigit c hc := by
    rcases List.mem_append.mp hc with hwhole | hfraction
    · exact Nat.isDigit_of_mem_toDigits (by decide) (by decide) hwhole
    · exact isDigit_of_mem_lowDigits ((List.rdropWhile_prefix _ _).subset hfraction)
  whole_ne_nil := Nat.toDigits_ne_nil
  first h := by
    dsimp only [ofUnits] at h ⊢
    rw [toDigits_of_head? h]
    rfl
  last h := by
    have hne : (ofUnits n places).fraction ≠ [] := fun hnil => by simp [hnil] at h
    rw [List.getLast?_eq_getLast_of_ne_nil hne, Option.some.injEq] at h
    exact List.rdropWhile_last_not _ _ hne (beq_iff_eq.mpr h)
  length_le := by
    have hprefix := (List.rdropWhile_prefix (· == '0') (lowDigits places n)).length_le
    exact hprefix.trans_eq (length_lowDigits places n)

theorem value_ofUnits (n places : ℕ) : (ofUnits n places).value = n / 10 ^ places := by
  obtain ⟨z, hz⟩ : ∃ z, lowDigits places n
      = (ofUnits n places).fraction ++ List.replicate z '0' := exists_append_zeros _
  have hlength : places = (ofUnits n places).fraction.length + z := by
    have hlow := length_lowDigits places n
    rw [hz, List.length_append, List.length_replicate] at hlow
    exact hlow.symm
  have hunits : n = 10 ^ z * (ofUnits n places).units := by
    have hlow := ofDigitChars_lowDigits places n
    rw [hz, Nat.ofDigitChars_append, Nat.ofDigitChars_replicate_zero] at hlow
    rw [units, Nat.ofDigitChars_append]
    dsimp only [ofUnits] at hlow ⊢
    rw [Nat.ofDigitChars_ten_toDigits]
    exact hlow.symm
  rw [value, div_eq_div_iff (by positivity) (by positivity)]
  have hpow : 10 ^ places = 10 ^ z * 10 ^ (ofUnits n places).fraction.length := by
    rw [← pow_add, Nat.add_comm, ← hlength]
  have hcross : (ofUnits n places).units * 10 ^ places
      = n * 10 ^ (ofUnits n places).fraction.length := by
    rw [hpow]
    nth_rewrite 3 [hunits]
    ring
  exact_mod_cast hcross

end Positional

/-! ## Canonical texts -/

/-- The text is the canonical decimal of a number, with at most so many places: a sign in front of
a negative number only, and a point in a number only that is not whole. -/
def IsCanonicalDecimal (places : ℕ) (q : ℚ) (text : String) : Prop :=
  ∃ d : Positional, d.Canonical places ∧ d.value = |q| ∧ (d.fraction = [] ↔ ∃ z : ℤ, q = z)
    ∧ text = d.text (decide (q < 0))

theorem isCanonicalDecimal_iff {n places : ℕ} {q : ℚ} (hq : |q| = n / 10 ^ places)
    (text : String) : IsCanonicalDecimal places q text
      ↔ text = (if q < 0 then "-" else "") ++ fixedText n places := by
  have hcanonical := Positional.canonical_ofUnits n places
  have hvalue : (Positional.ofUnits n places).value = |q| :=
    (Positional.value_ofUnits n places).trans hq.symm
  have hpoint : (Positional.ofUnits n places).fraction = [] ↔ ∃ z : ℤ, q = z := by
    rw [hcanonical.fraction_eq_nil_iff, hvalue]
    constructor
    · rintro ⟨m, hm⟩
      rcases eq_or_eq_neg_of_abs_eq hm with rfl | rfl
      · exact ⟨m, (Int.cast_natCast m).symm⟩
      · exact ⟨-m, by rw [Int.cast_neg, Int.cast_natCast]⟩
    · rintro ⟨z, rfl⟩
      exact ⟨z.natAbs, by rw [Nat.cast_natAbs, Int.cast_abs]⟩
  have htext : (Positional.ofUnits n places).text (decide (q < 0))
      = (if q < 0 then "-" else "") ++ fixedText n places := by
    simp only [Positional.text_ofUnits, decide_eq_true_eq]
  rw [← htext]
  constructor
  · rintro ⟨d, hd, hv, -, rfl⟩
    rw [hd.eq_of_value_eq hcanonical (hv.trans hvalue.symm)]
  · rintro rfl
    exact ⟨_, hcanonical, hvalue, hpoint, rfl⟩

/-- Zero has no sign and no places. -/
theorem isCanonicalDecimal_zero (places : ℕ) (text : String) :
    IsCanonicalDecimal places 0 text ↔ text = "0" := by
  have hvalue : ∀ p, (Positional.ofUnits 0 p).value = 0 := fun p => by
    rw [Positional.value_ofUnits, Nat.cast_zero, zero_div]
  have hsame : Positional.ofUnits 0 places = Positional.ofUnits 0 0 :=
    (Positional.canonical_ofUnits 0 places).eq_of_value_eq (Positional.canonical_ofUnits 0 0)
      ((hvalue places).trans (hvalue 0).symm)
  have hzero : (0 : ℚ) = (0 : ℕ) / 10 ^ places := by rw [Nat.cast_zero, zero_div]
  have htext := Positional.text_ofUnits 0 places false
  rw [hsame] at htext
  rw [isCanonicalDecimal_iff (abs_zero.trans hzero), if_neg (lt_irrefl _)]
  exact ⟨fun h => h.trans htext.symm, fun h => h.trans htext⟩

/-- A sign is written in front of units of either sign, but for none at all. -/
theorem isCanonicalDecimal_signed (negative : Bool) (n places : ℕ) (text : String) :
    IsCanonicalDecimal places ((if negative then -(n : ℤ) else n : ℤ) / 10 ^ places) text
      ↔ text = if n = 0 then "0" else (if negative then "-" else "") ++ fixedText n places := by
  have hten : (0 : ℚ) < 10 ^ places := by positivity
  by_cases hn : n = 0
  · rw [if_pos hn, hn, Nat.cast_zero, neg_zero, ite_self, Int.cast_zero, zero_div]
    exact isCanonicalDecimal_zero places text
  · have hpos : (0 : ℚ) < n := by exact_mod_cast Nat.pos_of_ne_zero hn
    rw [if_neg hn]
    cases negative with
    | true =>
      rw [if_pos rfl, if_pos rfl, Int.cast_neg, Int.cast_natCast, neg_div,
        isCanonicalDecimal_iff ((abs_neg _).trans (abs_of_pos (div_pos hpos hten))),
        if_pos (neg_neg_of_pos (div_pos hpos hten))]
    | false =>
      rw [if_neg Bool.false_ne_true, if_neg Bool.false_ne_true, Int.cast_natCast,
        isCanonicalDecimal_iff (abs_of_pos (div_pos hpos hten)),
        if_neg (div_pos hpos hten).le.not_gt]

end Reckoner
