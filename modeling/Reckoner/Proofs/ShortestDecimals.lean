import Mathlib.Algebra.Order.Group.Pointwise.Interval
import Mathlib.Data.List.DropRight
import Mathlib.Data.Nat.Digits.Defs
import Reckoner.Proofs.Decimals
import Reckoner.Proofs.ReadingBack

/-!
# Shortest decimals

`Binary.shortest` finds a decimal that reads back as the double, with as few digits as any that
does, and of those the nearest to it (`Binary.isShortest_shortest`).

The search goes from one grid of decimals to the next finer one. On a grid only the neighbours of
the double are tried. That is enough, since the numbers that read back form an interval around it
(`Binary.onGrid?_spec`). A decimal with few digits is on the grid with as many, or else it is below
the first power of ten there, which is as close (`Binary.exists_near_on_grid`). On the grid of
seventeen digits one of the neighbours is near enough (`Binary.exists_attracted_seventeen`).
-/

namespace Reckoner

/-! ## Digits -/

/-- How many digits a positive number has. -/
theorem length_toDigits_spec {n : ℕ} (hn : 0 < n) :
    ∃ k, (Nat.toDigits 10 n).length = k + 1 ∧ 10 ^ k ≤ n ∧ n < 10 ^ (k + 1) := by
  obtain ⟨k, hk⟩ := Nat.exists_eq_add_one.mpr (Nat.length_toDigits_pos (b := 10) (n := n))
  refine ⟨k, hk, ?_, (Nat.length_toDigits_le_iff (by decide) k.succ_pos).mp hk.le⟩
  by_contra! hlt
  have hpos : 0 < k := Nat.pos_of_ne_zero fun hzero => by
    rw [hzero, Nat.pow_zero] at hlt
    omega
  have hle := (Nat.length_toDigits_le_iff (by decide) hpos).mpr hlt
  omega

theorem leadingExponent_spec {num den : ℕ} (hnum : 0 < num) (hden : 0 < den) :
    (10 : ℚ) ^ leadingExponent num den ≤ num / den
      ∧ (num / den : ℚ) < 10 ^ (leadingExponent num den + 1) := by
  have hpos : (0 : ℚ) < den := by exact_mod_cast hden
  unfold leadingExponent
  split
  · next hle =>
    obtain ⟨k, hk, hlow, hhigh⟩ := length_toDigits_spec (Nat.div_pos hle hden)
    rw [Nat.le_div_iff_mul_le hden] at hlow
    rw [Nat.div_lt_iff_lt_mul hden] at hhigh
    rw [hk, Nat.cast_succ, add_sub_cancel_right, le_div_iff₀ hpos, div_lt_iff₀ hpos]
    exact ⟨by exact_mod_cast hlow, by exact_mod_cast hhigh⟩
  · next hlt =>
    obtain ⟨k, hk, hlow, hhigh⟩ :=
      length_toDigits_spec (Nat.div_pos (by omega : num ≤ den - 1) hnum)
    rw [Nat.le_div_iff_mul_le hnum] at hlow
    rw [Nat.div_lt_iff_lt_mul hnum] at hhigh
    have hlow' : (10 : ℚ) ^ k * num < den := by exact_mod_cast (by omega : 10 ^ k * num < den)
    have hhigh' : (den : ℚ) ≤ 10 ^ (k + 1) * num := by
      exact_mod_cast (by omega : den ≤ 10 ^ (k + 1) * num)
    have hshift : -((k + 1 : ℕ) : ℤ) + 1 = -(k : ℤ) := by omega
    rw [hk, hshift, zpow_neg, zpow_neg, zpow_natCast, zpow_natCast, le_div_iff₀ hpos,
      inv_mul_le_iff₀ (by positivity), div_lt_iff₀ hpos, lt_inv_mul_iff₀ (by positivity)]
    exact ⟨hhigh', hlow'⟩

namespace Decimal

/-- The number that a decimal writes. -/
def value (d : Decimal) : ℚ :=
  d.digits * 10 ^ d.scale

/-- The digits that count: zeros at the end do not. -/
def length (d : Decimal) : ℕ :=
  d.significant.1.length

theorem significant_eq (d : Decimal) :
    d.significant.1 = (Nat.toDigits 10 d.digits).rdropWhile (· == '0') :=
  rfl

theorem isDigit_of_mem_significant {d : Decimal} {c : Char} (h : c ∈ d.significant.1) :
    c.isDigit = true :=
  Nat.isDigit_of_mem_toDigits (by decide) (by decide) ((List.rdropWhile_prefix _ _).subset h)

/-- A decimal is determined by the digits that count and the power of ten of the first. -/
theorem value_eq_significant (d : Decimal) :
    d.value = Nat.ofDigitChars 10 d.significant.1 0 * 10 ^ (d.significant.2 + 1 - d.length) := by
  obtain ⟨z, hz⟩ := exists_append_zeros (Nat.toDigits 10 d.digits)
  rw [← significant_eq] at hz
  have hdigits : d.digits = 10 ^ z * Nat.ofDigitChars 10 d.significant.1 0 := by
    rw [← Nat.ofDigitChars_replicate_zero, ← Nat.ofDigitChars_append, ← hz,
      Nat.ofDigitChars_ten_toDigits]
  have hlast : d.significant.2 + 1 - d.length = z + d.scale := by
    have hlength := congrArg List.length hz
    rw [List.length_append, List.length_replicate] at hlength
    have htop : d.significant.2 = d.scale + (Nat.toDigits 10 d.digits).length - 1 := rfl
    rw [htop, hlength, length]
    push_cast
    ring
  rw [value, hlast, zpow_add₀ (by norm_num), zpow_natCast, hdigits]
  push_cast
  ring

theorem significant_lt (d : Decimal) :
    Nat.ofDigitChars 10 d.significant.1 0 < 10 ^ d.length := by
  have hzero := ofDigitChars_div (fun c hc => isDigit_of_mem_significant (d := d) hc) 0
  exact (Nat.div_eq_zero_iff_lt (by positivity)).mp hzero

/-- Powers of ten have one digit. -/
theorem rdropWhile_toDigits_pow (n : ℕ) :
    (Nat.toDigits 10 (10 ^ n)).rdropWhile (· == '0') = ['1'] := by
  induction n with
  | zero => decide
  | succ n ih =>
    have hle : 10 ≤ 10 ^ (n + 1) := Nat.le_self_pow n.succ_ne_zero 10
    rw [Nat.toDigits_of_base_le (by decide) hle, Nat.pow_succ, Nat.mul_mod_left,
      Nat.mul_div_cancel _ (by decide), List.rdropWhile_concat_pos _ _ _ (by decide), ih]

theorem length_le {d : Decimal} {n : ℕ} (h : d.digits ≤ 10 ^ (n + 1)) : d.length ≤ n + 1 := by
  rw [length, significant_eq]
  rcases h.lt_or_eq with hlt | heq
  · exact (List.rdropWhile_prefix _ _).length_le.trans
      ((Nat.length_toDigits_le_iff (by decide) n.succ_pos).mpr hlt)
  · rw [heq, rdropWhile_toDigits_pow]
    exact Nat.le_add_left 1 n

/-- The decimal reads back as the double. -/
def ReadsAs (d : Decimal) (b : Binary) : Prop :=
  (Numeral.decimal b.negative d.digits d.scale).toDouble = .finite b

theorem readsAs_iff {d : Decimal} {b : Binary} (hb : b.Canonical) (hpos : 0 < b.mantissa)
    (hgreatest : b.exponent ≤ Binary.greatestExponent) : d.ReadsAs b ↔ b.Attracts d.value := by
  rw [ReadsAs, Numeral.toDouble_eq_iff hb hpos hgreatest, value]
  exact and_iff_right rfl

end Decimal

namespace Binary

/-! ## One grid -/

section Grid

variable {b : Binary} {scale : ℤ}

theorem Attracts.pos {y : ℚ} (h : b.Attracts y) (hb : b.Canonical) (hpos : 0 < b.mantissa) :
    0 < y :=
  (ten_zpow_pos _).trans (h.ten_zpow_lt hb hpos)

/-- What lies between a number and the double is as near as the number. -/
theorem near_of_between {x v y : ℚ} (h : y ≤ v ∧ v ≤ x ∨ x ≤ v ∧ v ≤ y) : |v - y| ≤ |x - y| :=
  Set.abs_sub_left_of_mem_uIcc (Set.mem_uIcc.mpr h)

theorem mul_ten_zpow_le {m n : ℕ} (h : m ≤ n) (scale : ℤ) :
    (m * 10 ^ scale : ℚ) ≤ n * 10 ^ scale :=
  mul_le_mul_of_nonneg_right (by exact_mod_cast h) (ten_zpow_pos scale).le

theorem magnitude_div_ten_zpow (b : Binary) (scale : ℤ) :
    b.magnitude / 10 ^ scale = (b.numerator * tenTo (-scale).toNat : ℕ)
      / (b.denominator * tenTo scale.toNat : ℕ) := by
  rw [magnitude_eq, zpow_eq_tenTo, Nat.cast_mul, Nat.cast_mul, div_div_eq_mul_div,
    div_mul_eq_mul_div, div_div]

/-- A number is one of the two neighbours of the double on a grid, and the other one is the next. -/
structure BelowOnGrid (b : Binary) (scale : ℤ) (n : ℕ) : Prop where
  low : n * 10 ^ scale ≤ b.magnitude
  high : b.magnitude < (n + 1 : ℕ) * 10 ^ scale

theorem belowOnGrid_div (b : Binary) (scale : ℤ) : BelowOnGrid b scale
    (b.numerator * tenTo (-scale).toNat / (b.denominator * tenTo scale.toNat)) := by
  have hten := ten_zpow_pos scale
  have hden : 0 < b.denominator * tenTo scale.toNat :=
    Nat.mul_pos b.denominator_pos (tenTo_pos _)
  have hquotient := magnitude_div_ten_zpow b scale
  generalize b.numerator * tenTo (-scale).toNat = num at *
  generalize b.denominator * tenTo scale.toNat = den at *
  have hpos : (0 : ℚ) < den := by exact_mod_cast hden
  constructor
  · rw [← le_div_iff₀ hten, hquotient, le_div_iff₀ hpos]
    exact_mod_cast Nat.div_mul_le_self num den
  · rw [← div_lt_iff₀ hten, hquotient, div_lt_iff₀ hpos]
    rw [mul_comm]
    exact_mod_cast Nat.lt_mul_div_succ num hden

namespace BelowOnGrid

variable {n c : ℕ} (h : BelowOnGrid b scale n)

include h

theorem between_of_le (hc : c ≤ n) :
    (c * 10 ^ scale : ℚ) ≤ n * 10 ^ scale ∧ n * 10 ^ scale ≤ b.magnitude :=
  ⟨mul_ten_zpow_le hc scale, h.low⟩

theorem between_of_lt (hc : n < c) : b.magnitude ≤ (n + 1 : ℕ) * 10 ^ scale ∧
    ((n + 1 : ℕ) * 10 ^ scale : ℚ) ≤ c * 10 ^ scale :=
  ⟨h.high.le, mul_ten_zpow_le hc scale⟩

/-- If some decimal of the grid is attracted, so is the neighbour on its side. -/
theorem attracts_of_le (hc : c ≤ n) (hattracts : b.Attracts (c * 10 ^ scale)) :
    b.Attracts (n * 10 ^ scale) :=
  hattracts.between b.attracts_magnitude (h.between_of_le hc).1 (h.between_of_le hc).2

theorem attracts_of_lt (hc : n < c) (hattracts : b.Attracts (c * 10 ^ scale)) :
    b.Attracts ((n + 1 : ℕ) * 10 ^ scale) :=
  b.attracts_magnitude.between hattracts (h.between_of_lt hc).1 (h.between_of_lt hc).2

end BelowOnGrid

/-- A grid on which some decimal reads back is not given up. -/
theorem exists_onGrid? (hpos : 0 < b.mantissa) {c : ℕ} (h : b.Attracts (c * 10 ^ scale)) :
    ∃ d, b.onGrid? scale = some d := by
  have hbelow := belowOnGrid_div b scale
  unfold onGrid?
  dsimp only
  generalize b.numerator * tenTo (-scale).toNat / (b.denominator * tenTo scale.toNat) = n at *
  split
  · exact ⟨_, rfl⟩
  · exact ⟨_, rfl⟩
  · exact ⟨_, rfl⟩
  · next hlow hhigh =>
    rcases le_or_gt c n with hc | hc
    · rw [(readsBack_iff hpos _ _).mpr (hbelow.attracts_of_le hc h)] at hlow
      cases hlow
    · rw [(readsBack_iff hpos _ _).mpr (hbelow.attracts_of_lt hc h)] at hhigh
      cases hhigh

/-- What is found on a grid reads back, and nothing on the grid that does is nearer. -/
theorem onGrid?_spec (hpos : 0 < b.mantissa) {d : Decimal} (h : b.onGrid? scale = some d) :
    d.scale = scale ∧ b.Attracts d.value ∧ d.value ≤ b.magnitude + 10 ^ scale ∧
      ∀ c : ℕ, b.Attracts (c * 10 ^ scale) →
        |d.value - b.magnitude| ≤ |c * 10 ^ scale - b.magnitude| := by
  have hten := ten_zpow_pos scale
  have hbelow := belowOnGrid_div b scale
  have hrounds := roundsToEven_roundQuotient (b.numerator * tenTo (-scale).toNat)
    (Nat.mul_pos b.denominator_pos (tenTo_pos scale.toNat))
  rw [← magnitude_div_ten_zpow] at hrounds
  unfold onGrid? at h
  dsimp only at h
  generalize b.numerator * tenTo (-scale).toNat / (b.denominator * tenTo scale.toNat) = n at *
  generalize roundQuotient _ _ = r at *
  have hnext : ((n + 1 : ℕ) * 10 ^ scale : ℚ) ≤ b.magnitude + 10 ^ scale := by
    rw [Nat.cast_succ, add_mul, one_mul]
    exact add_le_add_left hbelow.low _
  split at h
  · next hlow hhigh =>
    cases h
    have hle : n ≤ r := by
      exact_mod_cast hrounds.le_of_le (j := n) ((le_div_iff₀ hten).mpr hbelow.low)
    have hge : r ≤ n + 1 := by
      exact_mod_cast hrounds.le_of_ge (j := (n + 1 : ℕ)) ((div_le_iff₀ hten).mpr hbelow.high.le)
    refine ⟨rfl, ?_, (mul_ten_zpow_le hge scale).trans hnext, fun c _ => ?_⟩
    · exact ((readsBack_iff hpos _ _).mp hlow).between ((readsBack_iff hpos _ _).mp hhigh)
        (mul_ten_zpow_le hle scale) (mul_ten_zpow_le hge scale)
    · rw [abs_sub_comm, abs_sub_comm (c * 10 ^ scale : ℚ)]
      exact_mod_cast hrounds.near_of_div hten c
  · next hlow hhigh =>
    cases h
    refine ⟨rfl, (readsBack_iff hpos _ _).mp hlow, hbelow.low.trans (by linarith), fun c hc => ?_⟩
    rcases le_or_gt c n with hle | hlt
    · exact near_of_between (.inr (hbelow.between_of_le hle))
    · rw [(readsBack_iff hpos _ _).mpr (hbelow.attracts_of_lt hlt hc)] at hhigh
      cases hhigh
  · next hlow hhigh =>
    cases h
    refine ⟨rfl, (readsBack_iff hpos _ _).mp hhigh, hnext, fun c hc => ?_⟩
    rcases le_or_gt c n with hle | hlt
    · rw [(readsBack_iff hpos _ _).mpr (hbelow.attracts_of_le hle hc)] at hlow
      cases hlow
    · exact near_of_between (.inl (hbelow.between_of_lt hlt))
  · cases h

end Grid

/-! ## From one grid to the next -/

section Search

variable {b : Binary} {top : ℤ}

/-- A decimal with few digits is on the grid with as many, or too small for it. -/
theorem exists_near_on_grid (htop : 10 ^ top ≤ b.magnitude) {c n : ℕ} {scale : ℤ}
    (hc : c < 10 ^ (n + 1)) (h : b.Attracts (c * 10 ^ scale)) :
    ∃ c' : ℕ, b.Attracts (c' * 10 ^ (top - n)) ∧
      |c' * 10 ^ (top - n) - b.magnitude| ≤ |c * 10 ^ scale - b.magnitude| := by
  rcases le_or_gt (top - n) scale with hcoarse | hfine
  · have hsame : ((c * 10 ^ (scale - (top - n)).toNat : ℕ) : ℚ) * 10 ^ (top - n)
        = c * 10 ^ scale := by
      rw [Nat.cast_mul, mul_assoc, cast_ten_pow_mul_zpow]
      congr 2
      omega
    exact ⟨_, hsame ▸ h, hsame ▸ le_rfl⟩
  · have hpower : ((10 ^ n : ℕ) : ℚ) * 10 ^ (top - n) = 10 ^ top := by
      rw [cast_ten_pow_mul_zpow, add_sub_cancel]
    have hbelow : (c * 10 ^ scale : ℚ) ≤ 10 ^ top := by
      calc (c * 10 ^ scale : ℚ) ≤ (10 ^ (n + 1) : ℕ) * 10 ^ scale := mul_ten_zpow_le hc.le scale
        _ = 10 ^ ((n + 1 : ℕ) + scale) := cast_ten_pow_mul_zpow _ _
        _ ≤ 10 ^ top := zpow_le_zpow_right₀ (by norm_num) (by omega)
    refine ⟨10 ^ n, ?_, ?_⟩ <;> rw [hpower]
    · exact h.between b.attracts_magnitude hbelow htop
    · exact near_of_between (.inr ⟨hbelow, htop⟩)

theorem exists_near_of_length_le (htop : 10 ^ top ≤ b.magnitude) {d : Decimal} {n : ℕ}
    (hlength : d.length ≤ n + 1) (h : b.Attracts d.value) :
    ∃ c : ℕ, b.Attracts (c * 10 ^ (top - n)) ∧
      |c * 10 ^ (top - n) - b.magnitude| ≤ |d.value - b.magnitude| := by
  rw [d.value_eq_significant] at h ⊢
  have hlt := d.significant_lt.trans_le (Nat.pow_le_pow_right (by decide : 0 < 10) hlength)
  exact exists_near_on_grid htop hlt h

/-- A number is attracted when its distance is half a unit in the seventeenth digit or less. -/
theorem attracts_of_near (hb : b.Canonical) {z : ℚ}
    (h : |z - b.magnitude| * (2 * 10 ^ 16) ≤ b.magnitude) : b.Attracts z := by
  have hplace : (0 : ℚ) < 2 ^ b.exponent := zpow_pos two_pos _
  have hscaled : |z / 2 ^ b.exponent - b.mantissa| * (2 * 10 ^ 16) ≤ b.mantissa := by
    refine le_of_mul_le_mul_right ?_ hplace
    rw [mul_right_comm, abs_div_sub_mul hplace]
    exact h
  have hmantissa : (b.mantissa : ℚ) + 1 ≤ 2 ^ 53 := by exact_mod_cast hb.mantissa_lt
  generalize ht : z / 2 ^ b.exponent = t at hscaled
  have hnear : |t - b.mantissa| < b.gapBelow / 4 := by
    rcases gapBelow_cases hb with ⟨hgap, htop, -⟩ | ⟨hgap, -⟩
    · rw [htop] at hscaled
      rw [hgap, htop]
      norm_num at hscaled ⊢
      linarith
    · rw [hgap]
      norm_num at hmantissa hscaled ⊢
      linarith
  have hgap := b.cast_gapBelow_le
  obtain ⟨hlow, hhigh⟩ := abs_lt.mp hnear
  refine ⟨by linarith, by linarith, ?_⟩
  rintro (hend | hend) <;> linarith

/-- Seventeen digits are always enough. -/
theorem exists_attracted_seventeen (hb : b.Canonical) (htop : 10 ^ top ≤ b.magnitude) :
    ∃ c : ℕ, b.Attracts (c * 10 ^ (top - 16)) := by
  have hten := ten_zpow_pos (top - 16)
  have hrounds := roundsToEven_roundQuotient (b.numerator * tenTo (-(top - 16)).toNat)
    (Nat.mul_pos b.denominator_pos (tenTo_pos (top - 16).toNat))
  rw [← magnitude_div_ten_zpow] at hrounds
  generalize roundQuotient _ _ = c at hrounds
  refine ⟨c, attracts_of_near hb ?_⟩
  have hnear := mul_le_mul_of_nonneg_right hrounds.near hten.le
  rw [abs_div_sub_mul hten, abs_sub_comm] at hnear
  have hunit : ((10 ^ 16 : ℕ) : ℚ) * 10 ^ (top - 16) = 10 ^ top := by
    rw [cast_ten_pow_mul_zpow, Nat.cast_ofNat, add_sub_cancel]
  rw [← hunit] at htop
  push_cast at hnear htop
  linarith

theorem of_findSome?_range {α : Type} {f : ℕ → Option α} {N : ℕ} {d : α}
    (h : (List.range N).findSome? f = some d) :
    ∃ n < N, f n = some d ∧ ∀ m < n, f m = none := by
  induction N with
  | zero => cases h
  | succ N ih =>
    rw [List.range_succ, List.findSome?_append] at h
    cases hfront : (List.range N).findSome? f with
    | some d' =>
      rw [hfront] at h
      obtain ⟨n, hn, hspec⟩ := ih (hfront.trans h)
      exact ⟨n, by omega, hspec⟩
    | none =>
      rw [hfront] at h
      refine ⟨N, Nat.lt_succ_self N, by simpa using h, fun m hm => ?_⟩
      exact List.findSome?_eq_none_iff.mp hfront m (List.mem_range.mpr hm)

/-- The search ends at the first grid on which something reads back. -/
theorem shortest_spec (hb : b.Canonical) (hpos : 0 < b.mantissa) : ∃ (top : ℤ) (n : ℕ),
    10 ^ top ≤ b.magnitude ∧ b.magnitude < 10 ^ (top + 1) ∧
      b.onGrid? (top - n) = some b.shortest ∧ ∀ m < n, b.onGrid? (top - m) = none := by
  have hnum : 0 < b.numerator := Nat.mul_pos hpos (twoTo_pos _)
  obtain ⟨hlow, hhigh⟩ := leadingExponent_spec hnum b.denominator_pos
  rw [← magnitude_eq] at hlow hhigh
  rw [shortest]
  generalize leadingExponent b.numerator b.denominator = top at *
  cases hfound : (List.range 17).findSome? fun (n : ℕ) => b.onGrid? (top - n) with
  | some d =>
    obtain ⟨n, -, hn, hfirst⟩ := of_findSome?_range hfound
    exact ⟨top, n, hlow, hhigh, hn, hfirst⟩
  | none =>
    obtain ⟨c, hc⟩ := exists_attracted_seventeen hb hlow
    obtain ⟨d, hd⟩ := exists_onGrid? hpos hc
    have hnone := List.findSome?_eq_none_iff.mp hfound 16 (by decide)
    rw [Nat.cast_ofNat, hd] at hnone
    cases hnone

end Search

/-- A decimal reads back as the double, none does so with fewer digits, and none with as few is
nearer to it. -/
structure IsShortest (b : Binary) (d : Decimal) : Prop where
  reads : d.ReadsAs b
  length_le : ∀ d' : Decimal, d'.ReadsAs b → d.length ≤ d'.length
  near : ∀ d' : Decimal, d'.ReadsAs b → d'.length ≤ d.length →
    |d.value - b.magnitude| ≤ |d'.value - b.magnitude|

theorem isShortest_shortest {b : Binary} (hb : b.Canonical) (hpos : 0 < b.mantissa)
    (hgreatest : b.exponent ≤ greatestExponent) : b.IsShortest b.shortest := by
  have hreads := fun d : Decimal => d.readsAs_iff hb hpos hgreatest
  obtain ⟨top, n, hlow, hhigh, hfound, hfirst⟩ := shortest_spec hb hpos
  obtain ⟨hscale, hattracts, hvalue, hnear⟩ := onGrid?_spec hpos hfound
  have hlength : b.shortest.length ≤ n + 1 := by
    have hten := ten_zpow_pos (top - n)
    have hunit : ((10 ^ (n + 1) : ℕ) : ℚ) * 10 ^ (top - n) = 10 ^ (top + 1) := by
      rw [cast_ten_pow_mul_zpow]
      congr 1
      omega
    have hlt : (b.shortest.digits : ℚ) * 10 ^ (top - n)
        < ((10 ^ (n + 1) : ℕ) + 1) * 10 ^ (top - n) := by
      rw [Decimal.value, hscale] at hvalue
      linarith
    refine Decimal.length_le (Nat.lt_succ_iff.mp ?_)
    exact_mod_cast lt_of_mul_lt_mul_right hlt hten.le
  refine ⟨(hreads _).mpr hattracts, fun d hd => ?_, fun d hd hle => ?_⟩
  · by_contra! hlt
    rcases n with _ | n
    · have hzero := d.significant_lt
      rw [Nat.lt_one_iff.mp (by omega : d.length < 1), Nat.pow_zero, Nat.lt_one_iff] at hzero
      have hvalue := ((hreads d).mp hd).pos hb hpos
      rw [d.value_eq_significant, hzero, Nat.cast_zero, zero_mul] at hvalue
      exact absurd hvalue (lt_irrefl 0)
    · have hshorter : d.length ≤ n + 1 := by omega
      obtain ⟨c, hc, -⟩ := exists_near_of_length_le hlow hshorter ((hreads d).mp hd)
      obtain ⟨d', hd'⟩ := exists_onGrid? hpos hc
      rw [hfirst n n.lt_succ_self] at hd'
      cases hd'
  · obtain ⟨c, hc, hcloser⟩ :=
      exists_near_of_length_le hlow (hle.trans hlength) ((hreads d).mp hd)
    exact (hnear c hc).trans hcloser

end Binary

end Reckoner
