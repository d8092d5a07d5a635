import Mathlib.Algebra.Order.Field.Power
import Mathlib.Algebra.Order.Ring.Rat
import Mathlib.Data.Rat.Cast.Order
import Mathlib.Tactic.FieldSimp
import Mathlib.Tactic.Linarith
import Mathlib.Tactic.Positivity
import Mathlib.Tactic.Ring
import Reckoner.Number.Display

/-!
# Rounding

Doubles are compared as exact rational numbers (`Binary.magnitude`). A double is `Binary.Canonical`:
of the mantissas and exponents that make up its value it has those that doubles are stored with, so
equal doubles of one sign are the same (`Binary.Canonical.eq_of_magnitude_eq`).

`roundQuotient` is the nearest integer to a quotient, and the even one of two
(`roundsToEven_roundQuotient`). In units of the last place this makes `Binary.nearest` the double
nearest to a quotient, among all doubles and those that would come with larger exponents
(`Binary.nearest_near`): the doubles with a finer last place are below the power of two that the
quotient has reached.
-/

namespace Reckoner

/-! ## Nearest integers -/

/-- The integer is nearest to a number, and even if another one is as near. -/
structure RoundsToEven (y : ℚ) (k : ℤ) : Prop where
  near : |y - k| ≤ 1 / 2
  even : |y - k| = 1 / 2 → Even k

namespace RoundsToEven

variable {y : ℚ} {j k : ℤ}

/-- Two different integers are not both closer than a half. -/
theorem one_le_of_ne (h : j ≠ k) : 1 ≤ |y - j| + |y - k| := by
  have hstep : (1 : ℚ) ≤ |(j : ℚ) - k| := by
    exact_mod_cast Int.one_le_abs (sub_ne_zero.mpr h)
  calc (1 : ℚ) ≤ |(j : ℚ) - k| := hstep
    _ ≤ |(j : ℚ) - y| + |y - k| := abs_sub_le _ _ _
    _ = |y - j| + |y - k| := by rw [abs_sub_comm]

theorem near_of (h : RoundsToEven y k) (j : ℤ) : |y - k| ≤ |y - j| := by
  by_cases heq : j = k
  · rw [heq]
  · have hnear := h.near
    have hsum := one_le_of_ne (y := y) heq
    linarith

theorem unique (hj : RoundsToEven y j) (hk : RoundsToEven y k) : j = k := by
  by_contra hne
  have hsum := one_le_of_ne (y := y) hne
  have hnear := hj.near
  have hnear' := hk.near
  obtain ⟨a, ha⟩ := hj.even (by linarith)
  obtain ⟨b, hb⟩ := hk.even (by linarith)
  -- two different even integers are too far apart
  have hapart : (2 : ℚ) ≤ |(j : ℚ) - k| := by
    have hab : a - b ≠ 0 := fun h => hne (by omega)
    have hcast : (j : ℚ) - k = 2 * ((a - b : ℤ) : ℚ) := by
      rw [ha, hb]
      push_cast
      ring
    have hone : (1 : ℚ) ≤ |((a - b : ℤ) : ℚ)| := by exact_mod_cast Int.one_le_abs hab
    rw [hcast, abs_mul, abs_two]
    linarith
  have htriangle : |(j : ℚ) - k| ≤ |(j : ℚ) - y| + |y - k| := abs_sub_le _ _ _
  rw [abs_sub_comm (j : ℚ) y] at htriangle
  linarith

/-- Rounding does not go past an integer. -/
theorem le_of_le (h : RoundsToEven y k) (hj : (j : ℚ) ≤ y) : j ≤ k := by
  by_contra! hlt
  have hstep : (k : ℚ) + 1 ≤ j := by exact_mod_cast hlt
  have hnear := (le_abs_self (y - k)).trans h.near
  linarith

theorem le_of_ge (h : RoundsToEven y k) (hj : y ≤ j) : k ≤ j := by
  by_contra! hlt
  have hstep : (j : ℚ) + 1 ≤ k := by exact_mod_cast hlt
  have hnear := (neg_abs_le (y - k)).trans' (neg_le_neg h.near)
  linarith

theorem of_int (k : ℤ) : RoundsToEven k k := by
  have hzero : |(k : ℚ) - k| = 0 := by rw [sub_self, abs_zero]
  exact ⟨by rw [hzero]; norm_num, fun htie => absurd (hzero.symm.trans htie) (by norm_num)⟩

protected theorem neg (h : RoundsToEven y k) : RoundsToEven (-y) (-k) := by
  have hdistance : |-y - (-k : ℤ)| = |y - k| := by
    rw [← abs_neg (y - k)]
    congr 1
    push_cast
    ring
  exact ⟨hdistance.trans_le h.near, fun htie => (h.even (hdistance.symm.trans htie)).neg⟩

end RoundsToEven

/-- Distances in units of another size. -/
theorem abs_div_sub_mul {s : ℚ} (hs : 0 < s) (t y : ℚ) : |t / s - y| * s = |t - y * s| := by
  rw [← abs_of_pos hs, ← abs_mul, abs_of_pos hs, sub_mul, div_mul_cancel₀ _ hs.ne']

/-- No multiple of a unit is nearer than the rounded one. -/
theorem RoundsToEven.near_of_div {s y : ℚ} {k : ℤ} (hs : 0 < s) (h : RoundsToEven (y / s) k)
    (j : ℤ) : |y - k * s| ≤ |y - j * s| := by
  rw [← abs_div_sub_mul hs, ← abs_div_sub_mul hs]
  exact mul_le_mul_of_nonneg_right (h.near_of j) hs.le

/-- For a quotient this is a matter of whole numbers. -/
theorem RoundsToEven.of_quotient {n d k : ℤ} (hd : 0 < d) (hnear : 2 * |n - k * d| ≤ d)
    (heven : 2 * |n - k * d| = d → Even k) : RoundsToEven ((n : ℚ) / d) k := by
  have hpos : (0 : ℚ) < d := by exact_mod_cast hd
  have hdistance : 2 * |(n : ℚ) / d - k| * d = (2 * |n - k * d| : ℤ) := by
    rw [mul_assoc, abs_div_sub_mul hpos]
    push_cast
    rfl
  constructor
  · have hle : 2 * |(n : ℚ) / d - k| * d ≤ 1 * d := by
      rw [hdistance, one_mul]
      exact_mod_cast hnear
    have hone := le_of_mul_le_mul_right hle hpos
    linarith
  · intro htie
    rw [htie] at hdistance
    refine heven ?_
    have hcast : ((2 * |n - k * d| : ℤ) : ℚ) = (d : ℤ) := by
      rw [← hdistance]
      ring
    exact_mod_cast hcast

theorem roundsToEven_roundQuotient (n : Nat) {d : Nat} (hd : 0 < d) :
    RoundsToEven ((n : ℚ) / d) (roundQuotient n d) := by
  have hlt : n % d < d := Nat.mod_lt n hd
  have hbelow : (n : ℤ) - (n / d : ℕ) * d = (n % d : ℕ) := by
    have hsplit : ((n / d * d + n % d : ℕ) : ℤ) = n := by exact_mod_cast Nat.div_add_mod' n d
    push_cast at hsplit ⊢
    linarith
  have habove : (n : ℤ) - (n / d + 1 : ℕ) * d = -((d - n % d : ℕ) : ℤ) := by
    rw [Nat.cast_succ, add_mul, one_mul, ← sub_sub, hbelow]
    omega
  suffices h : 2 * |(n : ℤ) - roundQuotient n d * d| ≤ d
      ∧ (2 * |(n : ℤ) - roundQuotient n d * d| = d → Even (roundQuotient n d : ℤ)) by
    simpa only [Int.cast_natCast] using
      RoundsToEven.of_quotient (Int.natCast_pos.mpr hd) h.1 h.2
  unfold roundQuotient
  dsimp only
  split
  · rw [hbelow, abs_of_nonneg (by omega)]
    exact ⟨by omega, fun _ => by omega⟩
  · split
    · rw [habove, abs_neg, abs_of_nonneg (by omega)]
      exact ⟨by omega, fun _ => by omega⟩
    · -- of the two neighbours the even one is taken
      rcases Nat.mod_two_eq_zero_or_one (n / d) with hq | hq <;> rw [hq]
      · rw [Nat.add_zero, hbelow, abs_of_nonneg (by omega)]
        exact ⟨by omega, fun _ => by exact_mod_cast Nat.even_iff.mpr hq⟩
      · rw [habove, abs_neg, abs_of_nonneg (by omega)]
        exact ⟨by omega, fun _ => by
          exact_mod_cast (Nat.odd_iff.mpr hq).add_one⟩

/-! ## Powers -/

theorem cast_twoTo (k : ℕ) : (twoTo k : ℚ) = 2 ^ k :=
  Nat.cast_pow 2 k

theorem cast_tenTo (k : ℕ) : (tenTo k : ℚ) = 10 ^ k :=
  Nat.cast_pow 10 k

theorem tenTo_pos (k : ℕ) : 0 < tenTo k :=
  Nat.pow_pos (by decide)

theorem twoTo_pos (k : ℕ) : 0 < twoTo k :=
  Nat.pow_pos (by decide)

theorem ten_zpow_pos (k : ℤ) : (0 : ℚ) < 10 ^ k :=
  zpow_pos (by norm_num) k

theorem cast_ten_pow_mul_zpow (n : ℕ) (k : ℤ) : ((10 ^ n : ℕ) : ℚ) * 10 ^ k = 10 ^ (n + k) := by
  rw [Nat.cast_pow, Nat.cast_ofNat, zpow_add₀ (by norm_num), zpow_natCast]

/-- A power of two as a quotient of natural numbers, one of which is 1. -/
theorem zpow_eq_twoTo (e : ℤ) : (2 : ℚ) ^ e = twoTo e.toNat / twoTo (-e).toNat := by
  rw [cast_twoTo, cast_twoTo, ← zpow_natCast, ← zpow_natCast, ← zpow_sub₀ two_ne_zero]
  congr 1
  omega

theorem zpow_eq_tenTo (s : ℤ) : (10 : ℚ) ^ s = tenTo s.toNat / tenTo (-s).toNat := by
  rw [cast_tenTo, cast_tenTo, ← zpow_natCast, ← zpow_natCast, ← zpow_sub₀ (by norm_num)]
  congr 1
  omega
theorem div_zpow_eq (n d : ℚ) (e : ℤ) :
    n / d / 2 ^ e = n * twoTo (-e).toNat / (d * twoTo e.toNat) := by
  rw [zpow_eq_twoTo, div_div_eq_mul_div, div_mul_eq_mul_div, div_div]

/-! ## Doubles as rational numbers -/

namespace Binary

variable {b c : Binary}

/-- The value without its sign. -/
def magnitude (b : Binary) : ℚ :=
  b.mantissa * 2 ^ b.exponent

def value (b : Binary) : ℚ :=
  if b.negative then -b.magnitude else b.magnitude

/-- A double as it is stored: the mantissa has 53 bits, and its leading bit is only missing where
the exponent could not be smaller. -/
structure Canonical (b : Binary) : Prop where
  mantissa_lt : b.mantissa < 2 ^ 53
  least_le : leastExponent ≤ b.exponent
  leading : leastExponent < b.exponent → 2 ^ 52 ≤ b.mantissa

theorem magnitude_nonneg (b : Binary) : 0 ≤ b.magnitude :=
  mul_nonneg (Nat.cast_nonneg _) (zpow_nonneg zero_le_two _)

theorem abs_value (b : Binary) : |b.value| = b.magnitude := by
  unfold value
  split
  · rw [abs_neg, abs_of_nonneg b.magnitude_nonneg]
  · exact abs_of_nonneg b.magnitude_nonneg

theorem magnitude_eq (b : Binary) : b.magnitude = b.numerator / b.denominator := by
  rw [magnitude, zpow_eq_twoTo, numerator, denominator, Nat.cast_mul, mul_div_assoc]

theorem magnitude_eq_zero_iff : b.magnitude = 0 ↔ b.mantissa = 0 := by
  simp [magnitude, zpow_ne_zero]

theorem denominator_pos (b : Binary) : 0 < b.denominator :=
  twoTo_pos _

/-- The exponent says how far the leading bits are from the point. -/
theorem Canonical.magnitude_lt (h : b.Canonical) : b.magnitude < 2 ^ (b.exponent + 53) := by
  rw [zpow_add₀ two_ne_zero, mul_comm, magnitude]
  have hm : (b.mantissa : ℚ) < 2 ^ (53 : ℤ) := by exact_mod_cast h.mantissa_lt
  exact mul_lt_mul_of_pos_right hm (zpow_pos two_pos _)

theorem Canonical.le_magnitude (h : b.Canonical) (hexp : leastExponent < b.exponent) :
    2 ^ (b.exponent + 52) ≤ b.magnitude := by
  rw [zpow_add₀ two_ne_zero, mul_comm, magnitude]
  have hm : (2 : ℚ) ^ (52 : ℤ) ≤ b.mantissa := by exact_mod_cast h.leading hexp
  exact mul_le_mul_of_nonneg_right hm (zpow_nonneg zero_le_two _)

/-- Of two doubles of the same magnitude neither has the larger exponent. -/
theorem Canonical.exponent_le (hb : b.Canonical) (hc : c.Canonical)
    (h : b.magnitude = c.magnitude) : b.exponent ≤ c.exponent := by
  by_contra! hlt
  have hleast : leastExponent < b.exponent := lt_of_le_of_lt hc.least_le hlt
  have hpow : (2 : ℚ) ^ (c.exponent + 53) ≤ 2 ^ (b.exponent + 52) :=
    zpow_le_zpow_right₀ one_le_two (by omega)
  exact absurd (hb.le_magnitude hleast) (not_le.mpr (h ▸ hc.magnitude_lt.trans_le hpow))

theorem Canonical.eq_of_magnitude_eq (hb : b.Canonical) (hc : c.Canonical)
    (hsign : b.negative = c.negative) (h : b.magnitude = c.magnitude) : b = c := by
  have hexp : b.exponent = c.exponent :=
    le_antisymm (hb.exponent_le hc h) (hc.exponent_le hb h.symm)
  have hmantissa : b.mantissa = c.mantissa := by
    rw [magnitude, magnitude, hexp] at h
    exact_mod_cast mul_right_cancel₀ (zpow_ne_zero _ two_ne_zero) h
  cases b
  cases c
  simp_all

theorem canonical_of_ofFloat {x : Float} (h : Double.ofFloat x = .finite b) : b.Canonical := by
  unfold Double.ofFloat at h
  have hfraction : x.toBits.toNat % twoTo 52 < 2 ^ 52 := Nat.mod_lt _ (twoTo_pos 52)
  have htwoTo : twoTo 52 = 2 ^ 52 := rfl
  dsimp only at h
  split at h
  · split at h <;> cases h
  · split at h <;> cases h
    · exact ⟨by dsimp only; omega, le_rfl, fun hlt => absurd hlt (lt_irrefl _)⟩
    · refine ⟨by dsimp only; omega, ?_, fun _ => by dsimp only; omega⟩
      dsimp only [leastExponent]
      omega

theorem exponent_le_of_ofFloat {x : Float} (h : Double.ofFloat x = .finite b) :
    b.exponent ≤ greatestExponent := by
  unfold Double.ofFloat at h
  have hexponent : x.toBits.toNat / twoTo 52 % twoTo 11 < 2048 := Nat.mod_lt _ (twoTo_pos 11)
  dsimp only at h
  split at h
  · split at h <;> cases h
  · split at h <;> cases h <;> dsimp only [leastExponent, greatestExponent] <;> omega

/-- Past the doubles that have a fraction all of them are integers. -/
theorem Canonical.exists_nat (h : b.Canonical) (hb : 2 ^ 53 ≤ b.magnitude) :
    ∃ n : ℕ, b.magnitude = n := by
  have hpow : (2 : ℚ) ^ (53 : ℤ) < 2 ^ (b.exponent + 53) := by
    exact_mod_cast hb.trans_lt h.magnitude_lt
  have hexp := (zpow_lt_zpow_iff_right₀ one_lt_two).mp hpow
  refine ⟨b.mantissa * 2 ^ b.exponent.toNat, ?_⟩
  rw [magnitude, Nat.cast_mul, Nat.cast_pow, ← zpow_natCast]
  congr 2
  omega

/-- A whole number above them is one above them at least. -/
theorem Canonical.add_one_le (h : b.Canonical) (hb : 2 ^ 53 ≤ b.magnitude) {k : ℕ}
    (hk : b.magnitude < k) : b.magnitude + 1 ≤ k := by
  obtain ⟨n, hn⟩ := h.exists_nat hb
  rw [hn] at hk ⊢
  exact_mod_cast hk

/-! ## The nearest double -/

section

variable {num den : ℕ} (hnum : 0 < num) (hden : 0 < den)

include hnum hden

/-- The binary logarithm of a quotient is the difference of the logarithms, or one less. -/
theorem log2_sub_spec :
    (2 : ℚ) ^ ((num.log2 : ℤ) - den.log2 - 1) ≤ num / den
      ∧ (num / den : ℚ) < 2 ^ ((num.log2 : ℤ) - den.log2 + 1) := by
  have hpos : (0 : ℚ) < den := by exact_mod_cast hden
  have hlow : ∀ {n : ℕ}, 0 < n → (2 : ℚ) ^ (n.log2 : ℤ) ≤ n := fun hn => by
    exact_mod_cast Nat.log2_self_le hn.ne'
  have hhigh : ∀ n : ℕ, (n : ℚ) < 2 ^ ((n.log2 : ℤ) + 1) := fun n => by
    exact_mod_cast @Nat.lt_log2_self n
  generalize hk : (num.log2 : ℤ) - den.log2 = k
  constructor
  · rw [le_div_iff₀ hpos]
    calc (2 : ℚ) ^ (k - 1) * den ≤ 2 ^ (k - 1) * 2 ^ ((den.log2 : ℤ) + 1) :=
          mul_le_mul_of_nonneg_left (hhigh den).le (zpow_nonneg zero_le_two _)
      _ = 2 ^ (num.log2 : ℤ) := by
        rw [← zpow_add₀ two_ne_zero]
        congr 1
        omega
      _ ≤ num := hlow hnum
  · rw [div_lt_iff₀ hpos]
    calc (num : ℚ) < 2 ^ ((num.log2 : ℤ) + 1) := hhigh num
      _ = 2 ^ (k + 1) * 2 ^ (den.log2 : ℤ) := by
        rw [← zpow_add₀ two_ne_zero]
        congr 1
        omega
      _ ≤ 2 ^ (k + 1) * den := mul_le_mul_of_nonneg_left (hlow hden) (zpow_nonneg zero_le_two _)

omit hnum in
/-- How a quotient is compared with a power of two. -/
theorem le_scaled_iff (k : ℤ) :
    den * twoTo k.toNat ≤ num * twoTo (-k).toNat ↔ (2 : ℚ) ^ k ≤ num / den := by
  have hpos : (0 : ℚ) < den := by exact_mod_cast hden
  have hpow : (0 : ℚ) < twoTo (-k).toNat := by exact_mod_cast twoTo_pos _
  rw [zpow_eq_twoTo, div_le_div_iff₀ hpow hpos, mul_comm (twoTo k.toNat : ℚ)]
  norm_cast

theorem floorLog2_spec :
    (2 : ℚ) ^ floorLog2 num den ≤ num / den ∧ (num / den : ℚ) < 2 ^ (floorLog2 num den + 1) := by
  obtain ⟨hlow, hhigh⟩ := log2_sub_spec hnum hden
  unfold floorLog2
  dsimp only
  split
  · next h => exact ⟨(le_scaled_iff hden _).mp h, hhigh⟩
  · next h =>
    rw [sub_add_cancel]
    exact ⟨hlow, not_le.mp (mt (le_scaled_iff hden _).mpr h)⟩

/-- The mantissa of the nearest double has at most 53 bits, but where it is rounded up to the next
power of two, and its leading bit is missing only among the smallest doubles. -/
theorem lastPlace_spec :
    (num / den : ℚ) / 2 ^ lastPlace num den < 2 ^ 53
      ∧ (leastExponent < lastPlace num den → 2 ^ 52 ≤ (num / den : ℚ) / 2 ^ lastPlace num den) := by
  obtain ⟨hlow, hhigh⟩ := floorLog2_spec hnum hden
  unfold lastPlace
  have hpos : ∀ e : ℤ, (0 : ℚ) < 2 ^ e := fun e => zpow_pos two_pos e
  constructor
  · rw [div_lt_iff₀ (hpos _), ← zpow_natCast, ← zpow_add₀ two_ne_zero]
    exact hhigh.trans_le (zpow_le_zpow_right₀ one_le_two (by omega))
  · intro hleast
    rw [le_div_iff₀ (hpos _), ← zpow_natCast, ← zpow_add₀ two_ne_zero]
    exact (zpow_le_zpow_right₀ one_le_two (by omega)).trans hlow

/-- The nearest double has the last place of the quotient, and the next one where the mantissa is
rounded up to a power of two. -/
theorem nearest_cases (negative : Bool) : ∃ m : ℕ,
    RoundsToEven ((num / den : ℚ) / 2 ^ lastPlace num den) m ∧
      (m ≠ 2 ^ 53 ∧ nearest negative num den = ⟨negative, m, lastPlace num den⟩ ∨
        m = 2 ^ 53 ∧ nearest negative num den = ⟨negative, 2 ^ 52, lastPlace num den + 1⟩) := by
  unfold nearest
  rw [if_neg hnum.ne']
  dsimp only
  generalize lastPlace num den = e
  generalize hm : roundQuotient (num * twoTo (-e).toNat) (den * twoTo e.toNat) = m
  have hrounds : RoundsToEven ((num / den : ℚ) / 2 ^ e) m := by
    have h := roundsToEven_roundQuotient (num * twoTo (-e).toNat)
      (Nat.mul_pos hden (twoTo_pos e.toNat))
    rw [hm, Nat.cast_mul, Nat.cast_mul, ← div_zpow_eq] at h
    exact h
  refine ⟨m, hrounds, ?_⟩
  split
  · next htop => exact .inr ⟨htop, rfl⟩
  · next hbelow => exact .inl ⟨hbelow, rfl⟩

omit hnum hden in
theorem negative_nearest (negative : Bool) (num den : ℕ) :
    (nearest negative num den).negative = negative := by
  unfold nearest
  dsimp only
  split
  · rfl
  · split <;> rfl

/-- The nearest double is a whole number of last places. -/
theorem nearest_spec (negative : Bool) :
    (nearest negative num den).Canonical ∧ ∃ m : ℕ,
      RoundsToEven ((num / den : ℚ) / 2 ^ lastPlace num den) m
        ∧ (nearest negative num den).magnitude = m * 2 ^ lastPlace num den := by
  obtain ⟨hsmall, hlead⟩ := lastPlace_spec hnum hden
  have hleast : leastExponent ≤ lastPlace num den := le_max_right _ _
  obtain ⟨m, hrounds, hnearest⟩ := nearest_cases hnum hden negative
  generalize lastPlace num den = e at hsmall hlead hleast hrounds hnearest ⊢
  have hle : (m : ℤ) ≤ (2 ^ 53 : ℕ) := hrounds.le_of_ge (by exact_mod_cast hsmall.le)
  have hge : leastExponent < e → ((2 ^ 52 : ℕ) : ℤ) ≤ m := fun hlt =>
    hrounds.le_of_le (by exact_mod_cast hlead hlt)
  rcases hnearest with ⟨hbelow, hnearest⟩ | ⟨rfl, hnearest⟩ <;> rw [hnearest]
  · exact ⟨⟨by dsimp only; omega, hleast, fun hlt => by exact_mod_cast hge hlt⟩, m, hrounds, rfl⟩
  · refine ⟨⟨by norm_num, by dsimp only; omega, fun _ => le_rfl⟩, _, hrounds, ?_⟩
    rw [magnitude, zpow_add_one₀ two_ne_zero]
    push_cast
    ring

/-- No double is closer to a quotient than the nearest one. -/
theorem nearest_near (negative : Bool) {c : Binary} (hc : c.Canonical) :
    |(num / den : ℚ) - (nearest negative num den).magnitude|
      ≤ |(num / den : ℚ) - c.magnitude| := by
  obtain ⟨-, m, hrounds, hmagnitude⟩ := nearest_spec hnum hden negative
  obtain ⟨-, hlead⟩ := lastPlace_spec hnum hden
  rw [hmagnitude]
  generalize he : lastPlace num den = e at hrounds hlead
  generalize (num / den : ℚ) = t at hrounds hlead ⊢
  have hpos : (0 : ℚ) < 2 ^ e := zpow_pos two_pos e
  -- a whole number of last places is no closer
  have hnear : ∀ j : ℤ, |t - m * 2 ^ e| ≤ |t - j * 2 ^ e| := hrounds.near_of_div hpos
  by_cases hle : e ≤ c.exponent
  · have hc : c.magnitude = ((c.mantissa * 2 ^ (c.exponent - e).toNat : ℤ) : ℚ) * 2 ^ e := by
      rw [magnitude, Int.cast_mul, Int.cast_pow, mul_assoc, Int.cast_ofNat, ← zpow_natCast,
        ← zpow_add₀ two_ne_zero]
      congr 2
      omega
    rw [hc]
    exact hnear _
  · -- the double is below the power of two that is at most the quotient
    have hlast : leastExponent < e := hc.least_le.trans_lt (not_le.mp hle)
    have hpower : (2 : ℚ) ^ 52 * 2 ^ e ≤ t := (le_div_iff₀ hpos).mp (hlead hlast)
    have hbelow : c.magnitude ≤ 2 ^ 52 * 2 ^ e := by
      refine hc.magnitude_lt.le.trans ?_
      rw [← zpow_natCast, ← zpow_add₀ two_ne_zero]
      exact zpow_le_zpow_right₀ one_le_two (by omega)
    calc |t - m * 2 ^ e| ≤ |t - (2 ^ 52 : ℤ) * 2 ^ e| := hnear _
      _ = t - 2 ^ 52 * 2 ^ e := by
        rw [Int.cast_pow, Int.cast_ofNat, abs_of_nonneg (sub_nonneg.mpr hpower)]
      _ ≤ t - c.magnitude := sub_le_sub_left hbelow t
      _ ≤ |t - c.magnitude| := le_abs_self _

end

end Binary

end Reckoner
