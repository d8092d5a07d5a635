import Reckoner.Number.Numeral
import Reckoner.Number.Shortest
import Reckoner.Proofs.Rounding

/-!
# Numbers that are read as a double

The numbers that round to a double are an interval around it (`Binary.Attracts`): half a last place
to either side, and a quarter below where the doubles get finer there, at a power of two. The ends
belong to it where the mantissa is even. This is what rounding does (`Binary.nearest_eq_iff`) and
what the search for a short decimal asks about (`Binary.readsBack_iff`), so a decimal stands for a
double exactly when the double attracts it (`Numeral.toDouble_eq_iff`). The scales for which reading
does not look at the digits are so far off that no double is near.
-/

namespace Reckoner

namespace Binary

/-- The number rounds to the magnitude of the double: in last places it is no further from the
mantissa than half the way to the neighbours, and only half the way if the mantissa is even. -/
structure Attracts (b : Binary) (y : ℚ) : Prop where
  low : b.mantissa - b.gapBelow / 4 ≤ y / 2 ^ b.exponent
  high : y / 2 ^ b.exponent ≤ b.mantissa + 1 / 2
  even : y / 2 ^ b.exponent = b.mantissa - b.gapBelow / 4 ∨
    y / 2 ^ b.exponent = b.mantissa + 1 / 2 → Even b.mantissa

section Interval

variable {b : Binary} {x y z : ℚ}

theorem gapBelow_le (b : Binary) : b.gapBelow ≤ 2 := by
  unfold gapBelow
  split <;> decide

theorem cast_gapBelow_le (b : Binary) : (b.gapBelow : ℚ) ≤ 2 := by
  exact_mod_cast b.gapBelow_le

theorem gapBelow_cases (hb : b.Canonical) :
    (b.gapBelow = 1 ∧ b.mantissa = 2 ^ 52 ∧ leastExponent < b.exponent) ∨
      (b.gapBelow = 2 ∧ (leastExponent < b.exponent → 2 ^ 52 < b.mantissa)) := by
  have hleading := hb.leading
  unfold gapBelow
  split
  · next h => exact .inl ⟨rfl, h⟩
  · next h =>
    refine .inr ⟨rfl, fun hlt => lt_of_le_of_ne (hleading hlt) fun heq => h ⟨heq.symm, hlt⟩⟩

theorem attracts_magnitude (b : Binary) : b.Attracts b.magnitude := by
  have hgap : (0 : ℚ) < b.gapBelow := by
    unfold gapBelow
    split <;> norm_num
  have hself : b.magnitude / 2 ^ b.exponent = b.mantissa :=
    mul_div_cancel_right₀ _ (zpow_ne_zero _ two_ne_zero)
  refine ⟨by linarith, by linarith, ?_⟩
  rintro (h | h) <;> linarith

/-- The numbers that a double attracts are an interval. -/
theorem Attracts.between (hx : b.Attracts x) (hz : b.Attracts z) (hxy : x ≤ y) (hyz : y ≤ z) :
    b.Attracts y := by
  have hpos : (0 : ℚ) < 2 ^ b.exponent := zpow_pos two_pos _
  have hxy := div_le_div_of_nonneg_right hxy hpos.le
  have hyz := div_le_div_of_nonneg_right hyz hpos.le
  refine ⟨hx.low.trans hxy, hyz.trans hz.high, ?_⟩
  rintro (h | h)
  · exact hx.even (.inl (le_antisymm (hxy.trans_eq h) hx.low))
  · exact hz.even (.inr (le_antisymm hz.high (h.symm.trans_le hyz)))

/-- In units of its own last place the mantissa is what an attracted number rounds to. -/
theorem Attracts.roundsToEven (h : b.Attracts y) :
    RoundsToEven (y / 2 ^ b.exponent) b.mantissa := by
  have hlow := h.low
  have hhigh := h.high
  have heven := h.even
  have hgap := b.cast_gapBelow_le
  generalize y / 2 ^ b.exponent = t at hlow hhigh heven ⊢
  have hnear : |t - b.mantissa| ≤ 1 / 2 := abs_le.mpr ⟨by linarith, by linarith⟩
  refine ⟨by exact_mod_cast hnear, fun htie => ?_⟩
  rw [Int.cast_natCast] at htie
  refine (Int.even_coe_nat _).mpr (heven ?_)
  rcases (abs_eq (by norm_num)).mp htie with habove | hbelow
  · exact .inr (by linarith)
  · exact .inl (by linarith)

/-- An odd double does not attract the ends of its interval. -/
theorem attracts_iff : b.Attracts y ↔
    if b.mantissa % 2 = 0 then
      b.mantissa - b.gapBelow / 4 ≤ y / 2 ^ b.exponent ∧ y / 2 ^ b.exponent ≤ b.mantissa + 1 / 2
    else
      b.mantissa - b.gapBelow / 4 < y / 2 ^ b.exponent ∧
        y / 2 ^ b.exponent < b.mantissa + 1 / 2 := by
  split
  · next heven =>
    exact ⟨fun h => ⟨h.low, h.high⟩, fun h => ⟨h.1, h.2, fun _ => Nat.even_iff.mpr heven⟩⟩
  · next hodd =>
    constructor
    · intro h
      exact ⟨h.low.lt_of_ne fun heq => hodd (Nat.even_iff.mp (h.even (.inl heq.symm))),
        h.high.lt_of_ne fun heq => hodd (Nat.even_iff.mp (h.even (.inr heq)))⟩
    · rintro ⟨hlow, hhigh⟩
      exact ⟨hlow.le, hhigh.le, fun hend => hend.elim (absurd · hlow.ne') (absurd · hhigh.ne)⟩

/-- The search tests the interval in whole numbers. -/
theorem readsBack_iff (hpos : 0 < b.mantissa) (c : ℕ) (scale : ℤ) :
    b.readsBack c scale = true ↔ b.Attracts (c * 10 ^ scale) := by
  have hgap := b.gapBelow_le
  have hquarter : (0 : ℚ) < (twoTo b.exponent.toNat * tenTo (-scale).toNat : ℕ) := by
    exact_mod_cast Nat.mul_pos (twoTo_pos _) (tenTo_pos _)
  have hcandidate : ((4 * c * tenTo scale.toNat * b.denominator : ℕ) : ℚ)
      = 4 * (c * 10 ^ scale / 2 ^ b.exponent)
        * (twoTo b.exponent.toNat * tenTo (-scale).toNat : ℕ) := by
    have htwo : (twoTo (-b.exponent).toNat : ℚ) ≠ 0 := by exact_mod_cast (twoTo_pos _).ne'
    have htwo' : (twoTo b.exponent.toNat : ℚ) ≠ 0 := by exact_mod_cast (twoTo_pos _).ne'
    have hten : (tenTo (-scale).toNat : ℚ) ≠ 0 := by exact_mod_cast (tenTo_pos _).ne'
    rw [zpow_eq_tenTo, zpow_eq_twoTo, denominator]
    push_cast
    field_simp
  have hlow : (((4 * b.mantissa - b.gapBelow : ℕ)) : ℚ) = 4 * (b.mantissa - b.gapBelow / 4) := by
    rw [Nat.cast_sub (by omega)]
    push_cast
    ring
  have hhigh : ((4 * b.mantissa + 2 : ℕ) : ℚ) = 4 * (b.mantissa + 1 / 2) := by
    push_cast
    ring
  rw [attracts_iff, readsBack]
  generalize twoTo b.exponent.toNat * tenTo (-scale).toNat = quarter at *
  generalize 4 * c * tenTo scale.toNat * b.denominator = candidate at *
  split <;> simp only [Bool.and_eq_true, decide_eq_true_eq]
  · rw [← Nat.cast_le (α := ℚ), ← Nat.cast_le (α := ℚ), Nat.cast_mul, Nat.cast_mul, hcandidate,
      hlow, hhigh, mul_le_mul_iff_left₀ hquarter, mul_le_mul_iff_left₀ hquarter,
      mul_le_mul_iff_right₀ (by norm_num), mul_le_mul_iff_right₀ (by norm_num)]
  · rw [← Nat.cast_lt (α := ℚ), ← Nat.cast_lt (α := ℚ), Nat.cast_mul, Nat.cast_mul, hcandidate,
      hlow, hhigh, mul_lt_mul_iff_left₀ hquarter, mul_lt_mul_iff_left₀ hquarter,
      mul_lt_mul_iff_right₀ (by norm_num), mul_lt_mul_iff_right₀ (by norm_num)]

end Interval

/-! ## Rounding to it -/

section Rounding

theorem div_zpow_mul_zpow (y : ℚ) (d e : ℤ) : y / 2 ^ e * 2 ^ (e - d) = y / 2 ^ d := by
  rw [zpow_sub₀ two_ne_zero]
  field_simp

theorem div_zpow_add_one_mul (y : ℚ) (e : ℤ) : y / 2 ^ (e + 1) * 2 = y / 2 ^ e := by
  rw [← div_zpow_mul_zpow y e (e + 1), add_sub_cancel_left, zpow_one]

variable {b : Binary} {num den : ℕ} (hb : b.Canonical) (hnum : 0 < num) (hden : 0 < den)

include hb hnum hden in
theorem attracts_of_nearest (h : nearest b.negative num den = b) : b.Attracts (num / den) := by
  obtain ⟨hsmall, hlead⟩ := lastPlace_spec hnum hden
  obtain ⟨m, hrounds, ⟨-, hnearest⟩ | ⟨rfl, hnearest⟩⟩ := nearest_cases hnum hden b.negative
  · have hmantissa : m = b.mantissa := congrArg mantissa (hnearest.symm.trans h)
    have hexponent : lastPlace num den = b.exponent := congrArg exponent (hnearest.symm.trans h)
    rw [hmantissa, hexponent] at hrounds
    rw [hexponent] at hlead
    have hnear := hrounds.near
    have heven := hrounds.even
    rw [Int.cast_natCast] at hnear heven
    obtain ⟨hlow, hhigh⟩ := abs_le.mp hnear
    rcases gapBelow_cases hb with ⟨hgap, htop, hlt⟩ | ⟨hgap, -⟩
    · have hreached := hlead hlt
      have hmantissaEven : Even b.mantissa := by rw [htop]; decide
      refine ⟨?_, by linarith, fun _ => hmantissaEven⟩
      rw [hgap, htop]
      push_cast
      linarith
    · have hhalf : (b.gapBelow : ℚ) / 4 = 1 / 2 := by rw [hgap]; norm_num
      refine ⟨by linarith, by linarith, fun hend => ?_⟩
      have htie : |(num / den : ℚ) / 2 ^ b.exponent - b.mantissa| = 1 / 2 := by
        rcases hend with hend | hend
        · rw [hend, hhalf, sub_sub_cancel_left, abs_neg, abs_of_pos (by norm_num)]
        · rw [hend, add_sub_cancel_left, abs_of_pos (by norm_num)]
      exact_mod_cast heven htie
  · -- rounded up to a power of two, below which the last place is half as large
    have hmantissa : 2 ^ 52 = b.mantissa := congrArg mantissa (hnearest.symm.trans h)
    have hexponent : lastPlace num den + 1 = b.exponent :=
      congrArg exponent (hnearest.symm.trans h)
    have hlt : leastExponent < b.exponent := by
      have hleast : leastExponent ≤ lastPlace num den := le_max_right _ _
      omega
    have hgap : b.gapBelow = 1 := by
      rw [gapBelow, if_pos ⟨hmantissa.symm, hlt⟩]
    rw [← div_zpow_add_one_mul, hexponent] at hsmall hrounds
    obtain ⟨hlow, -⟩ := abs_le.mp hrounds.near
    have hmantissaEven : Even b.mantissa := by rw [← hmantissa]; decide
    rw [Int.cast_natCast] at hlow
    refine ⟨?_, ?_, fun _ => hmantissaEven⟩
    · rw [hgap, ← hmantissa]
      push_cast at hlow ⊢
      linarith
    · rw [← hmantissa]
      push_cast
      linarith

include hb hnum hden in
/-- The last place of a number that a double attracts is that of the double, or the next smaller one
below a power of two. -/
theorem lastPlace_of_attracts (h : b.Attracts (num / den)) :
    lastPlace num den = b.exponent ∨ lastPlace num den + 1 = b.exponent ∧ b.mantissa = 2 ^ 52 ∧
      b.gapBelow = 1 := by
  obtain ⟨hsmall, hlead⟩ := lastPlace_spec hnum hden
  have hmantissa : (b.mantissa : ℚ) + 1 ≤ 2 ^ 53 := by exact_mod_cast hb.mantissa_lt
  have hlow := h.low
  have hhigh := h.high
  rw [← div_zpow_mul_zpow _ _ b.exponent] at hsmall hlead
  have hnonneg : (0 : ℚ) ≤ (num / den : ℚ) / 2 ^ b.exponent := by positivity
  generalize (num / den : ℚ) / 2 ^ b.exponent = t at hsmall hlead hlow hhigh hnonneg
  rcases lt_trichotomy (lastPlace num den) b.exponent with hlt | heq | hgt
  · have hleast : leastExponent < b.exponent := (le_max_right _ _).trans_lt hlt
    have hcoarse : ∀ k : ℕ, (k : ℤ) ≤ b.exponent - lastPlace num den → t * 2 ^ k < 2 ^ 53 :=
      fun k hk => by
        refine lt_of_le_of_lt (mul_le_mul_of_nonneg_left ?_ hnonneg) hsmall
        exact_mod_cast zpow_le_zpow_right₀ (one_le_two (α := ℚ)) hk
    rcases gapBelow_cases hb with ⟨hgap, htop, -⟩ | ⟨hgap, habove⟩
    · refine .inr ⟨?_, htop, hgap⟩
      by_contra hne
      have hfour := hcoarse 2 (by omega)
      rw [hgap, htop] at hlow
      push_cast at hlow
      linarith
    · have hstep : (2 : ℚ) ^ 52 + 1 ≤ b.mantissa := by exact_mod_cast habove hleast
      have htwo := hcoarse 1 (by omega)
      rw [hgap] at hlow
      push_cast at hlow
      linarith
  · exact .inl heq
  · -- the mantissa would have no leading bit
    have hhalf : (2 : ℚ) ^ (b.exponent - lastPlace num den) ≤ 2 ^ (-1 : ℤ) :=
      zpow_le_zpow_right₀ one_le_two (by omega)
    have hreached := hlead (hb.least_le.trans_lt hgt)
    have hle := mul_le_mul_of_nonneg_left hhalf hnonneg
    norm_num at hle
    linarith

include hb hnum hden in
theorem nearest_of_attracts (h : b.Attracts (num / den)) : nearest b.negative num den = b := by
  obtain ⟨m, hrounds, hnearest⟩ := nearest_cases hnum hden b.negative
  have hbound := hb.mantissa_lt
  rcases lastPlace_of_attracts hb hnum hden h with hplace | ⟨hplace, htop, hgap⟩
  · rw [hplace] at hrounds hnearest
    have hmantissa : m = b.mantissa := by exact_mod_cast hrounds.unique h.roundsToEven
    rw [hmantissa] at hnearest
    rcases hnearest with ⟨-, hnearest⟩ | ⟨hover, -⟩
    · exact hnearest
    · omega
  · -- below the power of two the mantissa is rounded up to it
    have hsmall := (lastPlace_spec hnum hden).1
    have hlow := h.low
    rw [hgap, htop] at hlow
    rw [← div_zpow_add_one_mul, hplace] at hsmall hrounds
    have hpower : RoundsToEven ((num / den : ℚ) / 2 ^ b.exponent * 2) (2 ^ 53 : ℕ) := by
      refine ⟨?_, fun _ => by decide⟩
      rw [abs_le]
      push_cast at hlow ⊢
      constructor <;> linarith
    have hm : m = 2 ^ 53 := by exact_mod_cast hrounds.unique hpower
    rcases hnearest with ⟨hbelow, -⟩ | ⟨-, hnearest⟩
    · exact absurd hm hbelow
    · rw [hnearest, hplace, ← htop]

include hb hnum hden in
/-- A quotient is rounded to the double that attracts it. -/
theorem nearest_eq_iff : nearest b.negative num den = b ↔ b.Attracts (num / den) :=
  ⟨attracts_of_nearest hb hnum hden, nearest_of_attracts hb hnum hden⟩

end Rounding

/-! ## Reading a decimal -/

section Decimal

variable {b : Binary} {y : ℚ}

theorem two_zpow_lt_ten_zpow : (2 : ℚ) ^ (1075 : ℤ) < 10 ^ (400 : ℤ) := by
  have hroot : (2 : ℚ) ^ (215 : ℤ) < 10 ^ (80 : ℤ) := by norm_num
  calc (2 : ℚ) ^ (1075 : ℤ) = (2 ^ (215 : ℤ)) ^ 5 := by rw [← zpow_natCast, ← zpow_mul]; rfl
    _ < (10 ^ (80 : ℤ)) ^ 5 := pow_lt_pow_left₀ hroot (zpow_nonneg zero_le_two _) (by decide)
    _ = 10 ^ (400 : ℤ) := by rw [← zpow_natCast, ← zpow_mul]; rfl

/-- The scales at which reading stops are out of the range of doubles. -/
theorem Attracts.lt_ten_zpow (h : b.Attracts y) (hb : b.Canonical)
    (hgreatest : b.exponent ≤ greatestExponent) : y < 10 ^ (400 : ℤ) := by
  have hmantissa : (b.mantissa : ℚ) + 1 ≤ 2 ^ (53 : ℤ) := by exact_mod_cast hb.mantissa_lt
  have hplace : (2 : ℚ) ^ b.exponent ≤ 2 ^ greatestExponent :=
    zpow_le_zpow_right₀ one_le_two hgreatest
  have hhigh := (div_le_iff₀ (zpow_pos two_pos _)).mp h.high
  calc y ≤ (b.mantissa + 1 / 2) * 2 ^ b.exponent := hhigh
    _ ≤ 2 ^ (53 : ℤ) * 2 ^ greatestExponent :=
      mul_le_mul (by linarith) hplace (zpow_nonneg zero_le_two _) (zpow_nonneg zero_le_two _)
    _ = 2 ^ (53 + greatestExponent) := (zpow_add₀ two_ne_zero _ _).symm
    _ ≤ 2 ^ (1075 : ℤ) := zpow_le_zpow_right₀ one_le_two (by decide)
    _ < 10 ^ (400 : ℤ) := two_zpow_lt_ten_zpow

theorem Attracts.ten_zpow_lt (h : b.Attracts y) (hb : b.Canonical) (hpos : 0 < b.mantissa) :
    10 ^ (-400 : ℤ) < y := by
  have hmantissa : (1 : ℚ) ≤ b.mantissa := by exact_mod_cast hpos
  have hgap := b.cast_gapBelow_le
  have hplace : (2 : ℚ) ^ leastExponent ≤ 2 ^ b.exponent :=
    zpow_le_zpow_right₀ one_le_two hb.least_le
  have hlow := (le_div_iff₀ (zpow_pos two_pos _)).mp h.low
  calc (10 : ℚ) ^ (-400 : ℤ) < 2 ^ (-1075 : ℤ) := by
        rw [zpow_neg, zpow_neg]
        exact inv_strictAnti₀ (zpow_pos two_pos _) two_zpow_lt_ten_zpow
    _ = 2⁻¹ * 2 ^ leastExponent := by
      rw [mul_comm, ← zpow_sub_one₀ two_ne_zero]
      rfl
    _ ≤ (b.mantissa - b.gapBelow / 4) * 2 ^ b.exponent :=
      mul_le_mul (by linarith) hplace (zpow_nonneg zero_le_two _) (by linarith)
    _ ≤ y := hlow

/-- A number that a double attracts is not so large that its digits are not read. -/
theorem Attracts.scale_le {c : ℕ} {scale : ℤ} (h : b.Attracts (c * 10 ^ scale))
    (hb : b.Canonical) (hgreatest : b.exponent ≤ greatestExponent) (hc : 0 < c) :
    scale ≤ 400 := by
  by_contra! hhuge
  refine absurd (h.lt_ten_zpow hb hgreatest) (not_lt.mpr ?_)
  calc (10 : ℚ) ^ (400 : ℤ) ≤ 1 * 10 ^ scale := by
        rw [one_mul]
        exact zpow_le_zpow_right₀ (by norm_num) hhuge.le
    _ ≤ c * 10 ^ scale :=
      mul_le_mul_of_nonneg_right (by exact_mod_cast hc) (ten_zpow_pos scale).le

/-- Nor is it so small. -/
theorem Attracts.le_scale {c : ℕ} {scale : ℤ} (h : b.Attracts (c * 10 ^ scale))
    (hb : b.Canonical) (hpos : 0 < b.mantissa) : -(400 + c.log2 : ℤ) ≤ scale := by
  by_contra! htiny
  have hdigits : c ≤ 10 ^ (c.log2 + 1) :=
    Nat.lt_log2_self.le.trans (Nat.pow_le_pow_left (by decide) _)
  refine absurd (h.ten_zpow_lt hb hpos) (not_lt.mpr ?_)
  calc (c : ℚ) * 10 ^ scale ≤ (10 ^ (c.log2 + 1) : ℕ) * 10 ^ scale :=
        mul_le_mul_of_nonneg_right (Nat.cast_le.mpr hdigits) (ten_zpow_pos scale).le
    _ = 10 ^ ((c.log2 + 1 : ℕ) + scale) := cast_ten_pow_mul_zpow _ _
    _ ≤ 10 ^ (-400 : ℤ) := zpow_le_zpow_right₀ (by norm_num) (by omega)

theorem ofBinary_eq_finite_iff {b c : Binary} (hb : b.exponent ≤ greatestExponent) :
    Double.ofBinary c = .finite b ↔ c = b := by
  unfold Double.ofBinary
  split
  · next hover =>
    refine ⟨nofun, ?_⟩
    rintro rfl
    exact absurd hb (not_le.mpr hover)
  · rw [Double.finite.injEq]

end Decimal

end Binary

open Binary in
/-- A decimal is read as a double exactly when the double attracts it. -/
theorem Numeral.toDouble_eq_iff {b : Binary} (hb : b.Canonical) (hpos : 0 < b.mantissa)
    (hgreatest : b.exponent ≤ greatestExponent) (negative : Bool) (c : ℕ) (scale : ℤ) :
    (Numeral.decimal negative c scale).toDouble = .finite b ↔
      negative = b.negative ∧ b.Attracts (c * 10 ^ scale) := by
  rw [toDouble]
  split
  · next htiny =>
    constructor
    · intro h
      rw [← Double.finite.inj h] at hpos
      exact absurd hpos (lt_irrefl 0)
    · rintro ⟨-, h⟩
      rcases htiny with rfl | htiny
      · have hlarge := h.ten_zpow_lt hb hpos
        rw [Nat.cast_zero, zero_mul] at hlarge
        exact absurd hlarge (ten_zpow_pos _).le.not_gt
      · exact absurd htiny (h.le_scale hb hpos).not_gt
  · next hnot =>
    have hc : 0 < c := Nat.pos_of_ne_zero fun hzero => hnot (.inl hzero)
    split
    · next hhuge => exact ⟨nofun, fun ⟨_, h⟩ => absurd hhuge (h.scale_le hb hgreatest hc).not_gt⟩
    · have hquotient : (c * 10 ^ scale : ℚ)
          = (c * tenTo scale.toNat : ℕ) / (tenTo (-scale).toNat : ℕ) := by
        rw [zpow_eq_tenTo, Nat.cast_mul, mul_div_assoc]
      rw [ofBinary_eq_finite_iff hgreatest, hquotient,
        ← nearest_eq_iff hb (Nat.mul_pos hc (tenTo_pos _)) (tenTo_pos _)]
      constructor
      · intro h
        have hsign : negative = b.negative := by rw [← h, negative_nearest]
        exact ⟨hsign, hsign ▸ h⟩
      · rintro ⟨rfl, h⟩
        exact h

end Reckoner
