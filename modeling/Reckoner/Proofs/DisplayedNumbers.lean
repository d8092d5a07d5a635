import Reckoner.Proofs.Decimals
import Reckoner.Proofs.Rounding

/-!
# Displayed numbers

A number is on display after two roundings: its value is rounded to a decimal, the decimal to a
double, and the double to the same number of places again. The second decimal is the first one
(`Binary.unitsAt_roundTo`). The double is the nearest one to the first decimal, and the number
itself is a double too, so the double is no further away from the decimal than the number was, which
is half a unit at most. Where it is half a unit away, so was the number, and the tie has made the
decimal even.

What is printed is therefore the canonical decimal of the number rounded once
(`displayNumber_canonical`). From 10^16 on doubles are whole numbers and stay as they are; rounding
does not bring a smaller number there (`Binary.magnitude_roundTo_lt`).
-/

namespace Reckoner

namespace Binary

/-! ## Rounding twice -/

section

variable {b : Binary} (places : ℕ)

theorem roundsToEven_unitsAt (b : Binary) :
    RoundsToEven (b.magnitude * tenTo places) (b.unitsAt places) := by
  have h := roundsToEven_roundQuotient (b.numerator * tenTo places) b.denominator_pos
  rw [Nat.cast_mul, mul_div_right_comm, ← magnitude_eq] at h
  exact h

theorem roundTo_of_unitsAt_eq_zero (h : b.unitsAt places = 0) :
    b.roundTo places = ⟨b.negative, 0, leastExponent⟩ := by
  rw [roundTo, h]
  rfl

/-- The double on display is as close to the decimal as the number itself. -/
theorem roundTo_near (hb : b.Canonical) :
    |(b.roundTo places).magnitude * tenTo places - b.unitsAt places|
      ≤ |b.magnitude * tenTo places - b.unitsAt places| := by
  rcases Nat.eq_zero_or_pos (b.unitsAt places) with hzero | hpos
  · rw [roundTo_of_unitsAt_eq_zero places hzero, hzero, magnitude_eq_zero_iff.mpr rfl, zero_mul,
      Nat.cast_zero, sub_zero, abs_zero]
    exact abs_nonneg _
  · have hten : (0 : ℚ) < tenTo places := by exact_mod_cast tenTo_pos places
    rw [abs_sub_comm, abs_sub_comm (b.magnitude * _), ← abs_div_sub_mul hten,
      ← abs_div_sub_mul hten]
    exact mul_le_mul_of_nonneg_right (nearest_near hpos (tenTo_pos places) b.negative hb) hten.le

/-- The decimal that is rounded to a double is the one that the double is rounded to. -/
theorem unitsAt_roundTo (hb : b.Canonical) :
    (b.roundTo places).unitsAt places = b.unitsAt places := by
  have hfirst := roundsToEven_unitsAt places b
  have hnear := roundTo_near places hb
  have hsecond : RoundsToEven ((b.roundTo places).magnitude * tenTo places)
      (b.unitsAt places) :=
    ⟨hnear.trans hfirst.near, fun htie =>
      hfirst.even (hfirst.near.antisymm (htie.symm.trans_le hnear))⟩
  exact_mod_cast (roundsToEven_unitsAt places _).unique hsecond

theorem mantissa_roundTo_eq_zero_iff (hb : b.Canonical) :
    (b.roundTo places).mantissa = 0 ↔ b.unitsAt places = 0 := by
  constructor
  · intro h
    rw [← unitsAt_roundTo places hb, unitsAt, numerator, h]
    simp [roundQuotient]
  · intro h
    rw [roundTo_of_unitsAt_eq_zero places h]

theorem negative_roundTo (b : Binary) : (b.roundTo places).negative = b.negative :=
  negative_nearest b.negative _ _

theorem isHuge_iff (b : Binary) : b.isHuge = true ↔ 10 ^ 16 ≤ b.magnitude := by
  have hpos : (0 : ℚ) < b.denominator := by exact_mod_cast b.denominator_pos
  rw [isHuge, decide_eq_true_iff, magnitude_eq, le_div_iff₀ hpos, ← cast_tenTo]
  norm_cast

theorem unitsAt_of_magnitude_eq {n : ℕ} (h : b.magnitude = n) :
    b.unitsAt places = n * tenTo places := by
  have hrounds := roundsToEven_unitsAt places b
  rw [h] at hrounds
  have hwhole := RoundsToEven.of_int (n * tenTo places : ℕ)
  rw [Int.cast_natCast, Nat.cast_mul] at hwhole
  exact_mod_cast hrounds.unique hwhole

/-- Where all doubles are integers, nothing is left to be rounded. -/
theorem roundTo_eq_self (hb : b.Canonical) (hlarge : 10 ^ 16 ≤ b.magnitude) :
    b.roundTo places = b := by
  obtain ⟨n, hn⟩ := hb.exists_nat (le_trans (by norm_num) hlarge)
  have hten := tenTo_pos places
  have hunits := unitsAt_of_magnitude_eq places hn
  have hpos : 0 < b.unitsAt places := by
    have hn0 : (0 : ℚ) < n := hn ▸ lt_of_lt_of_le (by norm_num) hlarge
    rw [hunits]
    exact Nat.mul_pos (by exact_mod_cast hn0) hten
  have hnear := roundTo_near places hb
  rw [hunits, hn, Nat.cast_mul, sub_self, abs_zero, ← sub_mul] at hnear
  have hmagnitude : (b.roundTo places).magnitude = n :=
    sub_eq_zero.mp ((mul_eq_zero.mp (abs_nonpos_iff.mp hnear)).resolve_right
      (Nat.cast_ne_zero.mpr hten.ne'))
  exact (nearest_spec hpos hten b.negative).1.eq_of_magnitude_eq hb (negative_roundTo places b)
    (hmagnitude.trans hn.symm)

/-- Rounding does not reach 10^16 from below: there the doubles are whole numbers too. -/
theorem magnitude_roundTo_lt (hb : b.Canonical) (hsmall : b.magnitude < 10 ^ 16) :
    (b.roundTo places).magnitude < 10 ^ 16 := by
  by_contra! hreach
  have hten : (1 : ℚ) ≤ tenTo places := by exact_mod_cast tenTo_pos places
  have hfirst : |b.magnitude * tenTo places - b.unitsAt places| ≤ 1 / 2 := by
    exact_mod_cast (roundsToEven_unitsAt places b).near
  have hsecond := (roundTo_near places hb).trans hfirst
  have hunits : 10 ^ 16 * tenTo places ≤ b.unitsAt places := by
    have hle : (10 ^ 16 * tenTo places : ℚ) ≤ (b.roundTo places).magnitude * tenTo places :=
      mul_le_mul_of_nonneg_right hreach (by linarith)
    have hhalf := (le_abs_self _).trans hsecond
    have hlt : (10 ^ 16 * tenTo places : ℚ) < b.unitsAt places + 1 := by linarith
    exact Nat.lt_succ_iff.mp (by exact_mod_cast hlt)
  have hdistance : (10 ^ 16 - b.magnitude) * tenTo places ≤ 1 / 2 := by
    have hcast : (10 ^ 16 * tenTo places : ℚ) ≤ b.unitsAt places := by exact_mod_cast hunits
    have hhalf := (neg_le_abs _).trans hfirst
    linarith
  have hclose : 10 ^ 16 - b.magnitude ≤ 1 / 2 :=
    (le_mul_of_one_le_right (sub_nonneg.mpr hsmall.le) hten).trans hdistance
  have hbelow : b.magnitude + 1 ≤ (10 ^ 16 : ℕ) :=
    hb.add_one_le (by norm_num; linarith) (by exact_mod_cast hsmall)
  push_cast at hbelow
  linarith

end

/-! ## The text -/

/-- The value is rounded like the magnitude, with its sign. -/
theorem roundsToEven_value (b : Binary) (places : ℕ) :
    RoundsToEven (b.value * 10 ^ places)
      (if b.negative then -(b.unitsAt places : ℤ) else b.unitsAt places) := by
  have h := roundsToEven_unitsAt places b
  rw [cast_tenTo] at h
  unfold value
  split
  · rw [neg_mul]
    exact h.neg
  · exact h

/-- Below 10^16 the decimal that is printed is the first one. -/
theorem display_of_lt {b : Binary} (hb : b.Canonical) (places : ℕ)
    (hsmall : b.magnitude < 10 ^ 16) :
    b.display places = if b.unitsAt places = 0 then "0"
      else (if b.negative then "-" else "") ++ fixedText (b.unitsAt places) places := by
  have hhuge : ¬ (b.roundTo places).isHuge = true := fun h =>
    absurd ((isHuge_iff _).mp h) (not_le.mpr (magnitude_roundTo_lt places hb hsmall))
  rw [display, if_neg hhuge, negative_roundTo, unitsAt_roundTo places hb]
  exact if_congr (mantissa_roundTo_eq_zero_iff places hb) rfl rfl

theorem display_of_le {b : Binary} (hb : b.Canonical) (places : ℕ)
    (hlarge : 10 ^ 16 ≤ b.magnitude) : b.display places = b.text := by
  have hpos : b.mantissa ≠ 0 := fun hzero => by
    rw [magnitude_eq_zero_iff.mpr hzero] at hlarge
    norm_num at hlarge
  rw [display, roundTo_eq_self places hb hlarge, if_neg hpos, if_pos ((isHuge_iff b).mpr hlarge)]

end Binary

/-- **Numbers on display.** A number below 10^16 is shown by the canonical decimal of its value
rounded to the places of the display, a tie going to the even last digit; a number from there on by
its shortest decimal. -/
theorem displayNumber_canonical {x : Float} {b : Binary} (hx : Double.ofFloat x = .finite b)
    (places : ℕ) :
    (|b.value| < 10 ^ 16 → ∃ k : ℤ, RoundsToEven (b.value * 10 ^ places) k ∧
      ∀ text, IsCanonicalDecimal places (k / 10 ^ places) text ↔ text = displayNumber places x) ∧
    (10 ^ 16 ≤ |b.value| → displayNumber places x = (Double.ofFloat x).text) := by
  have hb := Binary.canonical_of_ofFloat hx
  have hdisplay : displayNumber places x = b.display places := by rw [displayNumber, hx]
  rw [hdisplay, hx, Binary.abs_value]
  refine ⟨fun hsmall => ⟨_, b.roundsToEven_value places, fun text => ?_⟩,
    Binary.display_of_le hb places⟩
  rw [Binary.display_of_lt hb places hsmall]
  exact isCanonicalDecimal_signed b.negative (b.unitsAt places) places text

/-- The double written as 2.675 is a little less than that, so there is no tie. -/
theorem displayNumber_below_tie :
    Double.ofFloat 2.675 = .finite ⟨false, 6023564501608038, -51⟩ ∧ displayNumber 2 2.675 = "2.67"
      ∧ ∃ k : ℤ, RoundsToEven (Binary.value ⟨false, 6023564501608038, -51⟩ * 10 ^ 2) k ∧
        ∀ text, IsCanonicalDecimal 2 (k / 10 ^ 2) text ↔ text = "2.67" := by
  have hx : Double.ofFloat 2.675 = .finite ⟨false, 6023564501608038, -51⟩ := by decide
  have hshown : displayNumber 2 2.675 = "2.67" := by decide +kernel
  have hsmall : |Binary.value ⟨false, 6023564501608038, -51⟩| < 10 ^ 16 := by
    rw [Binary.abs_value, Binary.magnitude]
    norm_num
  have h := (displayNumber_canonical hx 2).1 hsmall
  rw [hshown] at h
  exact ⟨hx, hshown, h⟩

end Reckoner
