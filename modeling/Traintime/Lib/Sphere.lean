import Mathlib.Algebra.Order.ToIntervalMod
import Mathlib.Analysis.SpecialFunctions.Complex.Arg
import Mathlib.Analysis.SpecialFunctions.Trigonometric.Bounds

/-!
# Caps and boxes on a sphere

Points on a sphere are given by their latitude and their longitude in radians. A cap is what lies
within an angle around a point, a box what lies within a latitude and a longitude of it. Longitudes
in a box do not wrap around.

## Main definitions

* `Sphere.cosAngle`: the cosine of the angle between two points.

## Main results

* `Sphere.haversine_eq`, `Sphere.two_mul_arg_le_iff`: the haversine formula.
* `Sphere.cap_subset_box_iff`: when a cap lies in a box.
-/

namespace Sphere

open Real

/-- The cosine of the angle between two points, from their latitudes and the difference of their
longitudes. -/
noncomputable def cosAngle (φ ψ θ : ℝ) : ℝ := sin φ * sin ψ + cos φ * cos ψ * cos θ

/-! ### The haversine formula -/

theorem haversine_eq (φ ψ θ : ℝ) :
    sin ((ψ - φ) / 2) ^ 2 + cos φ * cos ψ * sin (θ / 2) ^ 2 = (1 - cosAngle φ ψ θ) / 2 := by
  rw [sin_sq_eq_half_sub, sin_sq_eq_half_sub, mul_div_cancel₀ _ two_ne_zero,
    mul_div_cancel₀ _ two_ne_zero, cos_sub, cosAngle]
  ring

theorem cosAngle_sq_le (φ ψ θ : ℝ) : cosAngle φ ψ θ ^ 2 ≤ 1 - (cos φ * sin θ) ^ 2 := by
  have hφ := sin_sq_add_cos_sq φ
  have hψ := sin_sq_add_cos_sq ψ
  have hθ := sin_sq_add_cos_sq θ
  have hsquare : 1 - (cos φ * sin θ) ^ 2 - cosAngle φ ψ θ ^ 2 =
      (sin φ * cos ψ - cos φ * cos θ * sin ψ) ^ 2 := by
    rw [cosAngle]
    linear_combination (-cos φ ^ 2) * hθ + (sin φ ^ 2 + cos φ ^ 2 * cos θ ^ 2) * (-hψ) - hφ
  linarith [sq_nonneg (sin φ * cos ψ - cos φ * cos θ * sin ψ)]

theorem abs_cosAngle_le_one (φ ψ θ : ℝ) : |cosAngle φ ψ θ| ≤ 1 := by
  rw [← sq_le_one_iff_abs_le_one]
  linarith [cosAngle_sq_le φ ψ θ, sq_nonneg (cos φ * sin θ)]

/-- Points that are close in latitude and longitude are close. -/
theorem le_cosAngle_of_abs_le {φ ψ θ a b c : ℝ} (ha : |(ψ - φ) / 2| ≤ a) (hb : |θ / 2| ≤ b)
    (hφ : |cos φ| ≤ c) (hψ : |cos ψ| ≤ c) :
    1 - 2 * (a ^ 2 + c ^ 2 * b ^ 2) ≤ cosAngle φ ψ θ := by
  have hsin : ∀ {x y : ℝ}, |x| ≤ y → sin x ^ 2 ≤ y ^ 2 := by
    intro x y h
    rw [← sq_abs]
    exact pow_le_pow_left₀ (abs_nonneg _) (abs_sin_le_abs.trans h) 2
  have hcos : cos φ * cos ψ ≤ c ^ 2 := by
    rw [sq]
    refine (le_abs_self _).trans ?_
    rw [abs_mul]
    exact mul_le_mul hφ hψ (abs_nonneg _) ((abs_nonneg _).trans hφ)
  have hprod := mul_le_mul hcos (hsin hb) (sq_nonneg _) (sq_nonneg c)
  linarith [haversine_eq φ ψ θ, hsin ha]

theorem arg_sqrt {a : ℝ} (h0 : 0 ≤ a) (h1 : a ≤ 1) :
    Complex.arg ⟨√(1 - a), √a⟩ = arcsin √a := by
  have hnorm : ‖(⟨√(1 - a), √a⟩ : ℂ)‖ = 1 := by
    rw [Complex.norm_def, Complex.normSq_mk, mul_self_sqrt (sub_nonneg.mpr h1), mul_self_sqrt h0,
      sub_add_cancel, sqrt_one]
  rw [Complex.arg_of_re_nonneg (sqrt_nonneg _), hnorm, div_one]

/-- The angle of the haversine formula is within `ρ` when its cosine is at least that of `ρ`. -/
theorem two_mul_arg_le_iff {c ρ : ℝ} (hc : |c| ≤ 1) (hρ : 0 ≤ ρ) (hρπ : ρ ≤ π) :
    2 * Complex.arg ⟨√(1 - (1 - c) / 2), √((1 - c) / 2)⟩ ≤ ρ ↔ cos ρ ≤ c := by
  obtain ⟨hc0, hc1⟩ := abs_le.mp hc
  have h0 : 0 ≤ (1 - c) / 2 := by linarith
  have h1 : (1 - c) / 2 ≤ 1 := by linarith
  have hsin : 0 ≤ sin (ρ / 2) := sin_nonneg_of_nonneg_of_le_pi (by linarith) (by linarith)
  calc 2 * Complex.arg ⟨√(1 - (1 - c) / 2), √((1 - c) / 2)⟩ ≤ ρ
      ↔ arcsin √((1 - c) / 2) ≤ ρ / 2 := by
        rw [arg_sqrt h0 h1, le_div_iff₀' two_pos]
    _ ↔ √((1 - c) / 2) ≤ sin (ρ / 2) :=
        arcsin_le_iff_le_sin ⟨by linarith [sqrt_nonneg ((1 - c) / 2)], sqrt_le_one.mpr h1⟩
          ⟨by linarith [pi_pos], by linarith⟩
    _ ↔ (1 - c) / 2 ≤ sin (ρ / 2) ^ 2 := sqrt_le_left hsin
    _ ↔ cos ρ ≤ c := by
        rw [sin_sq_eq_half_sub, mul_div_cancel₀ _ two_ne_zero]
        constructor <;> intro h <;> linarith

/-! ### Caps -/

variable {φ ψ θ ρ : ℝ}

theorem cos_nonneg_of_abs_le (h : |φ| ≤ π / 2) : 0 ≤ cos φ :=
  cos_nonneg_of_neg_pi_div_two_le_of_le (abs_le.mp h).1 (abs_le.mp h).2

/-- No point of a cap is farther in latitude than the cap reaches. -/
theorem abs_sub_le_of_cos_le_cosAngle (hφ : |φ| ≤ π / 2) (hψ : |ψ| ≤ π / 2) (hρ : 0 ≤ ρ)
    (hρπ : ρ ≤ π) (h : cos ρ ≤ cosAngle φ ψ θ) : |ψ - φ| ≤ ρ := by
  have hsame : cosAngle φ ψ θ ≤ cos |ψ - φ| := by
    rw [cos_abs, cos_sub, cosAngle]
    have hle := mul_le_mul_of_nonneg_left (cos_le_one θ)
      (mul_nonneg (cos_nonneg_of_abs_le hφ) (cos_nonneg_of_abs_le hψ))
    linarith
  have hπ : |ψ - φ| ≤ π := by linarith [abs_sub ψ φ]
  exact (strictAntiOn_cos.le_iff_ge ⟨hρ, hρπ⟩ ⟨abs_nonneg _, hπ⟩).mp (h.trans hsame)

/-- No point of a cap is farther from the meridian of its centre than the cap reaches. -/
theorem abs_cos_mul_sin_le (hρ : 0 ≤ ρ) (hρπ : ρ ≤ π / 2) (h : cos ρ ≤ cosAngle φ ψ θ) :
    |cos φ * sin θ| ≤ sin ρ := by
  have hcos : 0 ≤ cos ρ := cos_nonneg_of_neg_pi_div_two_le_of_le (by linarith) hρπ
  refine abs_le_of_sq_le_sq ?_ (sin_nonneg_of_nonneg_of_le_pi hρ (by linarith [pi_pos]))
  have hsq := pow_le_pow_left₀ hcos h 2
  linarith [cosAngle_sq_le φ ψ θ, sin_sq_add_cos_sq ρ]

/-- A cap away from the poles lies on its own side of the sphere. -/
theorem cos_pos_of_cos_le_cosAngle (hφ : |φ| ≤ π / 2) (hψ : |ψ| ≤ π / 2) (hρ : 0 ≤ ρ)
    (hρπ : ρ ≤ π / 2) (hpole : sin ρ < cos φ) (h : cos ρ ≤ cosAngle φ ψ θ) : 0 < cos θ := by
  by_contra hθ
  have hcos : 0 ≤ cos ρ := cos_nonneg_of_neg_pi_div_two_le_of_le (by linarith) hρπ
  have hsin : 0 ≤ sin ρ := sin_nonneg_of_nonneg_of_le_pi hρ (by linarith [pi_pos])
  have hle : cos ρ ≤ |sin φ| := by
    have hfar := mul_nonpos_of_nonneg_of_nonpos
      (mul_nonneg (cos_nonneg_of_abs_le hφ) (cos_nonneg_of_abs_le hψ)) (not_lt.mp hθ)
    calc cos ρ ≤ sin φ * sin ψ := by
          rw [cosAngle] at h
          linarith
      _ ≤ |sin φ| * |sin ψ| := by
          rw [← abs_mul]
          exact le_abs_self _
      _ ≤ |sin φ| := mul_le_of_le_one_right (abs_nonneg _) (abs_sin_le_one ψ)
  have hsq := pow_le_pow_left₀ hcos hle 2
  have hlt := pow_lt_pow_left₀ hpole hsin two_ne_zero
  rw [sq_abs] at hsq
  linarith [sin_sq_add_cos_sq ρ, sin_sq_add_cos_sq φ]

/-- A meridian that is near enough has a point of the cap. -/
theorem exists_cos_le_cosAngle (hφ : |φ| ≤ π / 2) (hθ : 0 < cos θ) (hρ : 0 ≤ ρ)
    (hρπ : ρ ≤ π / 2) (h : |cos φ * sin θ| ≤ sin ρ) :
    ∃ ψ, |ψ| ≤ π / 2 ∧ cos ρ ≤ cosAngle φ ψ θ := by
  have hcosφ := cos_nonneg_of_abs_le hφ
  have hcosρ : 0 ≤ cos ρ := cos_nonneg_of_neg_pi_div_two_le_of_le (by linarith) hρπ
  have hsq : (cos φ * sin θ) ^ 2 ≤ sin ρ ^ 2 := sq_le_sq' (abs_le.mp h).1 (abs_le.mp h).2
  have hn : 1 - (cos φ * sin θ) ^ 2 = sin φ ^ 2 + (cos φ * cos θ) ^ 2 := by
    linear_combination (-1 : ℝ) * sin_sq_add_cos_sq φ - cos φ ^ 2 * sin_sq_add_cos_sq θ
  -- The foot of the perpendicular from the centre to the meridian.
  set n := √(1 - (cos φ * sin θ) ^ 2) with hndef
  have hnn : n ^ 2 = sin φ ^ 2 + (cos φ * cos θ) ^ 2 := by
    rw [hndef, sq_sqrt (by rw [hn]; positivity), hn]
  have hpos : 0 < n := by
    refine sqrt_pos.mpr ?_
    rw [hn]
    rcases hcosφ.eq_or_lt with hzero | hpos
    · have := sin_sq_add_cos_sq φ
      rw [← hzero] at this ⊢
      linarith
    · positivity
  have hle : cos ρ ≤ n := by
    refine le_sqrt_of_sq_le ?_
    linarith [sin_sq_add_cos_sq ρ]
  have hsin : sin (arcsin (sin φ / n)) = sin φ / n := by
    have habs : |sin φ / n| ≤ 1 := by
      rw [← sq_le_one_iff_abs_le_one, div_pow, div_le_one (by positivity), hnn]
      linarith [sq_nonneg (cos φ * cos θ)]
    exact sin_arcsin (abs_le.mp habs).1 (abs_le.mp habs).2
  have hcos : cos (arcsin (sin φ / n)) = cos φ * cos θ / n := by
    have hquot : 1 - (sin φ / n) ^ 2 = (cos φ * cos θ / n) ^ 2 := by
      field_simp
      linarith
    rw [cos_arcsin, hquot, sqrt_sq (by positivity)]
  refine ⟨arcsin (sin φ / n), abs_le.mpr ⟨neg_pi_div_two_le_arcsin _, arcsin_le_pi_div_two _⟩, ?_⟩
  have heq : cosAngle φ (arcsin (sin φ / n)) θ = n := by
    rw [cosAngle, hsin, hcos]
    field_simp
    linarith
  rw [heq]
  exact hle

/-- Every point has a latitude and a longitude in their ranges. -/
theorem exists_coordinates (φ lon : ℝ) :
    ∃ ψ μ, |ψ| ≤ π / 2 ∧ |μ| ≤ π ∧ cosAngle φ ψ (μ - lon) = 1 ∧
      ((0 ≤ cos φ ∧ ∃ k : ℤ, μ - lon = k * (2 * π)) ∨
        ∃ k : ℤ, μ - lon = π + k * (2 * π)) := by
  have hψ : |arcsin (sin φ)| ≤ π / 2 :=
    abs_le.mpr ⟨neg_pi_div_two_le_arcsin _, arcsin_le_pi_div_two _⟩
  have hcos : cos (arcsin (sin φ)) = |cos φ| := by
    rw [cos_arcsin, ← cos_sq', sqrt_sq_eq_abs]
  have hsin : sin (arcsin (sin φ)) = sin φ := sin_arcsin (neg_one_le_sin φ) (sin_le_one φ)
  have hwrap : ∀ x : ℝ, ∃ μ, |μ| ≤ π ∧ ∃ k : ℤ, μ - x = k * (2 * π) := by
    intro x
    obtain ⟨hlo, hhi⟩ := toIocMod_mem_Ioc two_pi_pos (-π) x
    refine ⟨toIocMod two_pi_pos (-π) x, abs_le.mpr ⟨hlo.le, by linarith⟩,
      -toIocDiv two_pi_pos (-π) x, ?_⟩
    rw [toIocMod, zsmul_eq_mul]
    push_cast
    ring
  rcases le_or_gt 0 (cos φ) with hnonneg | hneg
  · obtain ⟨μ, hμ, k, hk⟩ := hwrap lon
    refine ⟨arcsin (sin φ), μ, hψ, hμ, ?_, .inl ⟨hnonneg, k, hk⟩⟩
    rw [cosAngle, hsin, hcos, hk, cos_int_mul_two_pi, abs_of_nonneg hnonneg]
    linear_combination sin_sq_add_cos_sq φ
  · obtain ⟨μ, hμ, k, hk⟩ := hwrap (lon + π)
    have hk' : μ - lon = π + k * (2 * π) := by linarith
    refine ⟨arcsin (sin φ), μ, hψ, hμ, ?_, .inr ⟨k, hk'⟩⟩
    rw [cosAngle, hsin, hcos, hk', cos_add_int_mul_two_pi, cos_pi, abs_of_neg hneg]
    linear_combination sin_sq_add_cos_sq φ

/-! ### Boxes -/

/-- Around a point at latitude `φ` a box is wide enough for the cap within `ρ`: the cap is away from
the poles, reaches no farther than `w` in longitude, and does not reach the other end of the
longitudes. -/
structure WideEnough (φ lon ρ w : ℝ) : Prop where
  lat_le : |φ| ≤ π / 2
  lon_le : |lon| ≤ π
  wide : sin ρ ≤ cos φ * sin w
  away : π / 2 < |lon| → sin ρ < cos φ * sin (π - |lon|)

variable {lon μ w : ℝ}

theorem abs_sin_abs (x : ℝ) : |sin (|x|)| = |sin x| := by
  rcases abs_choice x with h | h
  · rw [h]
  · rw [h, sin_neg, abs_neg]

theorem WideEnough.sin_lt_cos (hwide : WideEnough φ lon ρ w) (hρ : 0 < sin ρ) (hw : 0 < w)
    (hwπ : w < π / 2) : sin ρ < cos φ := by
  have hsin : 0 < sin w := sin_pos_of_pos_of_lt_pi hw (by linarith)
  have hone : sin w < 1 := by
    rw [← sin_pi_div_two]
    exact strictMonoOn_sin ⟨by linarith, hwπ.le⟩ ⟨by linarith, le_rfl⟩ hwπ
  have hcos : 0 < cos φ := (pos_iff_pos_of_mul_pos (hρ.trans_le hwide.wide)).mpr hsin
  exact hwide.wide.trans_lt (mul_lt_of_lt_one_right hcos hone)

/-- A point close to the meridian of the centre, on its side, is close in longitude. -/
theorem WideEnough.abs_sub_le (hwide : WideEnough φ lon ρ w) (hcos : 0 < cos φ) (hw : 0 < w)
    (hwπ : w < π / 2) (hμ : |μ| ≤ π) (hside : 0 < cos (μ - lon))
    (hnear : |cos φ * sin (μ - lon)| ≤ sin ρ) : |μ - lon| ≤ w := by
  have hlon := hwide.lon_le
  have htri := abs_sub μ lon
  rw [abs_mul, abs_of_pos hcos] at hnear
  rw [← cos_abs] at hside
  rcases le_or_gt |μ - lon| (π / 2) with hle | hgt
  · have hsin : sin |μ - lon| ≤ sin w := by
      rw [← abs_sin_eq_sin_abs_of_abs_le_pi (by linarith)]
      exact le_of_mul_le_mul_left (hnear.trans hwide.wide) hcos
    exact (strictMonoOn_sin.le_iff_le ⟨by linarith [abs_nonneg (μ - lon)], hle⟩
      ⟨by linarith, hwπ.le⟩).mp hsin
  · -- On the same side but far in longitude: the two are on either side of the end.
    have hfar : π + π / 2 < |μ - lon| := by
      by_contra hnot
      exact absurd (cos_nonpos_of_pi_div_two_le_of_le hgt.le (not_lt.mp hnot)) hside.not_ge
    have hback : |sin (μ - lon)| = sin (2 * π - |μ - lon|) := by
      have hnonneg : 0 ≤ sin (2 * π - |μ - lon|) :=
        sin_nonneg_of_nonneg_of_le_pi (by linarith) (by linarith)
      rw [← abs_of_nonneg hnonneg, sin_two_pi_sub, abs_neg, abs_sin_abs]
    have hmono : sin (π - |lon|) ≤ sin (2 * π - |μ - lon|) :=
      sin_le_sin_of_le_of_le_pi_div_two (by linarith) (by linarith) (by linarith)
    have haway := hwide.away (by linarith)
    have hle := mul_le_mul_of_nonneg_left hmono hcos.le
    rw [← hback] at hle
    linarith

/-- A point of a box around its own place is given by its own latitude and longitude. -/
theorem abs_le_of_box {h : ℝ} (hhπ : h < π) (hwπ : w < π / 2) (hw : 0 < w)
    (hbox : ∀ ψ μ, |ψ| ≤ π / 2 → |μ| ≤ π → cosAngle φ ψ (μ - lon) = 1 →
      |ψ - φ| ≤ h ∧ |μ - lon| ≤ w) : |φ| ≤ π / 2 ∧ |lon| ≤ π := by
  have hπ := pi_pos
  obtain ⟨ψ, μ, hψ, hμ, hsame, hturns⟩ := exists_coordinates φ lon
  obtain ⟨hclose, hturn⟩ := hbox ψ μ hψ hμ hsame
  rcases hturns with ⟨hcos, k, hk⟩ | ⟨k, hk⟩
  · have hzero : k = 0 := by
      by_contra hne
      have hk1 : (1 : ℝ) ≤ |(k : ℝ)| := by exact_mod_cast Int.one_le_abs hne
      rw [hk, abs_mul, abs_of_pos two_pi_pos] at hturn
      nlinarith
    rw [hzero, Int.cast_zero, zero_mul, sub_eq_zero] at hk
    refine ⟨?_, hk ▸ hμ⟩
    by_contra hgt
    have hle : |φ| ≤ π / 2 + h := by linarith [abs_sub_abs_le_abs_sub φ ψ, abs_sub_comm φ ψ]
    have hneg := cos_neg_of_pi_div_two_lt_of_lt (not_le.mp hgt) (by linarith)
    rw [cos_abs] at hneg
    exact hneg.not_ge hcos
  · -- Half a turn and any number of whole turns is at least half a turn.
    have hodd : (1 : ℝ) ≤ |(1 + 2 * k : ℝ)| := by
      have : (1 : ℤ) ≤ |1 + 2 * k| := Int.one_le_abs (by omega)
      exact_mod_cast this
    have hfactor : π + k * (2 * π) = π * (1 + 2 * k) := by ring
    rw [hk, hfactor, abs_mul, abs_of_pos hπ] at hturn
    nlinarith

theorem exists_abs_sub_eq {t : ℝ} (hlon : |lon| ≤ π) (ht : 0 ≤ t) (htπ : t ≤ π) :
    ∃ μ, |μ| ≤ π ∧ |μ - lon| = t := by
  obtain ⟨hlo, hhi⟩ := abs_le.mp hlon
  rcases le_total lon 0 with hwest | heast
  · refine ⟨lon + t, abs_le.mpr ⟨by linarith, by linarith⟩, ?_⟩
    rw [add_sub_cancel_left, abs_of_nonneg ht]
  · refine ⟨lon - t, abs_le.mpr ⟨by linarith, by linarith⟩, ?_⟩
    rw [sub_sub_cancel_left, abs_neg, abs_of_nonneg ht]

/-- The farther end of the longitudes. -/
theorem exists_abs_sub_eq_add (lon : ℝ) : ∃ μ, |μ| ≤ π ∧ |μ - lon| = π + |lon| := by
  have hπ := pi_pos
  rcases le_total lon 0 with hwest | heast
  · refine ⟨π, (abs_of_pos hπ).le, ?_⟩
    rw [abs_of_nonpos hwest, abs_of_pos (by linarith), sub_eq_add_neg]
  · refine ⟨-π, by rw [abs_neg, abs_of_pos hπ], ?_⟩
    rw [abs_of_nonneg heast, abs_of_neg (by linarith)]
    ring

/-- A box that has every meridian which the cap meets is wide enough. -/
theorem wideEnough_of_meridians (hφ : |φ| ≤ π / 2) (hlon : |lon| ≤ π) (hw : 0 < w)
    (hwπ : w < π / 2)
    (h : ∀ μ t, |μ| ≤ π → |μ - lon| = t → 0 < cos t → |cos φ * sin t| ≤ sin ρ → t ≤ w) :
    WideEnough φ lon ρ w := by
  have hcosφ := cos_nonneg_of_abs_le hφ
  refine ⟨hφ, hlon, ?_, ?_⟩
  · -- A meridian just outside a box that is too narrow still meets the cap.
    by_contra hnarrow
    have hcont : ∀ᶠ t in nhds w, cos φ * sin t < sin ρ :=
      (continuous_const.mul continuous_sin).continuousAt.eventually_lt continuousAt_const
        (not_le.mp hnarrow)
    obtain ⟨t, hlt, hwt, htπ⟩ := ((hcont.filter_mono nhdsWithin_le_nhds).and
      (Ioo_mem_nhdsGT hwπ)).exists
    have hnonneg : 0 ≤ cos φ * sin t :=
      mul_nonneg hcosφ (sin_nonneg_of_nonneg_of_le_pi (by linarith) (by linarith))
    have hcost : 0 < cos t := cos_pos_of_mem_Ioo ⟨by linarith, htπ⟩
    obtain ⟨μ, hμ, habs⟩ := exists_abs_sub_eq (t := t) hlon (by linarith) (by linarith)
    have hle := h μ t hμ habs hcost (by rw [abs_of_nonneg hnonneg]; exact hlt.le)
    exact hle.not_gt hwt
  · -- The meridian at the other end of the longitudes meets a cap that reaches it.
    intro hend
    by_contra hreach
    obtain ⟨μ, hμ, habs⟩ := exists_abs_sub_eq_add lon
    have hside : 0 < cos (π + |lon|) := by
      rw [add_comm, cos_add_pi, ← cos_pi_sub]
      exact cos_pos_of_mem_Ioo ⟨by linarith, by linarith⟩
    have hnear : |cos φ * sin (π + |lon|)| ≤ sin ρ := by
      have hsin : 0 ≤ sin (π - |lon|) :=
        sin_nonneg_of_nonneg_of_le_pi (by linarith) (by linarith [abs_nonneg lon])
      rw [add_comm, sin_add_pi, ← sin_pi_sub, mul_neg, abs_neg,
        abs_of_nonneg (mul_nonneg hcosφ hsin)]
      exact not_lt.mp hreach
    have hle := h μ _ hμ habs hside hnear
    linarith [abs_nonneg lon]

/-- A cap lies in a box exactly when the box is wide enough. -/
theorem cap_subset_box_iff {h : ℝ} (hρ : 0 < ρ) (hρπ : ρ < π / 2) (hρh : ρ ≤ h) (hhπ : h < π)
    (hw : 0 < w) (hwπ : w < π / 2) :
    (∀ ψ μ, |ψ| ≤ π / 2 → |μ| ≤ π → cos ρ ≤ cosAngle φ ψ (μ - lon) →
      |ψ - φ| ≤ h ∧ |μ - lon| ≤ w) ↔ WideEnough φ lon ρ w := by
  have hsinρ : 0 < sin ρ := sin_pos_of_pos_of_lt_pi hρ (by linarith)
  constructor
  · intro hbox
    obtain ⟨hlat, hlon⟩ := abs_le_of_box hhπ hwπ hw fun ψ μ hψ hμ hsame =>
      hbox ψ μ hψ hμ (hsame ▸ cos_le_one ρ)
    refine wideEnough_of_meridians hlat hlon hw hwπ ?_
    rintro μ t hμ rfl hside hnear
    rw [cos_abs] at hside
    rw [abs_mul, abs_sin_abs, ← abs_mul] at hnear
    obtain ⟨ψ, hψ, hin⟩ := exists_cos_le_cosAngle hlat hside hρ.le hρπ.le hnear
    exact (hbox ψ μ hψ hμ hin).2
  · intro hwide ψ μ hψ hμ hin
    have hpole := hwide.sin_lt_cos hsinρ hw hwπ
    have hside := cos_pos_of_cos_le_cosAngle hwide.lat_le hψ hρ.le hρπ.le hpole hin
    refine ⟨?_, ?_⟩
    · exact (abs_sub_le_of_cos_le_cosAngle hwide.lat_le hψ hρ.le (by linarith) hin).trans hρh
    · exact hwide.abs_sub_le (hsinρ.trans hpole) hw hwπ hμ hside (abs_cos_mul_sin_le hρ.le hρπ.le hin)

end Sphere
