import Mathlib.Analysis.Real.Pi.Bounds
import Traintime.Core.Stations
import Traintime.Lib.Sphere

/-!
# The bounding box over the real numbers

The formulas of `core/src/geo.rs`, which are computed in double precision, read over the real
numbers. The rows of a table are filtered by the box before they are filtered by their distance.

## Main definitions

* `Arithmetic`, `Arithmetic.haversineDistance`, `Arithmetic.boundingBox`: the formulas, and what
  they are read over.
* `Covered`: the places whose box hides no station in range.

## Main results

* `Arithmetic.haversineDistance_binary64`, `Arithmetic.boundingBox_binary64`: in double precision
  the formulas are those of `Traintime.Core.Stations`.
* `boundingBox_covers_iff`: when the box hides no station in range.
* `covered_of_abs_le`: it hides none up to the latitude of Bern.
-/

namespace Traintime.Stations

/-! ### The formulas -/

/-- What the formulas are read over. -/
structure Arithmetic (α : Type) where
  ofInt : ℤ → α
  add : α → α → α
  sub : α → α → α
  mul : α → α → α
  div : α → α → α
  pi : α
  sin : α → α
  cos : α → α
  sqrt : α → α
  atan2 : α → α → α

namespace Arithmetic

variable {α : Type} (A : Arithmetic α)

/-- `MAX_DISTANCE`: a station farther away than 5 km is not in any answer. -/
def maxDistance : α := A.ofInt 5000

/-- `to_radians`: an angle in radians. -/
def toRad (deg : α) : α := A.div (A.mul deg A.pi) (A.ofInt 180)

/-- `powi(2)`. -/
def square (x : α) : α := A.mul x x

/-- `haversine_distance`, in metres, with the operations of the arithmetic in the order of the
source. -/
def haversineDistance (lat1 lon1 lat2 lon2 : α) : α :=
  let r := A.ofInt 6371000
  let dLat := A.toRad (A.sub lat2 lat1)
  let dLon := A.toRad (A.sub lon2 lon1)
  let a := A.add (A.square (A.sin (A.div dLat (A.ofInt 2))))
    (A.mul (A.mul (A.cos (A.toRad lat1)) (A.cos (A.toRad lat2)))
      (A.square (A.sin (A.div dLon (A.ofInt 2)))))
  A.mul (A.mul r (A.ofInt 2)) (A.atan2 (A.sqrt a) (A.sqrt (A.sub (A.ofInt 1) a)))

/-- The corners of the box, south and north, west and east. -/
def boundingBox (lat lon : α) : α × α × α × α :=
  let dlat := A.div A.maxDistance (A.ofInt 111000)
  let dlon := A.div A.maxDistance (A.ofInt 75700)
  (A.sub lat dlat, A.add lat dlat, A.sub lon dlon, A.add lon dlon)

/-- Double precision on a platform. -/
def binary64 (m : Libm) : Arithmetic Binary64 where
  ofInt := .ofInt
  add := .add
  sub := .sub
  mul := .mul
  div := .div
  pi := Stations.pi
  sin := m.sin
  cos := m.cos
  sqrt := m.sqrt
  atan2 := m.atan2

/-- The real numbers. -/
noncomputable def real : Arithmetic ℝ where
  ofInt := fun n => n
  add := fun x y => x + y
  sub := fun x y => x - y
  mul := fun x y => x * y
  div := fun x y => x / y
  pi := Real.pi
  sin := Real.sin
  cos := Real.cos
  sqrt := Real.sqrt
  atan2 := fun y x => Complex.arg ⟨x, y⟩

/-- In double precision the formulas are those that are computed. -/
theorem haversineDistance_binary64 (m : Libm) :
    (binary64 m).haversineDistance = Stations.haversineDistance m := rfl

theorem boundingBox_binary64 (m : Libm) : (binary64 m).boundingBox = Stations.boundingBox := rfl

end Arithmetic

/-! ### The two filters -/

/-- The coordinates of a station. -/
structure Place where
  lat : ℝ
  lon : ℝ

/-- The coordinates are in their ranges. -/
def Place.OnGlobe (s : Place) : Prop := |s.lat| ≤ 90 ∧ |s.lon| ≤ 180

noncomputable section

open Classical Real Sphere

variable (lat lon : ℝ)

/-- The station is within the distance. -/
def Kept (s : Place) : Prop :=
  Arithmetic.real.haversineDistance lat lon s.lat s.lon ≤ Arithmetic.real.maxDistance

/-- The station is in the box. -/
def InBox (s : Place) : Prop :=
  let (latMin, latMax, lonMin, lonMax) := Arithmetic.real.boundingBox lat lon
  latMin ≤ s.lat ∧ s.lat ≤ latMax ∧ lonMin ≤ s.lon ∧ s.lon ≤ lonMax

/-- The rows in the box that are within the distance. -/
def prefiltered (rows : List Place) : List Place :=
  (rows.filter fun s => decide (InBox lat lon s)).filter fun s => decide (Kept lat lon s)

/-- The rows within the distance. -/
def filtered (rows : List Place) : List Place := rows.filter fun s => decide (Kept lat lon s)

/-- The angle within which stations are kept. -/
def reach : ℝ := 5000 / 6371000

/-- The half width of the box, in radians. -/
def halfWidth : ℝ := Arithmetic.real.toRad (5000 / 75700)

/-- The place has its own coordinates, the box is wide enough at its latitude, and what is in range
does not reach the other end of the longitudes. -/
structure Covered : Prop where
  lat_le : |lat| ≤ 90
  lon_le : |lon| ≤ 180
  wide : sin reach ≤ cos (Arithmetic.real.toRad lat) * sin halfWidth
  away : 90 < |lon| →
    sin reach < cos (Arithmetic.real.toRad lat) * sin (Arithmetic.real.toRad (180 - |lon|))

variable {lat lon} {s : Place}

/-! ### Radians -/

theorem toRad_eq (x : ℝ) : Arithmetic.real.toRad x = x * (π / 180) := by
  simp only [Arithmetic.toRad, Arithmetic.real]
  push_cast
  ring

theorem abs_toRad_le_iff {x y : ℝ} : |Arithmetic.real.toRad x| ≤ y * (π / 180) ↔ |x| ≤ y := by
  have hpos : 0 < π / 180 := by positivity
  rw [toRad_eq, abs_mul, abs_of_pos hpos, mul_le_mul_iff_of_pos_right hpos]

theorem abs_toRad_le_pi_div_two {x : ℝ} : |Arithmetic.real.toRad x| ≤ π / 2 ↔ |x| ≤ 90 := by
  rw [show π / 2 = 90 * (π / 180) by ring]
  exact abs_toRad_le_iff

theorem abs_toRad_le_pi {x : ℝ} : |Arithmetic.real.toRad x| ≤ π ↔ |x| ≤ 180 := by
  rw [show π = 180 * (π / 180) by ring]
  exact abs_toRad_le_iff

theorem toRad_sub (x y : ℝ) :
    Arithmetic.real.toRad x - Arithmetic.real.toRad y = Arithmetic.real.toRad (x - y) := by
  rw [toRad_eq, toRad_eq, toRad_eq, sub_mul]

theorem haversineDistance_eq (lat1 lon1 lat2 lon2 : ℝ) :
    let c := cosAngle (Arithmetic.real.toRad lat1) (Arithmetic.real.toRad lat2)
      (Arithmetic.real.toRad lon2 - Arithmetic.real.toRad lon1)
    Arithmetic.real.haversineDistance lat1 lon1 lat2 lon2 =
      6371000 * (2 * Complex.arg ⟨√(1 - (1 - c) / 2), √((1 - c) / 2)⟩) := by
  intro c
  have ha := haversine_eq (Arithmetic.real.toRad lat1) (Arithmetic.real.toRad lat2)
    (Arithmetic.real.toRad lon2 - Arithmetic.real.toRad lon1)
  rw [toRad_sub, toRad_sub, sq, sq] at ha
  rw [← mul_assoc]
  dsimp only [c]
  rw [toRad_sub, ← ha]
  simp only [Arithmetic.haversineDistance, Arithmetic.square, Arithmetic.real, Int.cast_ofNat,
    Int.cast_one]

/-- A station is kept when its angle is within reach. -/
theorem kept_iff : Kept lat lon s ↔ cos reach ≤ cosAngle (Arithmetic.real.toRad lat)
    (Arithmetic.real.toRad s.lat) (Arithmetic.real.toRad s.lon - Arithmetic.real.toRad lon) := by
  have hreach : (0 : ℝ) ≤ reach ∧ reach ≤ π := by
    rw [reach]
    exact ⟨by norm_num, by linarith [pi_gt_three]⟩
  have hmax : Arithmetic.real.maxDistance = 6371000 * reach := by
    rw [reach]
    norm_num [Arithmetic.maxDistance, Arithmetic.real]
  rw [Kept, haversineDistance_eq, hmax, mul_le_mul_iff_of_pos_left (by norm_num)]
  exact two_mul_arg_le_iff (abs_cosAngle_le_one _ _ _) hreach.1 hreach.2

theorem inBox_iff : InBox lat lon s ↔
    |s.lat - lat| ≤ 5000 / 111000 ∧ |s.lon - lon| ≤ 5000 / 75700 := by
  simp only [InBox, Arithmetic.boundingBox, Arithmetic.maxDistance, Arithmetic.real]
  push_cast
  rw [abs_le, abs_le]
  constructor
  · rintro ⟨h1, h2, h3, h4⟩
    exact ⟨⟨by linarith, by linarith⟩, by linarith, by linarith⟩
  · rintro ⟨⟨h1, h2⟩, h3, h4⟩
    exact ⟨by linarith, by linarith, by linarith, by linarith⟩

/-! ### What the box hides -/

theorem covered_iff : Covered lat lon ↔
    WideEnough (Arithmetic.real.toRad lat) (Arithmetic.real.toRad lon) reach halfWidth := by
  have hend : π / 2 < |Arithmetic.real.toRad lon| ↔ 90 < |lon| := by
    rw [← not_le, ← not_le, abs_toRad_le_pi_div_two]
  have hback : π - |Arithmetic.real.toRad lon| = Arithmetic.real.toRad (180 - |lon|) := by
    rw [toRad_eq, toRad_eq, abs_mul, abs_of_pos (by positivity : 0 < π / 180)]
    ring
  constructor
  · intro h
    exact ⟨abs_toRad_le_pi_div_two.mpr h.lat_le, abs_toRad_le_pi.mpr h.lon_le, h.wide,
      fun hfar => by
        rw [hback]
        exact h.away (hend.mp hfar)⟩
  · intro h
    exact ⟨abs_toRad_le_pi_div_two.mp h.lat_le, abs_toRad_le_pi.mp h.lon_le, h.wide,
      fun hfar => by
        rw [← hback]
        exact h.away (hend.mpr hfar)⟩

theorem onGlobe_iff : s.OnGlobe ↔
    |Arithmetic.real.toRad s.lat| ≤ π / 2 ∧ |Arithmetic.real.toRad s.lon| ≤ π := by
  rw [Place.OnGlobe, abs_toRad_le_pi_div_two, abs_toRad_le_pi]

theorem inBox_iff_rad : InBox lat lon s ↔
    |Arithmetic.real.toRad s.lat - Arithmetic.real.toRad lat| ≤
        Arithmetic.real.toRad (5000 / 111000) ∧
      |Arithmetic.real.toRad s.lon - Arithmetic.real.toRad lon| ≤ halfWidth := by
  rw [inBox_iff, halfWidth, toRad_sub, toRad_sub, toRad_eq (5000 / 111000),
    toRad_eq (5000 / 75700), abs_toRad_le_iff, abs_toRad_le_iff]

/-- No station on the globe that is in range is outside the box. -/
theorem forall_inBox_iff :
    (∀ s : Place, s.OnGlobe → Kept lat lon s → InBox lat lon s) ↔ Covered lat lon := by
  have hπ := pi_gt_d2
  have hπ' := pi_lt_d2
  have hhalf : 0 < halfWidth ∧ halfWidth < π / 2 := by
    rw [halfWidth, toRad_eq]
    exact ⟨by positivity, by linarith⟩
  have hheight : reach ≤ Arithmetic.real.toRad (5000 / 111000) ∧
      Arithmetic.real.toRad (5000 / 111000) < π := by
    rw [reach, toRad_eq]
    exact ⟨by linarith, by linarith⟩
  have hreach : 0 < reach ∧ reach < π / 2 := by
    rw [reach]
    exact ⟨by norm_num, by linarith⟩
  rw [covered_iff, ← cap_subset_box_iff hreach.1 hreach.2 hheight.1 hheight.2 hhalf.1 hhalf.2]
  constructor
  · intro h ψ μ hψ hμ hin
    have hdeg : ∀ x : ℝ, Arithmetic.real.toRad (x / (π / 180)) = x := fun x => by
      rw [toRad_eq, div_mul_cancel₀ _ (by positivity)]
    have hbox := h ⟨ψ / (π / 180), μ / (π / 180)⟩
    rw [onGlobe_iff, kept_iff, inBox_iff_rad] at hbox
    simp only [hdeg] at hbox
    exact hbox ⟨hψ, hμ⟩ hin
  · intro h s hs hkept
    obtain ⟨hlat, hlon⟩ := onGlobe_iff.mp hs
    exact inBox_iff_rad.mpr (h _ _ hlat hlon (kept_iff.mp hkept))

theorem prefiltered_eq_filtered_iff (rows : List Place) :
    prefiltered lat lon rows = filtered lat lon rows ↔
      ∀ s ∈ rows, Kept lat lon s → InBox lat lon s := by
  have hprefiltered : prefiltered lat lon rows =
      (filtered lat lon rows).filter fun s => decide (InBox lat lon s) := by
    rw [prefiltered, filtered, List.filter_comm]
  rw [hprefiltered, List.filter_eq_self, filtered]
  simp only [List.mem_filter, decide_eq_true_eq, and_imp]

/-- **What the bounding box hides.** Filtering by the box first loses no row in range, whatever the
rows on the globe, exactly at the covered places. Rows off the globe it loses at every place. -/
theorem boundingBox_covers_iff (lat lon : ℝ) :
    ((∀ s : Place, s.OnGlobe → Kept lat lon s → InBox lat lon s) ↔ Covered lat lon) ∧
    ((∀ rows : List Place, (∀ s ∈ rows, s.OnGlobe) →
      prefiltered lat lon rows = filtered lat lon rows) ↔ Covered lat lon) ∧
    ∃ s : Place, Kept lat lon s ∧ ¬InBox lat lon s := by
  refine ⟨forall_inBox_iff, ?_, ⟨lat, lon + 360⟩, ?_, ?_⟩
  · rw [← forall_inBox_iff]
    simp only [prefiltered_eq_filtered_iff]
    constructor
    · intro h s hs
      exact h [s] (List.forall_mem_singleton.mpr hs) s (List.mem_singleton_self s)
    · exact fun h rows hrows s hs => h s (hrows s hs)
  · rw [kept_iff, toRad_sub, add_sub_cancel_left, toRad_eq 360,
      show (360 : ℝ) * (π / 180) = 2 * π by ring, cosAngle, cos_two_pi]
    linarith [sin_sq_add_cos_sq (Arithmetic.real.toRad lat), cos_le_one reach]
  · rw [inBox_iff, add_sub_cancel_left]
    norm_num

theorem le_cos_two_mul {x c : ℝ} (hc : 0 ≤ c) (h : c ≤ cos x) : 2 * c ^ 2 - 1 ≤ cos (2 * x) := by
  rw [cos_two_mul]
  linarith [pow_le_pow_left₀ hc h 2]

/-- Up to the latitude of Bern the box is wide enough. -/
theorem covered_of_abs_le (hlat : |lat| ≤ 46.95) (hlon : |lon| ≤ 179) : Covered lat lon := by
  have hπ := pi_gt_d6
  have hπ' := pi_lt_d6
  have hcos : 0.6809 ≤ cos (Arithmetic.real.toRad lat) := by
    have h8 : 0.99474 ≤ cos (0.8195 / 8) := by
      have hbound := (abs_le.mp (cos_bound (x := 0.8195 / 8) (by norm_num [abs_le]))).1
      norm_num [abs_of_pos] at hbound ⊢
      linarith
    have h4 := le_cos_two_mul (by norm_num) h8
    have h2 := le_cos_two_mul (by norm_num) h4
    have h1 := le_cos_two_mul (by norm_num) h2
    have hmono : cos 0.8195 ≤ cos |Arithmetic.real.toRad lat| := by
      refine cos_le_cos_of_nonneg_of_le_pi (abs_nonneg _) (by linarith) ?_
      exact (abs_toRad_le_iff.mpr hlat).trans (by linarith)
    rw [cos_abs] at hmono
    norm_num at hmono h1
    linarith
  have hhalf : halfWidth = 5000 / 75700 * (π / 180) := toRad_eq _
  have hsin : 0.0011527 ≤ sin halfWidth := by
    have hcube := sin_gt_sub_cube (x := halfWidth) (by rw [hhalf]; positivity)
    have hpow : halfWidth ^ 3 ≤ 0.0011528 ^ 3 :=
      pow_le_pow_left₀ (by rw [hhalf]; positivity) (by rw [hhalf]; linarith) 3
    norm_num at hpow
    linarith
  have hwide : sin reach ≤ cos (Arithmetic.real.toRad lat) * sin halfWidth := by
    have hreach : sin reach ≤ 5000 / 6371000 := sin_le (by norm_num [reach])
    have hmul := mul_le_mul hcos hsin (by norm_num) (by linarith)
    norm_num at hmul hreach
    linarith
  refine ⟨by linarith, by linarith, hwide, fun hfar => hwide.trans_lt ?_⟩
  have hmono : sin halfWidth < sin (Arithmetic.real.toRad (180 - |lon|)) := by
    rw [toRad_eq, hhalf]
    refine strictMonoOn_sin ⟨by linarith, by linarith⟩ ⟨by nlinarith, by nlinarith⟩ ?_
    nlinarith
  exact mul_lt_mul_of_pos_left hmono (by linarith)

/-- From the landing stage in Schaffhausen a stop in Beringen is 4952 metres away, outside the
box. -/
theorem boundingBox_hides_beringen :
    let s : Place := ⟨47.69691, 8.57489⟩
    s.OnGlobe ∧ Kept 47.69529 8.64101 s ∧ ¬InBox 47.69529 8.64101 s := by
  intro s
  have hπ := pi_gt_d6
  have hπ' := pi_lt_d6
  have hglobe : s.OnGlobe := by
    constructor <;> norm_num [s, abs_le]
  have hcos : ∀ x : ℝ, 0.832 ≤ x → x ≤ 1 → |cos x| ≤ 0.679 := by
    intro x hlo hhi
    have hbound := (abs_le.mp (cos_bound (x := 0.832) (by norm_num [abs_le]))).2
    have hmono := cos_le_cos_of_nonneg_of_le_pi (by norm_num) (by linarith) hlo
    rw [abs_of_nonneg (cos_nonneg_of_abs_le (abs_le.mpr ⟨by linarith, by linarith⟩))]
    norm_num at hbound
    linarith
  refine ⟨hglobe, ?_, ?_⟩
  · rw [kept_iff, toRad_sub, toRad_eq, toRad_eq, toRad_eq]
    have hlat : |(47.69691 * (π / 180) - 47.69529 * (π / 180)) / 2| ≤ 0.0000142 :=
      abs_le.mpr ⟨by linarith, by linarith⟩
    have hlon : |(8.57489 - 8.64101) * (π / 180) / 2| ≤ 0.000577007 :=
      abs_le.mpr ⟨by linarith, by linarith⟩
    have hin := le_cosAngle_of_abs_le hlat hlon (hcos (47.69529 * (π / 180)) (by linarith)
      (by linarith)) (hcos (47.69691 * (π / 180)) (by linarith) (by linarith))
    refine le_trans ?_ hin
    have hreach := (abs_le.mp (cos_bound (x := reach) (by norm_num [reach, abs_le]))).2
    norm_num [reach, abs_of_pos] at hreach ⊢
    linarith
  · rw [inBox_iff]
    norm_num [s, abs_le]

end

end Traintime.Stations
