import Mathlib.Algebra.Order.Round
import Mathlib.Data.Int.Log
import Mathlib.Data.Rat.Floor
import Mathlib.Tactic.FieldSimp
import Mathlib.Tactic.Linarith
import Mathlib.Tactic.NormNum
import Mathlib.Tactic.Positivity
import Mathlib.Tactic.Ring

/-!
# Double precision arithmetic

The values of binary64 and the operations on them: each operation is exact, then rounded to the
nearest value, to the one with an even last place when two are as near. A zero has no sign here.

## Main definitions

* `Binary64`: not a number, the infinities, and the finite values as rational numbers.
* `Binary64.nearest`: rounding.
* `Binary64.sub`, `Binary64.div`, `Binary64.round`, `Binary64.toInt64`: the operations.
* `Binary64.trunc`, `Binary64.roundAway`: the integers that a number is cut off and rounded to.

## Main results

* `Binary64.abs_nearest_sub_le`: how far rounding moves a number.
* `Binary64.nearest_of_dyadic`: the numbers that are exact.
* `Binary64.trunc_nearest_div`, `Binary64.roundAway_nearest_div`: rounding a quotient of integers
  changes neither its integer part nor the integer it is rounded to.
-/

/-- A value. -/
inductive Binary64
  | nan
  | infinity (negative : Bool)
  | finite (q : ℚ)
deriving DecidableEq, Repr

namespace Binary64

/-! ### Rounding -/

/-- The exponent of the last place of a number: there are 53 places, fewer close to zero. -/
def ulpExponent (q : ℚ) : ℤ := max (Int.log 2 |q| - 52) (-1074)

/-- The value of the last place. -/
def ulp (q : ℚ) : ℚ := 2 ^ ulpExponent q

/-- The nearest integer, the even one of two. -/
def roundEven (q : ℚ) : ℤ :=
  if Int.fract q < 1 / 2 then ⌊q⌋
  else if 1 / 2 < Int.fract q then ⌊q⌋ + 1
  else if ⌊q⌋ % 2 = 0 then ⌊q⌋ else ⌊q⌋ + 1

/-- The nearest value. -/
def nearest (q : ℚ) : ℚ := roundEven (q / ulp q) * ulp q

/-- The value of an exact result. -/
def ofExact (q : ℚ) : Binary64 :=
  if |nearest q| < 2 ^ 1024 then finite (nearest q) else infinity (decide (q < 0))

/-- An integer as a value, when it is one. -/
def ofInt (n : ℤ) : Binary64 := finite n

/-- `is_finite`. -/
def isFinite : Binary64 → Bool
  | finite _ => true
  | _ => false

/-! ### Operations -/

/-- The negated number. There is one zero, so it is its own negative. -/
def neg : Binary64 → Binary64
  | nan => nan
  | infinity b => infinity (!b)
  | finite q => finite (-q)

/-- The sum, rounded once. Infinities of different signs have none. -/
def add : Binary64 → Binary64 → Binary64
  | nan, _ => nan
  | _, nan => nan
  | infinity a, infinity b => if a = b then infinity a else nan
  | infinity a, finite _ => infinity a
  | finite _, infinity b => infinity b
  | finite p, finite q => ofExact (p + q)

/-- The difference, the sum with the negated number. -/
def sub (x y : Binary64) : Binary64 := x.add y.neg

/-- The quotient, rounded once. By zero it is infinite, with the sign of the dividend, except that
zero by zero is no number. -/
def div : Binary64 → Binary64 → Binary64
  | nan, _ => nan
  | _, nan => nan
  | infinity _, infinity _ => nan
  | infinity a, finite q => infinity (xor a (decide (q < 0)))
  | finite _, infinity _ => finite 0
  | finite p, finite q =>
    if q = 0 then if p = 0 then nan else infinity (decide (p < 0)) else ofExact (p / q)

/-- The product, rounded once. Zero times an infinity is no number. -/
def mul : Binary64 → Binary64 → Binary64
  | nan, _ => nan
  | _, nan => nan
  | infinity a, infinity b => infinity (xor a b)
  | infinity a, finite q => if q = 0 then nan else infinity (xor a (decide (q < 0)))
  | finite p, infinity b => if p = 0 then nan else infinity (xor b (decide (p < 0)))
  | finite p, finite q => ofExact (p * q)

/-- `<`, which is false of what is not a number. -/
def lt : Binary64 → Binary64 → Bool
  | nan, _ => false
  | _, nan => false
  | infinity a, infinity b => a && !b
  | infinity a, finite _ => a
  | finite _, infinity b => !b
  | finite p, finite q => decide (p < q)

/-- `<=`. -/
def le : Binary64 → Binary64 → Bool
  | nan, _ => false
  | _, nan => false
  | infinity a, infinity b => a || !b
  | infinity a, finite _ => a
  | finite _, infinity b => !b
  | finite p, finite q => decide (p ≤ q)

/-- The integer part. -/
def trunc (q : ℚ) : ℤ := if 0 ≤ q then ⌊q⌋ else ⌈q⌉

/-- The nearest integer, of two the one further from zero. -/
def roundAway (q : ℚ) : ℤ := if 0 ≤ q then ⌊q + 1 / 2⌋ else ⌈q - 1 / 2⌉

/-- `round`. -/
def round : Binary64 → Binary64
  | finite q => finite (roundAway q)
  | x => x

/-- The conversion to a signed integer of 64 bits, which goes to the closest one that there is. -/
def toInt64 : Binary64 → ℤ
  | nan => 0
  | infinity b => if b then -2 ^ 63 else 2 ^ 63 - 1
  | finite q => max (-2 ^ 63) (min (trunc q) (2 ^ 63 - 1))

theorem toInt64_range (x : Binary64) : -2 ^ 63 ≤ x.toInt64 ∧ x.toInt64 ≤ 2 ^ 63 - 1 := by
  cases x with
  | nan => decide
  | infinity b => cases b <;> decide
  | finite q => exact ⟨le_max_left _ _, max_le (by decide) (min_le_right _ _)⟩

theorem lt_eq_false_iff {x y : Binary64} (hx : x ≠ nan) (hy : y ≠ nan) :
    x.lt y = false ↔ y.le x = true := by
  cases x with
  | nan => exact absurd rfl hx
  | infinity a =>
    cases y with
    | nan => exact absurd rfl hy
    | infinity b => cases a <;> cases b <;> simp [lt, le]
    | finite q => cases a <;> simp [lt, le]
  | finite p =>
    cases y with
    | nan => exact absurd rfl hy
    | infinity b => cases b <;> simp [lt, le]
    | finite q => simp [lt, le]

/-! ### The error of rounding -/

theorem ulp_pos (q : ℚ) : 0 < ulp q := zpow_pos (by norm_num) _

theorem roundEven_intCast (n : ℤ) : roundEven n = n := by
  simp [roundEven]

theorem abs_roundEven_sub_le (q : ℚ) : |(roundEven q : ℚ) - q| ≤ 1 / 2 := by
  have hq := Int.floor_add_fract q
  have h0 := Int.fract_nonneg q
  have h1 := Int.fract_lt_one q
  unfold roundEven
  split_ifs <;> push_cast <;> rw [abs_le] <;> constructor <;> linarith

theorem abs_nearest_sub_le (q : ℚ) : |nearest q - q| ≤ ulp q / 2 := by
  have hu := ulp_pos q
  have hq : q = q / ulp q * ulp q := (div_mul_cancel₀ q hu.ne').symm
  have hsub : nearest q - q = (roundEven (q / ulp q) - q / ulp q) * ulp q := by
    rw [sub_mul, ← hq, nearest]
  calc |nearest q - q| = |(roundEven (q / ulp q) : ℚ) - q / ulp q| * ulp q := by
        rw [hsub, abs_mul, abs_of_pos hu]
    _ ≤ 1 / 2 * ulp q := by
        exact mul_le_mul_of_nonneg_right (abs_roundEven_sub_le _) hu.le
    _ = ulp q / 2 := by ring

/-- The last place of a number below a power of two. -/
theorem ulp_le {q : ℚ} {k : ℕ} (hk : 0 < k) (hq : |q| < 2 ^ k) : ulp q ≤ 2 ^ ((k : ℤ) - 53) := by
  refine zpow_le_zpow_right₀ (by norm_num) (max_le ?_ (by omega))
  rcases eq_or_ne q 0 with rfl | h0
  · rw [abs_zero, Int.log_zero_right]
    omega
  · have hlog : Int.log 2 |q| < k :=
      (Int.lt_zpow_iff_log_lt (b := 2) (by norm_num) (abs_pos.mpr h0)).mp (by exact_mod_cast hq)
    omega

/-! ### Exact numbers -/

/-- A multiple of the last place is exact. -/
theorem nearest_of_eq_mul {q : ℚ} {n : ℤ} (h : q = n * ulp q) : nearest q = q := by
  have hdiv : q / ulp q = n := by
    rw [div_eq_iff (ulp_pos q).ne']
    exact h
  rw [nearest, hdiv, roundEven_intCast]
  exact h.symm

/-- The numbers with at most 53 places are exact. -/
theorem nearest_of_dyadic {m e : ℤ} (hm : |m| ≤ 2 ^ 53) (he : -1074 ≤ e) :
    nearest (m * 2 ^ e) = m * 2 ^ e := by
  rcases eq_or_ne m 0 with rfl | h0
  · simp [nearest, roundEven]
  have h2 : (2 : ℚ) ≠ 0 := by norm_num
  have hpow : (0 : ℚ) < 2 ^ e := zpow_pos (by norm_num) _
  have habs : |(m : ℚ) * 2 ^ e| = |(m : ℚ)| * 2 ^ e := by
    rw [abs_mul, abs_of_pos hpow]
  have hpos : 0 < |(m : ℚ) * 2 ^ e| := by
    rw [habs]
    exact mul_pos (abs_pos.mpr (Int.cast_ne_zero.mpr h0)) hpow
  have hmq : |(m : ℚ)| ≤ 2 ^ 53 := by exact_mod_cast hm
  by_cases hu : ulpExponent (m * 2 ^ e) ≤ e
  · refine nearest_of_eq_mul (n := m * 2 ^ (e - ulpExponent (m * 2 ^ e)).toNat) ?_
    have hexp : (e - ulpExponent (m * 2 ^ e)).toNat + ulpExponent (m * 2 ^ e) = e := by omega
    push_cast
    rw [ulp, mul_assoc, ← zpow_natCast, ← zpow_add₀ h2, hexp]
  · -- Only a power of two reaches the next last place.
    have hlog : e + 53 ≤ Int.log 2 |(m : ℚ) * 2 ^ e| := by
      unfold ulpExponent at hu
      omega
    have hge : (2 : ℚ) ^ (e + 53) ≤ |(m : ℚ)| * 2 ^ e := by
      rw [← habs]
      exact_mod_cast (Int.zpow_le_iff_le_log (b := 2) (by norm_num) hpos).mpr hlog
    have hm53 : |(m : ℚ)| = 2 ^ 53 := by
      refine le_antisymm hmq ?_
      rw [zpow_add₀ h2, mul_comm] at hge
      exact_mod_cast le_of_mul_le_mul_right hge hpow
    have hlogeq : Int.log 2 |(m : ℚ) * 2 ^ e| = e + 53 := by
      have : |(m : ℚ) * 2 ^ e| = ((2 : ℕ) : ℚ) ^ (e + 53) := by
        rw [habs, hm53, zpow_add₀ (by norm_num), mul_comm]
        norm_num
      rw [this, Int.log_zpow (by norm_num)]
    have hulp : ulp (m * 2 ^ e) = 2 ^ e * 2 := by
      have hexp : ulpExponent (m * 2 ^ e) = e + 1 := by
        unfold ulpExponent
        omega
      rw [ulp, hexp, zpow_add₀ h2, zpow_one]
    have hmint : |m| = 2 ^ 53 := by exact_mod_cast hm53
    refine nearest_of_eq_mul (n := m / 2) ?_
    have hm2 : m = m / 2 * 2 := by
      rcases (abs_eq (by norm_num)).mp hmint with h | h <;> omega
    have hm2q : (m : ℚ) = ((m / 2 : ℤ) : ℚ) * 2 := by exact_mod_cast hm2
    rw [hulp]
    calc (m : ℚ) * 2 ^ e = ((m / 2 : ℤ) : ℚ) * 2 * 2 ^ e := by rw [← hm2q]
      _ = ((m / 2 : ℤ) : ℚ) * (2 ^ e * 2) := by ring

theorem nearest_intCast {n : ℤ} (hn : |n| ≤ 2 ^ 53) : nearest n = n := by
  simpa using nearest_of_dyadic hn (e := 0) (by norm_num)

theorem ofExact_intCast {n : ℤ} (hn : |n| ≤ 2 ^ 53) : ofExact n = ofInt n := by
  have habs : |(n : ℚ)| ≤ 2 ^ 53 := by exact_mod_cast hn
  have hlt : |nearest (n : ℚ)| < 2 ^ 1024 := by
    rw [nearest_intCast hn]
    exact habs.trans_lt (pow_lt_pow_right₀ (by norm_num) (by norm_num))
  rw [ofExact, if_pos hlt, nearest_intCast hn, ofInt]

theorem nearest_half {n : ℤ} (hn : |n| ≤ 2 ^ 53) : nearest (n / 2) = n / 2 := by
  simpa [div_eq_mul_inv] using nearest_of_dyadic hn (e := -1) (by norm_num)

/-- The difference of two exact integers is rounded to an integer, an even one outside the range of
the exact ones. -/
theorem exists_nearest_sub {a b : ℤ} (ha : |a| ≤ 2 ^ 53) (hb : |b| ≤ 2 ^ 53) :
    ∃ n : ℤ, nearest (a - b) = n ∧ |n| ≤ 2 ^ 54 + 2 ∧ (2 ^ 53 < |n| → 2 ∣ n) := by
  rw [abs_le] at ha hb
  have hcast : (a : ℚ) - b = ((a - b : ℤ) : ℚ) := by push_cast; rfl
  rw [hcast]
  by_cases hn : |a - b| ≤ 2 ^ 53
  · exact ⟨a - b, nearest_intCast hn, by omega, fun h => absurd hn (not_le.mpr h)⟩
  have h54 : |a - b| ≤ 2 ^ 54 := by
    rw [abs_le]
    omega
  have h54q : |((a - b : ℤ) : ℚ)| ≤ 2 ^ 54 := by exact_mod_cast h54
  have h53q : ((2 : ℕ) : ℚ) ^ (53 : ℤ) ≤ |((a - b : ℤ) : ℚ)| := by
    exact_mod_cast (not_le.mp hn).le
  have hlog : 53 ≤ Int.log 2 |((a - b : ℤ) : ℚ)| :=
    (Int.zpow_le_iff_le_log (by norm_num) (lt_of_lt_of_le (by norm_num) h53q)).mp h53q
  obtain ⟨j, hj⟩ : ∃ j : ℕ, ulpExponent ((a - b : ℤ) : ℚ) = j + 1 := by
    refine ⟨(ulpExponent ((a - b : ℤ) : ℚ) - 1).toNat, ?_⟩
    unfold ulpExponent
    omega
  have hval : nearest ((a - b : ℤ) : ℚ) =
      ((roundEven (((a - b : ℤ) : ℚ) / ulp ((a - b : ℤ) : ℚ)) * 2 ^ j * 2 : ℤ) : ℚ) := by
    have hulp : ulp ((a - b : ℤ) : ℚ) = 2 ^ j * 2 := by
      rw [ulp, hj, zpow_add₀ (by norm_num), zpow_natCast, zpow_one]
    rw [nearest, hulp]
    push_cast
    ring
  refine ⟨_, hval, ?_, fun _ => dvd_mul_left 2 _⟩
  have herr := abs_nearest_sub_le ((a - b : ℤ) : ℚ)
  have hulp : ulp ((a - b : ℤ) : ℚ) ≤ 4 :=
    (ulp_le (k := 55) (by norm_num) (lt_of_le_of_lt h54q (by norm_num))).trans (by norm_num)
  have habs : |nearest ((a - b : ℤ) : ℚ)| ≤ 2 ^ 54 + 2 := by
    calc |nearest ((a - b : ℤ) : ℚ)|
        = |(nearest ((a - b : ℤ) : ℚ) - ((a - b : ℤ) : ℚ)) + ((a - b : ℤ) : ℚ)| := by
          rw [sub_add_cancel]
      _ ≤ 2 + 2 ^ 54 := (abs_add_le _ _).trans (add_le_add (herr.trans (by linarith)) h54q)
      _ = 2 ^ 54 + 2 := add_comm _ _
  rw [hval] at habs
  exact_mod_cast habs

/-! ### Quotients -/

theorem trunc_intCast (n : ℤ) : trunc n = n := by
  simp [trunc]

/-- Two numbers between the same integers have one integer part. -/
theorem trunc_of_between {t : ℤ} {q : ℚ} (h : (t : ℚ) < q) (h' : q < t + 1) :
    trunc q = if 0 ≤ t then t else t + 1 := by
  by_cases ht : 0 ≤ t
  · have hq : 0 ≤ q := le_trans (by exact_mod_cast ht) h.le
    rw [if_pos ht, trunc, if_pos hq, Int.floor_eq_iff]
    exact ⟨h.le, h'⟩
  · have hq : ¬ 0 ≤ q := not_le.mpr (lt_of_lt_of_le h' (by exact_mod_cast (by omega : t + 1 ≤ 0)))
    rw [if_neg ht, trunc, if_neg hq, Int.ceil_eq_iff]
    push_cast
    constructor <;> linarith

/-- Two numbers between the same multiples of a half are rounded to one integer. -/
theorem roundAway_of_between {h : ℤ} {q : ℚ} (hq : (h : ℚ) / 2 < q) (hq' : q < (h + 1) / 2) :
    roundAway q = (h + 1) / 2 := by
  have hm := Int.mul_ediv_add_emod (h + 1) 2
  have hdiv : ((h : ℚ) + 1) = 2 * ((h + 1) / 2 : ℤ) + ((h + 1) % 2 : ℤ) := by exact_mod_cast hm.symm
  have hmod : (0 : ℚ) ≤ ((h + 1) % 2 : ℤ) := by exact_mod_cast Int.emod_nonneg _ (by norm_num)
  have hmod' : (((h + 1) % 2 : ℤ) : ℚ) ≤ 1 := by
    exact_mod_cast (by omega : (h + 1) % 2 ≤ 1)
  unfold roundAway
  split_ifs with h0
  · rw [Int.floor_eq_iff]
    constructor <;> linarith
  · rw [Int.ceil_eq_iff]
    constructor <;> linarith

/-- How far a quotient is moved. -/
theorem abs_nearest_div_sub_lt {n d g : ℤ} {k : ℕ} (hk : 0 < k) (hd : 0 < d)
    (hn : |n| < 2 ^ k * d) (hg : d * 2 ^ k < g * 2 ^ 54) :
    |nearest ((n : ℚ) / d) - (n : ℚ) / d| < g / d := by
  have hdq : (0 : ℚ) < d := by exact_mod_cast hd
  have hx : |(n : ℚ) / d| < 2 ^ k := by
    rw [abs_div, abs_of_pos hdq, div_lt_iff₀ hdq]
    exact_mod_cast hn
  calc |nearest ((n : ℚ) / d) - (n : ℚ) / d| ≤ ulp ((n : ℚ) / d) / 2 := abs_nearest_sub_le _
    _ ≤ 2 ^ ((k : ℤ) - 53) / 2 := div_le_div_of_nonneg_right (ulp_le hk hx) (by norm_num)
    _ = 2 ^ k / 2 ^ 54 := by
        rw [zpow_sub₀ (by norm_num), zpow_natCast]
        norm_num
        ring
    _ < g / d := by
        rw [div_lt_div_iff₀ (by norm_num) hdq, mul_comm]
        exact_mod_cast hg

/-- A quotient that is not a multiple of `1 / c` stays between two of them. -/
theorem nearest_div_between {n d g c : ℤ} {k : ℕ} (hk : 0 < k) (hd : 0 < d) (hc : 0 < c)
    (hgn : g ∣ n) (hgd : c * g ∣ d) (hn : |n| < 2 ^ k * d) (hdk : d * 2 ^ k < g * 2 ^ 54)
    (hr : c * n % d ≠ 0) :
    ((c * n / d : ℤ) : ℚ) / c < nearest ((n : ℚ) / d) ∧
      nearest ((n : ℚ) / d) < ((c * n / d : ℤ) + 1) / c ∧
      ((c * n / d : ℤ) : ℚ) / c < (n : ℚ) / d ∧ (n : ℚ) / d < ((c * n / d : ℤ) + 1) / c := by
  have hdq : (0 : ℚ) < d := by exact_mod_cast hd
  have hcq : (0 : ℚ) < c := by exact_mod_cast hc
  have hg : 0 < g := by
    by_contra hg
    have : g * 2 ^ 54 ≤ 0 := mul_nonpos_of_nonpos_of_nonneg (not_lt.mp hg) (by norm_num)
    have : 0 < d * 2 ^ k := by positivity
    omega
  have hsplit := Int.ediv_mul_add_emod (c * n) d
  have hdvd : c * g ∣ c * n % d := by
    rw [Int.emod_def]
    exact dvd_sub (mul_dvd_mul_left c hgn) (dvd_mul_of_dvd_left hgd _)
  have hlow : c * g ≤ c * n % d :=
    Int.le_of_dvd (lt_of_le_of_ne (Int.emod_nonneg _ hd.ne') hr.symm) hdvd
  have hhigh : c * g ≤ d - c * n % d :=
    Int.le_of_dvd (sub_pos.mpr (Int.emod_lt_of_pos _ hd)) (dvd_sub hgd hdvd)
  have herr := abs_nearest_div_sub_lt hk hd hn hdk
  rw [abs_sub_lt_iff] at herr
  have hgpos : (0 : ℚ) < g / d := div_pos (by exact_mod_cast hg) hdq
  have hbelow : ((c * n / d : ℤ) : ℚ) / c ≤ n / d - g / d := by
    rw [← sub_div, div_le_div_iff₀ hcq hdq]
    have : (c * n / d) * d ≤ (n - g) * c := by linarith
    exact_mod_cast this
  have habove : (n : ℚ) / d + g / d ≤ ((c * n / d : ℤ) + 1) / c := by
    rw [← add_div, div_le_div_iff₀ hdq hcq]
    have : (n + g) * c ≤ (c * n / d + 1) * d := by linarith
    exact_mod_cast this
  refine ⟨?_, ?_, ?_, ?_⟩ <;> linarith

/-- A quotient that is a multiple of `1 / c`. -/
theorem div_of_emod_eq_zero {n d c : ℤ} (hd : 0 < d) (hc : 0 < c) (hr : c * n % d = 0) :
    (n : ℚ) / d = ((c * n / d : ℤ) : ℚ) / c := by
  have hdq : (d : ℚ) ≠ 0 := by exact_mod_cast hd.ne'
  have hcq : (c : ℚ) ≠ 0 := by exact_mod_cast hc.ne'
  have hsplit := Int.ediv_mul_add_emod (c * n) d
  rw [div_eq_div_iff hdq hcq]
  rw [hr, add_zero] at hsplit
  rw [mul_comm (n : ℚ)]
  exact_mod_cast hsplit.symm

theorem abs_ediv_le {m d : ℤ} {k : ℕ} (hd : 0 < d) (hm : |m| < 2 ^ k * d) : |m / d| ≤ 2 ^ k := by
  rw [abs_lt] at hm
  rw [abs_le]
  constructor
  · rw [Int.le_ediv_iff_mul_le hd]
    linarith
  · exact (Int.ediv_lt_of_lt_mul hd hm.2).le

/-- The integer part of a quotient. -/
theorem trunc_nearest_div {n d : ℤ} {k : ℕ} (hk : 0 < k) (hk' : k ≤ 53) (hd : 0 < d)
    (hn : |n| < 2 ^ k * d) (hdk : d * 2 ^ k < 2 ^ 54) :
    trunc (nearest ((n : ℚ) / d)) = trunc ((n : ℚ) / d) := by
  by_cases hr : 1 * n % d = 0
  · have ht : |1 * n / d| ≤ 2 ^ 53 := by
      rw [one_mul]
      exact (abs_ediv_le hd hn).trans (pow_le_pow_right₀ (by norm_num) hk')
    rw [div_of_emod_eq_zero hd one_pos hr, Int.cast_one, div_one, nearest_intCast ht]
  · obtain ⟨h1, h2, h3, h4⟩ := nearest_div_between hk hd one_pos (one_dvd n) (by simp) hn
      (by simpa using hdk) hr
    rw [Int.cast_one, div_one] at h1 h2 h3 h4
    rw [trunc_of_between h1 h2, trunc_of_between h3 h4]

/-- The integer that a quotient is rounded to. -/
theorem roundAway_nearest_div {n d g : ℤ} {k : ℕ} (hk : 0 < k) (hk' : k ≤ 52) (hd : 0 < d)
    (hgn : g ∣ n) (hgd : 2 * g ∣ d) (hn : |n| < 2 ^ k * d) (hdk : d * 2 ^ k < g * 2 ^ 54) :
    roundAway (nearest ((n : ℚ) / d)) = roundAway ((n : ℚ) / d) := by
  by_cases hr : 2 * n % d = 0
  · have hn2 : |2 * n| < 2 ^ (k + 1) * d := by
      rw [abs_mul, pow_succ]
      norm_num
      linarith
    have ht : |2 * n / d| ≤ 2 ^ 53 :=
      (abs_ediv_le hd hn2).trans (pow_le_pow_right₀ (by norm_num) (by omega))
    rw [div_of_emod_eq_zero hd two_pos hr, Int.cast_ofNat, nearest_half ht]
  · obtain ⟨h1, h2, h3, h4⟩ := nearest_div_between hk hd two_pos hgn hgd hn hdk hr
    rw [Int.cast_ofNat] at h1 h2 h3 h4
    rw [roundAway_of_between h1 h2, roundAway_of_between h3 h4]

/-! ### Operations on exact integers -/

theorem ofExact_of_lt {q : ℚ} (hq : |q| < 2 ^ 60) : ofExact q = finite (nearest q) := by
  have herr := abs_nearest_sub_le q
  have hulp : ulp q ≤ 128 := (ulp_le (by norm_num) hq).trans (by norm_num)
  have habs : |nearest q| ≤ |nearest q - q| + |q| := by
    simpa using abs_add_le (nearest q - q) q
  have h1024 : (2 : ℚ) ^ 61 < 2 ^ 1024 := pow_lt_pow_right₀ (by norm_num) (by norm_num)
  rw [ofExact, if_pos]
  exact lt_of_le_of_lt (by linarith) h1024

theorem abs_trunc_le (q : ℚ) : |(trunc q : ℚ)| ≤ |q| := by
  unfold trunc
  split_ifs with h
  · rw [abs_of_nonneg (by exact_mod_cast Int.floor_nonneg.mpr h), abs_of_nonneg h]
    exact Int.floor_le q
  · have h' := (not_le.mp h).le
    rw [abs_of_nonpos (by exact_mod_cast Int.ceil_le.mpr (by simpa using h')), abs_of_nonpos h']
    exact neg_le_neg (Int.le_ceil q)

theorem abs_roundAway_le (q : ℚ) : |(roundAway q : ℚ)| ≤ |q| + 1 := by
  unfold roundAway
  split_ifs with h
  · have h1 := Int.floor_le (q + 1 / 2)
    have h2 := Int.lt_floor_add_one (q + 1 / 2)
    rw [abs_of_nonneg h, abs_le]
    constructor <;> linarith
  · have h1 := Int.le_ceil (q - 1 / 2)
    have h2 := Int.ceil_lt_add_one (q - 1 / 2)
    rw [abs_of_neg (not_le.mp h), abs_le]
    constructor <;> linarith

theorem toInt64_finite {q : ℚ} (h : |(trunc q : ℚ)| < 2 ^ 63) : (finite q).toInt64 = trunc q := by
  have h' : |trunc q| < 2 ^ 63 := by exact_mod_cast h
  rw [abs_lt] at h'
  rw [toInt64, min_eq_left (by omega), max_eq_right (by omega)]

theorem div_finite {p : ℚ} {d : ℤ} (hd : d ≠ 0) :
    (finite p).div (ofInt d) = ofExact (p / d) :=
  if_neg (Int.cast_ne_zero.mpr hd)

theorem abs_div_le {p : ℚ} {d : ℤ} (hd : 0 < d) : |p / d| ≤ |p| := by
  have hdq : (1 : ℚ) ≤ d := by exact_mod_cast hd
  rw [abs_div, abs_of_pos (zero_lt_one.trans_le hdq)]
  exact div_le_self (abs_nonneg p) hdq

/-- A quotient of exact integers, cut off. -/
theorem toInt64_div {n d : ℤ} {k : ℕ} (hn : |n| ≤ 2 ^ 53) (hk : 0 < k) (hk' : k ≤ 53) (hd : 0 < d)
    (hnd : 2 ^ 53 < 2 ^ k * d) (hdk : d * 2 ^ k < 2 ^ 54) :
    ((ofInt n).div (ofInt d)).toInt64 = trunc ((n : ℚ) / d) := by
  have hnq : |(n : ℚ)| ≤ 2 ^ 53 := by exact_mod_cast hn
  have hle := (abs_div_le hd).trans hnq
  have htrunc := trunc_nearest_div hk hk' hd (lt_of_le_of_lt hn hnd) hdk
  rw [ofInt, div_finite hd.ne', ofExact_of_lt (lt_of_le_of_lt hle (by norm_num)),
    toInt64_finite, htrunc]
  rw [htrunc]
  exact lt_of_le_of_lt ((abs_trunc_le _).trans hle) (by norm_num)

/-- A difference of exact integers as a value. -/
theorem sub_ofInt {a b : ℤ} (ha : |a| ≤ 2 ^ 53) (hb : |b| ≤ 2 ^ 53) :
    (ofInt a).sub (ofInt b) = finite (nearest (a - b)) := by
  have hcast : |(a : ℚ) - b| ≤ 2 ^ 54 := by
    have : |a - b| ≤ 2 ^ 54 := by
      rw [abs_le] at ha hb ⊢
      omega
    exact_mod_cast this
  show ofExact (a + -b) = _
  rw [← sub_eq_add_neg, ofExact_of_lt (lt_of_le_of_lt hcast (by norm_num))]

/-- A quotient of a difference of exact integers, rounded. -/
theorem toInt64_round_div_sub {a b d : ℤ} {k : ℕ} (ha : |a| ≤ 2 ^ 53) (hb : |b| ≤ 2 ^ 53)
    (hk : 0 < k) (hk' : k ≤ 51) (hd : 0 < d) (h4 : 4 ∣ d) (hnd : 2 ^ 53 + 1 < 2 ^ k * d)
    (hdk : d * 2 ^ k < 2 ^ 54) :
    (((ofInt a).sub (ofInt b)).div (ofInt d)).round.toInt64 = roundAway (nearest (a - b) / d) := by
  obtain ⟨n, hn, hn54, heven⟩ := exists_nearest_sub ha hb
  have hround : roundAway (nearest ((n : ℚ) / d)) = roundAway ((n : ℚ) / d) := by
    by_cases h53 : |n| ≤ 2 ^ 53
    · exact roundAway_nearest_div hk (by omega) hd (one_dvd n)
        (dvd_trans (by norm_num) h4) (by omega) (by simpa using hdk)
    · refine roundAway_nearest_div (k := k + 1) (Nat.succ_pos k) (by omega) hd
        (heven (not_le.mp h53)) h4 ?_ ?_ <;> rw [pow_succ]
      · rw [mul_right_comm]
        omega
      · linarith
  have hnq : |(n : ℚ)| ≤ 2 ^ 54 + 2 := by exact_mod_cast hn54
  have hle := (abs_div_le hd).trans hnq
  rw [sub_ofInt ha hb, hn, div_finite hd.ne', ofExact_of_lt (lt_of_le_of_lt hle (by norm_num)),
    round, hround, toInt64_finite, trunc_intCast]
  rw [trunc_intCast]
  exact lt_of_le_of_lt ((abs_roundAway_le _).trans (add_le_add_left hle 1)) (by norm_num)

end Binary64
