import Mathlib.Algebra.Order.Floor.Ring
import Mathlib.Data.Int.Log
import Mathlib.Data.Rat.Floor
import Mathlib.Tactic.FieldSimp
import Mathlib.Tactic.Linarith
import Mathlib.Tactic.NormNum
import Mathlib.Tactic.Push

/-!
# Double precision

The rounding of rational numbers to double precision: 53 binary digits, to the nearest number, in
the middle between two to the even one. Exponents are not bounded, so nothing overflows.

Rounding leaves the numbers of 53 digits alone (`double_eq_self`) and keeps the order
(`double_le_double`). Numbers on a common `Grid` are subtracted and added exactly.
-/

namespace Resilience

/-- The nearest integer; in the middle between two, the even one. -/
def roundHalfEven (q : ℚ) : ℤ :=
  if q - ⌊q⌋ < 1 / 2 ∨ q - ⌊q⌋ = 1 / 2 ∧ ⌊q⌋ % 2 = 0 then ⌊q⌋ else ⌊q⌋ + 1

/-- The distance between doubles that are about as large as `q`. -/
def ulp (q : ℚ) : ℚ := 2 ^ (Int.log 2 |q| - 52)

/-- The double that is nearest to `q`. -/
def double (q : ℚ) : ℚ := roundHalfEven (q / ulp q) * ulp q

/-! ## Rounding to integers -/

@[simp] theorem roundHalfEven_intCast (n : ℤ) : roundHalfEven n = n := by
  simp [roundHalfEven]

theorem roundHalfEven_cases (q : ℚ) :
    roundHalfEven q = ⌊q⌋ ∧ q - ⌊q⌋ ≤ 1 / 2 ∨ roundHalfEven q = ⌊q⌋ + 1 ∧ 1 / 2 ≤ q - ⌊q⌋ := by
  unfold roundHalfEven
  split_ifs with h
  · exact .inl ⟨rfl, h.elim le_of_lt fun h => h.1.le⟩
  · exact .inr ⟨rfl, not_lt.1 (not_or.1 h).1⟩

theorem roundHalfEven_mono {x y : ℚ} (h : x ≤ y) : roundHalfEven x ≤ roundHalfEven y := by
  rcases (Int.floor_le_floor h).lt_or_eq with hlt | heq
  · have hx : roundHalfEven x ≤ ⌊x⌋ + 1 := by
      rcases roundHalfEven_cases x with ⟨hx, -⟩ | ⟨hx, -⟩ <;> omega
    have hy : ⌊y⌋ ≤ roundHalfEven y := by
      rcases roundHalfEven_cases y with ⟨hy, -⟩ | ⟨hy, -⟩ <;> omega
    omega
  · -- With one floor, the rests are in order.
    unfold roundHalfEven
    rw [heq]
    split_ifs with hx hy hy
    · exact le_rfl
    · exact (lt_add_one _).le
    · exfalso
      rcases hy with hy | ⟨hy, heven⟩
      · exact hx (.inl (by linarith))
      · rcases (by linarith : x - ⌊y⌋ ≤ 1 / 2).lt_or_eq with hlt | hhalf
        · exact hx (.inl hlt)
        · exact hx (.inr ⟨hhalf, heven⟩)
    · exact le_rfl

/-! ## Doubles -/

theorem ulp_pos (q : ℚ) : 0 < ulp q := zpow_pos two_pos _

@[simp] theorem double_zero : double 0 = 0 := by
  have h := roundHalfEven_intCast 0
  rw [Int.cast_zero] at h
  rw [double, zero_div, h, Int.cast_zero, zero_mul]

theorem log_le_of_lt_zpow {q : ℚ} {k : ℤ} (hq : 0 < q) (h : q < 2 ^ (k + 1)) :
    Int.log 2 q ≤ k := by
  have hlt := (Int.lt_zpow_iff_log_lt (b := 2) one_lt_two hq).1 (by exact_mod_cast h)
  omega

/-- A number of 53 binary digits is a double. -/
theorem double_eq_self {n k : ℤ} (h : n.natAbs ≤ 2 ^ 53) : double (n * 2 ^ k) = n * 2 ^ k := by
  rcases eq_or_ne n 0 with rfl | hn
  · simp
  -- It is a whole multiple of the distance of doubles there.
  suffices ∃ m : ℤ, (n * 2 ^ k : ℚ) / ulp (n * 2 ^ k) = m by
    obtain ⟨m, hm⟩ := this
    rw [double, hm, roundHalfEven_intCast, ← hm, div_mul_cancel₀ _ (ulp_pos _).ne']
  have habs : |(n * 2 ^ k : ℚ)| = n.natAbs * 2 ^ k := by
    rw [abs_mul, abs_of_pos (zpow_pos two_pos k : (0 : ℚ) < 2 ^ k), Nat.cast_natAbs, Int.cast_abs]
  have hpos : (0 : ℚ) < n.natAbs * 2 ^ k :=
    mul_pos (by exact_mod_cast Int.natAbs_pos.2 hn) (zpow_pos two_pos k)
  rcases h.lt_or_eq with hlt | heq
  · have hlog : Int.log 2 |(n * 2 ^ k : ℚ)| ≤ k + 52 := by
      rw [habs]
      refine log_le_of_lt_zpow hpos ?_
      rw [show k + 52 + 1 = 53 + k by ring, zpow_add₀ two_ne_zero]
      exact mul_lt_mul_of_pos_right (by exact_mod_cast hlt) (zpow_pos two_pos k)
    obtain ⟨d, hd⟩ : ∃ d : ℕ, k - (Int.log 2 |(n * 2 ^ k : ℚ)| - 52) = d :=
      Int.eq_ofNat_of_zero_le (by omega)
    refine ⟨n * 2 ^ d, ?_⟩
    rw [ulp, mul_div_assoc, ← zpow_sub₀ two_ne_zero, hd]
    push_cast
    rfl
  · -- A power of two has one digit.
    have hlog : Int.log 2 |(n * 2 ^ k : ℚ)| = 53 + k := by
      have hpow : (2 ^ 53 : ℕ) * (2 : ℚ) ^ k = (2 : ℕ) ^ (53 + k) := by
        rw [Nat.cast_ofNat, zpow_add₀ two_ne_zero]
        norm_num
      rw [habs, heq, hpow, Int.log_zpow one_lt_two]
    refine ⟨n / 2, ?_⟩
    have heven : n = 2 * (n / 2) := by omega
    rw [ulp, hlog, show 53 + k - 52 = k + 1 by ring, zpow_add_one₀ two_ne_zero]
    conv_lhs => rw [heven]
    push_cast
    field_simp

theorem double_nonneg {q : ℚ} (h : 0 ≤ q) : 0 ≤ double q := by
  have hround := roundHalfEven_mono (div_nonneg h (ulp_pos q).le)
  have hzero : roundHalfEven 0 = 0 := by simpa using roundHalfEven_intCast 0
  rw [hzero] at hround
  exact mul_nonneg (by exact_mod_cast hround) (ulp_pos q).le

theorem zpow_log_eq {q : ℚ} (h : 0 < q) : (2 : ℚ) ^ Int.log 2 q = 2 ^ 52 * ulp q := by
  rw [ulp, abs_of_pos h, zpow_sub₀ two_ne_zero]
  field_simp

/-- A number is not rounded below the power of two under it, nor above the one over it. -/
theorem zpow_log_le_double {q : ℚ} (h : 0 < q) :
    2 ^ Int.log 2 q ≤ double q ∧ double q ≤ 2 ^ (Int.log 2 q + 1) := by
  have hulp := ulp_pos q
  have hlow : (2 ^ 52 : ℤ) ≤ q / ulp q := by
    rw [le_div_iff₀ hulp, Int.cast_pow, Int.cast_ofNat, ← zpow_log_eq h]
    exact_mod_cast Int.zpow_log_le_self one_lt_two h
  have hhigh : q / ulp q ≤ (2 ^ 53 : ℤ) := by
    have hlt := Int.lt_zpow_succ_log_self (b := 2) one_lt_two q
    rw [Nat.cast_ofNat, zpow_add_one₀ two_ne_zero, zpow_log_eq h] at hlt
    rw [div_le_iff₀ hulp, Int.cast_pow, Int.cast_ofNat]
    linarith
  have hlow' : (2 ^ 52 : ℤ) ≤ roundHalfEven (q / ulp q) := by
    simpa only [roundHalfEven_intCast] using roundHalfEven_mono hlow
  have hhigh' : roundHalfEven (q / ulp q) ≤ (2 ^ 53 : ℤ) := by
    simpa only [roundHalfEven_intCast] using roundHalfEven_mono hhigh
  rw [zpow_add_one₀ two_ne_zero, zpow_log_eq h, double]
  constructor
  · exact mul_le_mul_of_nonneg_right (by exact_mod_cast hlow') hulp.le
  · calc (roundHalfEven (q / ulp q) : ℚ) * ulp q ≤ 2 ^ 53 * ulp q :=
          mul_le_mul_of_nonneg_right (by exact_mod_cast hhigh') hulp.le
      _ = 2 ^ 52 * ulp q * 2 := by ring

/-- Rounding keeps the order. -/
theorem double_le_double {x y : ℚ} (hx : 0 ≤ x) (h : x ≤ y) : double x ≤ double y := by
  rcases hx.eq_or_lt with rfl | hx
  · rw [double_zero]
    exact double_nonneg h
  have hy : 0 < y := hx.trans_le h
  rcases (Int.log_mono_right (b := 2) hx h).lt_or_eq with hlt | heq
  · calc double x ≤ 2 ^ (Int.log 2 x + 1) := (zpow_log_le_double hx).2
      _ ≤ 2 ^ Int.log 2 y := zpow_le_zpow_right₀ one_le_two hlt
      _ ≤ double y := (zpow_log_le_double hy).1
  · have hulp : ulp x = ulp y := by rw [ulp, ulp, abs_of_pos hx, abs_of_pos hy, heq]
    rw [double, double, hulp]
    have hround := roundHalfEven_mono (div_le_div_of_nonneg_right h (ulp_pos y).le)
    exact mul_le_mul_of_nonneg_right (by exact_mod_cast hround) (ulp_pos y).le

/-! ## Grids -/

/-- A whole multiple of `2 ^ k`, and at most the `N`-th. -/
def Grid (k : ℤ) (N : ℕ) (q : ℚ) : Prop := ∃ n : ℤ, n.natAbs ≤ N ∧ q = n * 2 ^ k

namespace Grid

variable {k : ℤ} {M N : ℕ} {p q : ℚ}

theorem add (hp : Grid k M p) (hq : Grid k N q) : Grid k (M + N) (p + q) := by
  obtain ⟨m, hm, rfl⟩ := hp
  obtain ⟨n, hn, rfl⟩ := hq
  exact ⟨m + n, by omega, by push_cast; ring⟩

theorem sub (hp : Grid k M p) (hq : Grid k N q) : Grid k (M + N) (p - q) := by
  obtain ⟨m, hm, rfl⟩ := hp
  obtain ⟨n, hn, rfl⟩ := hq
  exact ⟨m - n, by omega, by push_cast; ring⟩

theorem mono (h : Grid k M q) (hle : M ≤ N) : Grid k N q :=
  h.imp fun _ h => ⟨h.1.trans hle, h.2⟩

theorem zero (k : ℤ) (N : ℕ) : Grid k N 0 := ⟨0, Nat.zero_le _, by simp⟩

theorem intCast {n : ℤ} (h : n.natAbs ≤ N) : Grid 0 N n := ⟨n, h, by simp⟩

theorem max (hp : Grid k N p) (hq : Grid k N q) : Grid k N (max p q) := by
  rcases le_total p q with h | h
  · rwa [max_eq_right h]
  · rwa [max_eq_left h]

/-- What has 53 digits on the grid is not rounded. -/
theorem double_eq (h : Grid k N q) (hN : N ≤ 2 ^ 53) : double q = q := by
  obtain ⟨n, hn, rfl⟩ := h
  exact double_eq_self (hn.trans hN)

/-- The number after a whole one, in `1024`-ths of the grid. -/
theorem double_intCast_add {c : ℤ} {j : ℕ} (h : (1024 * (c * 2 ^ j) + 1).natAbs ≤ 2 ^ 53) :
    double (c + 2 ^ (-(j : ℤ) - 10)) = c + 2 ^ (-(j : ℤ) - 10) := by
  have hnext : (c + 2 ^ (-(j : ℤ) - 10) : ℚ) =
      (1024 * (c * 2 ^ j) + 1 : ℤ) * 2 ^ (-(j : ℤ) - 10) := by
    rw [zpow_sub₀ two_ne_zero, zpow_neg, zpow_natCast]
    push_cast
    field_simp
  rw [hnext, double_eq_self h]

/-- A wait in thousandths, rounded up to a whole number after the division was rounded, is long
enough. -/
theorem le_ceil_double (hk : k ≤ 0) (h : Grid k (3 * 2 ^ 51) q) (hq : 0 ≤ q) :
    q ≤ 1000 * (double (q / 1000)).ceil := by
  obtain ⟨n, hn, hqn⟩ := h
  obtain ⟨j, rfl⟩ : ∃ j : ℕ, k = -j := ⟨(-k).toNat, by omega⟩
  set c := (double (q / 1000)).ceil
  have hceil : double (q / 1000) ≤ c := Rat.le_ceil
  have hc : 0 ≤ c := by
    exact_mod_cast (double_nonneg (div_nonneg hq (by norm_num))).trans hceil
  have hstep : (0 : ℚ) < 2 ^ (-(j : ℤ) - 10) := zpow_pos two_pos _
  rw [zpow_neg, zpow_natCast, ← div_eq_mul_inv, eq_div_iff (by positivity)] at hqn
  by_contra hlt
  rw [not_le] at hlt
  -- In units of the grid, `q` is a whole number after `1000 * c`.
  have hgrid : 1000 * (c * 2 ^ j) < n := by
    have hscaled := mul_lt_mul_of_pos_right hlt (by positivity : (0 : ℚ) < 2 ^ j)
    rw [hqn, mul_assoc] at hscaled
    exact_mod_cast hscaled
  have hle : (c + 2 ^ (-(j : ℤ) - 10) : ℚ) ≤ q / 1000 := by
    have hsucc : (1000 * (c * 2 ^ j) + 1 : ℚ) ≤ q * 2 ^ j := by rw [hqn]; exact_mod_cast hgrid
    rw [zpow_sub₀ two_ne_zero, zpow_neg, zpow_natCast, le_div_iff₀ (by norm_num),
      ← mul_le_mul_iff_left₀ (by positivity : (0 : ℚ) < 2 ^ j)]
    refine le_trans ?_ hsucc
    field_simp
    norm_num
    linarith
  have hnonneg : 0 ≤ c * 2 ^ j := mul_nonneg hc (by positivity)
  have hround := double_le_double (add_nonneg (Int.cast_nonneg hc) hstep.le) hle
  rw [double_intCast_add (by omega)] at hround
  linarith

end Grid

/-- A reading of a clock or a span of time on a grid; the sums of three of them are doubles. -/
def Measured (k : ℤ) (q : ℚ) : Prop := Grid k (2 ^ 51) q

theorem Measured.double_sub {k : ℤ} {p q : ℚ} (hp : Measured k p) (hq : Measured k q) :
    double (p - q) = p - q :=
  (Grid.sub hp hq).double_eq (by norm_num)

theorem measured_intCast {n : ℤ} (h : n.natAbs ≤ 2 ^ 51) : Measured 0 n := Grid.intCast h

end Resilience
