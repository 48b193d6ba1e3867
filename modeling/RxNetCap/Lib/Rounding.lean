/-
Binary floating point of `p` bits without bounds on the exponent: numbers that are
not negative, rounded to the nearest with ties to even.

An operation is the exact one and then `nearest`. It is monotone (`nearest_mono`)
and changes nothing that fits in `p` bits (`nearest_fits`), so a comparison with
a number that fits comes out as it would exactly, unless the exact value and that
number are next to each other.
-/
import Mathlib.Data.Int.Log
import Mathlib.Data.Rat.Floor
import Mathlib.Tactic.Linarith
import Mathlib.Tactic.Positivity
import Mathlib.Tactic.FieldSimp
import Mathlib.Tactic.Ring

set_option autoImplicit false

namespace RxNetCap.Rounding

/-! ## To an integer -/

def half_even (x : ℚ) : ℤ :=
  if x - ⌊x⌋ < 1 / 2 then ⌊x⌋
  else if 1 / 2 < x - ⌊x⌋ then ⌊x⌋ + 1
  else if ⌊x⌋ % 2 = 0 then ⌊x⌋
  else ⌊x⌋ + 1

theorem floor_le_half_even (x : ℚ) : ⌊x⌋ ≤ half_even x := by
  unfold half_even
  split_ifs <;> omega

theorem half_even_le_floor (x : ℚ) : half_even x ≤ ⌊x⌋ + 1 := by
  unfold half_even
  split_ifs <;> omega

theorem half_even_int (k : ℤ) : half_even k = k := by
  have hzero : (k : ℚ) - ⌊(k : ℚ)⌋ < 1 / 2 := by
    rw [Int.floor_intCast, sub_self]
    norm_num
  rw [half_even, if_pos hzero, Int.floor_intCast]

theorem half_even_mono {x y : ℚ} (h : x ≤ y) : half_even x ≤ half_even y := by
  rcases (Int.floor_le_floor h).lt_or_eq with hlt | heq
  · calc half_even x ≤ ⌊x⌋ + 1 := half_even_le_floor x
      _ ≤ ⌊y⌋ := hlt
      _ ≤ half_even y := floor_le_half_even y
  · have hfraction : x - ⌊y⌋ ≤ y - ⌊y⌋ := sub_le_sub_right h _
    unfold half_even
    rw [heq]
    split_ifs <;> first | omega | linarith

/-! ## To `p` bits -/

variable {p : ℕ} {x y : ℚ}

/-- The distance of the numbers of `p` bits around `x`. -/
def unit (p : ℕ) (x : ℚ) : ℚ := 2 ^ (Int.log 2 x + 1 - p)

def nearest (p : ℕ) (x : ℚ) : ℚ := if x ≤ 0 then 0 else half_even (x / unit p x) * unit p x

/-- A number of at most `p` bits. -/
def Fits (p : ℕ) (x : ℚ) : Prop := ∃ k : ℕ, ∃ j : ℤ, k < 2 ^ p ∧ x = k * 2 ^ j

theorem unit_pos (p : ℕ) (x : ℚ) : 0 < unit p x := zpow_pos two_pos _

theorem unit_mul (p : ℕ) (x : ℚ) (k : ℕ) : (2 : ℚ) ^ k * unit p x = 2 ^ (Int.log 2 x + 1 + k - p) := by
  rw [unit, ← zpow_natCast, ← zpow_add₀ two_ne_zero]
  congr 1
  omega

theorem nearest_zero (hx : x ≤ 0) : nearest p x = 0 := if_pos hx

theorem nearest_pos (hx : 0 < x) : nearest p x = half_even (x / unit p x) * unit p x := if_neg (not_le.mpr hx)

/-- A rounded number is between the powers of two that the number is between. -/
theorem nearest_between (hp : 0 < p) (hx : 0 < x) :
    2 ^ Int.log 2 x ≤ nearest p x ∧ nearest p x ≤ 2 ^ (Int.log 2 x + 1) := by
  have hunit := unit_pos p x
  have hlow : (2 : ℚ) ^ (p - 1) * unit p x = 2 ^ Int.log 2 x := by
    rw [unit_mul]
    congr 1
    omega
  have hhigh : (2 : ℚ) ^ p * unit p x = 2 ^ (Int.log 2 x + 1) := by
    rw [unit_mul]
    congr 1
    omega
  have hleast : ((2 ^ (p - 1) : ℤ) : ℚ) ≤ x / unit p x := by
    rw [le_div_iff₀ hunit]
    push_cast
    rw [hlow]
    exact Int.zpow_log_le_self one_lt_two hx
  have hmost : x / unit p x ≤ ((2 ^ p : ℤ) : ℚ) := by
    rw [div_le_iff₀ hunit]
    push_cast
    rw [hhigh]
    exact (Int.lt_zpow_succ_log_self one_lt_two x).le
  have hleast' := half_even_mono hleast
  have hmost' := half_even_mono hmost
  rw [half_even_int] at hleast' hmost'
  rw [nearest_pos hx, ← hlow, ← hhigh]
  constructor
  · exact mul_le_mul_of_nonneg_right (by exact_mod_cast hleast') hunit.le
  · exact mul_le_mul_of_nonneg_right (by exact_mod_cast hmost') hunit.le

/-- **Rounding keeps the order.** -/
theorem nearest_mono (hp : 0 < p) (h : x ≤ y) : nearest p x ≤ nearest p y := by
  rcases le_or_gt x 0 with hx | hx
  · rw [nearest_zero hx]
    rcases le_or_gt y 0 with hy | hy
    · rw [nearest_zero hy]
    · exact le_trans (zpow_pos two_pos _).le (nearest_between hp hy).1
  have hy : 0 < y := lt_of_lt_of_le hx h
  rcases (Int.log_mono_right hx h : Int.log 2 x ≤ Int.log 2 y).lt_or_eq with hlog | hlog
  · -- the two are on the sides of a power of two
    calc nearest p x ≤ 2 ^ (Int.log 2 x + 1) := (nearest_between hp hx).2
      _ ≤ 2 ^ Int.log 2 y := zpow_le_zpow_right₀ one_le_two hlog
      _ ≤ nearest p y := (nearest_between hp hy).1
  · have hunit : unit p x = unit p y := by rw [unit, unit, hlog]
    have hpos := unit_pos p y
    have hquotient : x / unit p y ≤ y / unit p y := by
      rw [div_le_div_iff_of_pos_right hpos]
      exact h
    rw [nearest_pos hx, nearest_pos hy, hunit]
    exact mul_le_mul_of_nonneg_right (by exact_mod_cast half_even_mono hquotient) hpos.le

/-- **A number that fits is its own rounding.** -/
theorem nearest_fits (hx : Fits p x) : nearest p x = x := by
  obtain ⟨k, j, hk, rfl⟩ := hx
  rcases Nat.eq_zero_or_pos k with rfl | hpos
  · rw [Nat.cast_zero, zero_mul, nearest_zero le_rfl]
  have hscale : (0 : ℚ) < 2 ^ j := zpow_pos two_pos _
  have hx : (0 : ℚ) < k * 2 ^ j := mul_pos (Nat.cast_pos.mpr hpos) hscale
  have hless : (k : ℚ) * 2 ^ j < 2 ^ (p + j) := by
    rw [zpow_add₀ two_ne_zero, zpow_natCast]
    exact mul_lt_mul_of_pos_right (by exact_mod_cast hk) hscale
  have hlog : Int.log 2 ((k : ℚ) * 2 ^ j) < p + j := (Int.lt_zpow_iff_log_lt one_lt_two hx).mp hless
  -- the number is a whole number of units
  obtain ⟨d, hd⟩ : ∃ d : ℕ, j = Int.log 2 ((k : ℚ) * 2 ^ j) + 1 - p + d :=
    ⟨(j - (Int.log 2 ((k : ℚ) * 2 ^ j) + 1 - p)).toNat, by omega⟩
  have hwhole : (k : ℚ) * 2 ^ j / unit p (k * 2 ^ j) = ((k * 2 ^ d : ℤ) : ℚ) := by
    rw [div_eq_iff (unit_pos p _).ne', unit]
    nth_rewrite 1 [hd]
    rw [zpow_add₀ two_ne_zero, zpow_natCast]
    push_cast
    ring
  rw [nearest_pos hx, hwhole, half_even_int, ← hwhole, div_mul_cancel₀ _ (unit_pos p _).ne']

theorem fits_nat {k : ℕ} (h : k < 2 ^ p) : Fits p k := ⟨k, 0, h, by rw [zpow_zero, mul_one]⟩

/-! ## Comparisons -/

/-- What is at most a number that fits is rounded to at most that number. -/
theorem nearest_le (hp : 0 < p) (hy : Fits p y) (h : x ≤ y) : nearest p x ≤ y := by
  have hmono := nearest_mono hp h
  rwa [nearest_fits hy] at hmono

theorem le_nearest (hp : 0 < p) (hx : Fits p x) (h : x ≤ y) : x ≤ nearest p y := by
  have hmono := nearest_mono hp h
  rwa [nearest_fits hx] at hmono

end RxNetCap.Rounding
