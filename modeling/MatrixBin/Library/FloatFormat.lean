import Mathlib.Data.Int.Log
import Mathlib.Data.Rat.Floor
import Mathlib.Tactic.FieldSimp
import Mathlib.Tactic.Positivity
import MatrixBin.Library.FloatValue

/-!
# Binary floating-point formats

A format has a number of significant bits and a range of exponents.  `nearest` rounds to the
nearest multiple of the unit in the last place, ties to the even one, as if there were no
largest exponent; `round` then gives an infinite value from the end of the range on.

Rounding does not pass a value of the format: what is below it is rounded to no more
(`nearest_le`), and what is above it to no less (`le_nearest`).  So half a rounded sum does not
leave the range of its addends.
-/

namespace MatrixBin
namespace Library

/-! ### The nearest integer -/

/-- The nearest integer, the even one at a midpoint. -/
def roundEven (q : ℚ) : ℤ :=
  if q - ⌊q⌋ < 1 / 2 then ⌊q⌋
  else if 1 / 2 < q - ⌊q⌋ then ⌊q⌋ + 1
  else ⌊q⌋ + ⌊q⌋ % 2

theorem roundEven_bounds (q : ℚ) : ⌊q⌋ ≤ roundEven q ∧ roundEven q ≤ ⌊q⌋ + 1 := by
  unfold roundEven
  split_ifs <;> omega

@[simp] theorem roundEven_intCast (n : ℤ) : roundEven n = n := by
  simp [roundEven]

theorem le_roundEven
    {n : ℤ}
    {q : ℚ}
    (h : (n : ℚ) ≤ q) :
    n ≤ roundEven q :=
  (Int.le_floor.mpr h).trans (roundEven_bounds q).1

theorem roundEven_le
    {n : ℤ}
    {q : ℚ}
    (h : q ≤ n) :
    roundEven q ≤ n := by
  rcases h.eq_or_lt with rfl | hlt
  · rw [roundEven_intCast]
  · have hfloor : ⌊q⌋ < n := Int.floor_lt.mpr hlt
    have hbound := (roundEven_bounds q).2
    omega

/-! ### Formats -/

/-- A binary format; 1 is one of its normal numbers. -/
structure FloatFormat where
  precision : Nat
  minExponent : Int
  maxExponent : Int
  precision_pos : 1 ≤ precision
  minExponent_le : minExponent ≤ 0
  le_maxExponent : 0 ≤ maxExponent

namespace FloatFormat

/-- IEEE 754 binary32. -/
def binary32 : FloatFormat where
  precision := 24
  minExponent := -126
  maxExponent := 127
  precision_pos := by decide
  minExponent_le := by decide
  le_maxExponent := by decide

/-- IEEE 754 binary64. -/
def binary64 : FloatFormat where
  precision := 53
  minExponent := -1022
  maxExponent := 1023
  precision_pos := by decide
  minExponent_le := by decide
  le_maxExponent := by decide

variable (F : FloatFormat)

/-- The exponent of the last place of a number; below the smallest exponent it stays. -/
def lastPlace (x : ℚ) : ℤ := max (Int.log 2 |x|) F.minExponent - (F.precision - 1)

/-- The unit in the last place. -/
def unit (x : ℚ) : ℚ := 2 ^ F.lastPlace x

/-- The nearest number of the precision, without a largest exponent. -/
def nearest (x : ℚ) : ℚ := roundEven (x / F.unit x) * F.unit x

/-- The end of the range. -/
def limit : ℚ := 2 ^ (F.maxExponent + 1)

def round (x : ℚ) : FloatValue :=
  if |F.nearest x| < F.limit then .finite (F.nearest x) else .infinite (decide (x < 0))

@[reducible] def rounding : Rounding where
  round := F.round

/-- A value of another format. -/
def convert : FloatValue → FloatValue
  | .finite x => F.round x
  | v => v

/-- A number of the precision, without a largest exponent. -/
def OnGrid (g : ℚ) : Prop := ∃ n : ℤ, g = n * F.unit g

variable {F}

/-! ### Powers of two -/

theorem exists_mul_two_zpow
    {e e' : ℤ}
    (h : e ≤ e') :
    ∃ n : ℤ, (2 : ℚ) ^ e' = n * 2 ^ e := by
  obtain ⟨k, rfl⟩ := Int.le.dest h
  refine ⟨2 ^ k, ?_⟩
  rw [zpow_add₀ (by norm_num), zpow_natCast]
  push_cast
  ring

theorem unit_pos (x : ℚ) : 0 < F.unit x := zpow_pos (by norm_num) _

/-- A smaller last place: the number is less than the power of two from which on the other one
is, and this power is a multiple of the unit. -/
theorem lt_two_zpow_log
    {g x : ℚ}
    (hx : x ≠ 0)
    (h : F.lastPlace g < F.lastPlace x) :
    |g| < 2 ^ Int.log 2 |x| ∧ (2 : ℚ) ^ Int.log 2 |x| ≤ |x| ∧
      ∃ n : ℤ, (2 : ℚ) ^ Int.log 2 |x| = n * F.unit x := by
  have hmax : max (Int.log 2 |g|) F.minExponent < max (Int.log 2 |x|) F.minExponent := by
    simpa [lastPlace] using h
  have hlog : Int.log 2 |g| + 1 ≤ Int.log 2 |x| ∧ F.minExponent < Int.log 2 |x| := by omega
  refine ⟨?_, ?_, ?_⟩
  · have hlt := Int.lt_zpow_succ_log_self (b := 2) (by norm_num) |g|
    have hpow : (2 : ℚ) ^ (Int.log 2 |g| + 1) ≤ 2 ^ Int.log 2 |x| :=
      zpow_le_zpow_right₀ (by norm_num) hlog.1
    exact lt_of_lt_of_le (by exact_mod_cast hlt) hpow
  · exact_mod_cast Int.zpow_log_le_self (b := 2) (by norm_num) (abs_pos.mpr hx)
  · refine exists_mul_two_zpow ?_
    have hprecision := F.precision_pos
    unfold lastPlace
    omega

/-! ### Numbers of the precision -/

/-- A multiple of a power of two that is not below the last place is one. -/
theorem OnGrid.of_multiple
    {g : ℚ}
    {n e : ℤ}
    (hg : g = n * 2 ^ e)
    (he : F.lastPlace g ≤ e) :
    F.OnGrid g := by
  obtain ⟨m, hm⟩ := exists_mul_two_zpow he
  refine ⟨n * m, ?_⟩
  rw [unit, Int.cast_mul, mul_assoc, ← hm, ← hg]

theorem OnGrid.multiple
    {g x : ℚ}
    (hg : F.OnGrid g)
    (h : F.lastPlace x ≤ F.lastPlace g) :
    ∃ n : ℤ, g = n * F.unit x := by
  obtain ⟨n, hn⟩ := hg
  obtain ⟨m, hm⟩ := exists_mul_two_zpow h
  refine ⟨n * m, ?_⟩
  rw [unit, Int.cast_mul, mul_assoc, ← hm]
  exact hn

theorem nearest_le_of_multiple
    {x : ℚ}
    {n : ℤ}
    (h : x ≤ n * F.unit x) :
    F.nearest x ≤ n * F.unit x := by
  have hq : x / F.unit x ≤ n := (div_le_iff₀ (unit_pos x)).mpr h
  have hround : roundEven (x / F.unit x) ≤ n := roundEven_le hq
  exact mul_le_mul_of_nonneg_right (by exact_mod_cast hround) (unit_pos x).le

theorem le_nearest_of_multiple
    {x : ℚ}
    {n : ℤ}
    (h : n * F.unit x ≤ x) :
    n * F.unit x ≤ F.nearest x := by
  have hq : (n : ℚ) ≤ x / F.unit x := (le_div_iff₀ (unit_pos x)).mpr h
  have hround : n ≤ roundEven (x / F.unit x) := le_roundEven hq
  exact mul_le_mul_of_nonneg_right (by exact_mod_cast hround) (unit_pos x).le

@[simp] theorem nearest_zero : F.nearest 0 = 0 := by
  have hround : roundEven (0 : ℚ) = 0 := by simpa using roundEven_intCast 0
  simp [nearest, hround]

/-- Rounding up stops at a number of the precision. -/
theorem nearest_le
    {x g : ℚ}
    (hg : F.OnGrid g)
    (h : x ≤ g) :
    F.nearest x ≤ g := by
  by_cases hx : x = 0
  · rwa [hx, nearest_zero, ← hx]
  rcases le_or_gt (F.lastPlace x) (F.lastPlace g) with hplace | hplace
  · obtain ⟨n, rfl⟩ := hg.multiple hplace
    exact nearest_le_of_multiple h
  · obtain ⟨hlt, hle, n, hn⟩ := lt_two_zpow_log hx hplace
    -- the number is the larger one in magnitude, so it is negative
    have hbound := abs_lt.mp hlt
    have hneg : x ≤ (-n : ℤ) * F.unit x := by
      rw [Int.cast_neg, neg_mul, ← hn]
      rcases abs_cases x with ⟨habs, -⟩ | ⟨habs, -⟩
      · linarith
      · linarith
    have hround := nearest_le_of_multiple hneg
    rw [Int.cast_neg, neg_mul, ← hn] at hround
    linarith

/-- Rounding down stops at a number of the precision. -/
theorem le_nearest
    {x g : ℚ}
    (hg : F.OnGrid g)
    (h : g ≤ x) :
    g ≤ F.nearest x := by
  by_cases hx : x = 0
  · rwa [hx, nearest_zero, ← hx]
  rcases le_or_gt (F.lastPlace x) (F.lastPlace g) with hplace | hplace
  · obtain ⟨n, rfl⟩ := hg.multiple hplace
    exact le_nearest_of_multiple h
  · obtain ⟨hlt, hle, n, hn⟩ := lt_two_zpow_log hx hplace
    have hbound := abs_lt.mp hlt
    have hpos : n * F.unit x ≤ x := by
      rw [← hn]
      rcases abs_cases x with ⟨habs, -⟩ | ⟨habs, -⟩
      · linarith
      · linarith
    have hround := le_nearest_of_multiple hpos
    rw [← hn] at hround
    linarith

theorem nearest_eq
    {g : ℚ}
    (hg : F.OnGrid g) :
    F.nearest g = g :=
  le_antisymm (nearest_le hg (le_refl g)) (le_nearest hg (le_refl g))

/-- What rounding gives is a number of the precision. -/
theorem onGrid_nearest (x : ℚ) : F.OnGrid (F.nearest x) := by
  by_cases hplace : F.lastPlace (F.nearest x) ≤ F.lastPlace x
  · exact OnGrid.of_multiple rfl hplace
  by_cases hzero : F.nearest x = 0
  · exact ⟨0, by simp [hzero]⟩
  -- it was rounded up to a power of two
  obtain ⟨hlt, hle, -⟩ := lt_two_zpow_log hzero (not_le.mp hplace)
  have hlog : F.lastPlace x ≤ Int.log 2 |F.nearest x| ∧
      F.lastPlace (F.nearest x) ≤ Int.log 2 |F.nearest x| := by
    have hprecision := F.precision_pos
    unfold lastPlace at hplace ⊢
    omega
  obtain ⟨n, hn⟩ := exists_mul_two_zpow hlog.1
  have hbound := abs_lt.mp hlt
  have hup : F.nearest x ≤ 2 ^ Int.log 2 |F.nearest x| := by
    have hround := nearest_le_of_multiple (F := F) (x := x) (n := n) (by
      rw [unit, ← hn]
      exact hbound.2.le)
    rwa [unit, ← hn] at hround
  have hdown : -2 ^ Int.log 2 |F.nearest x| ≤ F.nearest x := by
    have hround := le_nearest_of_multiple (F := F) (x := x) (n := -n) (by
      rw [unit, Int.cast_neg, neg_mul, ← hn]
      exact hbound.1.le)
    rwa [unit, Int.cast_neg, neg_mul, ← hn] at hround
  rcases abs_cases (F.nearest x) with ⟨habs, -⟩ | ⟨habs, -⟩
  · refine OnGrid.of_multiple (n := 1) (e := Int.log 2 |F.nearest x|) ?_ hlog.2
    rw [Int.cast_one, one_mul]
    exact le_antisymm hup (by linarith)
  · refine OnGrid.of_multiple (n := -1) (e := Int.log 2 |F.nearest x|) ?_ hlog.2
    rw [Int.cast_neg, Int.cast_one, neg_one_mul]
    exact le_antisymm (by linarith) hdown

theorem onGrid_one : F.OnGrid 1 := by
  refine OnGrid.of_multiple (n := 1) (e := 0) (by norm_num) ?_
  have hprecision := F.precision_pos
  have hmin := F.minExponent_le
  simp only [lastPlace, abs_one, Int.log_one_right]
  omega

/-- The integers that the precision counts. -/
theorem onGrid_intCast
    {n : ℤ}
    (h : |n| < 2 ^ F.precision) :
    F.OnGrid n := by
  by_cases hzero : n = 0
  · exact ⟨0, by simp [hzero]⟩
  refine OnGrid.of_multiple (n := n) (e := 0) (by simp) ?_
  have hpos : (0 : ℚ) < |(n : ℚ)| := abs_pos.mpr (by exact_mod_cast hzero)
  have hlog : Int.log 2 |(n : ℚ)| < F.precision := by
    refine (Int.lt_zpow_iff_log_lt (b := 2) (by norm_num) hpos).mp ?_
    rw [zpow_natCast]
    exact_mod_cast h
  have hprecision := F.precision_pos
  have hmin := F.minExponent_le
  unfold lastPlace
  omega

theorem OnGrid.neg
    {g : ℚ}
    (hg : F.OnGrid g) :
    F.OnGrid (-g) := by
  obtain ⟨n, hn⟩ := hg
  have hunit : F.unit (-g) = F.unit g := by simp [unit, lastPlace]
  refine ⟨-n, ?_⟩
  rw [hunit, Int.cast_neg, neg_mul, ← hn]

/-- The double of a number of the precision is one. -/
theorem OnGrid.double
    {g : ℚ}
    (hg : F.OnGrid g) :
    F.OnGrid (2 * g) := by
  by_cases hzero : g = 0
  · exact ⟨0, by simp [hzero]⟩
  obtain ⟨n, hn⟩ := hg
  refine OnGrid.of_multiple (n := n) (e := F.lastPlace g + 1) ?_ ?_
  · rw [zpow_add₀ (by norm_num), zpow_one]
    have hunit : g = n * 2 ^ F.lastPlace g := hn
    linarith
  · have hpos : 0 < |g| := abs_pos.mpr hzero
    have hlog : Int.log 2 |2 * g| < Int.log 2 |g| + 2 := by
      refine (Int.lt_zpow_iff_log_lt (b := 2) (by norm_num) (by positivity)).mp ?_
      have hlt := Int.lt_zpow_succ_log_self (b := 2) (by norm_num) |g|
      rw [abs_mul, abs_two]
      have hsucc : ((2 : ℕ) : ℚ) ^ (Int.log 2 |g| + 2) = 2 * ((2 : ℕ) : ℚ) ^ (Int.log 2 |g| + 1) := by
        rw [show Int.log 2 |g| + 2 = (Int.log 2 |g| + 1) + 1 by ring, zpow_add₀ (by norm_num),
          zpow_one]
        push_cast
        ring
      rw [hsucc]
      linarith
    unfold lastPlace
    omega

theorem onGrid_two_pow (k : ℕ) : F.OnGrid (2 ^ k) := by
  induction k with
  | zero =>
      rw [pow_zero]
      exact onGrid_one
  | succ k ih =>
      rw [pow_succ']
      exact ih.double

/-! ### Values of a format -/

variable (F) in
/-- The values of the format. -/
inductive Holds : FloatValue → Prop
  | nan : Holds .nan
  | infinite (negative : Bool) : Holds (.infinite negative)
  | finite {x : ℚ} (grid : F.OnGrid x) (range : |x| < F.limit) : Holds (.finite x)

theorem round_of_lt
    {x : ℚ}
    (h : |F.nearest x| < F.limit) :
    F.round x = .finite (F.nearest x) :=
  if_pos h

theorem holds_round (x : ℚ) : F.Holds (F.round x) := by
  unfold round
  split
  · rename_i hrange
    exact .finite (onGrid_nearest x) hrange
  · exact .infinite _

theorem round_ne_nan (x : ℚ) : F.round x ≠ .nan := by
  unfold round
  split
  · simp
  · simp

/-- What is not below a power of two is not rounded below it. -/
theorem two_pow_le_of_round
    {x y : ℚ}
    {k : ℕ}
    (h : 2 ^ k ≤ |x|)
    (hround : F.round x = .finite y) :
    2 ^ k ≤ |y| := by
  unfold round at hround
  split at hround
  · obtain rfl := FloatValue.finite.inj hround
    rcases abs_cases x with ⟨habs, -⟩ | ⟨habs, -⟩
    · have hle := le_nearest (F := F) (onGrid_two_pow k) (habs ▸ h)
      exact hle.trans (le_abs_self _)
    · have hle := nearest_le (F := F) (x := x) (onGrid_two_pow k).neg (by linarith)
      exact (le_neg_of_le_neg hle).trans (neg_le_abs _)
  · cases hround

/-- No number below the power of two. -/
inductive Beyond (k : ℕ) : FloatValue → Prop
  | nan : Beyond k .nan
  | infinite (negative : Bool) : Beyond k (.infinite negative)
  | finite {x : ℚ} (hx : 2 ^ k ≤ |x|) : Beyond k (.finite x)

theorem beyond_round
    {x : ℚ}
    {k : ℕ}
    (h : 2 ^ k ≤ |x|) :
    Beyond k (F.round x) := by
  cases hround : F.round x with
  | nan => exact .nan
  | infinite negative => exact .infinite negative
  | finite y => exact .finite (two_pow_le_of_round h hround)

theorem Beyond.convert
    {v : FloatValue}
    {k : ℕ}
    (h : Beyond k v) :
    Beyond k (F.convert v) := by
  cases h with
  | nan => exact .nan
  | infinite negative => exact .infinite negative
  | finite hx => exact beyond_round hx

/-- A small number does not bring it back. -/
theorem Beyond.sub
    {v : FloatValue}
    {k : ℕ}
    {y : ℚ}
    (h : Beyond (k + 1) v)
    (hy : |y| ≤ 2 ^ k) :
    Beyond k (@FloatValue.sub F.rounding v (.finite y)) := by
  cases h with
  | nan => exact .nan
  | infinite negative => exact .infinite negative
  | @finite x hx =>
      refine beyond_round ?_
      rw [pow_succ] at hx
      have htriangle := abs_sub_abs_le_abs_sub x y
      linarith

/-- An integer up to a power of two of the range is rounded to a number. -/
theorem round_intCast
    {n : Int}
    {k : ℕ}
    (hlow : -2 ^ k ≤ n)
    (hhigh : n ≤ 2 ^ k)
    (hk : (k : Int) ≤ F.maxExponent) :
    F.round n = .finite (F.nearest n) := by
  have hup : F.nearest n ≤ 2 ^ k :=
    nearest_le (onGrid_two_pow k) (by exact_mod_cast hhigh)
  have hdown : -2 ^ k ≤ F.nearest n :=
    le_nearest (onGrid_two_pow k).neg (by exact_mod_cast hlow)
  have hlimit : (2 : ℚ) ^ k < F.limit := by
    rw [limit, ← zpow_natCast]
    exact zpow_lt_zpow_right₀ (by norm_num) (by omega)
  exact round_of_lt (abs_lt.mpr ⟨by linarith, by linarith⟩)

theorem holds_zero : F.Holds (.finite 0) := by
  refine .finite ⟨0, by simp⟩ ?_
  rw [abs_zero, limit]
  exact zpow_pos (by norm_num) _

/-- A number of the format is rounded to itself. -/
theorem round_eq
    {x : ℚ}
    (h : F.Holds (.finite x)) :
    F.round x = .finite x := by
  cases h with
  | finite grid range =>
      have hround : |F.nearest x| < F.limit := by rwa [nearest_eq grid]
      rw [round_of_lt hround, nearest_eq grid]

@[simp] theorem round_zero : F.round 0 = .finite 0 := round_eq holds_zero

theorem holds_mul (x y : FloatValue) : F.Holds (@FloatValue.mul F.rounding x y) := by
  rcases x with _ | m | x <;> rcases y with _ | n | y
  case finite.finite => exact holds_round (x * y)
  all_goals
    simp only [FloatValue.mul]
    first
      | exact .nan
      | exact .infinite _
      | split <;> first | exact .nan | exact .infinite _

/-- Only 0 is rounded to 0 among the integers. -/
theorem ofInt_eq_zero_iff (n : Int) : @FloatValue.ofInt F.rounding n = .finite 0 ↔ n = 0 := by
  constructor
  · intro h
    have hround : F.round n = .finite 0 := h
    unfold round at hround
    split at hround
    · have hzero : F.nearest n = 0 := FloatValue.finite.inj hround
      by_contra hne
      rcases Int.lt_or_gt_of_ne hne with hneg | hpos
      · have hle : ((n : ℤ) : ℚ) ≤ -1 := by exact_mod_cast (by omega : n ≤ -1)
        have := nearest_le (onGrid_one (F := F)).neg hle
        linarith
      · have hle : (1 : ℚ) ≤ n := by exact_mod_cast hpos
        have := le_nearest (onGrid_one (F := F)) hle
        linarith
    · cases hround
  · rintro rfl
    change F.round ((0 : Int) : ℚ) = _
    rw [Int.cast_zero, round_zero]

end FloatFormat

end Library
end MatrixBin
