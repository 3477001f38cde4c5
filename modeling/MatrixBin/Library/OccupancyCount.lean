import Mathlib.Data.Nat.Count

/-!
# Counting the occupied places

A program that keeps a counter next to a table of places means the counter to be the number
of places below a bound that meet some condition, `Nat.count`.  A step that changes one
place changes this number by one or not at all.
-/

namespace MatrixBin
namespace Library

section OccupancyCount

variable {p q : Nat → Prop} [DecidablePred p] [DecidablePred q] {i n : Nat}

/-- The conditions agree below the bound. -/
theorem count_same
    (hsame : ∀ j, j < n → (q j ↔ p j)) :
    Nat.count q n = Nat.count p n :=
  le_antisymm
    (Nat.count_mono_left fun j hj => (hsame j hj).mp)
    (Nat.count_mono_left fun j hj => (hsame j hj).mpr)

/-- One place more is occupied. -/
theorem count_enter
    (hi : i < n)
    (hp : ¬ p i)
    (hq : q i)
    (hsame : ∀ j, j ≠ i → (q j ↔ p j)) :
    Nat.count q n = Nat.count p n + 1 := by
  induction n with
  | zero => exact absurd hi (Nat.not_lt_zero i)
  | succ n ih =>
      rw [Nat.count_succ, Nat.count_succ]
      by_cases hin : i = n
      · subst hin
        rw [count_same fun j hj => hsame j hj.ne, if_pos hq, if_neg hp]
      · have hlast : (if q n then 1 else 0) = if p n then 1 else 0 := by
          simp only [hsame n (Ne.symm hin)]
        rw [ih (by omega), hlast]
        omega

/-- One place more is free. -/
theorem count_leave
    (hi : i < n)
    (hp : p i)
    (hq : ¬ q i)
    (hsame : ∀ j, j ≠ i → (q j ↔ p j)) :
    Nat.count q n + 1 = Nat.count p n :=
  (count_enter hi hq hp fun j hj => (hsame j hj).symm).symm

end OccupancyCount

end Library
end MatrixBin
