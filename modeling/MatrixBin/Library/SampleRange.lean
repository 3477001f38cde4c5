import Mathlib.Algebra.Order.Field.Basic
import Mathlib.Tactic.Linarith

/-!
# Values between samples

`BetweenSamples x samples` says that a value lies between the smallest and the largest of some
samples.  The mean of two such values is one again; so is half their sum, rounded towards 0,
if 0 is one.  From the samples of one value nothing else lies between them.
-/

namespace MatrixBin
namespace Library

universe u

/-- Between the smallest and the largest sample. -/
def BetweenSamples {α : Type u} [LE α] (x : α) (samples : List α) : Prop :=
  (∃ a ∈ samples, a ≤ x) ∧ ∃ b ∈ samples, x ≤ b

namespace BetweenSamples

section Order

variable {α : Type u} [PartialOrder α] {x c : α} {samples samples' : List α}

theorem of_mem (h : x ∈ samples) : BetweenSamples x samples :=
  ⟨⟨x, h, le_refl x⟩, ⟨x, h, le_refl x⟩⟩

/-- More samples leave it between them. -/
theorem mono
    (h : BetweenSamples x samples)
    (hsub : samples ⊆ samples') :
    BetweenSamples x samples' := by
  obtain ⟨⟨a, ha, hax⟩, ⟨b, hb, hxb⟩⟩ := h
  exact ⟨⟨a, hsub ha, hax⟩, ⟨b, hsub hb, hxb⟩⟩

theorem eq_of_constant
    (h : BetweenSamples x samples)
    (hconst : ∀ a ∈ samples, a = c) :
    x = c := by
  obtain ⟨⟨a, ha, hax⟩, ⟨b, hb, hxb⟩⟩ := h
  rw [hconst a ha] at hax
  rw [hconst b hb] at hxb
  exact le_antisymm hxb hax

theorem singleton_iff : BetweenSamples x [c] ↔ x = c := by
  constructor
  · intro h
    exact h.eq_of_constant fun a ha => List.mem_singleton.mp ha
  · rintro rfl
    exact of_mem (List.mem_singleton.mpr rfl)

end Order

section Means

variable {K : Type u} [Field K] [LinearOrder K] [IsStrictOrderedRing K]

theorem mean
    {x y : K}
    {samples : List K}
    (hx : BetweenSamples x samples)
    (hy : BetweenSamples y samples) :
    BetweenSamples ((x + y) / 2) samples := by
  obtain ⟨⟨a, ha, hax⟩, ⟨b, hb, hxb⟩⟩ := hx
  obtain ⟨⟨c, hc, hcy⟩, ⟨d, hd, hyd⟩⟩ := hy
  constructor
  · rcases le_total a c with hac | hca
    · exact ⟨a, ha, by linarith⟩
    · exact ⟨c, hc, by linarith⟩
  · rcases le_total b d with hbd | hdb
    · exact ⟨d, hd, by linarith⟩
    · exact ⟨b, hb, by linarith⟩

/-- A negative sum is halved like its opposite. -/
theorem tdiv_two_of_nonpos
    {z : Int}
    (h : z ≤ 0) :
    z.tdiv 2 = -(-z / 2) := by
  have hopp : (-z).tdiv 2 = -z / 2 := Int.tdiv_eq_ediv_of_nonneg (by omega)
  rw [← hopp, Int.neg_tdiv, neg_neg]

theorem tdiv_two_eq_self_iff (z : Int) : z.tdiv 2 = z ↔ z = 0 := by
  rcases le_total 0 z with hpos | hneg
  · rw [Int.tdiv_eq_ediv_of_nonneg hpos]
    omega
  · rw [tdiv_two_of_nonpos hneg]
    omega

/-- Rounding towards 0 does not leave a range that contains 0. -/
theorem half_sum
    {x y : Int}
    {samples : List Int}
    (hx : BetweenSamples x samples)
    (hy : BetweenSamples y samples)
    (hzero : BetweenSamples 0 samples) :
    BetweenSamples ((x + y).tdiv 2) samples := by
  obtain ⟨⟨a, ha, hax⟩, ⟨b, hb, hxb⟩⟩ := hx
  obtain ⟨⟨c, hc, hcy⟩, ⟨d, hd, hyd⟩⟩ := hy
  obtain ⟨⟨e, he, hez⟩, ⟨f, hf, hzf⟩⟩ := hzero
  rcases le_total 0 (x + y) with hpos | hneg
  · rw [Int.tdiv_eq_ediv_of_nonneg hpos]
    constructor
    · exact ⟨e, he, by omega⟩
    · rcases le_total b d with hbd | hdb
      · exact ⟨d, hd, by omega⟩
      · exact ⟨b, hb, by omega⟩
  · rw [tdiv_two_of_nonpos hneg]
    constructor
    · rcases le_total a c with hac | hca
      · exact ⟨a, ha, by omega⟩
      · exact ⟨c, hc, by omega⟩
    · exact ⟨f, hf, by omega⟩

end Means

end BetweenSamples

end Library
end MatrixBin
