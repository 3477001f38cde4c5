import MatrixBin.Library.FloatFormat
import MatrixBin.Library.SampleRange

/-!
# Running means of floating-point samples

A mean that is halved with each new sample, `(mean + sample) / 2` with two roundings, stays
between the samples so far.  It leaves them exactly if the sum is no number, or leaves the range
of the format although mean and sample are in it (`MeanOf.next_iff`).
-/

namespace MatrixBin
namespace Library

open FloatValue

variable {F : FloatFormat}

/-- The mean and the next sample. -/
def FloatFormat.halfSum (F : FloatFormat) (mean sample : FloatValue) : FloatValue :=
  @FloatValue.div F.rounding (@FloatValue.add F.rounding mean sample) 2

/-- The sum is a number, and infinite only with one of its addends. -/
structure FloatFormat.SumHolds (F : FloatFormat) (mean sample : FloatValue) : Prop where
  number : @FloatValue.add F.rounding mean sample ≠ .nan
  range :
    ∀ negative, @FloatValue.add F.rounding mean sample = .infinite negative →
      mean = .infinite negative ∨ sample = .infinite negative

/-- A mean of samples of the format; it is infinite once a sample is. -/
structure MeanOf (F : FloatFormat) (mean : FloatValue) (samples : List FloatValue) : Prop where
  holds : ∀ s ∈ samples, F.Holds s
  number : mean ≠ .nan
  between : BetweenSamples mean samples
  finite : ∀ m, mean = .finite m → ∀ s ∈ samples, ∃ v, s = .finite v

theorem halfSum_infinite
    {mean sample : FloatValue}
    {negative : Bool}
    (h : @FloatValue.add F.rounding mean sample = .infinite negative) :
    F.halfSum mean sample = .infinite negative := by
  rw [FloatFormat.halfSum, h, ofNat_eq]
  cases negative <;> rfl

theorem halfSum_nan
    {mean sample : FloatValue}
    (h : @FloatValue.add F.rounding mean sample = .nan) :
    F.halfSum mean sample = .nan := by
  rw [FloatFormat.halfSum, h]
  rfl

/-- Half a sum that is rounded to a number. -/
theorem halfSum_finite
    {x y : ℚ}
    (h : |F.nearest (x + y)| < F.limit) :
    F.halfSum (.finite x) (.finite y) = F.round (F.nearest (x + y) / 2) := by
  have hadd : @FloatValue.add F.rounding (.finite x) (.finite y) = .finite (F.nearest (x + y)) :=
    FloatFormat.round_of_lt h
  rw [FloatFormat.halfSum, hadd, ofNat_eq]
  simp only [FloatValue.div, Nat.cast_ofNat]
  rfl

theorem nearest_half_sum_le
    {x y g : ℚ}
    (hg : F.OnGrid g)
    (hx : x ≤ g)
    (hy : y ≤ g) :
    F.nearest (F.nearest (x + y) / 2) ≤ g := by
  have hsum : F.nearest (x + y) ≤ 2 * g := FloatFormat.nearest_le hg.double (by linarith)
  exact FloatFormat.nearest_le hg (by linarith)

theorem le_nearest_half_sum
    {x y g : ℚ}
    (hg : F.OnGrid g)
    (hx : g ≤ x)
    (hy : g ≤ y) :
    g ≤ F.nearest (F.nearest (x + y) / 2) := by
  have hsum : 2 * g ≤ F.nearest (x + y) := FloatFormat.le_nearest hg.double (by linarith)
  exact FloatFormat.le_nearest hg (by linarith)

/-- Finite bounds of a mean that is a number. -/
theorem between_finite
    {x : ℚ}
    {samples : List FloatValue}
    (hholds : ∀ s ∈ samples, F.Holds s)
    (hfinite : ∀ s ∈ samples, ∃ v, s = .finite v)
    (h : BetweenSamples (.finite x) samples) :
    (∃ a, .finite a ∈ samples ∧ F.OnGrid a ∧ |a| < F.limit ∧ a ≤ x) ∧
      ∃ b, .finite b ∈ samples ∧ F.OnGrid b ∧ |b| < F.limit ∧ x ≤ b := by
  obtain ⟨⟨s, hs, hle⟩, ⟨t, ht, hge⟩⟩ := h
  obtain ⟨a, rfl⟩ := hfinite s hs
  obtain ⟨b, rfl⟩ := hfinite t ht
  refine ⟨⟨a, hs, ?_⟩, ⟨b, ht, ?_⟩⟩
  · cases hholds _ hs with
    | finite grid range => exact ⟨grid, range, finite_le_finite.mp hle⟩
  · cases hholds _ ht with
    | finite grid range => exact ⟨grid, range, finite_le_finite.mp hge⟩

/-- The mean of two values between finite samples is one of them or between them. -/
theorem between_halfSum
    {x y : ℚ}
    {samples : List FloatValue}
    (hholds : ∀ s ∈ samples, F.Holds s)
    (hfinite : ∀ s ∈ samples, ∃ v, s = .finite v)
    (hx : BetweenSamples (.finite x) samples)
    (hy : BetweenSamples (.finite y) samples)
    (hsum : |F.nearest (x + y)| < F.limit) :
    ∃ m, F.halfSum (.finite x) (.finite y) = .finite m ∧ BetweenSamples (.finite m) samples := by
  obtain ⟨⟨a, ha, hgrid, hrange, hax⟩, ⟨b, hb, hgrid', hrange', hxb⟩⟩ :=
    between_finite hholds hfinite hx
  obtain ⟨⟨c, hc, hgridc, hrangec, hcy⟩, ⟨d, hd, hgridd, hranged, hyd⟩⟩ :=
    between_finite hholds hfinite hy
  obtain ⟨low, hlow, hlowGrid, hlowRange, hlowx, hlowy⟩ :
      ∃ l, .finite l ∈ samples ∧ F.OnGrid l ∧ |l| < F.limit ∧ l ≤ x ∧ l ≤ y := by
    rcases le_total a c with hac | hca
    · exact ⟨a, ha, hgrid, hrange, hax, hac.trans hcy⟩
    · exact ⟨c, hc, hgridc, hrangec, hca.trans hax, hcy⟩
  obtain ⟨high, hhigh, hhighGrid, hhighRange, hhighx, hhighy⟩ :
      ∃ u, .finite u ∈ samples ∧ F.OnGrid u ∧ |u| < F.limit ∧ x ≤ u ∧ y ≤ u := by
    rcases le_total b d with hbd | hdb
    · exact ⟨d, hd, hgridd, hranged, hxb.trans hbd, hyd⟩
    · exact ⟨b, hb, hgrid', hrange', hxb, hyd.trans hdb⟩
  have hdown := le_nearest_half_sum hlowGrid hlowx hlowy
  have hup := nearest_half_sum_le hhighGrid hhighx hhighy
  have hhalf : |F.nearest (F.nearest (x + y) / 2)| < F.limit := by
    refine abs_lt.mpr ⟨?_, lt_of_le_of_lt hup (abs_lt.mp hhighRange).2⟩
    exact lt_of_lt_of_le (abs_lt.mp hlowRange).1 hdown
  refine ⟨_, (halfSum_finite hsum).trans (FloatFormat.round_of_lt hhalf), ?_⟩
  exact ⟨⟨_, hlow, finite_le_finite.mpr hdown⟩, ⟨_, hhigh, finite_le_finite.mpr hup⟩⟩

theorem FloatFormat.SumHolds.of_infinite
    {mean sample : FloatValue}
    {negative : Bool}
    (hadd : @FloatValue.add F.rounding mean sample = .infinite negative)
    (hone : mean = .infinite negative ∨ sample = .infinite negative) :
    F.SumHolds mean sample := by
  refine ⟨by rw [hadd]; simp, fun other hother => ?_⟩
  rwa [← FloatValue.infinite.inj (hadd.symm.trans hother)]

theorem FloatFormat.SumHolds.sample_ne_nan
    {mean sample : FloatValue}
    (h : F.SumHolds mean sample) :
    sample ≠ .nan := by
  rintro rfl
  refine h.number ?_
  cases mean <;> rfl

/-- What a sum with a finite mean and a finite sample needs. -/
theorem sumHolds_finite_iff
    {x y : ℚ} :
    F.SumHolds (.finite x) (.finite y) ↔ |F.nearest (x + y)| < F.limit := by
  constructor
  · intro hsum
    by_contra hrange
    rcases hsum.range _ (if_neg hrange) with hmean | hsample
    · cases hmean
    · cases hsample
  · intro hrange
    have hadd : @FloatValue.add F.rounding (.finite x) (.finite y) = .finite (F.nearest (x + y)) :=
      FloatFormat.round_of_lt hrange
    refine ⟨by rw [hadd]; simp, fun negative hinfinite => ?_⟩
    rw [hadd] at hinfinite
    cases hinfinite

namespace MeanOf

variable {mean sample : FloatValue} {samples : List FloatValue}

theorem holds_append
    (h : MeanOf F mean samples)
    (hsample : F.Holds sample) :
    ∀ s ∈ samples ++ [sample], F.Holds s := by
  intro s hs
  rcases List.mem_append.mp hs with hold | hnew
  · exact h.holds s hold
  · rw [List.mem_singleton.mp hnew]
    exact hsample

theorem finite_append
    {x y : ℚ}
    (h : MeanOf F (.finite x) samples) :
    ∀ s ∈ samples ++ [.finite y], ∃ v, s = .finite v := by
  intro s hs
  rcases List.mem_append.mp hs with hold | hnew
  · exact h.finite x rfl s hold
  · exact ⟨y, List.mem_singleton.mp hnew⟩

/-- A sum that holds gives a mean of the samples with the new one. -/
theorem next
    (h : MeanOf F mean samples)
    (hsample : F.Holds sample)
    (hsum : F.SumHolds mean sample) :
    MeanOf F (F.halfSum mean sample) (samples ++ [sample]) := by
  have hholds := h.holds_append hsample
  have hmean : BetweenSamples mean (samples ++ [sample]) :=
    h.between.mono (List.subset_append_left samples [sample])
  have hmem : BetweenSamples sample (samples ++ [sample]) := .of_mem (by simp)
  cases hadd : @FloatValue.add F.rounding mean sample with
  | nan => exact absurd hadd hsum.number
  | infinite negative =>
      rw [halfSum_infinite hadd]
      refine ⟨hholds, by simp, ?_, by simp⟩
      rcases hsum.range negative hadd with rfl | rfl
      · exact hmean
      · exact hmem
  | finite sum =>
      -- only numbers have a finite sum
      rcases mean with _ | m | x <;> rcases sample with _ | n | y
      case finite.finite =>
        have hfinite := h.finite_append (y := y)
        obtain ⟨m, hm, hbetween⟩ :=
          between_halfSum hholds hfinite hmean hmem (sumHolds_finite_iff.mp hsum)
        rw [hm]
        exact ⟨hholds, by simp, hbetween, fun _ _ => hfinite⟩
      case infinite.infinite =>
        simp only [FloatValue.add] at hadd
        split at hadd <;> cases hadd
      all_goals cases hadd

/-- A half sum between the samples comes from a sum that holds. -/
theorem sumHolds
    (h : MeanOf F mean samples)
    (hnumber : F.halfSum mean sample ≠ .nan)
    (hbetween : BetweenSamples (F.halfSum mean sample) (samples ++ [sample])) :
    F.SumHolds mean sample := by
  have hadd : @FloatValue.add F.rounding mean sample ≠ .nan :=
    fun hnan => hnumber (halfSum_nan hnan)
  rcases mean with _ | m | x <;> rcases sample with _ | n | y
  case infinite.infinite =>
    by_cases hsign : m = n
    · exact FloatFormat.SumHolds.of_infinite (if_pos hsign) (Or.inl rfl)
    · exact absurd (if_neg hsign) hadd
  case infinite.finite => exact FloatFormat.SumHolds.of_infinite rfl (Or.inl rfl)
  case finite.infinite => exact FloatFormat.SumHolds.of_infinite rfl (Or.inr rfl)
  case finite.finite =>
    rw [sumHolds_finite_iff]
    by_contra hrange
    -- the samples are finite, and the half of the sum is not
    have hinfinite : F.halfSum (.finite x) (.finite y) = .infinite (decide (x + y < 0)) :=
      halfSum_infinite (if_neg hrange)
    rw [hinfinite] at hbetween
    obtain ⟨⟨s, hs, hle⟩, ⟨t, ht, hge⟩⟩ := hbetween
    obtain ⟨a, rfl⟩ := h.finite_append s hs
    obtain ⟨b, rfl⟩ := h.finite_append t ht
    have hlow := finite_le_infinite.mp hle
    rw [infinite_le_finite.mp hge] at hlow
    exact Bool.false_ne_true hlow.symm
  all_goals exact absurd rfl hadd

/-- The exact effect of a sample on a mean. -/
theorem next_iff
    (h : MeanOf F mean samples)
    (hsample : F.Holds sample) :
    (F.halfSum mean sample ≠ .nan ∧
        BetweenSamples (F.halfSum mean sample) (samples ++ [sample])) ↔
      F.SumHolds mean sample := by
  constructor
  · rintro ⟨hnumber, hbetween⟩
    exact h.sumHolds hnumber hbetween
  · intro hsum
    have hnext := h.next hsample hsum
    exact ⟨hnext.number, hnext.between⟩

end MeanOf

end Library
end MatrixBin
