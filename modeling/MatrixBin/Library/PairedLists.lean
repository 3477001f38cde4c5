import Mathlib.Data.List.Forall2
import Mathlib.Data.List.Infix

/-!
# Lists whose elements correspond

Two lists correspond when their elements do, one by one (`List.Forall₂`).  A part of one list
corresponds to a part of the other one, and in lists of tagged elements those of one tag
correspond.  This is what is needed to follow the elements of a queue through stages that change
their form.
-/

namespace MatrixBin
namespace Library

universe u v w

section Paired

variable {α : Type u} {β : Type v} {γ : Type w}
variable {R : α → β → Prop} {S : β → γ → Prop}
variable {as : List α} {bs : List β} {cs : List γ}

theorem exists_forall₂
    (h : ∀ a ∈ as, ∃ b, R a b) :
    ∃ bs, List.Forall₂ R as bs := by
  induction as with
  | nil => exact ⟨[], .nil⟩
  | cons a as ih =>
      obtain ⟨b, hb⟩ := h a List.mem_cons_self
      obtain ⟨bs, hbs⟩ := ih fun c hc => h c (List.mem_cons_of_mem a hc)
      exact ⟨b :: bs, .cons hb hbs⟩

/-- Through two stages. -/
theorem forall₂_comp
    (h : List.Forall₂ R as bs)
    (hnext : List.Forall₂ S bs cs) :
    List.Forall₂ (fun a c => ∃ b, R a b ∧ S b c) as cs := by
  induction h generalizing cs with
  | nil =>
      cases hnext
      exact .nil
  | cons hab _ ih =>
      cases hnext with
      | cons hbc hnext => exact .cons ⟨_, hab, hbc⟩ (ih hnext)

theorem forall₂_concat
    {a : α} {b : β}
    (h : List.Forall₂ R as bs)
    (hab : R a b) :
    List.Forall₂ R (as ++ [a]) (bs ++ [b]) :=
  List.rel_append h (.cons hab .nil)

/-- What holds of the elements of one list can be used for the pairs. -/
theorem forall₂_of_forall_mem
    {P : α → Prop}
    (h : List.Forall₂ R as bs)
    (hmem : ∀ a ∈ as, P a) :
    List.Forall₂ (fun a b => P a ∧ R a b) as bs :=
  (List.forall₂_and_left as bs).mpr ⟨hmem, h⟩

theorem exists_suffix_of_forall₂
    (h : List.Forall₂ R as bs)
    {part : List β}
    (hpart : part <:+ bs) :
    ∃ part', part' <:+ as ∧ List.Forall₂ R part' part := by
  obtain ⟨before, rfl⟩ := hpart
  refine ⟨as.drop before.length, List.drop_suffix _ _, ?_⟩
  have hdrop := List.forall₂_drop before.length h
  rwa [List.drop_left] at hdrop

theorem exists_prefix_of_forall₂
    (h : List.Forall₂ R as bs)
    {part : List β}
    (hpart : part <+: bs) :
    ∃ part', part' <+: as ∧ List.Forall₂ R part' part := by
  obtain ⟨behind, rfl⟩ := hpart
  refine ⟨as.take part.length, List.take_prefix _ _, ?_⟩
  have htake := List.forall₂_take part.length h
  rwa [List.take_left] at htake

theorem exists_infix_of_forall₂
    (h : List.Forall₂ R as bs)
    {part : List β}
    (hpart : part <:+: bs) :
    ∃ part', part' <:+: as ∧ List.Forall₂ R part' part := by
  obtain ⟨before, behind, rfl⟩ := hpart
  obtain ⟨front, hfront, hpaired⟩ := exists_prefix_of_forall₂ h (List.prefix_append _ behind)
  obtain ⟨part', hpart', hpaired'⟩ :=
    exists_suffix_of_forall₂ hpaired (List.suffix_append before part)
  exact ⟨part', hpart'.isInfix.trans hfront.isInfix, hpaired'⟩

end Paired

/-! ### Tags -/

section Tagged

variable {ι : Type u} {α : Type v} {β : Type w} [DecidableEq ι]

/-- The elements of one tag. -/
def tagged (j : ι) (xs : List (ι × α)) : List α := (xs.filter fun x => x.1 = j).map Prod.snd

@[simp] theorem tagged_nil
    (j : ι) :
    tagged j ([] : List (ι × α)) = [] :=
  rfl

theorem tagged_cons
    (j : ι)
    (x : ι × α)
    (xs : List (ι × α)) :
    tagged j (x :: xs) = if x.1 = j then x.2 :: tagged j xs else tagged j xs := by
  by_cases h : x.1 = j
  · simp [tagged, h]
  · simp [tagged, h]

theorem tagged_append
    (j : ι)
    (xs ys : List (ι × α)) :
    tagged j (xs ++ ys) = tagged j xs ++ tagged j ys := by
  simp [tagged]

theorem mem_tagged
    {x : ι × α} {xs : List (ι × α)}
    (h : x ∈ xs) :
    x.2 ∈ tagged x.1 xs :=
  List.mem_map.mpr ⟨x, List.mem_filter.mpr ⟨h, by simp⟩, rfl⟩

theorem tagged_mono
    {xs ys : List (ι × α)}
    (h : xs <+: ys)
    (j : ι) :
    tagged j xs <+: tagged j ys := by
  obtain ⟨more, rfl⟩ := h
  exact ⟨tagged j more, (tagged_append j xs more).symm⟩

/-- The elements of one tag correspond. -/
theorem tagged_forall₂
    {R : α → β → Prop} {xs : List (ι × α)} {ys : List (ι × β)}
    (h : List.Forall₂ (fun x y => x.1 = y.1 ∧ R x.2 y.2) xs ys)
    (j : ι) :
    List.Forall₂ R (tagged j xs) (tagged j ys) := by
  induction h with
  | nil => exact .nil
  | cons hxy _ ih =>
      obtain ⟨htag, hR⟩ := hxy
      rw [tagged_cons, tagged_cons, ← htag]
      split
      · exact .cons hR ih
      · exact ih

end Tagged

end Library
end MatrixBin
