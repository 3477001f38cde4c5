import Mathlib.Data.List.Pairwise
import Mathlib.Logic.Function.Basic
import Mathlib.Order.Lattice

/-!
# Tables kept in the order of a key

A list of entries, each with a key, whose keys increase strictly along the list.  It stands
for a finite map: `lookupKey` reads the value of the entry with a key.  `putKey` is the single
pass that revises the entry with a key in place, or inserts a fresh one where the order wants
it; on a sorted table it is an update of the map (`lookupKey_putKey`).
-/

namespace MatrixBin
namespace Library

universe u v w

section SortedTable

variable {ε : Type u} {κ : Type v} {ν : Type w} [LinearOrder κ]
variable (key : ε → κ) (value : ε → ν)

/-- Keys strictly increasing along the list. -/
def KeySorted (table : List ε) : Prop :=
  table.Pairwise fun s t => key s < key t

/-- The value of the first entry with the key. -/
def lookupKey (table : List ε) (k : κ) : Option ν :=
  (table.find? fun s => decide (key s = k)).map value

/-- Revise the entry with the key, or insert `fresh` before the first greater one. -/
def putKey (k : κ) (fresh : ε) (revise : ε → ε) : List ε → List ε
  | [] => [fresh]
  | s :: rest =>
      if key s < k then s :: putKey k fresh revise rest
      else if key s = k then revise s :: rest
      else fresh :: s :: rest

@[simp] theorem lookupKey_nil (k : κ) :
    lookupKey key value [] k = none :=
  rfl

theorem lookupKey_cons
    (s : ε)
    (rest : List ε)
    (k : κ) :
    lookupKey key value (s :: rest) k =
      if key s = k then some (value s) else lookupKey key value rest k := by
  unfold lookupKey
  by_cases h : key s = k <;> simp [h]

/-- Only keys and values matter for a lookup. -/
theorem lookupKey_congr
    {table table' : List ε}
    (h : table.map (fun s => (key s, value s)) = table'.map fun s => (key s, value s)) :
    lookupKey key value table = lookupKey key value table' := by
  induction table generalizing table' with
  | nil => rw [List.map_eq_nil_iff.mp h.symm]
  | cons s rest ih =>
      cases table' with
      | nil => simp at h
      | cons s' rest' =>
          simp only [List.map_cons, List.cons.injEq, Prod.mk.injEq] at h
          obtain ⟨⟨hkey, hvalue⟩, hrest⟩ := h
          funext k
          rw [lookupKey_cons, lookupKey_cons, hkey, hvalue, ih hrest]

variable {key}

variable {k : κ} {fresh : ε} {revise : ε → ε}

theorem key_of_mem_putKey
    (hfresh : key fresh = k)
    (hrevise : ∀ s, key (revise s) = key s)
    {table : List ε}
    {t : ε}
    (ht : t ∈ putKey key k fresh revise table) :
    key t = k ∨ ∃ s ∈ table, key s = key t := by
  induction table with
  | nil =>
      obtain rfl := List.mem_singleton.mp ht
      exact Or.inl hfresh
  | cons s rest ih =>
      unfold putKey at ht
      split at ht
      · rcases List.mem_cons.mp ht with rfl | ht
        · exact Or.inr ⟨t, by simp, rfl⟩
        · rcases ih ht with h | ⟨u, hu, h⟩
          · exact Or.inl h
          · exact Or.inr ⟨u, by simp [hu], h⟩
      · split at ht
        · rename_i heq
          rcases List.mem_cons.mp ht with rfl | ht
          · exact Or.inl ((hrevise s).trans heq)
          · exact Or.inr ⟨t, by simp [ht], rfl⟩
        · rcases List.mem_cons.mp ht with rfl | ht
          · exact Or.inl hfresh
          · exact Or.inr ⟨t, ht, rfl⟩

theorem KeySorted.putKey
    (hfresh : key fresh = k)
    (hrevise : ∀ s, key (revise s) = key s)
    {table : List ε}
    (h : KeySorted key table) :
    KeySorted key (putKey key k fresh revise table) := by
  induction table with
  | nil => exact List.pairwise_singleton _ _
  | cons s rest ih =>
      obtain ⟨hhead, htail⟩ := List.pairwise_cons.mp h
      unfold Library.putKey
      split
      · rename_i hlt
        refine List.pairwise_cons.mpr ⟨?_, ih htail⟩
        intro t ht
        rcases key_of_mem_putKey hfresh hrevise ht with heq | ⟨u, hu, heq⟩
        · rw [heq]
          exact hlt
        · rw [← heq]
          exact hhead u hu
      · rename_i hge
        split
        · refine List.pairwise_cons.mpr ⟨?_, htail⟩
          intro t ht
          rw [hrevise]
          exact hhead t ht
        · rename_i hne
          have hle : key fresh < key s := hfresh ▸ lt_of_le_of_ne (not_lt.mp hge) (Ne.symm hne)
          refine List.pairwise_cons.mpr ⟨?_, h⟩
          intro t ht
          rcases List.mem_cons.mp ht with rfl | ht
          · exact hle
          · exact hle.trans (hhead t ht)

/-- On a sorted table `putKey` is an update of the map. -/
theorem lookupKey_putKey
    {v : ν}
    (hfresh : key fresh = k)
    (hrevise : ∀ s, key (revise s) = key s)
    (hfreshValue : value fresh = v)
    (hreviseValue : ∀ s, value (revise s) = v)
    {table : List ε}
    (h : KeySorted key table) :
    lookupKey key value (putKey key k fresh revise table) =
      Function.update (lookupKey key value table) k (some v) := by
  funext k'
  induction table with
  | nil =>
      rw [putKey, lookupKey_cons, hfresh, hfreshValue, Function.update_apply]
      by_cases hk : k = k'
      · simp [hk]
      · simp [hk, Ne.symm hk]
  | cons s rest ih =>
      obtain ⟨hhead, htail⟩ := List.pairwise_cons.mp h
      unfold putKey
      split
      · rename_i hlt
        rw [lookupKey_cons, ih htail, Function.update_apply, Function.update_apply,
          lookupKey_cons]
        by_cases hk : k' = k
        · simp [hk, hlt.ne]
        · simp [hk]
      · rename_i hge
        split
        · rename_i heq
          rw [lookupKey_cons, hrevise, hreviseValue, heq, Function.update_apply,
            lookupKey_cons, heq]
          by_cases hk : k' = k
          · simp [hk]
          · simp [hk, Ne.symm hk]
        · rw [lookupKey_cons, hfresh, hfreshValue, Function.update_apply]
          by_cases hk : k' = k
          · simp [hk]
          · simp [hk, Ne.symm hk]

end SortedTable

end Library
end MatrixBin
