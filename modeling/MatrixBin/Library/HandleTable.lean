import Mathlib.Data.List.Basic
import Mathlib.Data.List.Count
import Mathlib.Data.List.Nodup
import Mathlib.Logic.Function.Basic

/-!
# Handles that are recorded in a table

Handles are numbered in the order of their creation and recorded in places of a table,
at most one in each place; a handle that is given back is taken from its place and added
to a list.  `HandlesKept` says that none is lost: every handle created so far is recorded
in exactly one place, or was given back once.

The rules are those of creating a handle in an empty place and of giving handles back.
-/

namespace MatrixBin
namespace Library

universe u v

section HandleTable

variable {P : Type u} [DecidableEq P]

/-- An entry of a table with one place changed. -/
theorem entry_of_update
    {β : Type v}
    {table : P → Option β}
    {p q : P}
    {entry : Option β}
    {x : β}
    (h : Function.update table p entry q = some x) :
    (q = p ∧ entry = some x) ∨ (q ≠ p ∧ table q = some x) := by
  by_cases hqp : q = p
  · rw [hqp, Function.update_self] at h
    exact Or.inl ⟨hqp, h⟩
  · rw [Function.update_of_ne hqp] at h
    exact Or.inr ⟨hqp, h⟩

/-- Every handle below `next` is recorded in one place or was given back once. -/
structure HandlesKept (held : P → Option Nat) (returned : List Nat) (next : Nat) : Prop where
  held_lt : ∀ p k, held p = some k → k < next
  returned_lt : ∀ k ∈ returned, k < next
  one_place : ∀ p q k, held p = some k → held q = some k → p = q
  once : ∀ k, k < next →
    (∃ p, held p = some k) ∧ returned.count k = 0 ∨ (¬ ∃ p, held p = some k) ∧ returned.count k = 1

variable {held : P → Option Nat} {returned : List Nat} {next : Nat}

omit [DecidableEq P] in
theorem handlesKept_nil : HandlesKept (fun _ : P => none) [] 0 where
  held_lt := by simp
  returned_lt := by simp
  one_place := by simp
  once := by simp

/-- A new handle is recorded in an empty place. -/
theorem HandlesKept.create
    (h : HandlesKept held returned next)
    {p : P}
    (hempty : held p = none) :
    HandlesKept (Function.update held p (some next)) returned (next + 1) where
  held_lt := by
    intro q k hq
    rcases entry_of_update hq with ⟨-, heq⟩ | ⟨-, hq⟩
    · obtain rfl := Option.some.inj heq
      exact Nat.lt_succ_self _
    · exact Nat.lt_succ_of_lt (h.held_lt q k hq)
  returned_lt := fun k hk => Nat.lt_succ_of_lt (h.returned_lt k hk)
  one_place := by
    intro q r k hq hr
    rcases entry_of_update hq with ⟨hqp, heq⟩ | ⟨-, hq⟩ <;>
      rcases entry_of_update hr with ⟨hrp, heq'⟩ | ⟨-, hr⟩
    · rw [hqp, hrp]
    · obtain rfl := Option.some.inj heq
      exact absurd (h.held_lt r _ hr) (Nat.lt_irrefl _)
    · obtain rfl := Option.some.inj heq'
      exact absurd (h.held_lt q _ hq) (Nat.lt_irrefl _)
    · exact h.one_place q r k hq hr
  once := by
    intro k hk
    rcases Nat.lt_or_eq_of_le (Nat.le_of_lt_succ hk) with hlt | rfl
    · have hsame : (∃ q, Function.update held p (some next) q = some k) ↔
          ∃ q, held q = some k := by
        constructor
        · rintro ⟨q, hq⟩
          rcases entry_of_update hq with ⟨-, heq⟩ | ⟨-, hq⟩
          · obtain rfl := Option.some.inj heq
            exact absurd hlt (Nat.lt_irrefl _)
          · exact ⟨q, hq⟩
        · rintro ⟨q, hq⟩
          refine ⟨q, ?_⟩
          rw [Function.update_of_ne]
          · exact hq
          · rintro rfl
            rw [hempty] at hq
            cases hq
      rw [hsame]
      exact h.once k hlt
    · refine Or.inl ⟨⟨p, Function.update_self ..⟩, ?_⟩
      exact List.count_eq_zero_of_not_mem fun hmem => absurd (h.returned_lt _ hmem) (by omega)

/-- A handle is taken from its place and given back. -/
theorem HandlesKept.giveBack
    (h : HandlesKept held returned next)
    {p : P}
    {k : Nat}
    (hp : held p = some k) :
    HandlesKept (Function.update held p none) (returned ++ [k]) next where
  held_lt := by
    intro q l hq
    rcases entry_of_update hq with ⟨-, heq⟩ | ⟨-, hq⟩
    · cases heq
    · exact h.held_lt q l hq
  returned_lt := by
    intro l hl
    rcases List.mem_append.mp hl with hl | hl
    · exact h.returned_lt l hl
    · obtain rfl := List.mem_singleton.mp hl
      exact h.held_lt p l hp
  one_place := by
    intro q r l hq hr
    rcases entry_of_update hq with ⟨-, heq⟩ | ⟨-, hq⟩
    · cases heq
    · rcases entry_of_update hr with ⟨-, heq⟩ | ⟨-, hr⟩
      · cases heq
      · exact h.one_place q r l hq hr
  once := by
    intro l hl
    by_cases hlk : l = k
    · subst hlk
      refine Or.inr ⟨?_, ?_⟩
      · rintro ⟨q, hq⟩
        rcases entry_of_update hq with ⟨-, heq⟩ | ⟨hqp, hq⟩
        · cases heq
        · exact hqp (h.one_place q p l hq hp)
      · rcases h.once l hl with ⟨-, hcount⟩ | ⟨hnone, -⟩
        · simp [hcount]
        · exact absurd ⟨p, hp⟩ hnone
    · have hsame : (∃ q, Function.update held p none q = some l) ↔ ∃ q, held q = some l := by
        constructor
        · rintro ⟨q, hq⟩
          rcases entry_of_update hq with ⟨-, heq⟩ | ⟨-, hq⟩
          · cases heq
          · exact ⟨q, hq⟩
        · rintro ⟨q, hq⟩
          refine ⟨q, ?_⟩
          rw [Function.update_of_ne]
          · exact hq
          · rintro rfl
            rw [hp, Option.some.injEq] at hq
            exact hlk hq.symm
      rw [hsame, List.count_append, List.count_singleton, if_neg (by simpa using Ne.symm hlk)]
      exact h.once l hl

/-- A handle is moved to an empty place. -/
theorem HandlesKept.move
    (h : HandlesKept held returned next)
    {p q : P}
    {k : Nat}
    (hp : held p = some k)
    {held' : P → Option Nat}
    (hp' : held' p = none)
    (hq' : held' q = some k)
    (hq : held q = none)
    (hsame : ∀ r, r ≠ p → r ≠ q → held' r = held r) :
    HandlesKept held' returned next := by
  have hpq : p ≠ q := by
    rintro rfl
    rw [hp] at hq
    cases hq
  -- a handle recorded in the new table was recorded before, in the place it came from
  have hfrom : ∀ r l, held' r = some l →
      (r = q ∧ l = k) ∨ (r ≠ p ∧ r ≠ q ∧ held r = some l) := by
    intro r l hr
    by_cases hrp : r = p
    · rw [hrp, hp'] at hr
      cases hr
    · by_cases hrq : r = q
      · rw [hrq, hq', Option.some.injEq] at hr
        exact Or.inl ⟨hrq, hr.symm⟩
      · exact Or.inr ⟨hrp, hrq, hsame r hrp hrq ▸ hr⟩
  refine ⟨?_, h.returned_lt, ?_, ?_⟩
  · intro r l hr
    rcases hfrom r l hr with ⟨-, rfl⟩ | ⟨-, -, hold⟩
    · exact h.held_lt p l hp
    · exact h.held_lt r l hold
  · intro r t l hr ht
    rcases hfrom r l hr with ⟨rfl, rfl⟩ | ⟨hrp, -, hold⟩ <;>
      rcases hfrom t _ ht with ⟨rfl, hl⟩ | ⟨htp, -, hold'⟩
    · rfl
    · exact absurd (h.one_place t p _ hold' hp) htp
    · exact absurd (h.one_place r p _ (hl ▸ hold) hp) hrp
    · exact h.one_place r t l hold hold'
  · intro l hl
    have hiff : (∃ r, held' r = some l) ↔ ∃ r, held r = some l := by
      constructor
      · rintro ⟨r, hr⟩
        rcases hfrom r l hr with ⟨-, rfl⟩ | ⟨-, -, hold⟩
        · exact ⟨p, hp⟩
        · exact ⟨r, hold⟩
      · rintro ⟨r, hr⟩
        by_cases hrp : r = p
        · rw [hrp, hp] at hr
          exact ⟨q, hq'.trans hr⟩
        · refine ⟨r, (hsame r hrp ?_).trans hr⟩
          rintro rfl
          rw [hq] at hr
          cases hr
    rw [hiff]
    exact h.once l hl

omit [DecidableEq P] in
/-- A handle that leaves its place without being given back is lost. -/
theorem HandlesKept.not_dropped
    (h : HandlesKept held returned next)
    {p : P}
    {k : Nat}
    (hp : held p = some k)
    {held' : P → Option Nat}
    (hp' : held' p = none)
    (hsame : ∀ q, q ≠ p → held' q = held q) :
    ¬ HandlesKept held' returned next := by
  intro h'
  rcases h'.once k (h.held_lt p k hp) with ⟨⟨q, hq⟩, -⟩ | ⟨-, hcount⟩
  · by_cases hqp : q = p
    · rw [hqp, hp'] at hq
      cases hq
    · exact hqp (h.one_place q p k (hsame q hqp ▸ hq) hp)
  · rcases h.once k (h.held_lt p k hp) with ⟨-, hzero⟩ | ⟨hnone, -⟩
    · omega
    · exact hnone ⟨p, hp⟩

omit [DecidableEq P] in
/-- A handle that is recorded nowhere from the start is lost. -/
theorem HandlesKept.not_unrecorded
    (h : HandlesKept held returned next) :
    ¬ HandlesKept held returned (next + 1) := by
  intro h'
  rcases h'.once next (Nat.lt_succ_self next) with ⟨⟨p, hp⟩, -⟩ | ⟨-, hcount⟩
  · exact absurd (h.held_lt p next hp) (by omega)
  · have hmem : next ∈ returned := List.count_pos_iff.mp (by omega)
    exact absurd (h.returned_lt next hmem) (by omega)

/-- The handles of several places are given back, in the order of the places. -/
theorem HandlesKept.giveBackAll
    (h : HandlesKept held returned next)
    {places : List P}
    (hplaces : places.Nodup)
    {held' : P → Option Nat}
    (hin : ∀ p ∈ places, held' p = none)
    (hout : ∀ p, p ∉ places → held' p = held p) :
    HandlesKept held' (returned ++ places.filterMap held) next := by
  induction places generalizing held returned with
  | nil =>
      obtain rfl : held' = held := funext fun p => hout p List.not_mem_nil
      simpa using h
  | cons p places ih =>
      obtain ⟨hp, hrest⟩ := List.nodup_cons.mp hplaces
      have hin_rest : ∀ q ∈ places, held' q = none :=
        fun q hq => hin q (List.mem_cons_of_mem p hq)
      cases hheld : held p with
      | none =>
          rw [List.filterMap_cons_none hheld]
          refine ih h hrest hin_rest fun q hq => ?_
          by_cases hqp : q = p
          · rw [hqp, hheld, hin p List.mem_cons_self]
          · exact hout q fun hmem => (List.mem_cons.mp hmem).elim hqp hq
      | some k =>
          have hmap : places.filterMap (Function.update held p none) = places.filterMap held := by
            refine List.filterMap_congr fun q hq => ?_
            rw [Function.update_of_ne]
            rintro rfl
            exact hp hq
          have hback := ih (h.giveBack hheld) hrest hin_rest fun q hq => by
            by_cases hqp : q = p
            · rw [hqp, Function.update_self, hin p List.mem_cons_self]
            · rw [Function.update_of_ne hqp]
              exact hout q fun hmem => (List.mem_cons.mp hmem).elim hqp hq
          rw [List.filterMap_cons_some hheld]
          rw [hmap, List.append_assoc] at hback
          exact hback

end HandleTable

end Library
end MatrixBin
