import Mathlib.Data.List.Induction
import Mathlib.Data.Option.Basic

/-!
# Runs of a transition system given by a partial step function

A system is a function `step : σ → α → Option σ`: the action is refused when the
result is `none`.  A *schedule* is a list of actions.

* `runSteps` executes a schedule and is used to replay concrete schedules.
* `ReachedUnder step C init` is the set of states that runs from `init` reach
  when every step taken meets the condition `C` on the state before it.

* `HoldsAlong step P s` and `MeetsAlong step C s` say that every state of a run, or every step
  of it, is as wanted.
* `MeetsAll step C s` says in addition that no step is refused, if `C` decides that.
* `runAlong step s acts n` takes the first `n` actions of an infinite sequence; by
  `runAlong_ends` a measure bounds the number of actions until a run ends.

The invariant rules `runSteps_invariant` and `ReachedUnder.invariant` are the inductions
over runs that the developments below need; `holdsAlong_iff_meetsAlong` turns a condition that
is exact for one step into one that is exact for a run.
-/

namespace MatrixBin
namespace Library

universe u v

section TransitionRuns

variable {σ : Type u} {α : Type v}

/-- Execute a schedule; `none` as soon as one action is refused. -/
def runSteps (step : σ → α → Option σ) : σ → List α → Option σ
  | s, [] => some s
  | s, a :: rest =>
      match step s a with
      | none => none
      | some s' => runSteps step s' rest

theorem runSteps_append_singleton
    (step : σ → α → Option σ)
    (s : σ)
    (schedule : List α)
    (a : α) :
    runSteps step s (schedule ++ [a]) = (runSteps step s schedule).bind fun t => step t a := by
  induction schedule generalizing s with
  | nil =>
      simp only [List.nil_append, runSteps, Option.bind_some]
      cases step s a <;> rfl
  | cons b rest ih =>
      simp only [List.cons_append, runSteps]
      cases step s b with
      | none => rfl
      | some s' => exact ih s'

theorem runSteps_append
    (step : σ → α → Option σ)
    (s : σ)
    (first second : List α) :
    runSteps step s (first ++ second) =
      (runSteps step s first).bind fun t => runSteps step t second := by
  induction first generalizing s with
  | nil => rfl
  | cons a first ih =>
      rw [List.cons_append, runSteps, runSteps]
      cases step s a with
      | none => rfl
      | some s' => exact ih s'

/-- What holds of the empty schedule and survives every step holds of every executed
schedule; the invariant may speak of the actions taken so far. -/
theorem runSteps_invariant
    {step : σ → α → Option σ}
    {Inv : List α → σ → Prop}
    {s t : σ}
    {schedule : List α}
    (hinit : Inv [] s)
    (hstep : ∀ past s a s', Inv past s → step s a = some s' → Inv (past ++ [a]) s')
    (hrun : runSteps step s schedule = some t) :
    Inv schedule t := by
  induction schedule using List.reverseRecOn generalizing t with
  | nil =>
      obtain rfl := Option.some.inj hrun
      exact hinit
  | append_singleton past a ih =>
      rw [runSteps_append_singleton] at hrun
      obtain ⟨u, hu, ha⟩ := Option.bind_eq_some_iff.mp hrun
      exact hstep past u a t (ih hu) ha

/-- The same for an invariant of the states alone. -/
theorem runSteps_keeps
    {step : σ → α → Option σ}
    {Inv : σ → Prop}
    {s t : σ}
    {schedule : List α}
    (hinit : Inv s)
    (hstep : ∀ s a s', Inv s → step s a = some s' → Inv s')
    (hrun : runSteps step s schedule = some t) :
    Inv t := by
  let keeps (_ : List α) (u : σ) : Prop := Inv u
  have hkeeps : keeps schedule t :=
    runSteps_invariant hinit (fun _ u a u' hu => hstep u a u' hu) hrun
  exact hkeeps

/-- States reached from `init` by runs all of whose steps meet `C`. -/
inductive ReachedUnder
    (step : σ → α → Option σ)
    (C : σ → α → Prop)
    (init : σ) : σ → Prop
  | start : ReachedUnder step C init init
  | next {s s' : σ} {a : α} :
      ReachedUnder step C init s →
      C s a →
      step s a = some s' →
      ReachedUnder step C init s'

variable {step : σ → α → Option σ} {C : σ → α → Prop} {init : σ}

/-- What holds initially and survives every admitted step holds in every reached state. -/
theorem ReachedUnder.invariant
    {Inv : σ → Prop}
    (hinit : Inv init)
    (hstep : ∀ s a s', Inv s → C s a → step s a = some s' → Inv s')
    {s : σ}
    (hs : ReachedUnder step C init s) :
    Inv s := by
  induction hs with
  | start => exact hinit
  | next _ hC hs' ih => exact hstep _ _ _ ih hC hs'

/-- The step function that refuses the steps outside a condition. -/
def guarded (step : σ → α → Option σ) (C : σ → α → Prop) [∀ s a, Decidable (C s a)] :
    σ → α → Option σ :=
  fun s a => if C s a then step s a else none

/-- A replayed schedule of the guarded system is a run under the condition. -/
theorem ReachedUnder.of_runSteps
    [∀ s a, Decidable (C s a)]
    {s t : σ}
    (schedule : List α)
    (hs : ReachedUnder step C init s)
    (hrun : runSteps (guarded step C) s schedule = some t) :
    ReachedUnder step C init t := by
  induction schedule generalizing s with
  | nil =>
      simp only [runSteps, Option.some.injEq] at hrun
      exact hrun ▸ hs
  | cons a rest ih =>
      simp only [runSteps] at hrun
      split at hrun
      · exact absurd hrun (by simp)
      · rename_i s' hstep
        simp only [guarded, Option.ite_none_right_eq_some] at hstep
        exact ih (hs.next hstep.1 hstep.2) hrun

/-! ### Exact conditions -/

/-- The predicate holds in every state that the schedule reaches. -/
def HoldsAlong (step : σ → α → Option σ) (P : σ → Prop) : σ → List α → Prop
  | s, [] => P s
  | s, a :: rest => P s ∧ ∀ s', step s a = some s' → HoldsAlong step P s' rest

/-- Every step that the schedule takes meets the condition. -/
def MeetsAlong (step : σ → α → Option σ) (C : σ → α → Prop) : σ → List α → Prop
  | _, [] => True
  | s, a :: rest => ∀ s', step s a = some s' → C s a ∧ MeetsAlong step C s' rest

/-- It holds of the last state. -/
theorem HoldsAlong.last
    {P : σ → Prop}
    {s t : σ}
    {schedule : List α}
    (h : HoldsAlong step P s schedule)
    (hrun : runSteps step s schedule = some t) :
    P t := by
  induction schedule generalizing s with
  | nil =>
      obtain rfl := Option.some.inj hrun
      exact h
  | cons a rest ih =>
      rw [runSteps] at hrun
      split at hrun
      · exact absurd hrun (by simp)
      · rename_i s' hs'
        exact ih (h.2 s' hs') hrun

/-- A condition that every action meets is met along every schedule of such actions. -/
theorem meetsAlong_of_forall
    {schedule : List α}
    (h : ∀ a ∈ schedule, ∀ s, C s a)
    (s : σ) :
    MeetsAlong step C s schedule := by
  induction schedule generalizing s with
  | nil => trivial
  | cons a rest ih =>
      intro s' _
      exact ⟨h a List.mem_cons_self s, ih (fun b hb => h b (List.mem_cons_of_mem a hb)) s'⟩

/-- One step more of a run. -/
theorem meetsAlong_append_singleton
    {s t : σ}
    {schedule : List α}
    (hrun : runSteps step s schedule = some t)
    (a : α) :
    MeetsAlong step C s (schedule ++ [a]) ↔
      MeetsAlong step C s schedule ∧ ∀ t', step t a = some t' → C t a := by
  induction schedule generalizing s with
  | nil =>
      obtain rfl := Option.some.inj hrun
      simp [MeetsAlong]
  | cons b rest ih =>
      rw [runSteps] at hrun
      cases hb : step s b with
      | none => simp [hb] at hrun
      | some s' =>
          rw [hb] at hrun
          simp only [List.cons_append, MeetsAlong, hb, Option.some.injEq, forall_eq', ih hrun,
            and_assoc]

/-- A condition under which the invariant survives every step keeps what the invariant says. -/
theorem holdsAlong_of_meetsAlong
    {Inv P : σ → Prop}
    (hholds : ∀ s, Inv s → P s)
    (hstep : ∀ s a s', Inv s → C s a → step s a = some s' → Inv s')
    {s : σ}
    (hs : Inv s)
    {schedule : List α}
    (h : MeetsAlong step C s schedule) :
    HoldsAlong step P s schedule := by
  induction schedule generalizing s with
  | nil => exact hholds s hs
  | cons a rest ih =>
      refine ⟨hholds s hs, fun s' hs' => ?_⟩
      obtain ⟨hC, hrest⟩ := h s' hs'
      exact ih (hstep s a s' hs hC hs') hrest

/-- A condition that decides, from a state within the invariant, whether the step keeps the
predicate, and under which the invariant survives, is exact for whole runs. -/
theorem holdsAlong_iff_meetsAlong
    {Inv P : σ → Prop}
    (hholds : ∀ s, Inv s → P s)
    (hexact : ∀ s a s', Inv s → step s a = some s' → (P s' ↔ C s a))
    (hstep : ∀ s a s', Inv s → C s a → step s a = some s' → Inv s')
    {s : σ}
    (hs : Inv s)
    (schedule : List α) :
    HoldsAlong step P s schedule ↔ MeetsAlong step C s schedule := by
  refine ⟨fun h => ?_, holdsAlong_of_meetsAlong hholds hstep hs⟩
  induction schedule generalizing s with
  | nil => trivial
  | cons a rest ih =>
      intro s' hs'
      have hrest := h.2 s' hs'
      have hP : P s' := by
        cases rest with
        | nil => exact hrest
        | cons b rest => exact hrest.1
      have hC := (hexact s a s' hs hs').mp hP
      exact ⟨hC, ih (hstep s a s' hs hC hs') hrest⟩

/-- Every step of the schedule, up to a first one that is refused, meets the condition. -/
def MeetsAll (step : σ → α → Option σ) (C : σ → α → Prop) : σ → List α → Prop
  | _, [] => True
  | s, a :: rest => C s a ∧ ∀ s', step s a = some s' → MeetsAll step C s' rest

/-- A condition that decides, from a state within the invariant, whether a step is taken
decides whether a schedule is executed. -/
theorem runSteps_isSome_iff
    {Inv : σ → Prop}
    (hexact : ∀ s a, Inv s → ((step s a).isSome ↔ C s a))
    (hstep : ∀ s a s', Inv s → step s a = some s' → Inv s')
    {s : σ}
    (hs : Inv s)
    (schedule : List α) :
    (runSteps step s schedule).isSome ↔ MeetsAll step C s schedule := by
  induction schedule generalizing s with
  | nil => exact iff_of_true rfl trivial
  | cons a rest ih =>
      rw [runSteps, MeetsAll, ← hexact s a hs]
      cases hnext : step s a with
      | none => simp
      | some s' =>
          have hrest := ih (hstep s a s' hs hnext)
          simpa using hrest

/-- Two systems that go on together, or stop together, meet conditions that agree on related
states along the same schedules. -/
theorem meetsAll_iff_of_rel
    {τ : Type*}
    {step' : τ → α → Option τ}
    {D : τ → α → Prop}
    {R : σ → τ → Prop}
    (hcond : ∀ s t a, R s t → (C s a ↔ D t a))
    (hstep : ∀ s t a, R s t → Option.Rel R (step s a) (step' t a))
    {s : σ}
    {t : τ}
    (hst : R s t)
    (schedule : List α) :
    MeetsAll step C s schedule ↔ MeetsAll step' D t schedule := by
  induction schedule generalizing s t with
  | nil => exact Iff.rfl
  | cons a rest ih =>
      rw [MeetsAll, MeetsAll, hcond s t a hst]
      have hnext := hstep s t a hst
      generalize step s a = next at hnext
      generalize step' t a = next' at hnext
      cases hnext with
      | none => simp
      | some hrel =>
          have hrest := ih hrel
          simpa using fun _ => hrest

/-! ### Sequences of actions -/

/-- The first `n` actions of a sequence. -/
def runAlong (step : σ → α → Option σ) (s : σ) (acts : Nat → α) (n : Nat) : Option σ :=
  runSteps step s ((List.range n).map acts)

section RunAlong

variable {acts : Nat → α} {s t : σ} {n : Nat}

theorem runAlong_zero : runAlong step s acts 0 = some s := rfl

theorem runAlong_succ :
    runAlong step s acts (n + 1) = (runAlong step s acts n).bind fun t => step t (acts n) := by
  rw [runAlong, List.range_succ, List.map_append, List.map_singleton, runSteps_append_singleton]
  rfl

/-- A run along a sequence has taken every step before. -/
theorem runAlong_of_le
    {i : Nat}
    (h : runAlong step s acts n = some t)
    (hle : i ≤ n) :
    ∃ u, runAlong step s acts i = some u := by
  induction n generalizing t with
  | zero =>
      obtain rfl := Nat.le_zero.mp hle
      exact ⟨t, h⟩
  | succ n ih =>
      rcases Nat.le_or_eq_of_le_succ hle with hlt | rfl
      · rw [runAlong_succ] at h
        obtain ⟨u, hu, -⟩ := Option.bind_eq_some_iff.mp h
        exact ih hu hlt
      · exact ⟨t, h⟩

/-- A measure that every step lowers, unless it leads to a final state, bounds the steps before
a final state or a refusal. -/
theorem runAlong_ends
    {Inv Final : σ → Prop}
    {measure : σ → Nat}
    (hpos : ∀ s, Inv s → 0 < measure s)
    (hstep : ∀ s a s', Inv s → step s a = some s' → Final s' ∨ Inv s' ∧ measure s' < measure s)
    (hs : Inv s)
    (acts : Nat → α) :
    ∃ n ≤ measure s, runAlong step s acts n = none ∨
      ∃ t, runAlong step s acts n = some t ∧ Final t := by
  have hrun : ∀ n, (∃ k ≤ n, runAlong step s acts k = none ∨
      ∃ t, runAlong step s acts k = some t ∧ Final t) ∨
      ∃ t, runAlong step s acts n = some t ∧ Inv t ∧ measure t + n ≤ measure s := by
    intro n
    induction n with
    | zero => exact Or.inr ⟨s, rfl, hs, Nat.le_refl _⟩
    | succ n ih =>
        rcases ih with ⟨k, hk, hended⟩ | ⟨t, ht, hinv, hle⟩
        · exact Or.inl ⟨k, Nat.le_succ_of_le hk, hended⟩
        · have hnext : runAlong step s acts (n + 1) = step t (acts n) := by
            rw [runAlong_succ, ht, Option.bind_some]
          cases hact : step t (acts n) with
          | none => exact Or.inl ⟨n + 1, Nat.le_refl _, Or.inl (hnext.trans hact)⟩
          | some u =>
              rcases hstep t _ u hinv hact with hfinal | ⟨hu, hlt⟩
              · exact Or.inl ⟨n + 1, Nat.le_refl _, Or.inr ⟨u, hnext.trans hact, hfinal⟩⟩
              · exact Or.inr ⟨u, hnext.trans hact, hu, by omega⟩
  rcases hrun (measure s) with hended | ⟨t, -, hinv, hle⟩
  · exact hended
  · have := hpos t hinv
    omega

end RunAlong

end TransitionRuns

end Library
end MatrixBin
