import MatrixBin.Library.TransitionRuns
import Mathlib.Data.Int.Notation

/-!
# The static emulation of the scales (`static_emulation.c`)

`static_emulation_loop` takes the sections of its configuration that have at least one interval
and a step for each interval but the last; `emu_scale` walks over the intervals of a channel,
one step for each packet that it sends.  An access outside an array is `none`.

`emuInside_iff` says for which sections no access ever leaves an array.
-/

namespace MatrixBin
namespace Devdrvd

open Library

/-- A section `static` of the configuration. -/
structure StaticSection where
  chan : ℤ
  weightIntervals : List ℤ
  weightSteps : List ℤ
  timeStep : ℤ
deriving DecidableEq

/-- `channel_weight_t`, the thread left out; `cnt_weight_intervals` is the length of the list. -/
structure ChannelWeight where
  channel : ℤ
  weightIntervals : List ℤ
  weightSteps : List ℤ
  timeStep : ℤ
  currentWeight : ℤ
deriving DecidableEq

/-- The body of the loop over the sections; `none` if `static_emulation_loop` returns -1. -/
def readSection (sec : StaticSection) : Option ChannelWeight :=
  match sec.weightIntervals with
  | [] => none
  | first :: _ =>
      if sec.weightSteps.length < sec.weightIntervals.length - 1 then none
      else some ⟨sec.chan, sec.weightIntervals, sec.weightSteps, sec.timeStep, first⟩

/-- The channels of an accepted configuration. -/
def readSections : List StaticSection → Option (List ChannelWeight)
  | [] => some []
  | sec :: rest =>
      (readSection sec).bind fun cw => (readSections rest).map fun channels => cw :: channels

/-- What is printed into a packet: time stamp, channel and weight, which is the tare as well. -/
structure EmuPacket where
  timestamp : ℤ
  channel : ℤ
  weight : ℤ
deriving DecidableEq

/-- The variables of `emu_scale`, and the packets that it has sent. -/
structure EmuScale where
  cw : ChannelWeight
  timestamp : ℤ
  idxInterval : Nat
  sent : List EmuPacket
deriving DecidableEq

/-- `emu_scale` up to its loop. -/
def emuStart (cw : ChannelWeight) : Option EmuScale :=
  cw.weightIntervals[0]?.map fun first => ⟨{ cw with currentWeight := first }, 0, 0, []⟩

section EmuScale

-- what an addition to an `int` leaves, whether it overflows or not
variable (add : ℤ → ℤ → ℤ)

/-- The step to the next weight, up to the last interval. -/
def EmuScale.nextWeight (s : EmuScale) : Option ℤ :=
  s.cw.weightIntervals[s.cw.weightIntervals.length - 1]?.bind fun last =>
    if s.cw.currentWeight ≤ last then
      s.cw.weightSteps[s.idxInterval]?.map fun weightStep => add s.cw.currentWeight weightStep
    else some s.cw.currentWeight

/-- The interval of a weight: the next one, if the weight is behind its beginning. -/
def EmuScale.nextInterval (s : EmuScale) (weight : ℤ) : Option Nat :=
  if s.idxInterval + 1 < s.cw.weightIntervals.length then
    s.cw.weightIntervals[s.idxInterval + 1]?.map fun next =>
      if next < weight then s.idxInterval + 1 else s.idxInterval
  else some s.idxInterval

/-- An iteration of the loop, with the value of `iStartWeight`. -/
def EmuScale.iterate (s : EmuScale) (iStartWeight : Bool) : Option EmuScale :=
  if iStartWeight then
    (s.nextWeight add).bind fun weight =>
      (s.nextInterval weight).map fun idx =>
        { cw := { s.cw with currentWeight := weight }
          timestamp := s.timestamp + s.cw.timeStep
          idxInterval := idx
          sent := s.sent ++ [⟨s.timestamp, s.cw.channel, s.cw.currentWeight⟩] }
  else some s

/-- Every access of every number of iterations is inside its array. -/
def EmuInside (cw : ChannelWeight) : Prop :=
  ∃ s, emuStart cw = some s ∧ ∀ flags, (runSteps (EmuScale.iterate add) s flags).isSome

/-- The invariant: while the weight has not passed the last interval, there is a step for the
interval that it is in. -/
structure EmuScale.Inv (s : EmuScale) : Prop where
  idx_lt : s.idxInterval < s.cw.weightIntervals.length
  enough : s.cw.weightIntervals.length - 1 ≤ s.cw.weightSteps.length
  has_step : ∀ last, s.cw.weightIntervals[s.cw.weightIntervals.length - 1]? = some last →
    s.cw.currentWeight ≤ last → s.idxInterval < s.cw.weightSteps.length

variable {add} {s s' : EmuScale}

/-- The next weight needs a step only where there is one. -/
theorem EmuScale.Inv.nextWeight
    (h : s.Inv) :
    ∃ weight, s.nextWeight add = some weight ∧
      ∀ last, s.cw.weightIntervals[s.cw.weightIntervals.length - 1]? = some last →
        weight ≤ last → s.idxInterval < s.cw.weightSteps.length := by
  have hlen := h.idx_lt
  obtain ⟨last, hlast⟩ :
      ∃ last, s.cw.weightIntervals[s.cw.weightIntervals.length - 1]? = some last :=
    ⟨_, List.getElem?_eq_getElem (by omega)⟩
  rw [EmuScale.nextWeight, hlast, Option.bind_some]
  split_ifs with hle
  · have hstep := h.has_step last hlast hle
    exact ⟨_, by rw [List.getElem?_eq_getElem hstep]; rfl, fun _ _ _ => hstep⟩
  · refine ⟨_, rfl, fun last' hlast' hle' => ?_⟩
    obtain rfl := Option.some.inj hlast'
    exact absurd hle' hle

/-- The next interval is the last one only for a weight that has passed its beginning. -/
theorem EmuScale.Inv.nextInterval
    (h : s.Inv)
    {weight : ℤ}
    (hweight : ∀ last, s.cw.weightIntervals[s.cw.weightIntervals.length - 1]? = some last →
      weight ≤ last → s.idxInterval < s.cw.weightSteps.length) :
    ∃ idx, s.nextInterval weight = some idx ∧ idx < s.cw.weightIntervals.length ∧
      ∀ last, s.cw.weightIntervals[s.cw.weightIntervals.length - 1]? = some last →
        weight ≤ last → idx < s.cw.weightSteps.length := by
  have hlen := h.idx_lt
  have henough := h.enough
  rw [EmuScale.nextInterval]
  split_ifs with hmore
  · rw [List.getElem?_eq_getElem hmore, Option.map_some]
    split_ifs with hpassed
    · refine ⟨_, rfl, hmore, fun last hlast hle => ?_⟩
      by_cases hend : s.idxInterval + 1 = s.cw.weightIntervals.length - 1
      · -- the beginning of the last interval is what the weight has passed
        rw [← hend, List.getElem?_eq_getElem hmore, Option.some.injEq] at hlast
        omega
      · omega
    · exact ⟨_, rfl, hlen, hweight⟩
  · exact ⟨_, rfl, hlen, hweight⟩

/-- The step lemma. -/
theorem EmuScale.Inv.iterate
    (h : s.Inv)
    (iStartWeight : Bool) :
    ∃ s', s.iterate add iStartWeight = some s' ∧ s'.Inv := by
  cases iStartWeight with
  | false => exact ⟨s, rfl, h⟩
  | true =>
      obtain ⟨weight, hnext, hweight⟩ : ∃ weight, s.nextWeight add = some weight ∧ _ :=
        h.nextWeight
      obtain ⟨idx, hidx, hlt, hstep⟩ := h.nextInterval hweight
      have hiterate : s.iterate add true =
          some ⟨{ s.cw with currentWeight := weight }, s.timestamp + s.cw.timeStep, idx,
            s.sent ++ [⟨s.timestamp, s.cw.channel, s.cw.currentWeight⟩]⟩ := by
        rw [EmuScale.iterate, if_pos rfl, hnext, Option.bind_some, hidx]
        rfl
      exact ⟨_, hiterate, ⟨hlt, h.enough, hstep⟩⟩

theorem EmuScale.Inv.run
    (h : s.Inv)
    (flags : List Bool) :
    (runSteps (EmuScale.iterate add) s flags).isSome := by
  induction flags generalizing s with
  | nil => rfl
  | cons iStartWeight rest ih =>
      obtain ⟨s', hs', hinv⟩ : ∃ s', s.iterate add iStartWeight = some s' ∧ s'.Inv :=
        h.iterate iStartWeight
      rw [runSteps, hs']
      exact ih hinv

/-! ### Accepted configurations -/

variable {sec : StaticSection} {cw : ChannelWeight}

/-- What `static_emulation_loop` has checked of a section. -/
theorem readSection_eq
    (h : readSection sec = some cw) :
    cw.weightIntervals = sec.weightIntervals ∧ cw.weightSteps = sec.weightSteps ∧
      sec.weightIntervals ≠ [] ∧ sec.weightIntervals.length - 1 ≤ sec.weightSteps.length := by
  rw [readSection] at h
  split at h
  · exact absurd h (by simp)
  · rename_i first rest hfirst
    split_ifs at h with hfew
    obtain rfl := Option.some.inj h
    exact ⟨rfl, rfl, by simp [hfirst], Nat.le_of_not_lt hfew⟩

/-- One channel. -/
theorem emuInside_section_iff
    (h : readSection sec = some cw) :
    EmuInside add cw ↔ sec.weightIntervals.length ≠ 1 ∨ sec.weightSteps ≠ [] := by
  obtain ⟨hintervals, hsteps, hne, henough⟩ := readSection_eq h
  obtain ⟨first, rest, hlist⟩ := List.exists_cons_of_ne_nil hne
  have hstart : emuStart cw = some ⟨{ cw with currentWeight := first }, 0, 0, []⟩ := by
    rw [emuStart, hintervals, hlist]
    rfl
  constructor
  · rintro ⟨s, hs, hrun⟩
    by_contra hno
    obtain ⟨hone, hnone⟩ := not_or.mp hno
    rw [not_not] at hone hnone
    have hrest : rest = [] := by
      rw [hlist, List.length_cons] at hone
      exact List.length_eq_zero_iff.mp (by omega)
    obtain rfl := Option.some.inj (hstart.symm.trans hs)
    -- the weight is at the only interval, and there is no step
    have hfail :
        EmuScale.iterate add ⟨{ cw with currentWeight := first }, 0, 0, []⟩ true = none := by
      simp [EmuScale.iterate, EmuScale.nextWeight, hintervals, hsteps, hlist, hrest, hnone]
    have honce := hrun [true]
    rw [runSteps, hfail] at honce
    exact absurd honce (by simp)
  · intro hcond
    have hpos := List.length_pos_iff.mpr hne
    have hstep : 0 < sec.weightSteps.length := by
      rcases hcond with hmore | hsome
      · omega
      · exact List.length_pos_iff.mpr hsome
    refine ⟨_, hstart, EmuScale.Inv.run ⟨?_, ?_, fun _ _ _ => ?_⟩⟩
    · simpa only [hintervals] using hpos
    · simpa only [hintervals, hsteps] using henough
    · simpa only [hsteps] using hstep

/-- **The static emulation.**  In an accepted configuration all accesses of all channels, for
any number of iterations and whatever the numbers are, stay inside their arrays exactly if no
section has a single interval and no step. -/
theorem emuInside_iff
    {secs : List StaticSection}
    {channels : List ChannelWeight}
    (h : readSections secs = some channels) :
    (∀ cw ∈ channels, EmuInside add cw) ↔
      ∀ sec ∈ secs, sec.weightIntervals.length ≠ 1 ∨ sec.weightSteps ≠ [] := by
  induction secs generalizing channels with
  | nil =>
      obtain rfl := Option.some.inj h
      simp
  | cons sec rest ih =>
      obtain ⟨cw, hcw, hmap⟩ := Option.bind_eq_some_iff.mp h
      obtain ⟨more, hmore, rfl⟩ := Option.map_eq_some_iff.mp hmap
      rw [List.forall_mem_cons, List.forall_mem_cons, ih hmore, emuInside_section_iff hcw]

/-- Two intervals and one step, which goes down. -/
theorem emuInside_two_intervals :
    EmuInside Int.add ⟨1, [0, 100], [-10], 50, 0⟩ := by
  have hread : readSections [⟨1, [0, 100], [-10], 50⟩] = some [⟨1, [0, 100], [-10], 50, 0⟩] := rfl
  exact (emuInside_iff hread).mpr (by simp) _ List.mem_cons_self

/-- A section with one interval and no step is accepted; the first iteration that sends reads
`weight_steps[0]`. -/
theorem single_interval_outside :
    readSections [⟨1, [100], [], 50⟩] = some [⟨1, [100], [], 50, 100⟩] ∧
      ¬ EmuInside Int.add ⟨1, [100], [], 50, 100⟩ := by
  refine ⟨rfl, ?_⟩
  rintro ⟨s, hs, hrun⟩
  obtain rfl := Option.some.inj hs
  exact absurd (hrun [true]) (by decide)

end EmuScale

end Devdrvd
end MatrixBin
