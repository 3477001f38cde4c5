import MatrixBin.Metrology.ZeroPoint

/-!
# The maximum weight of a channel and its table

`setCalibrateGane` refuses a weight above the maximum of the channel, and `setMaximumChannel`
is to remove the points above a new maximum.  It compares the maximum with the raw value of a
point, not with its weight: the table it leaves is the wanted one exactly if raw value and
weight of every point lie on the same side of the maximum.
-/

namespace MatrixBin
namespace Metrology

open Library

/-- The points that belong under a maximum weight. -/
def sectionsUpTo (maxWeightValue : Int) (sections : List LinearSection) : List LinearSection :=
  sections.filter fun s => decide (s.weightValue ≤ maxWeightValue)

/-- No point of the table is above the maximum. -/
def Channel.WeightsBounded (ch : Channel) : Prop :=
  ∀ s ∈ ch.linearSections, s.weightValue ≤ ch.maxWeightValue

/-- The same of a channel of the configuration, if it is there. -/
def BoundedChannel (id : Int) (conf : SystemConfiguration) : Prop :=
  ∀ ch, channelOf conf id = some ch → ch.WeightsBounded

/-- A call of `setMaximumChannel` or `setCalibrateGane`, with `fun == NULL`. -/
inductive BoundCall
  | maximum (p : SetMaximumChannel)
  | gane (p : GaneCalibration)
deriving DecidableEq, Repr

def BoundCall.table : BoundCall → TableCall
  | .maximum p => .maximum p
  | .gane p => .calibration (.gane p)

/-- One call of a run. -/
def boundStep (conf : SystemConfiguration) (call : BoundCall) : Option SystemConfiguration :=
  some (call.table.handle conf).1

/-- Every point whose raw value passes the test of the loop has a weight that passes it. -/
def NoneLeftAbove (maxWeightValue : Int) (sections : List LinearSection) : Prop :=
  ∀ s ∈ sections, s.rawValue.toInt ≤ maxWeightValue → s.weightValue ≤ maxWeightValue

/-- A call that `setMaximumChannel` serves for this channel leaves no point above the maximum. -/
def BoundCall.KeepsBound (id : Int) (conf : SystemConfiguration) : BoundCall → Prop
  | .maximum p =>
      conf.ready → p.channel = id →
        ∀ ch, channelOf conf id = some ch → NoneLeftAbove p.maxWeightValue ch.linearSections
  | .gane _ => True

/-! ### One call -/

section OneCall

variable {ch : Channel}

theorem filter_eq_filter_iff
    {α : Type}
    (p q : α → Bool)
    (l : List α) :
    l.filter p = l.filter q ↔ ∀ a ∈ l, (p a = true ↔ q a = true) := by
  constructor
  · intro h a ha
    have hmem : a ∈ l.filter p ↔ a ∈ l.filter q := by rw [h]
    simpa only [List.mem_filter, ha, true_and] using hmem
  · intro h
    exact List.filter_congr fun a ha => Bool.eq_iff_iff.mpr (h a ha)

theorem maximumChannel_eq
    (hraw : ch.rawData)
    (p : SetMaximumChannel) :
    maximumChannel p ch =
      { ch with
        maxWeightValue := p.maxWeightValue
        linearSections :=
          ch.linearSections.filter fun s => decide (s.rawValue.toInt ≤ p.maxWeightValue) } := by
  have hraw' : ({ ch with maxWeightValue := p.maxWeightValue } : Channel).rawData := hraw
  rw [maximumChannel]
  simp only [if_pos hraw', eraseAbove_eq_filter]

/-- The wanted effect is the effect exactly where the two comparisons agree. -/
theorem maximumChannel_eq_sectionsUpTo_iff
    (hraw : ch.rawData)
    (p : SetMaximumChannel) :
    maximumChannel p ch =
        { ch with
          maxWeightValue := p.maxWeightValue
          linearSections := sectionsUpTo p.maxWeightValue ch.linearSections } ↔
      ∀ s ∈ ch.linearSections,
        s.rawValue.toInt ≤ p.maxWeightValue ↔ s.weightValue ≤ p.maxWeightValue := by
  rw [maximumChannel_eq hraw, Channel.mk.injEq, sectionsUpTo]
  simp only [true_and]
  rw [filter_eq_filter_iff]
  simp only [decide_eq_true_eq]

theorem maximumChannel_weightsBounded_iff
    (hraw : ch.rawData)
    (p : SetMaximumChannel) :
    (maximumChannel p ch).WeightsBounded ↔ NoneLeftAbove p.maxWeightValue ch.linearSections := by
  rw [maximumChannel_eq hraw]
  simp only [Channel.WeightsBounded, NoneLeftAbove, List.mem_filter, decide_eq_true_eq, and_imp]

theorem mem_putSection
    {rawValue : Int32}
    {weightValue : Int}
    {sections : List LinearSection}
    {s : LinearSection}
    (hs : s ∈ putSection rawValue weightValue sections) :
    s.weightValue = weightValue ∨ s ∈ sections := by
  induction sections with
  | nil => exact Or.inl (by rw [List.mem_singleton.mp hs])
  | cons t rest ih =>
      rw [putSection] at hs
      split_ifs at hs with hlt heq
      · rcases List.mem_cons.mp hs with rfl | htail
        · exact Or.inr List.mem_cons_self
        · exact (ih htail).imp_right (List.mem_cons_of_mem t)
      · rcases List.mem_cons.mp hs with rfl | htail
        · exact Or.inl heq
        · exact Or.inr (List.mem_cons_of_mem t htail)
      · rcases List.mem_cons.mp hs with rfl | htail
        · exact Or.inl rfl
        · exact Or.inr htail

/-- The check made on insertion is enough. -/
theorem calibrateGane_weightsBounded
    (p : GaneCalibration)
    (h : ch.WeightsBounded) :
    (calibrateGane p ch).1.WeightsBounded := by
  unfold calibrateGane
  split_ifs with hraw hzero hweight
  · exact h
  · exact h
  · intro s hs
    -- the new ratios leave the points as they are
    have hpair : s.pair ∈
        (putSection p.rawValue p.weightValue ch.linearSections).map LinearSection.pair := by
      rw [← calcRatios_pairs none]
      exact List.mem_map_of_mem hs
    obtain ⟨t, ht, heq⟩ := List.mem_map.mp hpair
    have hweight' : s.weightValue = t.weightValue := (congrArg Prod.snd heq).symm
    have hle : t.weightValue ≤ ch.maxWeightValue := by
      rcases mem_putSection ht with hnew | hold
      · rw [hnew]
        exact Int.not_lt.mp hweight
      · exact h t hold
    rw [hweight']
    exact hle
  · exact h

end OneCall

/-! ### Runs -/

section Runs

variable {id : Int} {conf : SystemConfiguration} {ch : Channel}

/-- A raw-data channel whose table keeps to its maximum. -/
structure BoundedTable (id : Int) (conf : SystemConfiguration) (ch : Channel) : Prop where
  channel : channelOf conf id = some ch
  rawData : ch.rawData
  bounded : ch.WeightsBounded

/-- The exact effect of a call on the configuration, from any table for a maximum. -/
theorem handle_bounded_iff
    (hch : channelOf conf id = some ch)
    (hraw : ch.rawData)
    (call : BoundCall)
    (h : ch.WeightsBounded ∨ ∃ p, call = .maximum p ∧ conf.ready ∧ p.channel = id) :
    (BoundedChannel id (call.table.handle conf).1 ↔ call.KeepsBound id conf) ∧
      (call.KeepsBound id conf → ∃ ch', BoundedTable id (call.table.handle conf).1 ch') := by
  have hafter := channelOf_handle call.table conf id
  rw [hch, Option.map_some] at hafter
  have hexact {ch' : Channel} (hch' : channelOf (call.table.handle conf).1 id = some ch')
      (hraw' : ch'.rawData) (hiff : ch'.WeightsBounded ↔ call.KeepsBound id conf) :
      (BoundedChannel id (call.table.handle conf).1 ↔ call.KeepsBound id conf) ∧
        (call.KeepsBound id conf → ∃ ch', BoundedTable id (call.table.handle conf).1 ch') := by
    refine ⟨⟨fun hall => hiff.mp (hall ch' hch'), fun hkeeps other hother => ?_⟩, fun hkeeps => ?_⟩
    · rw [← Option.some.inj (hch'.symm.trans hother)]
      exact hiff.mpr hkeeps
    · exact ⟨ch', hch', hraw', hiff.mpr hkeeps⟩
  by_cases hserved : call.table.admitted conf ∧ id = call.table.channel
  · rw [if_pos hserved] at hafter
    refine hexact hafter ?_ ?_
    · rw [act_rawData]
      exact hraw
    · cases call with
      | maximum p =>
          have hready : conf.ready := hserved.1
          refine (maximumChannel_weightsBounded_iff hraw p).trans ⟨?_, fun hkeeps => ?_⟩
          · intro hleft _ _ other hother
            rwa [← Option.some.inj (hch.symm.trans hother)]
          · exact hkeeps hready hserved.2.symm ch hch
      | gane p =>
          have hbounded : ch.WeightsBounded := by
            rcases h with hbounded | ⟨p, hcall, -⟩
            · exact hbounded
            · exact absurd hcall (by simp)
          exact iff_of_true (calibrateGane_weightsBounded p hbounded) trivial
  · rw [if_neg hserved] at hafter
    have hbounded : ch.WeightsBounded := by
      rcases h with hbounded | ⟨p, rfl, hready, hid⟩
      · exact hbounded
      · exact absurd ⟨hready, hid.symm⟩ hserved
    refine hexact hafter hraw (iff_of_true hbounded ?_)
    cases call with
    | maximum p => exact fun hready hid => absurd ⟨hready, hid.symm⟩ hserved
    | gane p => trivial

/-- In a run from a bounded table every state is bounded exactly if every call keeps the
bound. -/
theorem bounded_along_iff
    (h : BoundedTable id conf ch)
    (calls : List BoundCall) :
    HoldsAlong boundStep (BoundedChannel id) conf calls ↔
      MeetsAlong boundStep (fun conf call => call.KeepsBound id conf) conf calls := by
  let Inv (conf : SystemConfiguration) : Prop := ∃ ch, BoundedTable id conf ch
  have hholds : ∀ conf, Inv conf → BoundedChannel id conf := by
    rintro conf ⟨ch, h⟩ other hother
    rw [← Option.some.inj (h.channel.symm.trans hother)]
    exact h.bounded
  refine holdsAlong_iff_meetsAlong hholds ?_ ?_ ⟨ch, h⟩ calls
  · rintro conf call conf' ⟨ch, h⟩ hstep
    rw [← Option.some.inj hstep]
    exact (handle_bounded_iff h.channel h.rawData call (Or.inl h.bounded)).1
  · rintro conf call conf' ⟨ch, h⟩ hkeeps hstep
    rw [← Option.some.inj hstep]
    exact (handle_bounded_iff h.channel h.rawData call (Or.inl h.bounded)).2 hkeeps

/-- The same behind a maximum that is set on any table. -/
theorem bounded_behind_maximum_iff
    (hready : conf.ready)
    (hch : channelOf conf id = some ch)
    (hraw : ch.rawData)
    (maxWeightValue : Int)
    (calls : List BoundCall) :
    HoldsAlong boundStep (BoundedChannel id)
        (setMaximumChannel ⟨⟨id, maxWeightValue⟩, none⟩ conf).1 calls ↔
      NoneLeftAbove maxWeightValue ch.linearSections ∧
        MeetsAlong boundStep (fun conf call => call.KeepsBound id conf)
          (setMaximumChannel ⟨⟨id, maxWeightValue⟩, none⟩ conf).1 calls := by
  let call : BoundCall := .maximum ⟨id, maxWeightValue⟩
  obtain ⟨hiff, hnext⟩ :=
    handle_bounded_iff hch hraw call (Or.inr ⟨⟨id, maxWeightValue⟩, rfl, hready, rfl⟩)
  have hcondition : call.KeepsBound id conf ↔ NoneLeftAbove maxWeightValue ch.linearSections := by
    constructor
    · intro hkeeps
      exact hkeeps hready rfl ch hch
    · intro hleft _ _ other hother
      rwa [← Option.some.inj (hch.symm.trans hother)]
  constructor
  · intro hall
    have hfirst : BoundedChannel id (call.table.handle conf).1 := by
      cases calls with
      | nil => exact hall
      | cons next rest => exact hall.1
    have hkeeps := hiff.mp hfirst
    obtain ⟨ch', h'⟩ := hnext hkeeps
    exact ⟨hcondition.mp hkeeps, (bounded_along_iff h' calls).mp hall⟩
  · rintro ⟨hleft, hmeets⟩
    obtain ⟨ch', h'⟩ := hnext (hcondition.mpr hleft)
    exact (bounded_along_iff h' calls).mpr hmeets

/-- **The maximum of a channel.**  A new maximum leaves the points up to it exactly if raw value
and weight of every point lie on one side of it; and in a run from a bounded table, or behind a
maximum set on any table, the table is bounded in every state exactly if no call leaves a
point whose weight alone is above. -/
theorem setMaximumChannel_keeps_bound_iff
    (hready : conf.ready)
    (hch : channelOf conf id = some ch)
    (hraw : ch.rawData) :
    (∀ maxWeightValue,
      channelOf (setMaximumChannel ⟨⟨id, maxWeightValue⟩, none⟩ conf).1 id =
          some
            { ch with
              maxWeightValue := maxWeightValue
              linearSections := sectionsUpTo maxWeightValue ch.linearSections } ↔
        ∀ s ∈ ch.linearSections, s.rawValue.toInt ≤ maxWeightValue ↔ s.weightValue ≤ maxWeightValue) ∧
      (ch.WeightsBounded → ∀ calls,
        HoldsAlong boundStep (BoundedChannel id) conf calls ↔
          MeetsAlong boundStep (fun conf call => call.KeepsBound id conf) conf calls) ∧
      ∀ maxWeightValue calls,
        HoldsAlong boundStep (BoundedChannel id)
            (setMaximumChannel ⟨⟨id, maxWeightValue⟩, none⟩ conf).1 calls ↔
          NoneLeftAbove maxWeightValue ch.linearSections ∧
            MeetsAlong boundStep (fun conf call => call.KeepsBound id conf)
              (setMaximumChannel ⟨⟨id, maxWeightValue⟩, none⟩ conf).1 calls := by
  refine ⟨fun maxWeightValue => ?_, fun hbounded => ?_, ?_⟩
  · rw [channelOf_setMaximumChannel, if_pos ⟨hready, rfl⟩, hch, Option.map_some,
      Option.some.injEq]
    exact maximumChannel_eq_sectionsUpTo_iff hraw ⟨id, maxWeightValue⟩
  · exact bounded_along_iff ⟨hch, hraw, hbounded⟩
  · exact bounded_behind_maximum_iff hready hch hraw

end Runs

/-- A channel calibrated with the load 1000 at the raw value 100. -/
def loadedSystem : SystemConfiguration := runTable beforeCalibration oneLoadCalls

/-- A maximum above the load keeps it, and a load up to this maximum is within the bound. -/
theorem setMaximumChannel_keeps_load :
    channelOf (setMaximumChannel ⟨⟨1, 2000⟩, none⟩ loadedSystem).1 1 =
        some { oneLoadChannel with maxWeightValue := 2000 } ∧
      HoldsAlong boundStep (BoundedChannel 1) loadedSystem
        [.maximum ⟨1, 2000⟩, .gane ⟨1, 150, 1500⟩] := by
  have hcal := oneLoadCalls_calibrated
  have h := setMaximumChannel_keeps_bound_iff hcal.ready hcal.channel hcal.rawData
  constructor
  · exact (h.1 2000).mpr (by decide)
  · refine (h.2.1 (by unfold Channel.WeightsBounded; decide) _).mpr ?_
    refine fun _ _ => ⟨fun _ _ ch hch => ?_, fun _ _ => ⟨trivial, trivial⟩⟩
    rw [← Option.some.inj (hcal.channel.symm.trans hch), NoneLeftAbove]
    decide

/-- A maximum of 500 leaves the point of weight 1000. -/
theorem setMaximumChannel_leaves_load :
    channelOf (setMaximumChannel ⟨⟨1, 500⟩, none⟩ loadedSystem).1 1 ≠
        some
          { oneLoadChannel with
            maxWeightValue := 500
            linearSections := sectionsUpTo 500 oneLoadChannel.linearSections } ∧
      ¬ HoldsAlong boundStep (BoundedChannel 1) loadedSystem [.maximum ⟨1, 500⟩] := by
  have hafter : channelOf (setMaximumChannel ⟨⟨1, 500⟩, none⟩ loadedSystem).1 1 =
      some { oneLoadChannel with maxWeightValue := 500 } := by decide +kernel
  refine ⟨?_, fun h => ?_⟩
  · rw [hafter]
    decide
  · have hbounded := h.last rfl _ hafter ⟨100, 1000, 10⟩ (by decide)
    exact absurd hbounded (by decide)

end Metrology
end MatrixBin
