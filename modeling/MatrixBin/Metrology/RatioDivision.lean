import Mathlib.Data.List.Chain
import MatrixBin.Metrology.ChannelRuns

/-!
# The divisions of `calcLinearRatioChannel`

Only `setCalibrationGaneChannel` calls it, with the new point already in the table, and it
divides by the difference of the raw values of every two neighbours, an `int` that is 0 exactly
if the two are the same, also when it wraps around.  `setCalibrateGane` checks
the weight of the new point, but not its raw value, and `setMaximumChannel` can erase what
stood between two points of the same raw value.
-/

namespace MatrixBin
namespace Metrology

/-- The divisors of `calcLinearRatioChannel`. -/
def divisors : List LinearSection → List Int32
  | s :: t :: rest => (t.rawValue - s.rawValue) :: divisors (t :: rest)
  | _ => []

/-- Neighbours have different raw values. -/
def RawsDiffer (sections : List LinearSection) : Prop :=
  sections.IsChain fun s t => s.rawValue ≠ t.rawValue

/-- No division by zero in this call. -/
def TableCall.DividesSafely (conf : SystemConfiguration) (call : TableCall) : Prop :=
  ∀ p ch, call = .calibration (.gane p) → GaneServed conf p ch →
    0 ∉ divisors (putSection p.rawValue p.weightValue ch.linearSections)

/-- No division by zero in any call of the run. -/
def DividesSafely (conf : SystemConfiguration) (calls : List TableCall) : Prop :=
  ∀ past call rest, calls = past ++ call :: rest → call.DividesSafely (runTable conf past)

/-! ### The new point and its neighbours -/

/-- The points in front of a new one. -/
def lighter (weightValue : Int) (sections : List LinearSection) : List LinearSection :=
  sections.takeWhile fun s => s.weightValue < weightValue

/-- The points that stay behind it: one of the same weight is replaced. -/
def heavier (weightValue : Int) (sections : List LinearSection) : List LinearSection :=
  match sections.dropWhile fun s => s.weightValue < weightValue with
  | [] => []
  | s :: rest => if s.weightValue = weightValue then rest else s :: rest

/-- The raw value differs from those of the two points between which it comes. -/
structure FitsBetween
    (rawValue : Int32) (weightValue : Int) (sections : List LinearSection) : Prop where
  before : ∀ s ∈ (lighter weightValue sections).getLast?, s.rawValue ≠ rawValue
  behind : ∀ t ∈ (heavier weightValue sections).head?, rawValue ≠ t.rawValue

/-- The points that the new one does not touch have different raw values next to each other. -/
structure OthersDiffer (weightValue : Int) (sections : List LinearSection) : Prop where
  lighter : RawsDiffer (lighter weightValue sections)
  heavier : RawsDiffer (heavier weightValue sections)

/-- A gane calibration that is served has a raw value of its own, in a table whose other
neighbours differ. -/
def GanesFit (conf : SystemConfiguration) (calls : List TableCall) : Prop :=
  ∀ past call rest, calls = past ++ call :: rest →
    ∀ p ch, call = .calibration (.gane p) → GaneServed (runTable conf past) p ch →
      FitsBetween p.rawValue p.weightValue ch.linearSections ∧
        OthersDiffer p.weightValue ch.linearSections

section Points

variable {rawValue : Int32} {weightValue : Int} {sections : List LinearSection}

theorem zero_not_mem_divisors_iff
    (sections : List LinearSection) :
    0 ∉ divisors sections ↔ RawsDiffer sections := by
  fun_induction divisors sections with
  | case1 s t rest ih =>
      rw [List.mem_cons, not_or, ih, RawsDiffer, RawsDiffer, List.isChain_cons_cons]
      refine and_congr_left fun _ => ?_
      constructor
      · intro h heq
        exact h (by rw [heq, Int32.sub_self])
      · intro h heq
        exact h (by grind)
  | case2 sections hne =>
      refine iff_of_true List.not_mem_nil ?_
      match sections, hne with
      | [], _ => exact List.isChain_nil
      | [s], _ => exact List.isChain_singleton s
      | s :: t :: rest, hne => exact absurd rfl (hne s t rest)

/-- Where the new point stands; its ratio is computed later. -/
theorem putSection_eq
    (rawValue : Int32)
    (weightValue : Int)
    (sections : List LinearSection) :
    ∃ q, putSection rawValue weightValue sections =
      lighter weightValue sections ++
        ⟨rawValue, weightValue, q⟩ :: heavier weightValue sections := by
  induction sections with
  | nil => exact ⟨0, rfl⟩
  | cons s rest ih =>
      rw [putSection, lighter, heavier]
      by_cases hlt : s.weightValue < weightValue
      · obtain ⟨q, hq⟩ := ih
        refine ⟨q, ?_⟩
        rw [if_pos hlt, hq, List.takeWhile_cons_of_pos (by simpa using hlt),
          List.dropWhile_cons_of_pos (by simpa using hlt)]
        rfl
      · rw [if_neg hlt, List.takeWhile_cons_of_neg (by simpa using hlt),
          List.dropWhile_cons_of_neg (by simpa using hlt)]
        by_cases heq : s.weightValue = weightValue
        · exact ⟨s.ratio, by simp [heq]⟩
        · exact ⟨0, by simp [heq]⟩

/-- What the table needs for the new point. -/
theorem rawsDiffer_putSection_iff :
    RawsDiffer (putSection rawValue weightValue sections) ↔
      FitsBetween rawValue weightValue sections ∧ OthersDiffer weightValue sections := by
  obtain ⟨q, hq⟩ := putSection_eq rawValue weightValue sections
  rw [hq, RawsDiffer, List.isChain_append, List.isChain_cons]
  constructor
  · rintro ⟨hlighter, ⟨hbehind, hheavier⟩, hbefore⟩
    exact ⟨⟨fun s hs => hbefore s hs _ rfl, hbehind⟩, hlighter, hheavier⟩
  · rintro ⟨⟨hbefore, hbehind⟩, hlighter, hheavier⟩
    refine ⟨hlighter, ⟨hbehind, hheavier⟩, fun s hs t ht => ?_⟩
    obtain rfl := Option.some.inj ht
    exact hbefore s hs

/-- The points that stay are neighbours in the table before, but for a replaced point. -/
theorem RawsDiffer.others
    (h : RawsDiffer sections)
    (weightValue : Int) :
    OthersDiffer weightValue sections := by
  have hsplit : lighter weightValue sections ++
      sections.dropWhile (fun s => decide (s.weightValue < weightValue)) = sections :=
    List.takeWhile_append_dropWhile
  rw [RawsDiffer, ← hsplit, List.isChain_append] at h
  refine ⟨h.1, ?_⟩
  have hrest := h.2.1
  rw [heavier]
  split
  next => exact List.isChain_nil
  next s rest heq =>
    rw [heq] at hrest
    split
    · exact hrest.tail
    · exact hrest

end Points

/-! ### Runs -/

/-- Every table has neighbours of different raw values. -/
def TablesDiffer (conf : SystemConfiguration) : Prop :=
  ∀ id ch, channelOf conf id = some ch → RawsDiffer ch.linearSections

/-- Kept points with only erased ones between them have different raw values. -/
def ErasedApart (maxWeightValue : Int) (sections : List LinearSection) : Prop :=
  ∀ front s gap t back,
    sections = front ++ s :: (gap ++ t :: back) →
    s.rawValue.toInt ≤ maxWeightValue →
    t.rawValue.toInt ≤ maxWeightValue →
    (∀ e ∈ gap, maxWeightValue < e.rawValue.toInt) →
    s.rawValue ≠ t.rawValue

/-- A call that brings no two points of one raw value together. -/
def TableCall.KeepsApart (conf : SystemConfiguration) : TableCall → Prop
  | .calibration (.gane p) =>
      ∀ ch, GaneServed conf p ch → FitsBetween p.rawValue p.weightValue ch.linearSections
  | .calibration _ => True
  | .maximum p =>
      conf.ready → ∀ ch, channelOf conf p.channel = some ch → ch.rawData →
        ErasedApart p.maxWeightValue ch.linearSections

section Runs

variable {conf : SystemConfiguration} {call : TableCall} {calls : List TableCall}

theorem rawsDiffer_filter_iff
    (maxWeightValue : Int)
    (sections : List LinearSection) :
    RawsDiffer (sections.filter fun s => decide (s.rawValue.toInt ≤ maxWeightValue)) ↔
      ErasedApart maxWeightValue sections := by
  rw [RawsDiffer, List.isChain_iff_forall_rel_of_append_cons_cons]
  constructor
  · intro h front s gap t back hsplit hs ht hgap
    rw [hsplit, filter_neighbours (by simpa using hs) (by simpa using ht) (by simpa using hgap)] at h
    exact h rfl
  · intro h s t front' back' hsplit
    obtain ⟨front, gap, back, heq, hs, ht, hgap, -⟩ := exists_of_filter_neighbours hsplit
    exact h front s gap t back heq (by simpa using hs) (by simpa using ht) (by simpa using hgap)

theorem rawsDiffer_congr
    {sections sections' : List LinearSection}
    (hpairs : sections.map LinearSection.pair = sections'.map LinearSection.pair) :
    RawsDiffer sections ↔ RawsDiffer sections' := by
  have hmap (l : List LinearSection) :
      RawsDiffer l ↔ (l.map LinearSection.pair).IsChain fun p q => p.1 ≠ q.1 := by
    rw [List.isChain_map]
    rfl
  rw [hmap, hmap, hpairs]

/-- A common shift keeps the raw values apart. -/
theorem RawsDiffer.shiftRaw
    {sections : List LinearSection}
    (h : RawsDiffer sections)
    (diff : Int32) :
    RawsDiffer (sections.map (LinearSection.shiftRaw diff)) := by
  rw [RawsDiffer, List.isChain_map]
  refine h.imp fun s t hne heq => hne ?_
  simpa [LinearSection.shiftRaw] using heq

/-- One call on a channel. -/
theorem act_rawsDiffer
    {ch : Channel}
    (hadmitted : call.admitted conf)
    (hch : channelOf conf call.channel = some ch)
    (h : RawsDiffer ch.linearSections)
    (happart : call.KeepsApart conf) :
    RawsDiffer (call.act ch).linearSections := by
  cases call with
  | maximum p =>
      rw [TableCall.act, maximumChannel_linearSections]
      split
      next hraw =>
        exact (rawsDiffer_filter_iff _ _).mpr (happart hadmitted ch hch hraw)
      next => exact h
  | calibration call =>
      cases call with
      | zero p =>
          simp only [TableCall.act, CalibrationCall.act, calibrateZero]
          split
          · exact List.isChain_singleton _
          · exact h
      | gane p =>
          simp only [TableCall.act, CalibrationCall.act, calibrateGane]
          split_ifs with hraw hzero hweight
          · exact h
          · exact h
          · have hguard : conf.ready = true ∧ conf.serviceMode = true := by
              simpa [TableCall.admitted] using hadmitted
            have hserved : GaneServed conf p ch :=
              ⟨hguard.1, hguard.2, hch, hraw, hzero, Int.not_lt.mp hweight⟩
            refine (rawsDiffer_congr (calcRatios_pairs none _)).mpr ?_
            exact rawsDiffer_putSection_iff.mpr ⟨happart ch hserved, h.others p.weightValue⟩
          · exact h
      | zeroCorrection p =>
          simp only [TableCall.act, CalibrationCall.act, calibrateZeroCorrection]
          split_ifs
          · exact h
          · exact h.shiftRaw _
          · exact h

theorem handle_tablesDiffer
    (h : TablesDiffer conf)
    (happart : call.KeepsApart conf) :
    TablesDiffer (call.handle conf).1 := by
  intro id ch' hch'
  rcases channel_after_handle hch' with hsame | ⟨ch, hadmitted, rfl, hch, rfl⟩
  · exact h id ch' hsame
  · exact act_rawsDiffer hadmitted hch (h _ ch hch) happart

theorem dividesSafely_iff :
    DividesSafely conf calls ↔ GanesFit conf calls := by
  constructor
  · intro h past call rest hcalls p ch hcall hserved
    exact rawsDiffer_putSection_iff.mp
      ((zero_not_mem_divisors_iff _).mp (h past call rest hcalls p ch hcall hserved))
  · intro h past call rest hcalls p ch hcall hserved
    exact (zero_not_mem_divisors_iff _).mpr
      (rawsDiffer_putSection_iff.mpr (h past call rest hcalls p ch hcall hserved))

/-- **Division by zero.**  A run is free of it exactly if every gane calibration that is served
fits its table; and from tables with different neighbours it is enough that no call brings two
points of one raw value together. -/
theorem calc_divides_safely_iff
    (conf : SystemConfiguration)
    (calls : List TableCall) :
    (DividesSafely conf calls ↔ GanesFit conf calls) ∧
      (TablesDiffer conf →
        (∀ past call rest, calls = past ++ call :: rest →
          call.KeepsApart (runTable conf past)) →
        DividesSafely conf calls) := by
  refine ⟨dividesSafely_iff, fun h happart => dividesSafely_iff.mpr ?_⟩
  rintro past call rest hcalls p ch rfl hserved
  have hpast : TablesDiffer (runTable conf past) := by
    refine runTable_keeps (fun _ _ => handle_tablesDiffer) h fun past' call' rest' heq => ?_
    exact happart past' call' (rest' ++ .calibration (.gane p) :: rest)
      (by rw [hcalls, heq, List.append_assoc, List.cons_append])
  have hmeets := happart past _ rest hcalls ch hserved
  exact ⟨hmeets, (hpast _ ch hserved.channel).others p.weightValue⟩

/-- A zero and a load of the same raw value. -/
def sameRaw : List TableCall := [.calibration (.zero ⟨1, 0⟩), .calibration (.gane ⟨1, 0, 1000⟩)]

/-- The load is accepted, as the second point of the table, and the division is by zero. -/
theorem gane_divides_by_zero :
    (∃ call ∈ sameRaw, (call.handle (runTable beforeCalibration (sameRaw.take 1))).2 = 2) ∧
      ¬ DividesSafely beforeCalibration sameRaw := by
  refine ⟨⟨.calibration (.gane ⟨1, 0, 1000⟩), by simp [sameRaw], by decide +kernel⟩, fun h => ?_⟩
  have hch : channelOf (runTable beforeCalibration (sameRaw.take 1)) 1 =
      some ⟨1, flChannelRawData, 5000, 0, 0, ⟨0, 0, 0, 0⟩, [⟨0, 0, 0⟩]⟩ := by decide +kernel
  have hserved : GaneServed (runTable beforeCalibration (sameRaw.take 1)) ⟨1, 0, 1000⟩ _ :=
    ⟨by decide +kernel, by decide +kernel, hch, by decide, by decide, by decide⟩
  exact h (sameRaw.take 1) _ [] rfl _ _ rfl hserved (by decide)

end Runs

end Metrology
end MatrixBin
