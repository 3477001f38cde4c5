import MatrixBin.Metrology.LoadedTable
import MatrixBin.Metrology.VpiHandlers

/-!
# Runs of the handlers that write a table of points

`setCalibrateZero`, `setCalibrateGane`, `setCalibrateZeroCorrection` and
`setMaximumChannel` are the handlers that write the points of a channel.  In every order of
calls the table stays a finite map from weights to raw values, kept in the order of the
weights.  The ratios are another matter, also in exact arithmetic: `setMaximumChannel` erases
points and computes no ratio again, so they stay right only where the erased points lay on the
chord of the points that are left (`ErasedOnChord`).
-/

namespace MatrixBin
namespace Metrology

open Library

/-! ### Calls -/

/-- A call of a handler that writes the table of points, with `fun == NULL`. -/
inductive TableCall
  | calibration (call : CalibrationCall)
  | maximum (p : SetMaximumChannel)
deriving DecidableEq, Repr

/-- The channel that a calibration call addresses. -/
def CalibrationCall.channel : CalibrationCall → Int
  | .zero p => p.channel
  | .gane p => p.channel
  | .zeroCorrection p => p.channel

def TableCall.channel : TableCall → Int
  | .calibration call => call.channel
  | .maximum p => p.channel

/-- The guards that the call passes; `setMaximumChannel` does not ask for the service mode. -/
def TableCall.admitted (conf : SystemConfiguration) : TableCall → Bool
  | .calibration _ => conf.ready && conf.serviceMode
  | .maximum _ => conf.ready

theorem maximumChannel_channel
    (p : SetMaximumChannel)
    (ch : Channel) :
    (maximumChannel p ch).channel = ch.channel := by
  unfold maximumChannel
  simp only
  split <;> rfl

theorem channelOf_setMaximumChannel
    (p : SetMaximumChannel)
    (conf : SystemConfiguration)
    (id : Int) :
    channelOf (setMaximumChannel ⟨p, none⟩ conf).1 id =
      if conf.ready ∧ id = p.channel then (channelOf conf id).map (maximumChannel p)
      else channelOf conf id := by
  by_cases hguard : conf.ready ∧ channelOf conf p.channel ≠ none
  · obtain ⟨hready, hne⟩ := hguard
    obtain ⟨ch, hch⟩ := Option.ne_none_iff_exists'.mp hne
    obtain ⟨idx, hidx, hget⟩ := Option.bind_eq_some_iff.mp hch
    have heq : (setMaximumChannel ⟨p, none⟩ conf).1 =
        conf.setChannel idx (maximumChannel p ch) := by
      simp [setMaximumChannel, hready, hidx, hget]
    rw [heq, channelOf_setChannel hidx hch (maximumChannel_channel p ch)]
    by_cases hid : id = p.channel
    · simp [hready, hid, hch]
    · simp [hid]
  · rw [setMaximumChannel_refused hguard]
    split
    · rename_i h
      obtain ⟨hready, rfl⟩ := h
      have hnone : channelOf conf p.channel = none := by
        by_contra hne
        exact hguard ⟨hready, hne⟩
      simp [hnone]
    · rfl

/-! ### The table as a map -/

/-- The finite map of a table: the raw value calibrated for a weight. -/
def rawAt (sections : List LinearSection) : Int → Option Int32 :=
  lookupKey LinearSection.weightValue LinearSection.rawValue sections

/-- The table of the channel, if there is one, has strictly increasing weights. -/
def TableSorted (conf : SystemConfiguration) (channel : Int) : Prop :=
  ∀ ch, channelOf conf channel = some ch → StrictWeight ch.linearSections

theorem rawAt_congr
    {sections sections' : List LinearSection}
    (hpairs : sections.map LinearSection.pair = sections'.map LinearSection.pair) :
    rawAt sections = rawAt sections' := by
  refine lookupKey_congr _ _ ?_
  have hswap := congrArg (List.map Prod.swap) hpairs
  simpa only [List.map_map, Function.comp_def, LinearSection.pair, Prod.swap_prod_mk] using hswap

theorem maximumChannel_linearSections
    (p : SetMaximumChannel)
    (ch : Channel) :
    (maximumChannel p ch).linearSections =
      if ch.rawData then
        ch.linearSections.filter fun s => decide (s.rawValue.toInt ≤ p.maxWeightValue)
      else ch.linearSections := by
  unfold maximumChannel
  by_cases hraw : ch.rawData
  · have hraw' : ({ ch with maxWeightValue := p.maxWeightValue } : Channel).rawData = true := hraw
    simp only [hraw, hraw', if_true]
    exact eraseAbove_eq_filter _ _
  · have hraw' : ¬({ ch with maxWeightValue := p.maxWeightValue } : Channel).rawData = true := hraw
    simp only [hraw, hraw', if_false, Bool.false_eq_true]

/-! ### Runs -/

section Runs

variable [Rounding]

/-- The handler that serves the call. -/
def TableCall.handle :
    TableCall → SystemConfiguration → SystemConfiguration × Int
  | .calibration call => call.handle
  | .maximum p => setMaximumChannel ⟨p, none⟩

/-- The configuration after a run of calls. -/
def runTable (conf : SystemConfiguration) (calls : List TableCall) : SystemConfiguration :=
  calls.foldl (fun conf call => (call.handle conf).1) conf

/-- What a calibration call does with the channel. -/
def CalibrationCall.act : CalibrationCall → Channel → Channel
  | .zero p, ch => (calibrateZero p ch).1
  | .gane p, ch => (calibrateGane p ch).1
  | .zeroCorrection p, ch => (calibrateZeroCorrection p ch).1

def TableCall.act : TableCall → Channel → Channel
  | .calibration call => call.act
  | .maximum p => maximumChannel p

/-- An admitted call acts on the channel it addresses and on nothing else. -/
theorem channelOf_handle
    (call : TableCall)
    (conf : SystemConfiguration)
    (id : Int) :
    channelOf (call.handle conf).1 id =
      if call.admitted conf ∧ id = call.channel then (channelOf conf id).map call.act
      else channelOf conf id := by
  cases call with
  | maximum p =>
      rw [TableCall.handle, channelOf_setMaximumChannel]
      rfl
  | calibration call =>
      cases call with
      | zero p =>
          rw [TableCall.handle, CalibrationCall.handle, setCalibrateZero,
            channelOf_calibrationHandler calibrateZero_channel]
          simp only [TableCall.admitted, Bool.and_eq_true, and_assoc]
          rfl
      | gane p =>
          rw [TableCall.handle, CalibrationCall.handle, setCalibrateGane,
            channelOf_calibrationHandler calibrateGane_channel]
          simp only [TableCall.admitted, Bool.and_eq_true, and_assoc]
          rfl
      | zeroCorrection p =>
          rw [TableCall.handle, CalibrationCall.handle, setCalibrateZeroCorrection,
            channelOf_calibrationHandler calibrateZeroCorrection_channel]
          simp only [TableCall.admitted, Bool.and_eq_true, and_assoc]
          rfl

/-- What a call may have done to a channel that it leaves behind. -/
theorem channel_after_handle
    {call : TableCall}
    {conf : SystemConfiguration}
    {id : Int}
    {ch' : Channel}
    (hch' : channelOf (call.handle conf).1 id = some ch') :
    channelOf conf id = some ch' ∨
      ∃ ch, call.admitted conf ∧ id = call.channel ∧
        channelOf conf id = some ch ∧ ch' = call.act ch := by
  rw [channelOf_handle] at hch'
  split at hch'
  · rename_i h
    obtain ⟨ch, hch, rfl⟩ := Option.map_eq_some_iff.mp hch'
    exact Or.inr ⟨ch, h.1, h.2, hch, rfl⟩
  · exact Or.inl hch'

theorem setCalibrationGaneChannel_strictWeight
    (rawValue : Int32)
    (weightValue : Int)
    {ch : Channel}
    (h : StrictWeight ch.linearSections) :
    StrictWeight (setCalibrationGaneChannel ch rawValue weightValue).1.linearSections :=
  (putSection_strictWeight rawValue weightValue h).of_pairs (calcRatios_pairs none _).symm

/-- Calibrating a weight updates the map at this weight. -/
theorem rawAt_setCalibrationGaneChannel
    (rawValue : Int32)
    (weightValue : Int)
    {ch : Channel}
    (h : StrictWeight ch.linearSections) :
    rawAt (setCalibrationGaneChannel ch rawValue weightValue).1.linearSections =
      Function.update (rawAt ch.linearSections) weightValue (some rawValue) := by
  have hpairs : rawAt (setCalibrationGaneChannel ch rawValue weightValue).1.linearSections =
      rawAt (putSection rawValue weightValue ch.linearSections) :=
    rawAt_congr (calcRatios_pairs none _)
  rw [hpairs, putSection_eq_putKey]
  unfold rawAt
  refine lookupKey_putKey LinearSection.rawValue ?_ ?_ ?_ ?_ h
  · rfl
  · intro s
    rfl
  · rfl
  · intro s
    rfl

theorem act_strictWeight
    (call : TableCall)
    {ch : Channel}
    (h : StrictWeight ch.linearSections) :
    StrictWeight (call.act ch).linearSections := by
  cases call with
  | maximum p =>
      rw [TableCall.act, maximumChannel_linearSections]
      split
      · exact h.filter _
      · exact h
  | calibration call =>
      cases call with
      | zero p =>
          simp only [TableCall.act, CalibrationCall.act, calibrateZero]
          split
          · exact List.pairwise_singleton _ _
          · exact h
      | gane p =>
          simp only [TableCall.act, CalibrationCall.act, calibrateGane]
          split_ifs
          · exact h
          · exact h
          · exact setCalibrationGaneChannel_strictWeight _ _ h
          · exact h
      | zeroCorrection p =>
          simp only [TableCall.act, CalibrationCall.act, calibrateZeroCorrection]
          split_ifs
          · exact h
          · -- the shift changes raw values only
            exact List.pairwise_map.mpr h
          · exact h

theorem handle_tableSorted
    (call : TableCall)
    {conf : SystemConfiguration}
    {channel : Int}
    (h : TableSorted conf channel) :
    TableSorted (call.handle conf).1 channel := by
  intro ch' hch'
  rcases channel_after_handle hch' with hsame | ⟨ch, -, -, hch, rfl⟩
  · exact h ch' hsame
  · exact act_strictWeight call (h ch hch)

theorem runTable_tableSorted
    (calls : List TableCall)
    {conf : SystemConfiguration}
    {channel : Int}
    (h : TableSorted conf channel) :
    TableSorted (runTable conf calls) channel := by
  induction calls generalizing conf with
  | nil => exact h
  | cons call rest ih => exact ih (handle_tableSorted call h)

/-- In every run from a sorted table the table stays sorted, and calibrating a weight is an
update of its map that returns the size of the new table. -/
theorem runTable_finite_map
    (calls : List TableCall)
    {conf : SystemConfiguration}
    {channel : Int}
    (h : TableSorted conf channel)
    {ch : Channel}
    (hch : channelOf (runTable conf calls) channel = some ch) :
    StrictWeight ch.linearSections ∧
      ∀ rawValue weightValue,
        StrictWeight (setCalibrationGaneChannel ch rawValue weightValue).1.linearSections ∧
        rawAt (setCalibrationGaneChannel ch rawValue weightValue).1.linearSections =
          Function.update (rawAt ch.linearSections) weightValue (some rawValue) ∧
        (setCalibrationGaneChannel ch rawValue weightValue).2 =
          (setCalibrationGaneChannel ch rawValue weightValue).1.linearSections.length := by
  have hsorted : StrictWeight ch.linearSections := runTable_tableSorted calls h ch hch
  refine ⟨hsorted, fun rawValue weightValue => ⟨?_, ?_, rfl⟩⟩
  · exact setCalibrationGaneChannel_strictWeight rawValue weightValue hsorted
  · exact rawAt_setCalibrationGaneChannel rawValue weightValue hsorted

theorem runTable_append_singleton
    (conf : SystemConfiguration)
    (calls : List TableCall)
    (call : TableCall) :
    runTable conf (calls ++ [call]) = (call.handle (runTable conf calls)).1 := by
  simp [runTable]

/-- What every call that meets a condition keeps, a run of such calls keeps. -/
theorem runTable_keeps
    {Inv : SystemConfiguration → Prop}
    {C : SystemConfiguration → TableCall → Prop}
    {conf : SystemConfiguration}
    {calls : List TableCall}
    (hstep : ∀ conf call, Inv conf → C conf call → Inv (call.handle conf).1)
    (h : Inv conf)
    (hcalls : ∀ past call rest, calls = past ++ call :: rest → C (runTable conf past) call) :
    Inv (runTable conf calls) := by
  induction calls using List.reverseRecOn with
  | nil => exact h
  | append_singleton past call ih =>
      rw [runTable_append_singleton]
      refine hstep _ call (ih fun past' call' rest' heq => ?_) (hcalls past call [] rfl)
      exact hcalls past' call' (rest' ++ [call]) (by rw [heq]; simp)

end Runs

/-- A raw-data channel before its first calibration, in service mode. -/
def beforeCalibration : SystemConfiguration where
  flagSystem := flSystemConfigurationReady ||| flSystemServiceMode
  channelConfiguration := [⟨1, flChannelRawData, 5000, -1, 0, ⟨0, 0, 0, 0⟩, []⟩]

/-- A zero and two loads. -/
def twoLoads (second : Int) : List TableCall :=
  [.calibration (.zero ⟨1, 0⟩), .calibration (.gane ⟨1, 100, 1000⟩),
    .calibration (.gane ⟨1, 300, second⟩)]

theorem beforeCalibration_table
    {ch : Channel}
    (hch : channelOf beforeCalibration 1 = some ch) :
    ch.linearSections = [] := by
  have heq : channelOf beforeCalibration 1 =
      some ⟨1, flChannelRawData, 5000, -1, 0, ⟨0, 0, 0, 0⟩, []⟩ := by decide
  rw [← Option.some.inj (heq.symm.trans hch)]

theorem runTable_finite_map_twoLoads :
    ∃ ch, channelOf (runTable beforeCalibration (twoLoads 2000)) 1 = some ch ∧
      ch.linearSections = [⟨0, 0, 10⟩, ⟨100, 1000, 5⟩, ⟨300, 2000, 5⟩] ∧
      rawAt (setCalibrationGaneChannel ch 60 500).1.linearSections =
        Function.update (rawAt ch.linearSections) 500 (some 60) := by
  have hch : channelOf (runTable beforeCalibration (twoLoads 2000)) 1 =
      some ⟨1, flChannelRawData, 5000, 0, 0, ⟨0, 0, 0, 0⟩,
        [⟨0, 0, 10⟩, ⟨100, 1000, 5⟩, ⟨300, 2000, 5⟩]⟩ := by decide +kernel
  have hsorted : TableSorted beforeCalibration 1 := by
    intro ch hch
    rw [beforeCalibration_table hch]
    exact List.Pairwise.nil
  have hmap := runTable_finite_map (twoLoads 2000) hsorted hch
  exact ⟨_, hch, rfl, (hmap.2 60 500).2.1⟩

/-! ### The ratios of the table -/

/-- The ratio of a section as it should be, from its point to the next one. -/
def rightRatio (s t : LinearSection) : FloatValue :=
  .finite ((t.weightValue - s.weightValue) / (t.rawValue.toInt - s.rawValue.toInt))

/-- What the ratios of a table should be: with at least two points and neighbours of
different raw values they are the slopes, and the last one repeats the one before. -/
def RatiosRight (sections : List LinearSection) : Prop :=
  2 ≤ sections.length →
  sections.IsChain (fun s t => s.rawValue ≠ t.rawValue) →
  RatiosStored rightRatio sections

theorem RatiosStored.right
    {sections : List LinearSection}
    (h : RatiosStored slope sections) :
    RatiosRight sections := by
  intro _ hdiffer
  induction sections with
  | nil => trivial
  | cons s rest ih =>
      cases rest with
      | nil => trivial
      | cons t rest =>
          obtain ⟨hs, hlast, hrest⟩ := h
          obtain ⟨hne, htail⟩ := List.isChain_cons_cons.mp hdiffer
          refine ⟨?_, hlast, ?_⟩
          · rw [hs, slope_eq_chordSlope hne]
            rfl
          · cases rest with
            | nil => trivial
            | cons u rest => exact ih hrest (by simp) htail

/-- The points above the maximum lie on the chord of the kept ones next to them: seen from a
kept point the next point lies on the line to the next kept one, and the slope at the last
kept point is the slope of the line that leads to it. -/
def ErasedOnChord (maxWeightValue : Int) (sections : List LinearSection) : Prop :=
  ∀ front s gap t back,
    sections = front ++ s :: (gap ++ t :: back) →
    s.rawValue.toInt ≤ maxWeightValue →
    t.rawValue.toInt ≤ maxWeightValue →
    (∀ e ∈ gap, maxWeightValue < e.rawValue.toInt) →
    (∀ e ∈ gap.head?, slope s e = slope s t) ∧
      ((∀ e ∈ back, maxWeightValue < e.rawValue.toInt) →
        (∀ e ∈ back.head?, slope t e = slope s t) ∧
        (back = [] → ∀ e ∈ gap.getLast?, slope e t = slope s t))

/-- No subtraction of the call overflows, and a call of `setMaximumChannel` that reaches a
raw-data channel erases points of its table on a chord only. -/
def TableCall.KeepsRatios
    (channel : Int) (conf : SystemConfiguration) : TableCall → Prop
  | .calibration call => call.Fits conf channel
  | .maximum p =>
      conf.ready → p.channel = channel →
        ∀ ch, channelOf conf channel = some ch → ch.rawData →
          ErasedOnChord p.maxWeightValue ch.linearSections

theorem ratiosStored_iff_adjacent
    (ratio : LinearSection → LinearSection → FloatValue)
    (sections : List LinearSection) :
    RatiosStored ratio sections ↔
      ∀ front s t back, sections = front ++ s :: t :: back →
        s.ratio = ratio s t ∧ (back = [] → t.ratio = s.ratio) := by
  fun_induction RatiosStored ratio sections with
  | case1 s t rest ih =>
      constructor
      · rintro ⟨hs, hlast, hrest⟩ front s' t' back heq
        cases front with
        | nil =>
            simp only [List.nil_append, List.cons.injEq] at heq
            obtain ⟨rfl, rfl, rfl⟩ := heq
            exact ⟨hs, hlast⟩
        | cons u front =>
            simp only [List.cons_append, List.cons.injEq] at heq
            exact ih.mp hrest front s' t' back heq.2
      · intro h
        refine ⟨(h [] s t rest rfl).1, (h [] s t rest rfl).2, ih.mpr ?_⟩
        intro front s' t' back heq
        exact h (s :: front) s' t' back (by rw [heq, List.cons_append])
  | case2 sections hne =>
      refine ⟨fun _ front s t back heq => ?_, fun _ => trivial⟩
      cases front with
      | nil => exact absurd heq (hne s t back)
      | cons u front =>
          obtain ⟨v, tail, htail⟩ : ∃ v tail, front ++ s :: t :: back = v :: tail := by
            cases front <;> simp
          exact absurd (heq.trans (by rw [List.cons_append, htail])) (hne u v tail)

/-- Two kept elements with only erased ones between them become neighbours. -/
theorem filter_neighbours
    {α : Type}
    {p : α → Bool}
    {front gap back : List α}
    {s t : α}
    (hs : p s = true)
    (ht : p t = true)
    (hgap : ∀ e ∈ gap, p e = false) :
    (front ++ s :: (gap ++ t :: back)).filter p = front.filter p ++ s :: t :: back.filter p := by
  have hnone : gap.filter p = [] := by
    rw [List.filter_eq_nil_iff]
    intro e he
    rw [hgap e he]
    exact Bool.false_ne_true
  rw [List.filter_append, List.filter_cons_of_pos hs, List.filter_append, hnone,
    List.filter_cons_of_pos ht, List.nil_append]

/-- Neighbours among the kept elements have only erased ones between them. -/
theorem exists_of_filter_neighbours
    {α : Type}
    {p : α → Bool}
    {l front' back' : List α}
    {s t : α}
    (h : l.filter p = front' ++ s :: t :: back') :
    ∃ front gap back, l = front ++ s :: (gap ++ t :: back) ∧ p s = true ∧ p t = true ∧
      (∀ e ∈ gap, p e = false) ∧ back' = back.filter p := by
  obtain ⟨l₁, l₂, rfl, -, hl₂⟩ := List.filter_eq_append_iff.mp h
  obtain ⟨g, l₃, rfl, -, hs, hl₃⟩ := List.filter_eq_cons_iff.mp hl₂
  obtain ⟨gap, back, rfl, hgap, ht, hback⟩ := List.filter_eq_cons_iff.mp hl₃
  exact ⟨l₁ ++ g, gap, back, by simp, hs, ht, by simpa using hgap, hback.symm⟩

/-- Erasing points keeps right ratios right exactly where it erases on the chord. -/
theorem ratiosStored_filter_iff
    (maxWeightValue : Int)
    {sections : List LinearSection}
    (h : RatiosStored slope sections) :
    RatiosStored slope (sections.filter fun s => decide (s.rawValue.toInt ≤ maxWeightValue)) ↔
      ErasedOnChord maxWeightValue sections := by
  rw [ratiosStored_iff_adjacent] at h
  constructor
  · intro hkept front s gap t back hsplit hs ht hgap
    rw [ratiosStored_iff_adjacent] at hkept
    obtain ⟨hratio, hlast⟩ := hkept _ s t
      (back.filter fun s => decide (s.rawValue.toInt ≤ maxWeightValue)) (by
        rw [hsplit]
        exact filter_neighbours (by simpa using hs) (by simpa using ht) (by simpa using hgap))
    refine ⟨?_, fun hback => ?_⟩
    · intro e he
      obtain ⟨gap', rfl⟩ := List.head?_eq_some_iff.mp he
      exact (h front s e _ (by rw [hsplit, List.cons_append])).1.symm.trans hratio
    · have htratio : t.ratio = slope s t :=
        (hlast (by simpa using hback)).trans hratio
      refine ⟨fun e he => ?_, fun hnil e he => ?_⟩
      · obtain ⟨back', rfl⟩ := List.head?_eq_some_iff.mp he
        have hte := h (front ++ s :: gap) t e back' (by simp [hsplit])
        exact hte.1.symm.trans htratio
      · obtain ⟨gap', rfl⟩ := List.getLast?_eq_some_iff.mp he
        have het := h (front ++ s :: gap') e t [] (by simp [hsplit, hnil])
        exact het.1.symm.trans ((het.2 rfl).symm.trans htratio)
  · intro hchord
    rw [ratiosStored_iff_adjacent]
    intro front' s t back' hsplit
    obtain ⟨front, gap, back, rfl, hs, ht, hgap, rfl⟩ := exists_of_filter_neighbours hsplit
    obtain ⟨hfirst, hend⟩ := hchord front s gap t back rfl
      (by simpa using hs) (by simpa using ht) (by simpa using hgap)
    have hratio : s.ratio = slope s t := by
      cases gap with
      | nil => exact (h front s t back rfl).1
      | cons e gap =>
          have hse := (h front s e (gap ++ t :: back) rfl).1
          exact hse.trans (hfirst e (by simp))
    refine ⟨hratio, fun hnil => ?_⟩
    obtain ⟨hbehind, hbefore⟩ := hend (by simpa using hnil)
    -- the ratio at the last kept point was computed from what followed it, or copied
    cases back with
    | cons e back =>
        have hte := (h (front ++ s :: gap) t e back (by simp)).1
        rw [hte, hratio]
        exact hbehind e (by simp)
    | nil =>
        rcases List.eq_nil_or_concat gap with rfl | ⟨gap', e, rfl⟩
        · exact (h front s t [] rfl).2 rfl
        · have het := h (front ++ s :: gap') e t [] (by simp)
          rw [het.2 rfl, het.1, hratio]
          exact hbefore rfl e (by simp)

section ExactArithmetic

attribute [local instance] Rounding.exact

/-- What one call does to right ratios. -/
theorem handle_keeps_tableStored
    {call : TableCall}
    {conf : SystemConfiguration}
    {channel : Int}
    (h : TableStored slope conf channel)
    (hkeeps : call.KeepsRatios channel conf) :
    TableStored slope (call.handle conf).1 channel := by
  cases call with
  | calibration call =>
      have hcomputes := CalibrationCall.Fits.computes_slope hkeeps
      exact handle_tableStored slope_ofPoints hcomputes h
  | maximum p =>
      intro ch' hch'
      rcases channel_after_handle hch' with hsame | ⟨ch, hadmitted, hid, hch, rfl⟩
      · exact h ch' hsame
      · rw [TableCall.act, maximumChannel_linearSections]
        split
        · rename_i hraw
          exact (ratiosStored_filter_iff p.maxWeightValue (h ch hch)).mpr
            (hkeeps hadmitted hid.symm ch hch hraw)
        · exact h ch hch

/-- The ratios of the table are right before the run, or its first call sets the table. -/
def StartsRight (conf : SystemConfiguration) (channel : Int) (calls : List TableCall) : Prop :=
  TableStored slope conf channel ∨
    ∃ call rest, calls = .calibration call :: rest ∧ call.Sets conf channel

/-- In a run that starts right, or comes to such a start, and whose calls from there on overflow
nowhere and erase on chords only, the ratios of the table are right. -/
theorem runTable_ratiosRight
    {before calls : List TableCall}
    {conf : SystemConfiguration}
    {channel : Int}
    (hstart : StartsRight (runTable conf before) channel calls)
    (hkeeps : ∀ past call rest, calls = past ++ call :: rest →
      call.KeepsRatios channel (runTable conf (before ++ past)))
    {ch : Channel}
    (hch : channelOf (runTable conf (before ++ calls)) channel = some ch) :
    RatiosRight ch.linearSections := by
  have hstep : ∀ conf (call : TableCall), TableStored slope conf channel →
      call.KeepsRatios channel conf → TableStored slope (call.handle conf).1 channel :=
    fun _ _ hstored hkept => handle_keeps_tableStored hstored hkept
  have happend (later : List TableCall) :
      runTable conf (before ++ later) = runTable (runTable conf before) later := by
    simp [runTable]
  have hstored : TableStored slope (runTable (runTable conf before) calls) channel := by
    rcases hstart with hfound | ⟨call, rest, rfl, hsets⟩
    · refine runTable_keeps hstep hfound fun past call rest heq => ?_
      rw [← happend]
      exact hkeeps past call rest heq
    · -- the first call sets the table, whatever was in it
      have hfirst := hkeeps [] (.calibration call) rest rfl
      rw [List.append_nil] at hfirst
      have hset : TableStored slope (call.handle (runTable conf before)).1 channel :=
        hsets.tableStored slope_ofPoints (CalibrationCall.Fits.computes_slope hfirst)
      have hrest : TableStored slope (runTable (call.handle (runTable conf before)).1 rest)
          channel := by
        refine runTable_keeps hstep hset fun past later rest' heq => ?_
        have hlater := hkeeps (.calibration call :: past) later rest' (by rw [heq, List.cons_append])
        rw [happend] at hlater
        exact hlater
      exact hrest
  rw [happend] at hch
  exact (hstored ch hch).right

/-- A calibration of two loads on one line, the second of them erased. -/
def onLine : List TableCall := twoLoads 3000 ++ [.maximum ⟨1, 200⟩]

theorem runTable_ratiosRight_onChord :
    ∃ ch, channelOf (runTable beforeCalibration onLine) 1 = some ch ∧
      ch.linearSections = [⟨0, 0, 10⟩, ⟨100, 1000, 10⟩] ∧
      RatiosRight ch.linearSections := by
  have hzero : channelOf (runTable beforeCalibration ((twoLoads 3000).take 1)) 1 =
        some ⟨1, flChannelRawData, 5000, 0, 0, ⟨0, 0, 0, 0⟩, [⟨0, 0, 0⟩]⟩ ∧
      channelOf (runTable beforeCalibration ((twoLoads 3000).take 2)) 1 =
        some ⟨1, flChannelRawData, 5000, 0, 0, ⟨0, 0, 0, 0⟩, [⟨0, 0, 10⟩, ⟨100, 1000, 10⟩]⟩ := by
    decide +kernel
  have hlast : channelOf (runTable beforeCalibration (twoLoads 3000)) 1 =
        some ⟨1, flChannelRawData, 5000, 0, 0, ⟨0, 0, 0, 0⟩,
          [⟨0, 0, 10⟩, ⟨100, 1000, 10⟩, ⟨300, 3000, 10⟩]⟩ ∧
      channelOf (runTable beforeCalibration onLine) 1 =
        some ⟨1, flChannelRawData, 200, 0, 0, ⟨0, 0, 0, 0⟩,
          [⟨0, 0, 10⟩, ⟨100, 1000, 10⟩]⟩ := by decide +kernel
  have hchord : ErasedOnChord 200 [⟨0, 0, 10⟩, ⟨100, 1000, 10⟩, ⟨300, 3000, 10⟩] := by
    refine (ratiosStored_filter_iff 200 ?_).mp ?_
    · exact ⟨by decide +kernel, by simp, by decide +kernel, by simp, trivial⟩
    · exact ⟨by decide +kernel, by simp, trivial⟩
  have hstart : StartsRight (runTable beforeCalibration []) 1 onLine :=
    Or.inr ⟨.zero ⟨1, 0⟩, _, rfl, ⟨_, rfl, rfl⟩, rfl, rfl⟩
  refine ⟨_, hlast.2, rfl, runTable_ratiosRight hstart ?_ hlast.2⟩
  intro past call rest heq
  rcases past with _ | ⟨a, _ | ⟨b, _ | ⟨c, _ | ⟨d, past⟩⟩⟩⟩
  · simp only [onLine, twoLoads, List.cons_append, List.nil_append, List.cons.injEq] at heq
    obtain ⟨rfl, -⟩ := heq
    trivial
  · simp only [onLine, twoLoads, List.cons_append, List.nil_append, List.cons.injEq] at heq
    obtain ⟨rfl, rfl, -⟩ := heq
    intro _ ch hserved
    rw [← Option.some.inj (hzero.1.symm.trans hserved.channel)]
    exact .cons_cons ⟨by decide, by decide⟩ (.singleton _)
  · simp only [onLine, twoLoads, List.cons_append, List.nil_append, List.cons.injEq] at heq
    obtain ⟨rfl, rfl, rfl, -⟩ := heq
    intro _ ch hserved
    rw [← Option.some.inj (hzero.2.symm.trans hserved.channel)]
    exact .cons_cons ⟨by decide, by decide⟩ (.cons_cons ⟨by decide, by decide⟩ (.singleton _))
  · simp only [onLine, twoLoads, List.cons_append, List.nil_append, List.cons.injEq] at heq
    obtain ⟨rfl, rfl, rfl, rfl, -⟩ := heq
    intro _ _ ch hch _
    rw [← Option.some.inj (hlast.1.symm.trans hch)]
    exact hchord
  · simp [onLine, twoLoads] at heq

/-- The second load bends the line: once it is erased, the last ratio is the slope of a
section that is no more. -/
theorem runTable_ratios_lost :
    ¬ ∀ (conf : SystemConfiguration) (calls : List TableCall) (channel : Int) (ch : Channel),
      StartsRight conf channel calls →
      channelOf (runTable conf calls) channel = some ch →
      ch.rawData →
      RatiosRight ch.linearSections := by
  intro hwanted
  have hlast : channelOf (runTable beforeCalibration (twoLoads 2000 ++ [.maximum ⟨1, 200⟩])) 1 =
      some ⟨1, flChannelRawData, 200, 0, 0, ⟨0, 0, 0, 0⟩,
        [⟨0, 0, 10⟩, ⟨100, 1000, 5⟩]⟩ := by decide +kernel
  have hright := hwanted _ _ 1 _
    (Or.inr ⟨.zero ⟨1, 0⟩, _, rfl, ⟨_, rfl, rfl⟩, rfl, rfl⟩) hlast (by decide)
  have hstored := hright (by simp) (.cons_cons (by decide) (.singleton _))
  exact absurd (hstored.2.1 rfl) (by decide +kernel)

end ExactArithmetic

end Metrology
end MatrixBin
