import MatrixBin.Library.TransitionRuns
import MatrixBin.Metrology.RatioDivision

/-!
# The point of weight 0

The zero of a raw-data channel is stored twice: as `zero_calibration_value` and as the point of
weight 0.  `setCalibrateZero` and `setCalibrateZeroCorrection` set both.  `setCalibrateGane`
with the weight 0 replaces the raw value of the point only, and `setMaximumChannel` compares
the maximum weight with raw values and can erase the point.

A zero of -1 means that the channel is not calibrated yet, also when it was set by a
correction: `corrections_compose_iff`.
-/

namespace MatrixBin
namespace Metrology

open Library

/-- The raw values of the points of weight 0. -/
def zeroRaws (sections : List LinearSection) : List Int32 :=
  (sections.filter fun s => s.weightValue = 0).map LinearSection.rawValue

/-- Exactly one point of weight 0, at the zero of the channel. -/
def ZeroPoint (ch : Channel) : Prop := zeroRaws ch.linearSections = [ch.zeroCalibrationValue]

/-- The channel is there, with its zero point. -/
def HasZeroPoint (id : Int) (conf : SystemConfiguration) : Prop :=
  ∃ ch, channelOf conf id = some ch ∧ ZeroPoint ch

/-- What the call does to the channel leaves its zero point: a gane calibration of the weight 0
repeats the zero, and a maximum is not below it. -/
def TableCall.KeepsZeroPoint (ch : Channel) : TableCall → Prop
  | .calibration (.gane p) =>
      ch.zeroCalibrationValue ≠ -1 → p.weightValue ≤ ch.maxWeightValue → p.weightValue = 0 →
        p.rawValue = ch.zeroCalibrationValue
  | .calibration _ => True
  | .maximum p => ch.zeroCalibrationValue.toInt ≤ p.maxWeightValue

/-- A call that the handler serves for this channel keeps its zero point. -/
def TableCall.KeepsZero (id : Int) (conf : SystemConfiguration) (call : TableCall) : Prop :=
  call.admitted conf → call.channel = id → ∀ ch, channelOf conf id = some ch →
    call.KeepsZeroPoint ch

/-- One call of a run. -/
def tableStep (conf : SystemConfiguration) (call : TableCall) : Option SystemConfiguration :=
  some (call.handle conf).1

section Points

variable {sections : List LinearSection} {rawValue : Int32} {weightValue : Int} {ch : Channel}

theorem zeroRaws_congr
    {sections' : List LinearSection}
    (hpairs : sections.map LinearSection.pair = sections'.map LinearSection.pair) :
    zeroRaws sections = zeroRaws sections' := by
  have hmap (l : List LinearSection) :
      zeroRaws l = ((l.map LinearSection.pair).filter fun q => q.2 = 0).map Prod.fst := by
    rw [List.filter_map, List.map_map]
    rfl
  rw [hmap, hmap, hpairs]

/-- A new point of another weight does not matter. -/
theorem zeroRaws_putSection_of_ne
    (hne : weightValue ≠ 0)
    (sections : List LinearSection) :
    zeroRaws (putSection rawValue weightValue sections) = zeroRaws sections := by
  induction sections with
  | nil => simp [putSection, zeroRaws, hne]
  | cons s rest ih =>
      rw [putSection]
      split
      · by_cases hzero : s.weightValue = 0
        · simpa [zeroRaws, hzero] using ih
        · simpa [zeroRaws, hzero] using ih
      · split
        next heq => simp [zeroRaws, heq, hne]
        next => simp [zeroRaws, hne]

/-- A new point of weight 0 is the only one. -/
theorem zeroRaws_putSection_zero
    (h : StrictWeight sections)
    (rawValue : Int32) :
    zeroRaws (putSection rawValue 0 sections) = [rawValue] := by
  induction sections with
  | nil => rfl
  | cons s rest ih =>
      obtain ⟨hfirst, hrest⟩ := List.pairwise_cons.mp h
      have hbehind (hs : 0 ≤ s.weightValue) :
          rest.filter (fun t => decide (t.weightValue = 0)) = [] := by
        rw [List.filter_eq_nil_iff]
        intro t ht
        have hlt := hfirst t ht
        simp only [decide_eq_true_eq]
        omega
      rw [putSection]
      split
      next hlt =>
        have hne : s.weightValue ≠ 0 := by omega
        simpa [zeroRaws, hne] using ih hrest
      next hge =>
        split
        next heq => simp [zeroRaws, heq, hbehind (le_of_eq heq.symm)]
        next hne => simp [zeroRaws, hne, hbehind (by omega)]

theorem zeroRaws_filter
    (maxWeightValue : Int)
    (sections : List LinearSection) :
    zeroRaws (sections.filter fun s => decide (s.rawValue.toInt ≤ maxWeightValue)) =
      (zeroRaws sections).filter fun raw => decide (raw.toInt ≤ maxWeightValue) := by
  rw [zeroRaws, zeroRaws, List.filter_map, List.filter_filter, List.filter_filter]
  simp only [Function.comp_def, Bool.and_comm]

theorem zeroRaws_shiftRaw
    (diff : Int32)
    (sections : List LinearSection) :
    zeroRaws (sections.map (LinearSection.shiftRaw diff)) =
      (zeroRaws sections).map fun raw => raw - diff := by
  rw [zeroRaws, zeroRaws, List.filter_map, List.map_map, List.map_map]
  rfl

/-- The exact effect of one call on the zero point. -/
theorem act_zeroPoint_iff
    (call : TableCall)
    (hraw : ch.rawData)
    (hsorted : StrictWeight ch.linearSections)
    (h : ZeroPoint ch) :
    ZeroPoint (call.act ch) ↔ call.KeepsZeroPoint ch := by
  cases call with
  | maximum p =>
      have hzero : (maximumChannel p ch).zeroCalibrationValue = ch.zeroCalibrationValue := by
        unfold maximumChannel
        simp only
        split <;> rfl
      rw [TableCall.act, ZeroPoint, hzero, maximumChannel_linearSections, if_pos hraw,
        zeroRaws_filter, h]
      simp [TableCall.KeepsZeroPoint]
  | calibration call =>
      cases call with
      | zero p =>
          simp only [TableCall.act, CalibrationCall.act, calibrateZero, if_pos hraw]
          exact iff_of_true rfl trivial
      | gane p =>
          simp only [TableCall.act, CalibrationCall.act, calibrateGane, if_pos hraw,
            TableCall.KeepsZeroPoint]
          split_ifs with hzero hweight
          · exact iff_of_true h fun hne => absurd hzero hne
          · exact iff_of_true h fun _ hle => absurd hle (Int.not_le.mpr hweight)
          · have hraws : zeroRaws
                (setCalibrationGaneChannel ch p.rawValue p.weightValue).1.linearSections =
                zeroRaws (putSection p.rawValue p.weightValue ch.linearSections) :=
              zeroRaws_congr (calcRatios_pairs none _)
            rw [ZeroPoint, hraws]
            by_cases hw : p.weightValue = 0
            · have hreplaced : [p.rawValue] = [ch.zeroCalibrationValue] ↔
                  p.rawValue = ch.zeroCalibrationValue := by simp
              rw [hw, zeroRaws_putSection_zero hsorted]
              refine hreplaced.trans ⟨fun heq _ _ _ => heq, fun hkeeps => ?_⟩
              exact hkeeps hzero (by omega) rfl
            · rw [zeroRaws_putSection_of_ne hw]
              exact iff_of_true h fun _ _ heq => absurd heq hw
      | zeroCorrection p =>
          simp only [TableCall.act, CalibrationCall.act, calibrateZeroCorrection, if_pos hraw]
          split
          next => exact iff_of_true h trivial
          next =>
            refine iff_of_true ?_ trivial
            have hshift : ch.zeroCalibrationValue -
                (ch.zeroCalibrationValue - p.zeroCorrectionValue) = p.zeroCorrectionValue := by grind
            rw [ZeroPoint, correctionZeroLinearSections, zeroRaws_shiftRaw, h]
            simp only [List.map_cons, List.map_nil, hshift]

end Points

/-! ### Runs -/

section Runs

variable {id : Int} {conf : SystemConfiguration}

/-- The channel in raw-data mode with a sorted table and its zero point. -/
structure ZeroedChannel (id : Int) (conf : SystemConfiguration) (ch : Channel) : Prop where
  channel : channelOf conf id = some ch
  rawData : ch.rawData
  sorted : StrictWeight ch.linearSections
  zero : ZeroPoint ch

theorem act_rawData
    (call : TableCall)
    (ch : Channel) :
    (call.act ch).rawData = ch.rawData := by
  have hflags : (call.act ch).flagChannel = ch.flagChannel := by
    cases call with
    | maximum p =>
        simp only [TableCall.act, maximumChannel]
        split <;> rfl
    | calibration call =>
        cases call with
        | zero p =>
            simp only [TableCall.act, CalibrationCall.act, calibrateZero]
            split <;> rfl
        | gane p =>
            simp only [TableCall.act, CalibrationCall.act, calibrateGane]
            split_ifs <;> rfl
        | zeroCorrection p =>
            simp only [TableCall.act, CalibrationCall.act, calibrateZeroCorrection]
            split_ifs <;> rfl
  rw [Channel.rawData, hflags, ← Channel.rawData]

/-- The exact effect of a call on the configuration. -/
theorem handle_zeroPoint_iff
    {ch : Channel}
    (h : ZeroedChannel id conf ch)
    (call : TableCall) :
    (HasZeroPoint id (call.handle conf).1 ↔ call.KeepsZero id conf) ∧
      (call.KeepsZero id conf → ∃ ch', ZeroedChannel id (call.handle conf).1 ch') := by
  have hafter := channelOf_handle call conf id
  rw [h.channel, Option.map_some] at hafter
  by_cases hserved : call.admitted conf ∧ id = call.channel
  · rw [if_pos hserved] at hafter
    have hexact := act_zeroPoint_iff call h.rawData h.sorted h.zero
    have hcondition : call.KeepsZero id conf ↔ call.KeepsZeroPoint ch := by
      constructor
      · intro hkeeps
        exact hkeeps hserved.1 hserved.2.symm ch h.channel
      · intro hkeeps _ _ other hother
        rwa [← Option.some.inj (h.channel.symm.trans hother)]
    rw [hcondition, ← hexact]
    refine ⟨⟨?_, fun hzero => ⟨_, hafter, hzero⟩⟩, fun hzero => ⟨_, hafter, ?_, ?_, hzero⟩⟩
    · rintro ⟨ch', hch', hzero⟩
      rwa [← Option.some.inj (hafter.symm.trans hch')] at hzero
    · rw [act_rawData]
      exact h.rawData
    · exact act_strictWeight call h.sorted
  · rw [if_neg hserved] at hafter
    have hcondition : call.KeepsZero id conf :=
      fun hadmitted hid => absurd ⟨hadmitted, hid.symm⟩ hserved
    exact ⟨iff_of_true ⟨ch, hafter, h.zero⟩ hcondition,
      fun _ => ⟨ch, hafter, h.rawData, h.sorted, h.zero⟩⟩

/-- A served `setCalibrateZero` gives the channel its zero point. -/
theorem zeroedChannel_of_setCalibrateZero
    {ch : Channel}
    (hready : conf.ready)
    (hservice : conf.serviceMode)
    (hch : channelOf conf id = some ch)
    (hraw : ch.rawData)
    (zero : Int32) :
    ∃ ch', ZeroedChannel id (setCalibrateZero ⟨⟨id, zero⟩, none⟩ conf).1 ch' := by
  have hafter := channelOf_handle (.calibration (.zero ⟨id, zero⟩)) conf id
  rw [if_pos ⟨by simp [TableCall.admitted, hready, hservice], rfl⟩, hch, Option.map_some] at hafter
  refine ⟨_, hafter, ?_, ?_, ?_⟩
  · rw [act_rawData]
    exact hraw
  · simp only [TableCall.act, CalibrationCall.act, calibrateZero, if_pos hraw]
    exact List.pairwise_singleton _ _
  · simp only [TableCall.act, CalibrationCall.act, calibrateZero, if_pos hraw]
    rfl

/-- **The zero point.**  In a run that begins with the zero of a raw-data channel the point of
weight 0 stands at the zero in every state exactly if every served call keeps it. -/
theorem zero_point_kept_iff
    {ch : Channel}
    (hready : conf.ready)
    (hservice : conf.serviceMode)
    (hch : channelOf conf id = some ch)
    (hraw : ch.rawData)
    (zero : Int32)
    (calls : List TableCall) :
    HoldsAlong tableStep (HasZeroPoint id) (setCalibrateZero ⟨⟨id, zero⟩, none⟩ conf).1 calls ↔
      MeetsAlong tableStep (fun conf call => call.KeepsZero id conf)
        (setCalibrateZero ⟨⟨id, zero⟩, none⟩ conf).1 calls := by
  let Inv (conf : SystemConfiguration) : Prop := ∃ ch, ZeroedChannel id conf ch
  have hstart : Inv (setCalibrateZero ⟨⟨id, zero⟩, none⟩ conf).1 :=
    zeroedChannel_of_setCalibrateZero hready hservice hch hraw zero
  have hholds : ∀ conf, Inv conf → HasZeroPoint id conf := fun conf ⟨ch, h⟩ =>
    ⟨ch, h.channel, h.zero⟩
  refine holdsAlong_iff_meetsAlong hholds ?_ ?_ hstart calls
  · rintro conf call conf' ⟨ch, h⟩ hstep
    rw [← Option.some.inj hstep]
    exact (handle_zeroPoint_iff h call).1
  · rintro conf call conf' ⟨ch, h⟩ hkeeps hstep
    rw [← Option.some.inj hstep]
    exact (handle_zeroPoint_iff h call).2 hkeeps

/-- A load, and a correction of the zero. -/
theorem zero_point_kept_load :
    HoldsAlong tableStep (HasZeroPoint 1) (setCalibrateZero ⟨⟨1, 0⟩, none⟩ beforeCalibration).1
      [.calibration (.gane ⟨1, 100, 1000⟩), .calibration (.zeroCorrection ⟨1, 20⟩)] := by
  have hch : channelOf beforeCalibration 1 =
      some ⟨1, flChannelRawData, 5000, -1, 0, ⟨0, 0, 0, 0⟩, []⟩ := by decide
  refine (zero_point_kept_iff (by decide) (by decide) hch (by decide) 0 _).mpr ?_
  rintro s' hs'
  refine ⟨fun _ _ ch _ _ _ hzero => absurd hzero (by decide), ?_⟩
  rintro s'' hs''
  exact ⟨fun _ _ _ _ => trivial, trivial⟩

/-- The zero points of the channel 1 and its stored zero. -/
def zeroView (conf : SystemConfiguration) : Option (List Int32 × Int32) :=
  (channelOf conf 1).map fun ch => (zeroRaws ch.linearSections, ch.zeroCalibrationValue)

/-- A load of weight 0 moves the point away from the stored zero, and a maximum below the zero
erases it. -/
theorem zero_point_lost :
    (¬ HoldsAlong tableStep (HasZeroPoint 1)
        (setCalibrateZero ⟨⟨1, 0⟩, none⟩ beforeCalibration).1
        [.calibration (.gane ⟨1, 50, 0⟩)]) ∧
      ¬ HoldsAlong tableStep (HasZeroPoint 1)
        (setCalibrateZero ⟨⟨1, 9000⟩, none⟩ beforeCalibration).1
        [.maximum ⟨1, 5000⟩] := by
  have hview : ∀ conf, HasZeroPoint 1 conf → ∃ z, zeroView conf = some ([z], z) := by
    rintro conf ⟨ch, hch, hzero⟩
    exact ⟨ch.zeroCalibrationValue, by rw [zeroView, hch, Option.map_some, hzero]⟩
  have hload : (runSteps tableStep (setCalibrateZero ⟨⟨1, 0⟩, none⟩ beforeCalibration).1
      [.calibration (.gane ⟨1, 50, 0⟩)]).map zeroView = some (some ([50], 0)) := by decide +kernel
  have hmax : (runSteps tableStep (setCalibrateZero ⟨⟨1, 9000⟩, none⟩ beforeCalibration).1
      [.maximum ⟨1, 5000⟩]).map zeroView = some (some ([], 9000)) := by decide +kernel
  obtain ⟨s, hs, hs'⟩ := Option.map_eq_some_iff.mp hload
  obtain ⟨t, ht, ht'⟩ := Option.map_eq_some_iff.mp hmax
  refine ⟨fun h => ?_, fun h => ?_⟩
  · obtain ⟨z, hz⟩ := hview s (h.last hs)
    rw [hs'] at hz
    obtain ⟨hraws, hzero⟩ := Prod.mk.inj (Option.some.inj hz)
    rw [← hzero] at hraws
    exact absurd hraws (by decide)
  · obtain ⟨z, hz⟩ := hview t (h.last ht)
    rw [ht'] at hz
    simp at hz

end Runs

/-! ### Corrections of the zero -/

section Corrections

variable {conf : SystemConfiguration} {id : Int}

/-- The stored table and zero of a channel. -/
def tableAndZero (conf : SystemConfiguration) (id : Int) : Option (List LinearSection × Int32) :=
  (channelOf conf id).map fun ch => (ch.linearSections, ch.zeroCalibrationValue)

/-- `setCalibrateZeroCorrection` for a channel. -/
def correctZero (id : Int) (z : Int32) (conf : SystemConfiguration) : SystemConfiguration × Int :=
  setCalibrateZeroCorrection ⟨⟨id, z⟩, none⟩ conf

/-- Two corrections succeed and do what the second one alone does, and a correction back to
the zero of the channel restores its table. -/
structure CorrectionsCompose
    (conf : SystemConfiguration) (ch : Channel) (id : Int) (z₁ z₂ : Int32) : Prop where
  first : (correctZero id z₁ conf).2 = matrixlibOk
  second : (correctZero id z₂ (correctZero id z₁ conf).1).2 = matrixlibOk
  same : tableAndZero (correctZero id z₂ (correctZero id z₁ conf).1).1 id =
    tableAndZero (correctZero id z₂ conf).1 id
  back : (correctZero id ch.zeroCalibrationValue (correctZero id z₁ conf).1).2 = matrixlibOk
  restored : tableAndZero (correctZero id ch.zeroCalibrationValue (correctZero id z₁ conf).1).1 id =
    some (ch.linearSections, ch.zeroCalibrationValue)

/-- A raw-data channel that can be corrected: it has a zero. -/
structure Calibrated (conf : SystemConfiguration) (ch : Channel) (id : Int) : Prop where
  ready : conf.ready
  serviceMode : conf.serviceMode
  channel : channelOf conf id = some ch
  rawData : ch.rawData
  zero : ch.zeroCalibrationValue ≠ -1

/-- The channel with another zero. -/
def Channel.corrected (ch : Channel) (z : Int32) : Channel :=
  { ch with
    diffZeroValue := ch.zeroCalibrationValue - z
    zeroCalibrationValue := z
    linearSections :=
      ch.linearSections.map (LinearSection.shiftRaw (ch.zeroCalibrationValue - z)) }

theorem shiftRaw_shiftRaw
    (sections : List LinearSection)
    (d e : Int32) :
    (sections.map (LinearSection.shiftRaw d)).map (LinearSection.shiftRaw e) =
      sections.map (LinearSection.shiftRaw (d + e)) := by
  rw [List.map_map]
  refine List.map_congr_left fun s _ => ?_
  simp only [Function.comp_apply, LinearSection.shiftRaw, Int32.sub_sub]

theorem shiftRaw_zero
    (sections : List LinearSection) :
    sections.map (LinearSection.shiftRaw 0) = sections := by
  refine List.map_id'' (fun s => ?_) sections
  simp [LinearSection.shiftRaw]

/-- What a correction of a calibrated channel does. -/
theorem Calibrated.correctZero_eq
    {ch : Channel}
    (h : Calibrated conf ch id)
    (z : Int32) :
    (correctZero id z conf).2 = matrixlibOk ∧
      channelOf (correctZero id z conf).1 id = some (ch.corrected z) := by
  have hact : calibrateZeroCorrection ⟨id, z⟩ ch = (ch.corrected z, matrixlibOk) := by
    rw [calibrateZeroCorrection, if_pos h.rawData, if_neg h.zero]
    rfl
  have hcode : (correctZero id z conf).2 = (calibrateZeroCorrection ⟨id, z⟩ ch).2 := by
    have hch : channelOf conf (ZeroCorrection.channel ⟨id, z⟩) = some ch := h.channel
    obtain ⟨idx, -, heq⟩ := calibrationHandler_accepted matrixlibParamError
      calibrateZeroCorrection h.ready h.serviceMode hch
    rw [correctZero, setCalibrateZeroCorrection, heq]
  refine ⟨by rw [hcode, hact], ?_⟩
  rw [correctZero, setCalibrateZeroCorrection,
    channelOf_calibrationHandler calibrateZeroCorrection_channel,
    if_pos ⟨h.ready, h.serviceMode, rfl⟩, h.channel, Option.map_some, hact]

/-- It stays calibrated unless the new zero is -1. -/
theorem Calibrated.corrected
    {ch : Channel}
    (h : Calibrated conf ch id)
    {z : Int32}
    (hz : z ≠ -1) :
    Calibrated (correctZero id z conf).1 (ch.corrected z) id := by
  have hflags : (correctZero id z conf).1.flagSystem = conf.flagSystem :=
    calibrationHandler_flagSystem _ conf
  refine ⟨?_, ?_, (h.correctZero_eq z).2, h.rawData, hz⟩
  · rw [SystemConfiguration.ready, hflags]
    exact h.ready
  · rw [SystemConfiguration.serviceMode, hflags]
    exact h.serviceMode

theorem Calibrated.tableAndZero_eq
    {ch : Channel}
    (h : Calibrated conf ch id)
    (z : Int32) :
    tableAndZero (correctZero id z conf).1 id =
      some (ch.linearSections.map (LinearSection.shiftRaw (ch.zeroCalibrationValue - z)), z) := by
  rw [tableAndZero, (h.correctZero_eq z).2]
  rfl

/-- With a zero of -1 a correction is refused. -/
theorem correctZero_refused
    {ch : Channel}
    (h : Calibrated conf ch id)
    (z : Int32) :
    (correctZero id z (correctZero id (-1) conf).1).2 = matrixlibExecutionSequenceError := by
  have hflags : (correctZero id (-1) conf).1.flagSystem = conf.flagSystem :=
    calibrationHandler_flagSystem _ conf
  have hready : (correctZero id (-1) conf).1.ready := by
    rw [SystemConfiguration.ready, hflags]
    exact h.ready
  have hservice : (correctZero id (-1) conf).1.serviceMode := by
    rw [SystemConfiguration.serviceMode, hflags]
    exact h.serviceMode
  have hact : (calibrateZeroCorrection ⟨id, z⟩ (ch.corrected (-1))).2 =
      matrixlibExecutionSequenceError := by
    have hraw : (ch.corrected (-1)).rawData = true := h.rawData
    have hzero : (ch.corrected (-1)).zeroCalibrationValue = -1 := rfl
    rw [calibrateZeroCorrection, if_pos hraw, if_pos hzero]
  have hch : channelOf (correctZero id (-1) conf).1 (ZeroCorrection.channel ⟨id, z⟩) =
      some (ch.corrected (-1)) := (h.correctZero_eq (-1)).2
  obtain ⟨idx, -, heq⟩ := calibrationHandler_accepted matrixlibParamError
    calibrateZeroCorrection hready hservice hch
  rw [correctZero, setCalibrateZeroCorrection, heq, hact]

/-- **Two corrections.**  They do what the second one alone does exactly if the first one does
not store the -1 of a channel that is not calibrated. -/
theorem corrections_compose_iff
    {ch : Channel}
    (h : Calibrated conf ch id)
    (z₁ z₂ : Int32) :
    CorrectionsCompose conf ch id z₁ z₂ ↔ z₁ ≠ -1 := by
  constructor
  · rintro hcompose rfl
    have hrefused := correctZero_refused h z₂
    rw [hcompose.second] at hrefused
    exact absurd hrefused (by decide)
  · intro hz
    have hnext := h.corrected hz
    refine ⟨(h.correctZero_eq z₁).1, (hnext.correctZero_eq z₂).1, ?_,
      (hnext.correctZero_eq _).1, ?_⟩
    · have hdiff : ch.zeroCalibrationValue - z₁ + (z₁ - z₂) = ch.zeroCalibrationValue - z₂ := by
        grind
      rw [hnext.tableAndZero_eq, h.tableAndZero_eq, Channel.corrected, shiftRaw_shiftRaw, hdiff]
    · have hdiff : ch.zeroCalibrationValue - z₁ + (z₁ - ch.zeroCalibrationValue) = 0 := by grind
      rw [hnext.tableAndZero_eq, Channel.corrected, shiftRaw_shiftRaw, hdiff, shiftRaw_zero]

/-- A zero and one load. -/
def oneLoadCalls : List TableCall :=
  [.calibration (.zero ⟨1, 0⟩), .calibration (.gane ⟨1, 100, 1000⟩)]

/-- The channel behind them. -/
def oneLoadChannel : Channel :=
  ⟨1, flChannelRawData, 5000, 0, 0, ⟨0, 0, 0, 0⟩, [⟨0, 0, 10⟩, ⟨100, 1000, 10⟩]⟩

theorem oneLoadCalls_calibrated :
    Calibrated (runTable beforeCalibration oneLoadCalls) oneLoadChannel 1 :=
  ⟨by decide +kernel, by decide +kernel, by decide +kernel, by decide, by decide⟩

/-- Corrections to 20 and to 30. -/
theorem corrections_compose_twenty :
    CorrectionsCompose (runTable beforeCalibration oneLoadCalls) oneLoadChannel 1 20 30 :=
  (corrections_compose_iff oneLoadCalls_calibrated 20 30).mpr (by decide)

/-- A correction to -1 succeeds, and the next one is refused. -/
theorem correction_to_minus_one :
    (correctZero 1 (-1) (runTable beforeCalibration oneLoadCalls)).2 = matrixlibOk ∧
      (correctZero 1 30 (correctZero 1 (-1) (runTable beforeCalibration oneLoadCalls)).1).2 =
        matrixlibExecutionSequenceError ∧
      ¬ CorrectionsCompose (runTable beforeCalibration oneLoadCalls) oneLoadChannel 1 (-1) 30 := by
  have hrefused := correctZero_refused oneLoadCalls_calibrated 30
  refine ⟨(oneLoadCalls_calibrated.correctZero_eq (-1)).1, hrefused, fun h => ?_⟩
  rw [h.second] at hrefused
  exact absurd hrefused (by decide)

end Corrections

end Metrology
end MatrixBin
