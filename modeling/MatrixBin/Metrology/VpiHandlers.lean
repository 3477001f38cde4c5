import MatrixBin.Metrology.CurMeasurement
import MatrixBin.Metrology.LoadConfiguration

/-!
# The VPI handlers of the metrology library (`matrixlib_cc`)

Every handler that reads or writes `Configuration`, over the whole configuration and for
call blocks with `fun == NULL`.  The handlers of channels see the configuration through
`MatrixConfiguration.system`; `onSystem` writes what they change back.

`setMaximum`, `setMinimum` and `addScale` cast the call block itself to their parameter
structure, so their parameters are the eight bytes of `pInstanceData`, the first field of
the block.  `setMaximumChannel` has a body of its own: it repeats the frame of the other
channel handlers without the test of the service mode.
-/

namespace MatrixBin
namespace Metrology

open Library

/-! ### Channel handlers on the whole configuration -/

theorem zipWith_map_toChannel
    (table : List ChannelConfiguration) :
    List.zipWith (fun (c : ChannelConfiguration) ch => { c with toChannel := ch })
        table (table.map ChannelConfiguration.toChannel) =
      table := by
  induction table with
  | nil => rfl
  | cons c rest ih => rw [List.map_cons, List.zipWith_cons_cons, ih]

theorem zipWith_set_toChannel
    (table : List ChannelConfiguration)
    (idx : Nat)
    (ch : Channel) :
    List.zipWith (fun (c : ChannelConfiguration) ch => { c with toChannel := ch })
        table ((table.map ChannelConfiguration.toChannel).set idx ch) =
      table.modify idx fun c => { c with toChannel := ch } := by
  induction table generalizing idx with
  | nil => simp
  | cons c rest ih =>
      cases idx with
      | zero =>
          rw [List.map_cons, List.set_cons_zero, List.zipWith_cons_cons,
            zipWith_map_toChannel, List.modify_zero_cons]
      | succ idx =>
          rw [List.map_cons, List.set_cons_succ, List.zipWith_cons_cons, ih idx,
            List.modify_succ_cons]

namespace MatrixConfiguration

variable (conf : MatrixConfiguration)

/-- Replace what the channel handlers see. -/
def withSystem (sys : SystemConfiguration) : MatrixConfiguration :=
  { conf with
    flagSystem := sys.flagSystem
    channelConfiguration :=
      List.zipWith (fun (c : ChannelConfiguration) ch => { c with toChannel := ch })
        conf.channelConfiguration sys.channelConfiguration }

/-- Run a handler of channels. -/
def onSystem (handler : SystemConfiguration → SystemConfiguration × Int) :
    MatrixConfiguration × Int :=
  (conf.withSystem (handler conf.system).1, (handler conf.system).2)

theorem withSystem_system :
    conf.withSystem conf.system = conf := by
  simp [withSystem, system, zipWith_map_toChannel]

theorem withSystem_setChannel
    (idx : Nat)
    (ch : Channel) :
    conf.withSystem (conf.system.setChannel idx ch) = conf.setChannel idx ch := by
  simp [withSystem, system, SystemConfiguration.setChannel, setChannel, zipWith_set_toChannel]

end MatrixConfiguration

/-! ### Handlers of one channel -/

/-- `SetMaximumChannel_t` -/
structure SetMaximumChannel where
  channel : Int
  maxWeightValue : Int
deriving DecidableEq, Repr

/-- `AveragTime_t` -/
structure AveragTime where
  channel : Int
  averagTime : Int
deriving DecidableEq, Repr

/-- The loop of `setMaximumChannel` from index `i - 1` down: erase the sections above the
maximum. -/
def eraseAbove (maxWeightValue : Int) : Nat → List LinearSection → List LinearSection
  | 0, sections => sections
  | i + 1, sections =>
      match sections[i]? with
      | some s =>
          eraseAbove maxWeightValue i
            (if maxWeightValue < s.rawValue.toInt then sections.eraseIdx i else sections)
      | none => eraseAbove maxWeightValue i sections

/-- The loop erases backwards, so every index it still has to visit is where it was. -/
theorem eraseAbove_append
    (maxWeightValue : Int)
    (front back : List LinearSection) :
    eraseAbove maxWeightValue front.length (front ++ back) =
      front.filter (fun s => decide (s.rawValue.toInt ≤ maxWeightValue)) ++ back := by
  induction front using List.reverseRecOn generalizing back with
  | nil => rfl
  | append_singleton front s ih =>
      have hlast : (front ++ [s] ++ back)[front.length]? = some s := by simp
      rw [List.length_append, List.length_singleton, eraseAbove, hlast]
      by_cases hs : maxWeightValue < s.rawValue.toInt
      · have herase : (front ++ [s] ++ back).eraseIdx front.length = front ++ back := by
          simp [List.eraseIdx_append_of_length_le]
        simp only [if_pos hs, herase, ih, List.filter_append]
        simp [hs]
      · simp only [if_neg hs, List.append_assoc, ih, List.filter_append]
        simp [Int.not_lt.mp hs]

theorem eraseAbove_eq_filter
    (maxWeightValue : Int)
    (sections : List LinearSection) :
    eraseAbove maxWeightValue sections.length sections =
      sections.filter fun s => decide (s.rawValue.toInt ≤ maxWeightValue) := by
  simpa using eraseAbove_append maxWeightValue sections []

/-- What `setMaximumChannel` does with the channel. -/
def maximumChannel (p : SetMaximumChannel) (ch : Channel) : Channel :=
  let ch := { ch with maxWeightValue := p.maxWeightValue }
  if ch.rawData then
    { ch with
      linearSections :=
        eraseAbove ch.maxWeightValue ch.linearSections.length ch.linearSections }
  else ch

/-- `setMaximumChannel` -/
def setMaximumChannel (vdb : Vdb SetMaximumChannel) (conf : SystemConfiguration) :
    SystemConfiguration × Int :=
  match vdb.funAdd with
  | some f => (f vdb.pParam conf).2
  | none =>
      if !conf.ready then (conf, matrixlibSystemNotConfiguration)
      else
        match getIdxChannel conf vdb.pParam.channel with
        | none => (conf, matrixlibChannelError)
        | some idx =>
            match conf.channelConfiguration[idx]? with
            | none => (conf, matrixlibChannelError)
            | some ch => (conf.setChannel idx (maximumChannel vdb.pParam ch), matrixlibOk)

/-- What `setAveragTime` does with the channel, at the clock reading `now`. -/
def averagTimeChannel (now : Int) (p : AveragTime) (ch : Channel) : Channel × Int :=
  ({ ch with
      flagChannel := ch.flagChannel &&& ~~~flChannelAveragValue
      averagValue := ⟨p.averagTime, 0, 0, now⟩ },
    matrixlibOk)

/-- `setAveragTime` -/
def setAveragTime (now : Int) (vdb : Vdb AveragTime) :
    SystemConfiguration → SystemConfiguration × Int :=
  calibrationHandler matrixlibChannelError AveragTime.channel (averagTimeChannel now) vdb

/-! ### Handlers of one scale -/

/-- `Discret_t` -/
structure Discret where
  idScale : Int
  value : Int
  multiplier : FloatValue
deriving DecidableEq

/-- `ZeroTracking_t` -/
structure ZeroTracking where
  idScale : Int
  autoTrackingD : Int
  autoTrackingTimeout : Int
deriving DecidableEq

/-- `ZeroSet_t` -/
structure ZeroSet where
  idScale : Int
  typeZero : Int
  percentMax : Int
  addCoef : Int
deriving DecidableEq

/-- `ZeroButtonSet_t` -/
structure ZeroButtonSet where
  idScale : Int
  active : Int
  percentMax : Int
  addCoef : Int
deriving DecidableEq

/-- `ZeroIndicationSet_t` -/
structure ZeroIndicationSet where
  idScale : Int
  diffCenterD : ℚ
  underloadD : Int
deriving DecidableEq

/-- `SwitchUnit_t` -/
structure SwitchUnit where
  idScale : Int
  idxUnit : Int
deriving DecidableEq

/-- The frame that the handlers of scales repeat: the two system flags and the search for
the scale. -/
def scaleHandler
    (idScale : Int) (update : ScaleConfiguration → ScaleConfiguration)
    (conf : MatrixConfiguration) : MatrixConfiguration × Int :=
  if !conf.ready then (conf, matrixlibSystemNotConfiguration)
  else if !conf.serviceMode then (conf, matrixlibSystemNoInServiceMode)
  else
    match conf.getIdxScale idScale with
    | none => (conf, matrixlibScaleError)
    | some idx =>
        match conf.scaleConfiguration[idx]? with
        | none => (conf, matrixlibScaleError)
        | some scale => (conf.setScale idx (update scale), matrixlibOk)

/-- The first `int` of the call block: the low half of `pInstanceData`. -/
def vdbIdScale (pInstanceData : BitVec 64) : Int :=
  (pInstanceData.setWidth 32).toInt

/-- The second `int` of the call block: the high half of `pInstanceData`. -/
def vdbWeight (pInstanceData : BitVec 64) : Int :=
  (pInstanceData.extractLsb' 32 32).toInt

/-- `setMaximum` -/
def setMaximum (pInstanceData : BitVec 64) : MatrixConfiguration → MatrixConfiguration × Int :=
  scaleHandler (vdbIdScale pInstanceData) fun scale =>
    { scale with maximumWeight := vdbWeight pInstanceData }

/-- `setMinimum` -/
def setMinimum (pInstanceData : BitVec 64) : MatrixConfiguration → MatrixConfiguration × Int :=
  scaleHandler (vdbIdScale pInstanceData) fun scale =>
    { scale with minimumWeight := vdbWeight pInstanceData }

/-- `setDiscret` -/
def setDiscret (p : Discret) : MatrixConfiguration → MatrixConfiguration × Int :=
  scaleHandler p.idScale fun scale =>
    { scale with discretChannel := ⟨p.value, p.multiplier⟩ }

/-- `zeroTracking` -/
def zeroTracking (p : ZeroTracking) : MatrixConfiguration → MatrixConfiguration × Int :=
  scaleHandler p.idScale fun scale =>
    { scale with
      zero :=
        { scale.zero with
          autoTrackingD := p.autoTrackingD
          autoTrackingTimeout := p.autoTrackingTimeout } }

/-- `setZeroInitialRange` -/
def setZeroInitialRange (p : ZeroSet) : MatrixConfiguration → MatrixConfiguration × Int :=
  scaleHandler p.idScale fun scale =>
    { scale with
      zero :=
        { scale.zero with
          typeZero := p.typeZero
          percentMax := p.percentMax
          addCoef := p.addCoef } }

/-- `setZeroManualRange` -/
def setZeroManualRange (p : ZeroButtonSet) : MatrixConfiguration → MatrixConfiguration × Int :=
  scaleHandler p.idScale fun scale =>
    { scale with
      zero := { scale.zero with zeroButton := ⟨p.active, p.percentMax, p.addCoef⟩ } }

/-- `setZeroIndication` -/
def setZeroIndication (p : ZeroIndicationSet) : MatrixConfiguration → MatrixConfiguration × Int :=
  scaleHandler p.idScale fun scale =>
    { scale with
      zero := { scale.zero with zeroIndication := ⟨p.diffCenterD, p.underloadD⟩ } }

/-- `addScale`: the one handler of scales that wants the identifier to be unknown. -/
def addScale (pInstanceData : BitVec 64) (conf : MatrixConfiguration) :
    MatrixConfiguration × Int :=
  if !conf.ready then (conf, matrixlibSystemNotConfiguration)
  else if !conf.serviceMode then (conf, matrixlibSystemNoInServiceMode)
  else
    match conf.getIdxScale (vdbIdScale pInstanceData) with
    | some _ => (conf, matrixlibScaleError)
    | none =>
        ({ conf with
            scaleConfiguration :=
              conf.scaleConfiguration ++
                [{ ScaleConfiguration.zeroed with idScale := vdbIdScale pInstanceData }] },
          matrixlibOk)

/-- `switchUnit`, which does not want the service mode. -/
def switchUnit (p : SwitchUnit) (conf : MatrixConfiguration) : MatrixConfiguration × Int :=
  if !conf.ready then (conf, matrixlibSystemNotConfiguration)
  else
    match conf.getIdxScale p.idScale with
    | none => (conf, matrixlibScaleError)
    | some idx =>
        match conf.scaleConfiguration[idx]? with
        | none => (conf, matrixlibScaleError)
        | some scale =>
            if (conf.units.length : Int) - 1 < p.idxUnit then (conf, matrixlibParamError)
            else (conf.setScale idx { scale with idxUnit := p.idxUnit }, matrixlibOk)

/-! ### Handlers that leave the configuration alone -/

/-- `LibVersion_t` -/
structure LibVersion where
  szLibVersion : Option CharPtr
deriving DecidableEq

/-- `libVersion`: the parameter structure, if there is one, gets the text of the version. -/
def libVersion (call : Nat) (pParam : Option LibVersion) : Option LibVersion × Int :=
  match pParam with
  | some _ => (some ⟨some ⟨call, "1.0.0".toUTF8.toList⟩⟩, matrixlibOk)
  | none => (none, matrixlibParamError)

/-- The handlers that only print their name and return `MATRIXLIB_OK`. -/
inductive VpiStub
  | getTAC | saveConfiguration | setRangeMode | setIncrementSize | setDecPoint
  | setLinearization | saveCalibration | setWarmUpTime
  | zeroSet | zeroReset | zeroSave | zeroRestore
  | tareMode | tareSet | tareReset | tarePreset | tareSave | tareRestore | tareAutoSet
  | tareAutoClear
  | filteringPerform | calculateWeight | normalizeWeight | isMotion | modeX10 | setChannelOnOff
  | print | saveResults
  | setWimMaxCapacity | setWimMinCapacity | setWimMaxPlatform | setWimMinPlatform
  | setWimMaxWagonMass | setWimMinWagonMass | setWimMaxTrainMass | setWimMinTrainMass
  | setWimMaxSpeed | setWimMinSpeed | setWimMaxTransitSpeed | setWimAdjusment
  | wimCalculateSpeed | wimSolver | wimPrint | wimSaveResults | resetToFactory
deriving DecidableEq, Repr

/-! ### Calls -/

/-- A call with `fun == NULL`, with the parameters and the clock reading that its handler
reads.  `unknown` is a call of `VpiMain` for whose number it finds no handler. -/
inductive VpiCall
  | libVersion (call : Nat) (p : Option LibVersion)
  | loadConfiguration (call : Nat) (file : ConfigurationFile)
  | setMaximum (pInstanceData : BitVec 64)
  | setMinimum (pInstanceData : BitVec 64)
  | addScale (pInstanceData : BitVec 64)
  | setCalibrateZero (p : ZeroCalibration)
  | setCalibrateGane (p : GaneCalibration)
  | setCalibrateZeroCorrection (p : ZeroCorrection)
  | setMaximumChannel (p : SetMaximumChannel)
  | setAveragTime (now : Int) (p : AveragTime)
  | processingCurMeasurement (now : Int) (p : CurMeasurement)
  | setDiscret (p : Discret)
  | zeroTracking (p : ZeroTracking)
  | setZeroInitialRange (p : ZeroSet)
  | setZeroManualRange (p : ZeroButtonSet)
  | setZeroIndication (p : ZeroIndicationSet)
  | switchUnit (p : SwitchUnit)
  | stub (handler : VpiStub)
  | unknown

section Calls

variable (cJsonParse : List UInt8 → Option Json)

/-- The configuration after the call and the returned code. -/
def VpiCall.serve (conf : MatrixConfiguration) : VpiCall → MatrixConfiguration × Int
  | .libVersion call p => (conf, (Metrology.libVersion call p).2)
  | .loadConfiguration call file => Metrology.loadConfiguration cJsonParse call file conf
  | .setMaximum pInstanceData => Metrology.setMaximum pInstanceData conf
  | .setMinimum pInstanceData => Metrology.setMinimum pInstanceData conf
  | .addScale pInstanceData => Metrology.addScale pInstanceData conf
  | .setCalibrateZero p => conf.onSystem (Metrology.setCalibrateZero ⟨p, none⟩)
  | .setCalibrateGane p => conf.onSystem (Metrology.setCalibrateGane ⟨p, none⟩)
  | .setCalibrateZeroCorrection p =>
      conf.onSystem (Metrology.setCalibrateZeroCorrection ⟨p, none⟩)
  | .setMaximumChannel p => conf.onSystem (Metrology.setMaximumChannel ⟨p, none⟩)
  | .setAveragTime now p => conf.onSystem (Metrology.setAveragTime now ⟨p, none⟩)
  | .processingCurMeasurement now p =>
      conf.onSystem fun sys =>
        let r := Metrology.processingCurMeasurement ⟨p, none⟩ now sys
        (r.conf, r.code)
  | .setDiscret p => Metrology.setDiscret p conf
  | .zeroTracking p => Metrology.zeroTracking p conf
  | .setZeroInitialRange p => Metrology.setZeroInitialRange p conf
  | .setZeroManualRange p => Metrology.setZeroManualRange p conf
  | .setZeroIndication p => Metrology.setZeroIndication p conf
  | .switchUnit p => Metrology.switchUnit p conf
  | .stub _ => (conf, matrixlibOk)
  | .unknown => (conf, matrixlibRecoveryFunctionError)

/-- The configuration after a run of calls. -/
def runVpi (conf : MatrixConfiguration) (calls : List VpiCall) : MatrixConfiguration :=
  calls.foldl (fun conf call => (call.serve cJsonParse conf).1) conf

end Calls

/-! ### What one call does -/

theorem setMaximumChannel_accepted
    {p : SetMaximumChannel}
    {sys : SystemConfiguration}
    {ch : Channel}
    (hready : sys.ready)
    (hch : channelOf sys p.channel = some ch) :
    ∃ idx,
      sys.channelConfiguration[idx]? = some ch ∧
      setMaximumChannel ⟨p, none⟩ sys = (sys.setChannel idx (maximumChannel p ch), matrixlibOk) := by
  obtain ⟨idx, hidx, hget⟩ := Option.bind_eq_some_iff.mp hch
  exact ⟨idx, hget, by simp [setMaximumChannel, hready, hidx, hget]⟩

theorem setMaximumChannel_refused
    {p : SetMaximumChannel}
    {sys : SystemConfiguration}
    (h : ¬ (sys.ready ∧ channelOf sys p.channel ≠ none)) :
    (setMaximumChannel ⟨p, none⟩ sys).1 = sys := by
  unfold setMaximumChannel
  by_cases hready : sys.ready
  · have hnone : channelOf sys p.channel = none := by
      by_contra hne
      exact h ⟨hready, hne⟩
    cases hidx : getIdxChannel sys p.channel with
    | none => simp [hready]
    | some idx =>
        have hget : sys.channelConfiguration[idx]? = none := by
          simpa [channelOf, hidx] using hnone
        simp [hready, hget]
  · simp [hready]

/-- A measurement writes one channel, in service mode only, and then it succeeds. -/
theorem processingCurMeasurement_cases
    (p : CurMeasurement)
    (now : Int)
    (sys : SystemConfiguration) :
    (processingCurMeasurement ⟨p, none⟩ now sys).conf = sys ∨
      (sys.ready = true ∧ sys.serviceMode = true) ∧
        (processingCurMeasurement ⟨p, none⟩ now sys).code = matrixlibOk ∧
        ∃ idx ch, (processingCurMeasurement ⟨p, none⟩ now sys).conf = sys.setChannel idx ch := by
  unfold processingCurMeasurement
  simp only
  split
  · exact Or.inl rfl
  · rename_i hready
    split
    · exact Or.inl rfl
    · split
      · exact Or.inl rfl
      · split
        · split
          · exact Or.inl rfl
          · cases hservice : sys.serviceMode with
            | false => exact Or.inl (by simp)
            | true => exact Or.inr ⟨⟨by simpa using hready, rfl⟩, rfl, _, _, rfl⟩
        · exact Or.inl rfl

theorem processingCurMeasurement_flagSystem
    (p : CurMeasurement)
    (now : Int)
    (sys : SystemConfiguration) :
    (processingCurMeasurement ⟨p, none⟩ now sys).conf.flagSystem = sys.flagSystem := by
  rcases processingCurMeasurement_cases p now sys with hkept | ⟨-, -, idx, ch, heq⟩
  · rw [hkept]
  · rw [heq]
    rfl

theorem scaleHandler_cases
    (idScale : Int)
    (update : ScaleConfiguration → ScaleConfiguration)
    (conf : MatrixConfiguration) :
    (scaleHandler idScale update conf).1 = conf ∨
      (conf.ready = true ∧ conf.serviceMode = true) ∧
        ∃ idx scale, conf.getIdxScale idScale = some idx ∧
          conf.scaleConfiguration[idx]? = some scale ∧
          scaleHandler idScale update conf = (conf.setScale idx (update scale), matrixlibOk) := by
  unfold scaleHandler
  split_ifs with hready hservice
  · exact Or.inl rfl
  · exact Or.inl rfl
  · split
    · exact Or.inl rfl
    · rename_i idx hidx
      split
      · exact Or.inl rfl
      · rename_i scale hget
        exact Or.inr
          ⟨⟨by simpa using hready, by simpa using hservice⟩, idx, scale, hidx, hget, rfl⟩

theorem addScale_cases
    (pInstanceData : BitVec 64)
    (conf : MatrixConfiguration) :
    (addScale pInstanceData conf).1 = conf ∨
      (conf.ready = true ∧ conf.serviceMode = true) ∧
        conf.getIdxScale (vdbIdScale pInstanceData) = none ∧
        addScale pInstanceData conf =
          ({ conf with
              scaleConfiguration :=
                conf.scaleConfiguration ++
                  [{ ScaleConfiguration.zeroed with idScale := vdbIdScale pInstanceData }] },
            matrixlibOk) := by
  unfold addScale
  split_ifs with hready hservice
  · exact Or.inl rfl
  · exact Or.inl rfl
  · split
    · exact Or.inl rfl
    · rename_i hnew
      exact Or.inr ⟨⟨by simpa using hready, by simpa using hservice⟩, hnew, rfl⟩

theorem switchUnit_cases
    (p : SwitchUnit)
    (conf : MatrixConfiguration) :
    (switchUnit p conf).1 = conf ∨
      conf.ready = true ∧
        ∃ idx scale, conf.getIdxScale p.idScale = some idx ∧
          conf.scaleConfiguration[idx]? = some scale ∧
          p.idxUnit ≤ (conf.units.length : Int) - 1 ∧
          switchUnit p conf = (conf.setScale idx { scale with idxUnit := p.idxUnit }, matrixlibOk) := by
  unfold switchUnit
  split
  · exact Or.inl rfl
  · rename_i hready
    split
    · exact Or.inl rfl
    · rename_i idx hidx
      split
      · exact Or.inl rfl
      · rename_i scale hget
        split
        · exact Or.inl rfl
        · rename_i hunit
          exact Or.inr ⟨by simpa using hready, idx, scale, hidx, hget, not_lt.mp hunit, rfl⟩

end Metrology
end MatrixBin
