import MatrixBin.Library.PiecewiseLinear
import MatrixBin.Metrology.Configuration
import Mathlib.Algebra.Order.Field.Rat

/-!
# Calibration of a measuring channel

The table of calibration points (`matrixlib.cc`) and the three handlers that
write it: `setCalibrateZero`, `setCalibrateGane` and `setCalibrateZeroCorrection`.

The ratios stored in the table are derived data: only `setCalibrationGaneChannel`
recomputes them.  `RatiosStored` says that they are the slopes of the sections, as
some function of two points gives them: `sectionRatio` is what the code computes,
with its `int` and `float` operations, and `slope` the mathematical one.  The run
lemma `runCalibration_tableStored` shows that no order of calls loses this, as long
as the operations of each call agree with the function.
-/

namespace MatrixBin
namespace Metrology

open Library

/-! ### The table of a channel (`matrixlib.cc`) -/

/-- `initLinerarSections`: one point of weight 0 at the calibration zero. -/
def initLinerarSections (ch : Channel) : Channel :=
  { ch with linearSections := [⟨ch.zeroCalibrationValue, 0, 0⟩] }

/-- One pass of `correctionZeroLinearSections` over a point. -/
def LinearSection.shiftRaw (diff : Int32) (s : LinearSection) : LinearSection :=
  { s with rawValue := s.rawValue - diff }

/-- `correctionZeroLinearSections`: shift all raw values. -/
def correctionZeroLinearSections (ch : Channel) : Channel :=
  { ch with linearSections := ch.linearSections.map (LinearSection.shiftRaw ch.diffZeroValue) }

section Ratios

variable [Rounding]

/-- The ratio of a section, from its point `s` to the next point `t`: two `int`
differences, as floats. -/
def sectionRatio (s t : LinearSection) : FloatValue :=
  .div (.ofInt (Int32.ofInt (t.weightValue - s.weightValue)).toInt)
    (.ofInt (t.rawValue - s.rawValue).toInt)

/-- The loop of `calcLinearRatioChannel` from one index on.  `prev` is the ratio
that the pass has just stored at the index before, if there is one. -/
def calcRatios : Option FloatValue → List LinearSection → List LinearSection
  | _, s :: t :: rest =>
      { s with ratio := sectionRatio s t } ::
        calcRatios (some (sectionRatio s t)) (t :: rest)
  | some q, [s] => [{ s with ratio := q }]
  | none, [s] => [s]
  | _, [] => []

/-- `calcLinearRatioChannel` -/
def calcLinearRatioChannel (sections : List LinearSection) : List LinearSection :=
  calcRatios none sections

end Ratios

/-- The loop of `setCalibrationGaneChannel`: replace the raw value of the point of
this weight, insert before the first heavier point, or append. -/
def putSection (rawValue : Int32) (weightValue : Int) : List LinearSection → List LinearSection
  | [] => [⟨rawValue, weightValue, 0⟩]
  | s :: rest =>
      if s.weightValue < weightValue then s :: putSection rawValue weightValue rest
      else if s.weightValue = weightValue then { s with rawValue := rawValue } :: rest
      else ⟨rawValue, weightValue, 0⟩ :: s :: rest

/-- `setCalibrationGaneChannel`: the channel and the returned size of the table. -/
def setCalibrationGaneChannel [Rounding]
    (ch : Channel) (rawValue : Int32) (weightValue : Int) : Channel × Int :=
  let sections := calcLinearRatioChannel (putSection rawValue weightValue ch.linearSections)
  ({ ch with linearSections := sections }, sections.length)

/-! ### The handlers -/

/-- `ZeroCalibration_t` -/
structure ZeroCalibration where
  channel : Int
  zeroCalibrationValue : Int32
deriving DecidableEq, Repr

/-- `ZeroCorrection_t` -/
structure ZeroCorrection where
  channel : Int
  zeroCorrectionValue : Int32
deriving DecidableEq, Repr

/-- `GaneCalibration_t` -/
structure GaneCalibration where
  channel : Int
  rawValue : Int32
  weightValue : Int
deriving DecidableEq, Repr

/-- The frame that the calibration handlers repeat: the alternative function, the
two system flags, and the search for the channel, whose failure each handler
reports with a code of its own. -/
def calibrationHandler {π : Type}
    (channelError : Int) (channel : π → Int) (act : π → Channel → Channel × Int)
    (vdb : Vdb π) (conf : SystemConfiguration) : SystemConfiguration × Int :=
  match vdb.funAdd with
  | some f => (f vdb.pParam conf).2
  | none =>
      if !conf.ready then (conf, matrixlibSystemNotConfiguration)
      else if !conf.serviceMode then (conf, matrixlibSystemNoInServiceMode)
      else
        match getIdxChannel conf (channel vdb.pParam) with
        | none => (conf, channelError)
        | some idx =>
            match conf.channelConfiguration[idx]? with
            | none => (conf, channelError)
            | some ch =>
                let (ch', rc) := act vdb.pParam ch
                (conf.setChannel idx ch', rc)

/-- What `setCalibrateZero` does with the channel. -/
def calibrateZero (p : ZeroCalibration) (ch : Channel) : Channel × Int :=
  if ch.rawData then
    (initLinerarSections
      { ch with zeroCalibrationValue := p.zeroCalibrationValue, diffZeroValue := 0 },
      matrixlibOk)
  else (ch, matrixlibOk)

/-- What `setCalibrateGane` does with the channel.  A zero of `-1` is not calibrated yet. -/
def calibrateGane [Rounding] (p : GaneCalibration) (ch : Channel) : Channel × Int :=
  if ch.rawData then
    if ch.zeroCalibrationValue = -1 then (ch, matrixlibExecutionSequenceError)
    else if ch.maxWeightValue < p.weightValue then (ch, matrixlibParamError)
    else setCalibrationGaneChannel ch p.rawValue p.weightValue
  else (ch, matrixlibOk)

/-- What `setCalibrateZeroCorrection` does with the channel. -/
def calibrateZeroCorrection (p : ZeroCorrection) (ch : Channel) : Channel × Int :=
  if ch.rawData then
    if ch.zeroCalibrationValue = -1 then (ch, matrixlibExecutionSequenceError)
    else
      (correctionZeroLinearSections
        { ch with
          diffZeroValue := ch.zeroCalibrationValue - p.zeroCorrectionValue
          zeroCalibrationValue := p.zeroCorrectionValue },
        matrixlibOk)
  else (ch, matrixlibOk)

/-- `setCalibrateZero` -/
def setCalibrateZero (vdb : Vdb ZeroCalibration) :
    SystemConfiguration → SystemConfiguration × Int :=
  calibrationHandler matrixlibParamError ZeroCalibration.channel calibrateZero vdb

/-- `setCalibrateGane` -/
def setCalibrateGane [Rounding] (vdb : Vdb GaneCalibration) :
    SystemConfiguration → SystemConfiguration × Int :=
  calibrationHandler matrixlibChannelError GaneCalibration.channel calibrateGane vdb

/-- `setCalibrateZeroCorrection` -/
def setCalibrateZeroCorrection (vdb : Vdb ZeroCorrection) :
    SystemConfiguration → SystemConfiguration × Int :=
  calibrationHandler matrixlibParamError ZeroCorrection.channel calibrateZeroCorrection vdb

/-! ### Stored ratios -/

/-- The calibration point of a section. -/
def LinearSection.point (s : LinearSection) : ℚ × ℚ :=
  (s.rawValue.toInt, s.weightValue)

/-- The slope from a point to the next one, in mathematical numbers. -/
def slope (s t : LinearSection) : FloatValue :=
  @FloatValue.div .exact (.finite (t.weightValue - s.weightValue : Int))
    (.finite (t.rawValue.toInt - s.rawValue.toInt : Int))

/-- Every ratio is that of the section to the next point, and the last one repeats the one
before. -/
def RatiosStored (ratio : LinearSection → LinearSection → FloatValue) : List LinearSection → Prop
  | s :: t :: rest =>
      s.ratio = ratio s t ∧
      (rest = [] → t.ratio = s.ratio) ∧
      RatiosStored ratio (t :: rest)
  | _ => True

/-- A ratio is a matter of the two points. -/
def OfPoints (ratio : LinearSection → LinearSection → FloatValue) : Prop :=
  ∀ s t q r, ratio { s with ratio := q } { t with ratio := r } = ratio s t

theorem slope_ofPoints : OfPoints slope := fun _ _ _ _ => rfl

theorem sectionRatio_ofPoints [Rounding] : OfPoints sectionRatio := fun _ _ _ _ => rfl

theorem slope_eq_chordSlope
    {s t : LinearSection}
    (h : s.rawValue ≠ t.rawValue) :
    slope s t = .finite (chordSlope s.point t.point) := by
  have hne : t.rawValue.toInt - s.rawValue.toInt ≠ 0 :=
    fun hzero => h (Int32.toInt_inj.mp (by omega))
  have hne' : ((t.rawValue.toInt - s.rawValue.toInt : Int) : ℚ) ≠ 0 := Int.cast_ne_zero.mpr hne
  rw [slope, @FloatValue.div_finite .exact _ _ hne']
  simp [Rounding.round, chordSlope, LinearSection.point]

/-- Differences that are `int`s give the mathematical slope. -/
theorem sectionRatio_eq_slope
    {s t : LinearSection}
    (hraw : FitsInt (t.rawValue.toInt - s.rawValue.toInt))
    (hweight : FitsInt (t.weightValue - s.weightValue)) :
    @sectionRatio .exact s t = slope s t := by
  obtain ⟨hlow, hhigh⟩ := hweight
  have hdiff : (Int32.ofInt (t.weightValue - s.weightValue)).toInt =
      t.weightValue - s.weightValue :=
    Int32.toInt_ofInt_of_le (by omega) (by omega)
  unfold sectionRatio slope
  rw [toInt_sub_of_fits hraw, hdiff]
  rfl

section Recomputation

variable [Rounding]

theorem calcRatios_points
    (prev : Option FloatValue)
    (sections : List LinearSection) :
    (calcRatios prev sections).map LinearSection.point =
      sections.map LinearSection.point := by
  fun_induction calcRatios prev sections with
  | case1 prev s t rest ih => simpa [LinearSection.point] using ih
  | case2 q s => rfl
  | case3 s => rfl
  | case4 => rfl

/-- The head of a recomputed table, which the ratio of the section before it needs. -/
theorem calcRatios_cons
    (prev : Option FloatValue)
    (s : LinearSection)
    (rest : List LinearSection) :
    ∃ q tail,
      calcRatios prev (s :: rest) = { s with ratio := q } :: tail ∧
      (tail = [] ↔ rest = []) ∧
      (rest = [] → ∀ r, prev = some r → q = r) := by
  cases rest with
  | nil =>
      cases prev with
      | none => exact ⟨s.ratio, [], rfl, by simp, by simp⟩
      | some r => exact ⟨r, [], rfl, by simp, by simp⟩
  | cons t rest =>
      refine ⟨sectionRatio s t, calcRatios (some (sectionRatio s t)) (t :: rest), rfl, ?_, ?_⟩
      · have hlen := congrArg List.length
          (calcRatios_points (some (sectionRatio s t)) (t :: rest))
        simp only [List.length_map, List.length_cons] at hlen
        constructor
        · intro h
          simp [h] at hlen
        · simp
      · simp

/-- A recomputation stores the ratios of a function that agrees with its operations. -/
theorem calcRatios_stored
    {ratio : LinearSection → LinearSection → FloatValue}
    (hpoints : OfPoints ratio)
    (prev : Option FloatValue)
    {sections : List LinearSection}
    (h : sections.IsChain fun s t => sectionRatio s t = ratio s t) :
    RatiosStored ratio (calcRatios prev sections) := by
  fun_induction calcRatios prev sections with
  | case1 prev s t rest ih =>
      obtain ⟨hst, hrest⟩ := List.isChain_cons_cons.mp h
      obtain ⟨q, tail, heq, htail, hq⟩ :=
        calcRatios_cons (some (sectionRatio s t)) t rest
      have hstored := ih hrest
      rw [heq] at hstored ⊢
      refine ⟨?_, ?_, hstored⟩
      · rw [hpoints s t]
        exact hst
      · intro h
        exact hq (htail.mp h) _ rfl
  | case2 q s => trivial
  | case3 s => trivial
  | case4 => trivial

end Recomputation

/-- A common shift of the raw values that keeps the ratios leaves the stored ones right. -/
theorem RatiosStored.shiftRaw
    {ratio : LinearSection → LinearSection → FloatValue}
    {sections : List LinearSection}
    {diff : Int32}
    (h : RatiosStored ratio sections)
    (hshift : ∀ s ∈ sections, ∀ t ∈ sections,
      ratio (s.shiftRaw diff) (t.shiftRaw diff) = ratio s t) :
    RatiosStored ratio (sections.map (LinearSection.shiftRaw diff)) := by
  fun_induction RatiosStored ratio sections with
  | case1 s t rest ih =>
      obtain ⟨hs, hlast, hrest⟩ := h
      refine ⟨?_, ?_, ih hrest fun u hu v hv => hshift u (by simp [hu]) v (by simp [hv])⟩
      · rw [hshift s (by simp) t (by simp), ← hs]
        rfl
      · intro hnil
        exact hlast (List.map_eq_nil_iff.mp hnil)
  | case2 sections hne =>
      match sections, hne with
      | [], _ => trivial
      | [s], _ => trivial
      | s :: t :: rest, hne => exact absurd rfl (hne s t rest)

/-- The differences of raw values wrap around like the raw values. -/
theorem sectionRatio_shiftRaw [Rounding]
    (diff : Int32)
    (s t : LinearSection) :
    sectionRatio (s.shiftRaw diff) (t.shiftRaw diff) = sectionRatio s t := by
  have hdiff : t.rawValue - diff - (s.rawValue - diff) = t.rawValue - s.rawValue := by grind
  simp only [sectionRatio, LinearSection.shiftRaw, hdiff]

/-- A shift in which no raw value overflows keeps the slopes. -/
theorem slope_shiftRaw
    {diff : Int32}
    {s t : LinearSection}
    (hs : FitsInt (s.rawValue.toInt - diff.toInt))
    (ht : FitsInt (t.rawValue.toInt - diff.toInt)) :
    slope (s.shiftRaw diff) (t.shiftRaw diff) = slope s t := by
  simp only [slope, LinearSection.shiftRaw, toInt_sub_of_fits hs, toInt_sub_of_fits ht,
    sub_sub_sub_cancel_right]

/-! ### What one call does -/

section OneCall

variable {π : Type} {channelError : Int} {channel : π → Int}
variable {act : π → Channel → Channel × Int}

variable (channelError act) in
/-- An accepted call stores what `act` makes of the addressed channel. -/
theorem calibrationHandler_accepted
    {p : π}
    {conf : SystemConfiguration}
    {ch : Channel}
    (hready : conf.ready)
    (hservice : conf.serviceMode)
    (hch : channelOf conf (channel p) = some ch) :
    ∃ idx,
      getIdxChannel conf (channel p) = some idx ∧
      calibrationHandler channelError channel act ⟨p, none⟩ conf =
        (conf.setChannel idx (act p ch).1, (act p ch).2) := by
  obtain ⟨idx, hidx, hget⟩ := Option.bind_eq_some_iff.mp hch
  exact ⟨idx, hidx, by simp [calibrationHandler, hready, hservice, hidx, hget]⟩

/-- A call that the guards refuse leaves the configuration as it was. -/
theorem calibrationHandler_refused
    {p : π}
    {conf : SystemConfiguration}
    (h : ¬ (conf.ready ∧ conf.serviceMode ∧ channelOf conf (channel p) ≠ none)) :
    (calibrationHandler channelError channel act ⟨p, none⟩ conf).1 = conf := by
  unfold calibrationHandler
  by_cases hready : conf.ready
  · by_cases hservice : conf.serviceMode
    · have hnone : channelOf conf (channel p) = none := by
        by_contra hne
        exact h ⟨hready, hservice, hne⟩
      cases hidx : getIdxChannel conf (channel p) with
      | none => simp [hready, hservice]
      | some idx =>
          have hget : conf.channelConfiguration[idx]? = none := by
            simpa [channelOf, hidx] using hnone
          simp [hready, hservice, hget]
    · simp [hready, hservice]
  · simp [hready]

/-- A call acts on the channel it addresses, when the system is ready and in
service mode, and on nothing else. -/
theorem channelOf_calibrationHandler
    (hact : ∀ p ch, (act p ch).1.channel = ch.channel)
    (p : π)
    (conf : SystemConfiguration)
    (id : Int) :
    channelOf (calibrationHandler channelError channel act ⟨p, none⟩ conf).1 id =
      if conf.ready ∧ conf.serviceMode ∧ id = channel p then
        (channelOf conf id).map (fun ch => (act p ch).1)
      else channelOf conf id := by
  by_cases hguard : conf.ready ∧ conf.serviceMode ∧ channelOf conf (channel p) ≠ none
  · obtain ⟨hready, hservice, hne⟩ := hguard
    obtain ⟨ch, hch⟩ := Option.ne_none_iff_exists'.mp hne
    obtain ⟨idx, hidx, heq⟩ :=
      calibrationHandler_accepted channelError act hready hservice hch
    rw [heq, channelOf_setChannel hidx hch (hact p ch)]
    by_cases hid : id = channel p
    · simp [hready, hservice, hid, hch]
    · simp [hid]
  · rw [calibrationHandler_refused hguard]
    split
    · rename_i h
      obtain ⟨hready, hservice, rfl⟩ := h
      have hnone : channelOf conf (channel p) = none := by
        by_contra hne
        exact hguard ⟨hready, hservice, hne⟩
      simp [hnone]
    · rfl

variable (act) in
/-- A call that returns no error code has passed the guards. -/
theorem calibrationHandler_served
    {p : π}
    {conf : SystemConfiguration}
    {ch : Channel}
    (hch : channelOf conf (channel p) = some ch)
    (hcode : 0 ≤ (calibrationHandler channelError channel act ⟨p, none⟩ conf).2) :
    conf.ready ∧ conf.serviceMode ∧
      (calibrationHandler channelError channel act ⟨p, none⟩ conf).2 = (act p ch).2 := by
  by_cases hready : conf.ready
  · by_cases hservice : conf.serviceMode
    · obtain ⟨idx, -, heq⟩ :=
        calibrationHandler_accepted channelError act hready hservice hch
      exact ⟨hready, hservice, by rw [heq]⟩
    · simp [calibrationHandler, hready, hservice,
        matrixlibSystemNoInServiceMode] at hcode
  · simp [calibrationHandler, hready, matrixlibSystemNotConfiguration] at hcode

/-- No call changes the flags of the system. -/
theorem calibrationHandler_flagSystem
    (p : π)
    (conf : SystemConfiguration) :
    (calibrationHandler channelError channel act ⟨p, none⟩ conf).1.flagSystem =
      conf.flagSystem := by
  unfold calibrationHandler
  simp only
  split_ifs
  · rfl
  · rfl
  · split
    · rfl
    · split <;> rfl

end OneCall

@[simp] theorem calibrateZero_channel (p : ZeroCalibration) (ch : Channel) :
    (calibrateZero p ch).1.channel = ch.channel := by
  unfold calibrateZero
  split <;> rfl

@[simp] theorem calibrateGane_channel [Rounding] (p : GaneCalibration) (ch : Channel) :
    (calibrateGane p ch).1.channel = ch.channel := by
  unfold calibrateGane
  split_ifs <;> rfl

@[simp] theorem calibrateZeroCorrection_channel (p : ZeroCorrection) (ch : Channel) :
    (calibrateZeroCorrection p ch).1.channel = ch.channel := by
  unfold calibrateZeroCorrection
  split_ifs <;> rfl

/-! ### Runs of calibration calls -/

/-- A call of one of the three calibration handlers, with `fun == NULL`. -/
inductive CalibrationCall
  | zero (p : ZeroCalibration)
  | gane (p : GaneCalibration)
  | zeroCorrection (p : ZeroCorrection)
deriving DecidableEq, Repr

/-- The call of `setCalibrateGane` reaches `setCalibrationGaneChannel` with the channel. -/
structure GaneServed (conf : SystemConfiguration) (p : GaneCalibration) (ch : Channel) : Prop where
  ready : conf.ready
  serviceMode : conf.serviceMode
  channel : channelOf conf p.channel = some ch
  rawData : ch.rawData
  zero : ch.zeroCalibrationValue ≠ -1
  weight : p.weightValue ≤ ch.maxWeightValue

/-- The call of `setCalibrateZeroCorrection` shifts the table of the channel. -/
structure CorrectionServed
    (conf : SystemConfiguration) (p : ZeroCorrection) (ch : Channel) : Prop where
  ready : conf.ready
  serviceMode : conf.serviceMode
  channel : channelOf conf p.channel = some ch
  rawData : ch.rawData
  zero : ch.zeroCalibrationValue ≠ -1

/-- What a served call computes agrees with a function of two points. -/
def CalibrationCall.Computes
    [Rounding] (ratio : LinearSection → LinearSection → FloatValue) (conf : SystemConfiguration)
    (channel : Int) : CalibrationCall → Prop
  | .zero _ => True
  | .gane p =>
      p.channel = channel → ∀ ch, GaneServed conf p ch →
        (putSection p.rawValue p.weightValue ch.linearSections).IsChain fun s t =>
          sectionRatio s t = ratio s t
  | .zeroCorrection p =>
      p.channel = channel → ∀ ch, CorrectionServed conf p ch →
        ∀ s ∈ ch.linearSections, ∀ t ∈ ch.linearSections,
          ratio (s.shiftRaw (ch.zeroCalibrationValue - p.zeroCorrectionValue))
              (t.shiftRaw (ch.zeroCalibrationValue - p.zeroCorrectionValue)) =
            ratio s t

/-- The differences of neighbours are `int`s. -/
def DifferencesFit (sections : List LinearSection) : Prop :=
  sections.IsChain fun s t =>
    FitsInt (t.rawValue.toInt - s.rawValue.toInt) ∧ FitsInt (t.weightValue - s.weightValue)

/-- No subtraction of a served call overflows. -/
def CalibrationCall.Fits (conf : SystemConfiguration) (channel : Int) : CalibrationCall → Prop
  | .zero _ => True
  | .gane p =>
      p.channel = channel → ∀ ch, GaneServed conf p ch →
        DifferencesFit (putSection p.rawValue p.weightValue ch.linearSections)
  | .zeroCorrection p =>
      p.channel = channel → ∀ ch, CorrectionServed conf p ch →
        FitsInt (ch.zeroCalibrationValue.toInt - p.zeroCorrectionValue.toInt) ∧
          ∀ s ∈ ch.linearSections,
            FitsInt (s.rawValue.toInt -
              (ch.zeroCalibrationValue.toInt - p.zeroCorrectionValue.toInt))

/-- The table of the channel, if there is one, stores the right ratios. -/
def TableStored
    (ratio : LinearSection → LinearSection → FloatValue) (conf : SystemConfiguration)
    (channel : Int) : Prop :=
  ∀ ch, channelOf conf channel = some ch → RatiosStored ratio ch.linearSections

theorem calibrateZero_ratiosStored
    {ratio : LinearSection → LinearSection → FloatValue}
    (p : ZeroCalibration)
    {ch : Channel}
    (h : ch.rawData ∨ RatiosStored ratio ch.linearSections) :
    RatiosStored ratio (calibrateZero p ch).1.linearSections := by
  unfold calibrateZero
  split
  · trivial
  · rename_i hraw
    exact h.resolve_left hraw

theorem CalibrationCall.computes_sectionRatio
    [Rounding]
    (call : CalibrationCall)
    (conf : SystemConfiguration)
    (channel : Int) :
    call.Computes sectionRatio conf channel := by
  cases call with
  | zero p => trivial
  | gane p => exact fun _ _ _ => (List.pairwise_of_forall fun _ _ => rfl).isChain
  | zeroCorrection p => exact fun _ _ _ s _ t _ => sectionRatio_shiftRaw _ s t

/-- Without an overflow the calls compute the mathematical slopes. -/
theorem CalibrationCall.Fits.computes_slope
    {call : CalibrationCall}
    {conf : SystemConfiguration}
    {channel : Int}
    (h : call.Fits conf channel) :
    @CalibrationCall.Computes .exact slope conf channel call := by
  cases call with
  | zero p => trivial
  | gane p =>
      intro hid ch hserved
      refine (h hid ch hserved).imp ?_
      rintro s t ⟨hraw, hweight⟩
      exact sectionRatio_eq_slope hraw hweight
  | zeroCorrection p =>
      intro hid ch hserved s hs t ht
      obtain ⟨hdiff, hraws⟩ := h hid ch hserved
      have hcomputed := toInt_sub_of_fits hdiff
      refine slope_shiftRaw ?_ ?_
      · rw [hcomputed]
        exact hraws s hs
      · rw [hcomputed]
        exact hraws t ht

section Runs

variable [Rounding] {ratio : LinearSection → LinearSection → FloatValue}

/-- The handler that serves the call. -/
def CalibrationCall.handle :
    CalibrationCall → SystemConfiguration → SystemConfiguration × Int
  | .zero p => setCalibrateZero ⟨p, none⟩
  | .gane p => setCalibrateGane ⟨p, none⟩
  | .zeroCorrection p => setCalibrateZeroCorrection ⟨p, none⟩

/-- The configuration after a run of calls. -/
def runCalibration
    (conf : SystemConfiguration) (calls : List CalibrationCall) : SystemConfiguration :=
  calls.foldl (fun conf call => (call.handle conf).1) conf

/-- The call is an accepted zero or gane calibration of a raw-data channel: one of
the calls that set the points of its table. -/
def CalibrationCall.Sets
    (call : CalibrationCall) (conf : SystemConfiguration) (channel : Int) : Prop :=
  (∃ ch, channelOf conf channel = some ch ∧ ch.rawData) ∧
  match call with
  | .zero p => p.channel = channel ∧ (call.handle conf).2 = matrixlibOk
  | .gane p => p.channel = channel ∧ 0 ≤ (call.handle conf).2
  | .zeroCorrection _ => False

/-- The table that a served gane calibration stores. -/
theorem GaneServed.ratiosStored
    {p : GaneCalibration}
    {conf : SystemConfiguration}
    {ch : Channel}
    (hserved : GaneServed conf p ch)
    (hpoints : OfPoints ratio)
    (hcomputes : (CalibrationCall.gane p).Computes ratio conf p.channel) :
    RatiosStored ratio (calibrateGane p ch).1.linearSections := by
  rw [calibrateGane, if_pos hserved.rawData, if_neg hserved.zero,
    if_neg (not_lt.mpr hserved.weight)]
  exact calcRatios_stored hpoints none (hcomputes rfl ch hserved)

theorem calibrateGane_ratiosStored
    {p : GaneCalibration}
    {conf : SystemConfiguration}
    {ch : Channel}
    (hguard : conf.ready ∧ conf.serviceMode ∧ channelOf conf p.channel = some ch)
    (hpoints : OfPoints ratio)
    (hcomputes : (CalibrationCall.gane p).Computes ratio conf p.channel)
    (h : RatiosStored ratio ch.linearSections) :
    RatiosStored ratio (calibrateGane p ch).1.linearSections := by
  by_cases hserved : ch.rawData ∧ ch.zeroCalibrationValue ≠ -1 ∧ p.weightValue ≤ ch.maxWeightValue
  · obtain ⟨hraw, hzero, hweight⟩ := hserved
    exact GaneServed.ratiosStored ⟨hguard.1, hguard.2.1, hguard.2.2, hraw, hzero, hweight⟩
      hpoints hcomputes
  · unfold calibrateGane
    split_ifs with hraw hzero hweight
    · exact h
    · exact h
    · exact absurd ⟨hraw, hzero, not_lt.mp hweight⟩ hserved
    · exact h

theorem calibrateZeroCorrection_ratiosStored
    {p : ZeroCorrection}
    {conf : SystemConfiguration}
    {ch : Channel}
    (hguard : conf.ready ∧ conf.serviceMode ∧ channelOf conf p.channel = some ch)
    (hcomputes : (CalibrationCall.zeroCorrection p).Computes ratio conf p.channel)
    (h : RatiosStored ratio ch.linearSections) :
    RatiosStored ratio (calibrateZeroCorrection p ch).1.linearSections := by
  unfold calibrateZeroCorrection
  split_ifs with hraw hzero
  · exact h
  · exact h.shiftRaw (hcomputes rfl ch ⟨hguard.1, hguard.2.1, hguard.2.2, hraw, hzero⟩)
  · exact h

/-- A call whose operations agree with the function keeps the ratios right. -/
theorem handle_tableStored
    {call : CalibrationCall}
    {conf : SystemConfiguration}
    {channel : Int}
    (hpoints : OfPoints ratio)
    (hcomputes : call.Computes ratio conf channel)
    (h : TableStored ratio conf channel) :
    TableStored ratio (call.handle conf).1 channel := by
  intro ch' hch'
  cases call with
  | zero p =>
      simp only [CalibrationCall.handle, setCalibrateZero,
        channelOf_calibrationHandler calibrateZero_channel] at hch'
      split at hch'
      · obtain ⟨ch, hch, rfl⟩ := Option.map_eq_some_iff.mp hch'
        exact calibrateZero_ratiosStored p (Or.inr (h ch hch))
      · exact h ch' hch'
  | gane p =>
      simp only [CalibrationCall.handle, setCalibrateGane,
        channelOf_calibrationHandler calibrateGane_channel] at hch'
      split at hch'
      · rename_i hguard
        obtain ⟨hready, hservice, rfl⟩ := hguard
        obtain ⟨ch, hch, rfl⟩ := Option.map_eq_some_iff.mp hch'
        exact calibrateGane_ratiosStored ⟨hready, hservice, hch⟩ hpoints hcomputes (h ch hch)
      · exact h ch' hch'
  | zeroCorrection p =>
      simp only [CalibrationCall.handle, setCalibrateZeroCorrection,
        channelOf_calibrationHandler calibrateZeroCorrection_channel] at hch'
      split at hch'
      · rename_i hguard
        obtain ⟨hready, hservice, rfl⟩ := hguard
        obtain ⟨ch, hch, rfl⟩ := Option.map_eq_some_iff.mp hch'
        exact calibrateZeroCorrection_ratiosStored ⟨hready, hservice, hch⟩ hcomputes (h ch hch)
      · exact h ch' hch'

/-- Every call of the run computes the ratios of the function. -/
def RunComputes
    (ratio : LinearSection → LinearSection → FloatValue) (channel : Int) :
    SystemConfiguration → List CalibrationCall → Prop
  | _, [] => True
  | conf, call :: rest =>
      call.Computes ratio conf channel ∧ RunComputes ratio channel (call.handle conf).1 rest

theorem runComputes_of_forall
    {channel : Int}
    (h : ∀ (call : CalibrationCall) conf, call.Computes ratio conf channel)
    (calls : List CalibrationCall)
    (conf : SystemConfiguration) :
    RunComputes ratio channel conf calls := by
  induction calls generalizing conf with
  | nil => trivial
  | cons call rest ih => exact ⟨h call conf, ih _⟩

theorem runCalibration_tableStored
    {calls : List CalibrationCall}
    {conf : SystemConfiguration}
    {channel : Int}
    (hpoints : OfPoints ratio)
    (hcomputes : RunComputes ratio channel conf calls)
    (h : TableStored ratio conf channel) :
    TableStored ratio (runCalibration conf calls) channel := by
  induction calls generalizing conf with
  | nil => exact h
  | cons call rest ih =>
      exact ih hcomputes.2 (handle_tableStored hpoints hcomputes.1 h)

/-- A call that sets the table makes its ratios right, whatever they were. -/
theorem CalibrationCall.Sets.tableStored
    {call : CalibrationCall}
    {conf : SystemConfiguration}
    {channel : Int}
    (h : call.Sets conf channel)
    (hpoints : OfPoints ratio)
    (hcomputes : call.Computes ratio conf channel) :
    TableStored ratio (call.handle conf).1 channel := by
  obtain ⟨⟨ch, hch, hraw⟩, hcall⟩ := h
  intro ch' hch'
  cases call with
  | zero p =>
      obtain ⟨rfl, hcode⟩ := hcall
      obtain ⟨hready, hservice, -⟩ :=
        calibrationHandler_served calibrateZero hch (le_of_eq hcode.symm)
      simp only [CalibrationCall.handle, setCalibrateZero,
        channelOf_calibrationHandler calibrateZero_channel, hready, hservice, hch,
        and_self, if_true, Option.map_some, Option.some.injEq] at hch'
      exact hch' ▸ calibrateZero_ratiosStored p (Or.inl hraw)
  | gane p =>
      obtain ⟨rfl, hcode⟩ := hcall
      obtain ⟨hready, hservice, hact⟩ :=
        calibrationHandler_served calibrateGane hch hcode
      simp only [CalibrationCall.handle, setCalibrateGane,
        channelOf_calibrationHandler calibrateGane_channel, hready, hservice, hch,
        and_self, if_true, Option.map_some, Option.some.injEq] at hch'
      have hgane : 0 ≤ (calibrateGane p ch).2 := hact ▸ hcode
      have hserved : GaneServed conf p ch := by
        unfold calibrateGane at hgane
        rw [if_pos hraw] at hgane
        split_ifs at hgane with hzero hweight
        · simp [matrixlibExecutionSequenceError] at hgane
        · simp [matrixlibParamError] at hgane
        · exact ⟨hready, hservice, hch, hraw, hzero, not_lt.mp hweight⟩
      rw [← hch']
      exact hserved.ratiosStored hpoints hcomputes
  | zeroCorrection p => exact hcall.elim

end Runs

end Metrology
end MatrixBin
