import MatrixBin.Library.TransitionRuns
import MatrixBin.Metrology.CallBlock
import MatrixBin.Metrology.LoadFailure
import MatrixBin.Metrology.LoadLeftovers

/-!
# The unit of a scale

`idx_unit` of a scale is an index into `Configuration.units`.  It comes from the file, where
`parserScales` stores any number, and from `switchUnit`, which compares it with
`(int)(units.size() - 1)` and so accepts every negative index.

Nothing fills `units`: no call of the library changes its length, which is 0 from the start
(`runVpi_units`).  The scales of a loaded configuration therefore have valid units only if
there are no scales.
-/

namespace MatrixBin
namespace Metrology

open Library

/-- Every scale has an index into the units. -/
def ValidUnits (conf : MatrixConfiguration) : Prop :=
  ∀ scale ∈ conf.scaleConfiguration, 0 ≤ scale.idxUnit ∧ scale.idxUnit < conf.units.length

/-- The request names a unit that is not there. -/
def SwitchUnit.Invalid (p : SwitchUnit) (conf : MatrixConfiguration) : Prop :=
  p.idxUnit < 0 ∨ (conf.units.length : Int) ≤ p.idxUnit

/-- A request that reaches a scale has no negative index. -/
def SwitchUnit.KeepsUnits (p : SwitchUnit) (conf : MatrixConfiguration) : Prop :=
  conf.ready → conf.scaleOf p.idScale ≠ none → 0 ≤ p.idxUnit

/-- One call of a run. -/
def switchStep (conf : MatrixConfiguration) (p : SwitchUnit) : Option MatrixConfiguration :=
  some (switchUnit p conf).1

/-! ### One call -/

section OneCall

variable {conf : MatrixConfiguration} {p : SwitchUnit}

theorem switchUnit_unserved
    (h : ¬ (conf.ready ∧ conf.scaleOf p.idScale ≠ none)) :
    (switchUnit p conf).1 = conf := by
  unfold switchUnit
  by_cases hready : conf.ready
  · have hnone : conf.scaleOf p.idScale = none := by
      by_contra hne
      exact h ⟨hready, hne⟩
    simp [hready, getIdxScale_eq_none hnone]
  · simp [hready]

theorem switchUnit_served
    (hready : conf.ready)
    {front back : List ScaleConfiguration}
    {scale : ScaleConfiguration}
    (htable : conf.scaleConfiguration = front ++ scale :: back)
    (hfirst : ∀ other ∈ front, other.idScale ≠ p.idScale)
    (hid : scale.idScale = p.idScale) :
    switchUnit p conf =
      if (conf.units.length : Int) - 1 < p.idxUnit then (conf, matrixlibParamError)
      else
        ({ conf with
            scaleConfiguration := front ++ { scale with idxUnit := p.idxUnit } :: back },
          matrixlibOk) := by
  have hidx := getIdxScale_eq_some htable hfirst hid
  have hget : conf.scaleConfiguration[front.length]? = some scale := by simp [htable]
  have hset (s : ScaleConfiguration) : conf.setScale front.length s =
      { conf with scaleConfiguration := front ++ s :: back } := by
    simp [MatrixConfiguration.setScale, htable]
  simp [switchUnit, hready, hidx, hget, hset]

/-- From valid units a call leads to valid units exactly if it keeps them. -/
theorem switchUnit_validUnits_iff
    (h : ValidUnits conf) :
    ValidUnits (switchUnit p conf).1 ↔ p.KeepsUnits conf := by
  by_cases hserved : conf.ready ∧ conf.scaleOf p.idScale ≠ none
  · obtain ⟨hready, hne⟩ := hserved
    obtain ⟨scale, hscale⟩ := Option.ne_none_iff_exists'.mp hne
    obtain ⟨hid, front, back, htable, hfirst⟩ := scaleOf_eq_some_iff.mp hscale
    have hold := h scale (by simp [htable])
    have hcondition : p.KeepsUnits conf ↔ 0 ≤ p.idxUnit :=
      ⟨fun hkeeps => hkeeps hready hne, fun hle _ _ => hle⟩
    rw [switchUnit_served hready htable hfirst hid, hcondition]
    split
    next hlarge => exact iff_of_true h (by omega)
    next hsmall =>
      constructor
      · intro hvalid
        exact (hvalid { scale with idxUnit := p.idxUnit } (by simp)).1
      · intro hle other hother
        rcases List.mem_append.mp hother with hmem | hmem
        · exact h other (by simp [htable, hmem])
        · rcases List.mem_cons.mp hmem with rfl | hback
          · exact ⟨hle, by simpa using (by omega : p.idxUnit < (conf.units.length : Int))⟩
          · exact h other (by simp [htable, hback])
  · rw [switchUnit_unserved hserved]
    exact iff_of_true h fun hready hne => absurd ⟨hready, hne⟩ hserved

/-- An invalid request to a scale is refused exactly if its index is not negative. -/
theorem switchUnit_refused_iff
    (hready : conf.ready)
    (hscale : conf.scaleOf p.idScale ≠ none)
    (hinvalid : p.Invalid conf) :
    switchUnit p conf = (conf, matrixlibParamError) ↔ 0 ≤ p.idxUnit := by
  obtain ⟨scale, hscale⟩ := Option.ne_none_iff_exists'.mp hscale
  obtain ⟨hid, front, back, htable, hfirst⟩ := scaleOf_eq_some_iff.mp hscale
  have hcodes : matrixlibOk ≠ matrixlibParamError := by decide
  rw [switchUnit_served hready htable hfirst hid]
  unfold SwitchUnit.Invalid at hinvalid
  split
  next hlarge => exact iff_of_true rfl (by omega)
  next hsmall => exact iff_of_false (fun heq => hcodes (congrArg Prod.snd heq)) (by omega)

end OneCall

/-! ### Runs -/

/-- In every state of a run the units are valid exactly if they are at the start and no call
stores a negative index. -/
theorem validUnits_along_iff
    (conf : MatrixConfiguration)
    (calls : List SwitchUnit) :
    HoldsAlong switchStep ValidUnits conf calls ↔
      ValidUnits conf ∧ MeetsAlong switchStep (fun conf p => p.KeepsUnits conf) conf calls := by
  have hrun (hvalid : ValidUnits conf) :
      HoldsAlong switchStep ValidUnits conf calls ↔
        MeetsAlong switchStep (fun conf p => p.KeepsUnits conf) conf calls := by
    refine holdsAlong_iff_meetsAlong (fun _ h => h) ?_ ?_ hvalid calls
    · intro conf p conf' h hstep
      rw [← Option.some.inj hstep]
      exact switchUnit_validUnits_iff h
    · intro conf p conf' h hkeeps hstep
      rw [← Option.some.inj hstep]
      exact (switchUnit_validUnits_iff h).mpr hkeeps
  constructor
  · intro h
    have hstart : ValidUnits conf := by
      cases calls with
      | nil => exact h
      | cons p rest => exact h.1
    exact ⟨hstart, (hrun hstart).mp h⟩
  · rintro ⟨hstart, hmeets⟩
    exact (hrun hstart).mpr hmeets

/-- Without scales no call does anything. -/
theorem validUnits_along_of_no_scales
    {conf : MatrixConfiguration}
    (h : conf.scaleConfiguration = [])
    (calls : List SwitchUnit) :
    HoldsAlong switchStep ValidUnits conf calls := by
  have hvalid : ValidUnits conf := by
    intro scale hscale
    rw [h] at hscale
    exact absurd hscale List.not_mem_nil
  induction calls with
  | nil => exact hvalid
  | cons p rest ih =>
      refine ⟨hvalid, fun conf' hstep => ?_⟩
      have hnone : conf.scaleOf p.idScale = none := by
        rw [MatrixConfiguration.scaleOf, h]
        rfl
      have hsame : (switchUnit p conf).1 = conf :=
        switchUnit_unserved fun hserved => hserved.2 hnone
      rw [← Option.some.inj hstep, hsame]
      exact ih

/-! ### Nothing fills the units -/

theorem scaleHandler_units
    (idScale : Int)
    (update : ScaleConfiguration → ScaleConfiguration)
    (conf : MatrixConfiguration) :
    (scaleHandler idScale update conf).1.units = conf.units := by
  rcases scaleHandler_cases idScale update conf with hkept | ⟨-, idx, scale, -, -, heq⟩
  · rw [hkept]
  · rw [heq]
    rfl

theorem parserTree_units
    (call : Nat)
    (tree : Json) :
    (parserTree call tree).Keeps MatrixConfiguration.units := by
  apply Filler.Keeps.steps
  intro p hp
  simp only [List.mem_cons, List.not_mem_nil, or_false] at hp
  rcases hp with rfl | rfl | rfl | rfl
  · intro s
    unfold setString
    cases (tree.getObjectItem "version").bind Json.getStringValue <;> rfl
  · refine Filler.Keeps.onPart ?_ _
    intro v s
    rfl
  · exact parserHardware_keeps (fun _ _ => rfl) (fun _ _ => rfl) call tree
  · exact parserScales_keeps (fun _ _ => rfl) tree

section Load

variable (cJsonParse : List UInt8 → Option Json)

theorem loadConfiguration_units
    (call : Nat)
    (file : ConfigurationFile)
    (conf : MatrixConfiguration) :
    (loadConfiguration cJsonParse call file conf).1.units = conf.units := by
  cases htext : file.text with
  | none => rw [(loadConfiguration_unread cJsonParse call htext conf).1]
  | some text =>
      have hparser : ((parserJSON cJsonParse call text).fill conf).units = conf.units := by
        unfold parserJSON
        cases cJsonParse text with
        | none => rfl
        | some tree => exact parserTree_units call tree conf
      rw [loadConfiguration_read cJsonParse htext]
      simp only
      split
      · exact hparser
      · exact hparser

/-- No call changes the units. -/
theorem serve_units
    (conf : MatrixConfiguration)
    (call : VpiCall) :
    (call.serve cJsonParse conf).1.units = conf.units := by
  cases call with
  | loadConfiguration call file => exact loadConfiguration_units cJsonParse call file conf
  | addScale pInstanceData =>
      change (addScale pInstanceData conf).1.units = conf.units
      rcases addScale_cases pInstanceData conf with hkept | ⟨-, -, heq⟩
      · rw [hkept]
      · rw [heq]
  | switchUnit p =>
      change (switchUnit p conf).1.units = conf.units
      rcases switchUnit_cases p conf with hkept | ⟨-, idx, scale, -, -, -, heq⟩
      · rw [hkept]
      · rw [heq]
        rfl
  | setMaximum pInstanceData => exact scaleHandler_units _ _ conf
  | setMinimum pInstanceData => exact scaleHandler_units _ _ conf
  | setDiscret p => exact scaleHandler_units _ _ conf
  | zeroTracking p => exact scaleHandler_units _ _ conf
  | setZeroInitialRange p => exact scaleHandler_units _ _ conf
  | setZeroManualRange p => exact scaleHandler_units _ _ conf
  | setZeroIndication p => exact scaleHandler_units _ _ conf
  | libVersion | setCalibrateZero | setCalibrateGane | setCalibrateZeroCorrection
  | setMaximumChannel | setAveragTime | processingCurMeasurement | stub | unknown => rfl

theorem runVpi_units
    (conf : MatrixConfiguration)
    (calls : List VpiCall) :
    (runVpi cJsonParse conf calls).units = conf.units := by
  induction calls generalizing conf with
  | nil => rfl
  | cons call rest ih => exact (ih _).trans (serve_units cJsonParse conf call)

/-- Behind a successful load the units are valid along any run exactly if the file has no
scales. -/
theorem loaded_validUnits_iff
    (earlier : List VpiCall)
    (call : Nat)
    {file : ConfigurationFile}
    {tree : Json}
    (hfile : file.document cJsonParse = some tree)
    (hok :
      (loadConfiguration cJsonParse call file (runVpi cJsonParse initialization earlier)).2 =
        matrixlibOk)
    (calls : List SwitchUnit) :
    HoldsAlong switchStep ValidUnits
        (loadConfiguration cJsonParse call file (runVpi cJsonParse initialization earlier)).1
        calls ↔
      scaleItems tree = [] := by
  have hchecked : documentWith channelsChecked tree = true := by
    have hdefect := (loadConfiguration_ok_iff cJsonParse hfile).mp hok
    simpa [otherDefect] using hdefect
  obtain ⟨json, flags, -, hload⟩ := loadConfiguration_tables cJsonParse call hfile hchecked
    (runVpi cJsonParse initialization earlier)
  have hunits :
      (loadConfiguration cJsonParse call file
        (runVpi cJsonParse initialization earlier)).1.units = [] := by
    rw [loadConfiguration_units, runVpi_units]
    rfl
  have hlength :
      (loadConfiguration cJsonParse call file
          (runVpi cJsonParse initialization earlier)).1.scaleConfiguration.length =
        (scaleItems tree).length := by
    rw [hload]
    simp [(parserTree_tables call hchecked _).2.2, length_resize]
  constructor
  · intro h
    have hvalid := ((validUnits_along_iff _ calls).mp h).1
    refine List.length_eq_zero_iff.mp (hlength.symm.trans (List.length_eq_zero_iff.mpr ?_))
    refine List.eq_nil_iff_forall_not_mem.mpr fun scale hscale => ?_
    have hbounds := hvalid scale hscale
    rw [hunits] at hbounds
    simp only [List.length_nil, Int.natCast_zero] at hbounds
    omega
  · intro h
    rw [h, List.length_nil] at hlength
    exact validUnits_along_of_no_scales (List.length_eq_zero_iff.mp hlength) calls

/-- **The unit of a scale.**  From any configuration the units of the scales are valid along a
run exactly if they are valid at the start and no served call has a negative index; an invalid
request is refused exactly if its index is not negative; and along any run behind a successful
load the units are valid exactly if the file has no scales. -/
theorem idxUnit_valid_iff :
    (∀ conf calls,
      HoldsAlong switchStep ValidUnits conf calls ↔
        ValidUnits conf ∧ MeetsAlong switchStep (fun conf p => p.KeepsUnits conf) conf calls) ∧
      (∀ (conf : MatrixConfiguration) (p : SwitchUnit),
        conf.ready → conf.scaleOf p.idScale ≠ none → p.Invalid conf →
          (switchUnit p conf = (conf, matrixlibParamError) ↔ 0 ≤ p.idxUnit)) ∧
      ∀ earlier call file tree calls,
        file.document cJsonParse = some tree →
        (loadConfiguration cJsonParse call file (runVpi cJsonParse initialization earlier)).2 =
          matrixlibOk →
        (HoldsAlong switchStep ValidUnits
            (loadConfiguration cJsonParse call file
              (runVpi cJsonParse initialization earlier)).1 calls ↔
          scaleItems tree = []) := by
  refine ⟨validUnits_along_iff, fun conf p => switchUnit_refused_iff, ?_⟩
  intro earlier call file tree calls hfile hok
  exact loaded_validUnits_iff cJsonParse earlier call hfile hok calls

end Load

/-- A document without scales. -/
def scalelessDocument : Json := sampleDocument [] []

/-- Loaded, with a request for the unit -5 of a scale that is not there. -/
theorem idxUnit_valid_scaleless :
    HoldsAlong switchStep ValidUnits
      (loadConfiguration (parsePrinted [scalelessDocument]) 0 (fileOf scalelessDocument)
        initialization).1 [⟨1, -5⟩] := by
  have hfile : (fileOf scalelessDocument).document (parsePrinted [scalelessDocument]) =
      some scalelessDocument :=
    fileOf_document (by decide +kernel) (by simp)
  have hok : (loadConfiguration (parsePrinted [scalelessDocument]) 0 (fileOf scalelessDocument)
      initialization).2 = matrixlibOk := by
    rw [loadConfiguration_ok_iff _ hfile]
    decide +kernel
  exact ((idxUnit_valid_iff (parsePrinted [scalelessDocument])).2.2
    [] 0 _ _ [⟨1, -5⟩] hfile hok).mpr (by decide +kernel)

/-- The scale of a complete document has the unit 0 of none, and the unit -5 is accepted for
it. -/
theorem idxUnit_of_completeDocument :
    (¬ HoldsAlong switchStep ValidUnits
        (loadConfiguration (parsePrinted [completeDocument]) 0 (fileOf completeDocument)
          initialization).1 []) ∧
      (switchUnit ⟨1, -5⟩
        (loadConfiguration (parsePrinted [completeDocument]) 0 (fileOf completeDocument)
          initialization).1).2 = matrixlibOk := by
  have hfile : (fileOf completeDocument).document (parsePrinted [completeDocument]) =
      some completeDocument :=
    fileOf_document (by decide +kernel) (by simp)
  have hok : (loadConfiguration (parsePrinted [completeDocument]) 0 (fileOf completeDocument)
      initialization).2 = matrixlibOk := by
    rw [loadConfiguration_ok_iff _ hfile]
    decide +kernel
  have hscales := loaded_validUnits_iff (parsePrinted [completeDocument]) [] 0 hfile hok []
  refine ⟨fun h => ?_, by decide +kernel⟩
  exact absurd (hscales.mp h) (by decide +kernel)

end Metrology
end MatrixBin
