import MatrixBin.Metrology.VpiHandlers

/-!
# What the VPI handlers may change

A call that fails should leave the configuration as it was, and a system that is not both
READY and in service mode should keep the calibration data of its channels and the
settings of its scales.  `Guarded` says so of one call.

`everyCallGuarded_iff` settles it for every run from every configuration: all handlers but
`setMaximumChannel` are guarded, and `setMaximumChannel` breaks the second part exactly
when `MovesLocked` holds of the state before the call.  `runVpi_sameMetrology` is the
consequence for whole runs: no handler changes the system flags, so a locked system stays
locked.
-/

namespace MatrixBin
namespace Metrology

open Library

/-! ### Protected data -/

/-- The calibration data of a channel. -/
structure ChannelMetrology where
  linearSections : List LinearSection
  zeroCalibrationValue : Int32
  diffZeroValue : Int32
  maxWeightValue : Int
deriving DecidableEq

/-- The limits, the discreteness and the zero settings of a scale. -/
structure ScaleMetrology where
  maximumWeight : Int
  minimumWeight : Int
  discretChannel : DiscretChannel
  zero : ZeroSettings
deriving DecidableEq

def Channel.metrology (ch : Channel) : ChannelMetrology :=
  ⟨ch.linearSections, ch.zeroCalibrationValue, ch.diffZeroValue, ch.maxWeightValue⟩

def ScaleConfiguration.metrology (scale : ScaleConfiguration) : ScaleMetrology :=
  ⟨scale.maximumWeight, scale.minimumWeight, scale.discretChannel, scale.zero⟩

/-- The same channels and scales with the same protected data. -/
structure SameMetrology (conf conf' : MatrixConfiguration) : Prop where
  channels :
    conf'.channelConfiguration.map (fun c => c.toChannel.metrology) =
      conf.channelConfiguration.map fun c => c.toChannel.metrology
  scales :
    conf'.scaleConfiguration.map ScaleConfiguration.metrology =
      conf.scaleConfiguration.map ScaleConfiguration.metrology

/-- READY and in service mode. -/
def MatrixConfiguration.Unlocked (conf : MatrixConfiguration) : Prop :=
  conf.ready = true ∧ conf.serviceMode = true

/-- What a call may do: nothing when it fails, nothing to the protected data when the
system is locked. -/
structure Guarded (conf : MatrixConfiguration) (result : MatrixConfiguration × Int) : Prop where
  failed : result.2 < 0 → result.1 = conf
  locked : ¬ conf.Unlocked → SameMetrology conf result.1

/-- The call is a load, the one handler that may write without the service mode. -/
def VpiCall.isLoad : VpiCall → Bool
  | .loadConfiguration _ _ => true
  | _ => false

/-- The call sets the maximum of a channel of a READY system without service mode: to
another value, or to one below a point of a raw-data channel. -/
def VpiCall.MovesLocked (conf : MatrixConfiguration) : VpiCall → Prop
  | .setMaximumChannel p =>
      conf.ready = true ∧ conf.serviceMode = false ∧
        ∃ ch, channelOf conf.system p.channel = some ch ∧
          (p.maxWeightValue ≠ ch.maxWeightValue ∨
            ch.rawData = true ∧ ∃ s ∈ ch.linearSections, p.maxWeightValue < s.rawValue.toInt)
  | _ => False

/-! ### Results that keep the configuration -/

theorem SameMetrology.refl
    (conf : MatrixConfiguration) :
    SameMetrology conf conf :=
  ⟨rfl, rfl⟩

theorem SameMetrology.trans
    {conf conf' conf'' : MatrixConfiguration}
    (h : SameMetrology conf conf')
    (h' : SameMetrology conf' conf'') :
    SameMetrology conf conf'' :=
  ⟨h'.channels.trans h.channels, h'.scales.trans h.scales⟩

theorem Guarded.of_unchanged
    {conf : MatrixConfiguration}
    {result : MatrixConfiguration × Int}
    (h : result.1 = conf) :
    Guarded conf result :=
  ⟨fun _ => h, fun _ => h ▸ SameMetrology.refl conf⟩

/-- A result with a changed configuration is guarded when it reports no error and the
system is unlocked. -/
theorem Guarded.of_unlocked
    {conf : MatrixConfiguration}
    {result : MatrixConfiguration × Int}
    (hunlocked : conf.Unlocked)
    (hcode : 0 ≤ result.2) :
    Guarded conf result :=
  ⟨fun hfailed => absurd hfailed (not_lt.mpr hcode), fun hlocked => absurd hunlocked hlocked⟩

theorem onSystem_unchanged
    {conf : MatrixConfiguration}
    {handler : SystemConfiguration → SystemConfiguration × Int}
    (h : (handler conf.system).1 = conf.system) :
    (conf.onSystem handler).1 = conf := by
  rw [MatrixConfiguration.onSystem, h, conf.withSystem_system]

theorem setChannel_self
    {sys : SystemConfiguration}
    {idx : Nat}
    {ch : Channel}
    (hget : sys.channelConfiguration[idx]? = some ch) :
    sys.setChannel idx ch = sys := by
  obtain ⟨hidx, rfl⟩ := List.getElem?_eq_some_iff.mp hget
  rw [SystemConfiguration.setChannel, List.set_getElem_self]

theorem map_set_eq_iff
    {α β : Type}
    (f : α → β)
    {l : List α}
    {idx : Nat}
    {a : α}
    (hget : l[idx]? = some a)
    (a' : α) :
    (l.set idx a').map f = l.map f ↔ f a' = f a := by
  obtain ⟨hidx, rfl⟩ := List.getElem?_eq_some_iff.mp hget
  constructor
  · intro h
    have hat := congrArg (fun l' => l'[idx]?) h
    simpa [hidx] using hat
  · intro h
    rw [List.map_set, h, ← List.map_set, List.set_getElem_self]

theorem sameMetrology_setScale
    {conf : MatrixConfiguration}
    {idx : Nat}
    {scale scale' : ScaleConfiguration}
    (hget : conf.scaleConfiguration[idx]? = some scale)
    (hsame : scale'.metrology = scale.metrology) :
    SameMetrology conf (conf.setScale idx scale') :=
  ⟨rfl, (map_set_eq_iff ScaleConfiguration.metrology hget scale').mpr hsame⟩

/-- The calibration data in the view of the channel handlers. -/
theorem map_metrology_system
    (conf : MatrixConfiguration) :
    (conf.channelConfiguration.map fun c => c.toChannel.metrology) =
      conf.system.channelConfiguration.map Channel.metrology := by
  simp [MatrixConfiguration.system, Function.comp_def]

theorem sameMetrology_setChannel_iff
    {conf : MatrixConfiguration}
    {idx : Nat}
    {ch : Channel}
    (hget : conf.system.channelConfiguration[idx]? = some ch)
    (ch' : Channel) :
    SameMetrology conf (conf.setChannel idx ch') ↔ ch'.metrology = ch.metrology := by
  have hchannels := map_set_eq_iff Channel.metrology hget ch'
  constructor
  · intro h
    have hsame := h.channels
    rw [map_metrology_system, map_metrology_system, system_setChannel] at hsame
    exact hchannels.mp hsame
  · intro h
    refine ⟨?_, rfl⟩
    rw [map_metrology_system, map_metrology_system, system_setChannel]
    exact hchannels.mpr h

/-! ### The frames of the handlers -/

section ChannelHandlers

variable {π : Type} {channelError : Int} {channel : π → Int}
variable {act : π → Channel → Channel × Int}

/-- A handler of channels that keeps the channel when it fails keeps the configuration. -/
theorem calibrationHandler_guarded
    (hact : ∀ p ch, (act p ch).2 < 0 → (act p ch).1 = ch)
    (p : π)
    (conf : MatrixConfiguration) :
    Guarded conf (conf.onSystem (calibrationHandler channelError channel act ⟨p, none⟩)) := by
  by_cases haccepted :
      conf.system.ready ∧ conf.system.serviceMode ∧ channelOf conf.system (channel p) ≠ none
  · obtain ⟨hready, hservice, hne⟩ := haccepted
    obtain ⟨ch, hch⟩ := Option.ne_none_iff_exists'.mp hne
    obtain ⟨idx, hidx, heq⟩ :=
      calibrationHandler_accepted channelError act hready hservice hch
    by_cases hcode : (act p ch).2 < 0
    · have hget : conf.system.channelConfiguration[idx]? = some ch := by
        simpa [channelOf, hidx] using hch
      refine Guarded.of_unchanged (onSystem_unchanged ?_)
      rw [heq, hact p ch hcode]
      exact setChannel_self hget
    · refine Guarded.of_unlocked ⟨hready, hservice⟩ ?_
      simpa [MatrixConfiguration.onSystem, heq] using hcode
  · exact Guarded.of_unchanged (onSystem_unchanged (calibrationHandler_refused haccepted))

end ChannelHandlers

theorem scaleHandler_guarded
    (idScale : Int)
    (update : ScaleConfiguration → ScaleConfiguration)
    (conf : MatrixConfiguration) :
    Guarded conf (scaleHandler idScale update conf) := by
  rcases scaleHandler_cases idScale update conf with
    hkept | ⟨hunlocked, idx, scale, -, -, heq⟩
  · exact Guarded.of_unchanged hkept
  · rw [heq]
    exact Guarded.of_unlocked hunlocked le_rfl

theorem calibrateZero_failed
    (p : ZeroCalibration)
    (ch : Channel)
    (h : (calibrateZero p ch).2 < 0) :
    (calibrateZero p ch).1 = ch := by
  unfold calibrateZero at h ⊢
  split at h
  · simp [matrixlibOk] at h
  · rw [if_neg ‹_›]

theorem calibrateGane_failed
    (p : GaneCalibration)
    (ch : Channel)
    (h : (calibrateGane p ch).2 < 0) :
    (calibrateGane p ch).1 = ch := by
  unfold calibrateGane at h ⊢
  split_ifs at h ⊢
  · rfl
  · rfl
  · exact absurd h (by simp [setCalibrationGaneChannel])
  · rfl

theorem calibrateZeroCorrection_failed
    (p : ZeroCorrection)
    (ch : Channel)
    (h : (calibrateZeroCorrection p ch).2 < 0) :
    (calibrateZeroCorrection p ch).1 = ch := by
  unfold calibrateZeroCorrection at h ⊢
  split_ifs at h ⊢
  · rfl
  · simp [matrixlibOk] at h
  · rfl

theorem averagTimeChannel_failed
    (now : Int)
    (p : AveragTime)
    (ch : Channel)
    (h : (averagTimeChannel now p ch).2 < 0) :
    (averagTimeChannel now p ch).1 = ch := by
  simp [averagTimeChannel, matrixlibOk] at h

/-! ### The handlers with a body of their own -/

theorem addScale_guarded
    (pInstanceData : BitVec 64)
    (conf : MatrixConfiguration) :
    Guarded conf (addScale pInstanceData conf) := by
  rcases addScale_cases pInstanceData conf with hkept | ⟨hunlocked, -, heq⟩
  · exact Guarded.of_unchanged hkept
  · rw [heq]
    exact Guarded.of_unlocked hunlocked le_rfl

/-- The unit of a scale is not protected data. -/
theorem switchUnit_guarded
    (p : SwitchUnit)
    (conf : MatrixConfiguration) :
    Guarded conf (switchUnit p conf) := by
  rcases switchUnit_cases p conf with hkept | ⟨-, idx, scale, -, hget, -, heq⟩
  · exact Guarded.of_unchanged hkept
  · rw [heq]
    exact
      ⟨fun hfailed => absurd hfailed (lt_irrefl _), fun _ => sameMetrology_setScale hget rfl⟩

theorem processingCurMeasurement_guarded
    (p : CurMeasurement)
    (now : Int)
    (conf : MatrixConfiguration) :
    Guarded conf
      (conf.onSystem fun sys =>
        ((processingCurMeasurement ⟨p, none⟩ now sys).conf,
          (processingCurMeasurement ⟨p, none⟩ now sys).code)) := by
  rcases processingCurMeasurement_cases p now conf.system with hkept | ⟨hunlocked, hcode, -⟩
  · exact Guarded.of_unchanged (onSystem_unchanged hkept)
  · exact Guarded.of_unlocked hunlocked (le_of_eq hcode.symm)

/-- The new maximum leaves the calibration data alone when it is the old one and no point
lies above it. -/
theorem maximumChannel_metrology_iff
    (p : SetMaximumChannel)
    (ch : Channel) :
    (maximumChannel p ch).metrology = ch.metrology ↔
      ¬ (p.maxWeightValue ≠ ch.maxWeightValue ∨
        ch.rawData = true ∧ ∃ s ∈ ch.linearSections, p.maxWeightValue < s.rawValue.toInt) := by
  by_cases hraw : ch.rawData
  · have hfilter :
        eraseAbove p.maxWeightValue ch.linearSections.length ch.linearSections =
            ch.linearSections ↔
          ¬ ∃ s ∈ ch.linearSections, p.maxWeightValue < s.rawValue.toInt := by
      simp [eraseAbove_eq_filter, List.filter_eq_self]
    have hraw' : ({ ch with maxWeightValue := p.maxWeightValue } : Channel).rawData := hraw
    simp only [maximumChannel, if_pos hraw', Channel.metrology, ChannelMetrology.mk.injEq,
      hfilter, hraw, true_and, ne_eq, not_or, not_not]
    exact and_comm
  · have hraw' : ¬ ({ ch with maxWeightValue := p.maxWeightValue } : Channel).rawData := hraw
    simp [maximumChannel, if_neg hraw', Channel.metrology, hraw]

/-- The handler without the test of the service mode. -/
theorem setMaximumChannel_guarded_iff
    (p : SetMaximumChannel)
    (conf : MatrixConfiguration) :
    Guarded conf (conf.onSystem (setMaximumChannel ⟨p, none⟩)) ↔
      ¬ VpiCall.MovesLocked conf (.setMaximumChannel p) := by
  by_cases haccepted : conf.system.ready ∧ channelOf conf.system p.channel ≠ none
  · obtain ⟨hready, hne⟩ := haccepted
    obtain ⟨ch, hch⟩ := Option.ne_none_iff_exists'.mp hne
    obtain ⟨idx, hget, heq⟩ := setMaximumChannel_accepted hready hch
    have hsame := sameMetrology_setChannel_iff hget (maximumChannel p ch)
    rw [maximumChannel_metrology_iff] at hsame
    rw [MatrixConfiguration.onSystem, heq, conf.withSystem_setChannel]
    constructor
    · rintro hguarded ⟨-, hservice, ch', hch', hmoves⟩
      obtain rfl : ch = ch' := Option.some.inj (hch.symm.trans hch')
      have hlocked : ¬ conf.Unlocked := fun h => absurd h.2 (by simp [hservice])
      exact hsame.mp (hguarded.locked hlocked) hmoves
    · intro hstays
      refine ⟨fun hfailed => absurd hfailed (lt_irrefl _), fun hlocked => ?_⟩
      refine hsame.mpr fun hmoves => hstays ⟨hready, ?_, ch, hch, hmoves⟩
      exact Bool.eq_false_iff.mpr fun hservice => hlocked ⟨hready, hservice⟩
  · refine iff_of_true
      (Guarded.of_unchanged (onSystem_unchanged (setMaximumChannel_refused haccepted))) ?_
    rintro ⟨hready, -, ch, hch, -⟩
    exact haccepted ⟨hready, by simp [hch]⟩

/-! ### Every call of every run -/

section Runs

variable (cJsonParse : List UInt8 → Option Json)

/-- A call that is no load is guarded exactly when it does not set the maximum of a channel
of a locked system. -/
theorem serve_guarded_iff
    {call : VpiCall}
    (hload : call.isLoad = false)
    (conf : MatrixConfiguration) :
    Guarded conf (call.serve cJsonParse conf) ↔ ¬ call.MovesLocked conf := by
  cases call with
  | loadConfiguration call file => cases hload
  | setMaximumChannel p => exact setMaximumChannel_guarded_iff p conf
  | libVersion call p => exact iff_of_true (Guarded.of_unchanged rfl) not_false
  | setMaximum d => exact iff_of_true (scaleHandler_guarded _ _ conf) not_false
  | setMinimum d => exact iff_of_true (scaleHandler_guarded _ _ conf) not_false
  | addScale d => exact iff_of_true (addScale_guarded d conf) not_false
  | setCalibrateZero p =>
      exact iff_of_true (calibrationHandler_guarded calibrateZero_failed p conf) not_false
  | setCalibrateGane p =>
      exact iff_of_true (calibrationHandler_guarded calibrateGane_failed p conf) not_false
  | setCalibrateZeroCorrection p =>
      exact iff_of_true (calibrationHandler_guarded calibrateZeroCorrection_failed p conf)
        not_false
  | setAveragTime now p =>
      exact iff_of_true (calibrationHandler_guarded (averagTimeChannel_failed now) p conf)
        not_false
  | processingCurMeasurement now p =>
      exact iff_of_true (processingCurMeasurement_guarded p now conf) not_false
  | setDiscret p => exact iff_of_true (scaleHandler_guarded _ _ conf) not_false
  | zeroTracking p => exact iff_of_true (scaleHandler_guarded _ _ conf) not_false
  | setZeroInitialRange p => exact iff_of_true (scaleHandler_guarded _ _ conf) not_false
  | setZeroManualRange p => exact iff_of_true (scaleHandler_guarded _ _ conf) not_false
  | setZeroIndication p => exact iff_of_true (scaleHandler_guarded _ _ conf) not_false
  | switchUnit p => exact iff_of_true (switchUnit_guarded p conf) not_false
  | stub handler => exact iff_of_true (Guarded.of_unchanged rfl) not_false
  | unknown => exact iff_of_true (Guarded.of_unchanged rfl) not_false

/-- Every call of the run but the loads is guarded. -/
def EveryCallGuarded (conf : MatrixConfiguration) (calls : List VpiCall) : Prop :=
  ∀ past call later, calls = past ++ call :: later → call.isLoad = false →
    Guarded (runVpi cJsonParse conf past) (call.serve cJsonParse (runVpi cJsonParse conf past))

theorem everyCallGuarded_iff
    (conf : MatrixConfiguration)
    (calls : List VpiCall) :
    EveryCallGuarded cJsonParse conf calls ↔
      ∀ past call later, calls = past ++ call :: later →
        ¬ call.MovesLocked (runVpi cJsonParse conf past) := by
  constructor
  · intro hguarded past call later hcalls
    cases hload : call.isLoad with
    | true =>
        cases call with
        | loadConfiguration call file => exact not_false
        | _ => cases hload
    | false =>
        exact (serve_guarded_iff cJsonParse hload _).mp (hguarded past call later hcalls hload)
  · intro hstays past call later hcalls hload
    exact (serve_guarded_iff cJsonParse hload _).mpr (hstays past call later hcalls)

/-! ### Locked runs -/

theorem setMaximumChannel_flagSystem
    (p : SetMaximumChannel)
    (sys : SystemConfiguration) :
    (setMaximumChannel ⟨p, none⟩ sys).1.flagSystem = sys.flagSystem := by
  by_cases haccepted : sys.ready ∧ channelOf sys p.channel ≠ none
  · obtain ⟨ch, hch⟩ := Option.ne_none_iff_exists'.mp haccepted.2
    obtain ⟨idx, -, heq⟩ := setMaximumChannel_accepted haccepted.1 hch
    rw [heq]
    rfl
  · rw [setMaximumChannel_refused haccepted]

theorem scaleHandler_flagSystem
    (idScale : Int)
    (update : ScaleConfiguration → ScaleConfiguration)
    (conf : MatrixConfiguration) :
    (scaleHandler idScale update conf).1.flagSystem = conf.flagSystem := by
  rcases scaleHandler_cases idScale update conf with
    hkept | ⟨-, idx, scale, -, -, heq⟩
  · rw [hkept]
  · rw [heq]
    rfl

theorem addScale_flagSystem
    (pInstanceData : BitVec 64)
    (conf : MatrixConfiguration) :
    (addScale pInstanceData conf).1.flagSystem = conf.flagSystem := by
  rcases addScale_cases pInstanceData conf with hkept | ⟨-, -, heq⟩
  · rw [hkept]
  · rw [heq]

theorem switchUnit_flagSystem
    (p : SwitchUnit)
    (conf : MatrixConfiguration) :
    (switchUnit p conf).1.flagSystem = conf.flagSystem := by
  rcases switchUnit_cases p conf with hkept | ⟨-, idx, scale, -, -, -, heq⟩
  · rw [hkept]
  · rw [heq]
    rfl

theorem serve_flagSystem
    {call : VpiCall}
    (hload : call.isLoad = false)
    (conf : MatrixConfiguration) :
    (call.serve cJsonParse conf).1.flagSystem = conf.flagSystem := by
  cases call with
  | loadConfiguration call file => cases hload
  | setMaximumChannel p => exact setMaximumChannel_flagSystem p conf.system
  | processingCurMeasurement now p => exact processingCurMeasurement_flagSystem p now conf.system
  | setCalibrateZero p => exact calibrationHandler_flagSystem p conf.system
  | setCalibrateGane p => exact calibrationHandler_flagSystem p conf.system
  | setCalibrateZeroCorrection p => exact calibrationHandler_flagSystem p conf.system
  | setAveragTime now p => exact calibrationHandler_flagSystem p conf.system
  | addScale d => exact addScale_flagSystem d conf
  | switchUnit p => exact switchUnit_flagSystem p conf
  | libVersion call p => rfl
  | stub handler => rfl
  | unknown => rfl
  | _ => exact scaleHandler_flagSystem _ _ conf

/-- A locked system stays locked, and keeps its protected data as long as no call sets the
maximum of a channel and no file is loaded. -/
theorem runVpi_sameMetrology
    {conf : MatrixConfiguration}
    {calls : List VpiCall}
    (hlocked : ¬ conf.Unlocked)
    (hload : ∀ call ∈ calls, call.isLoad = false)
    (hstays : ∀ past call later, calls = past ++ call :: later →
      ¬ call.MovesLocked (runVpi cJsonParse conf past)) :
    SameMetrology conf (runVpi cJsonParse conf calls) := by
  induction calls generalizing conf with
  | nil => exact SameMetrology.refl conf
  | cons call rest ih =>
      have hfirst : call.isLoad = false := hload call List.mem_cons_self
      have hguarded : Guarded conf (call.serve cJsonParse conf) :=
        (serve_guarded_iff cJsonParse hfirst conf).mpr (hstays [] call rest rfl)
      have hflags := serve_flagSystem cJsonParse hfirst conf
      have hlocked' : ¬ (call.serve cJsonParse conf).1.Unlocked := by
        simpa [MatrixConfiguration.Unlocked, MatrixConfiguration.ready,
          MatrixConfiguration.serviceMode, hflags] using hlocked
      refine (hguarded.locked hlocked).trans
        (ih hlocked' (fun c hc => hload c (List.mem_cons_of_mem _ hc)) ?_)
      intro past c later hrest
      exact hstays (call :: past) c later (congrArg (call :: ·) hrest)

end Runs

/-- A channel that admits 20000. -/
def oneChannel : Json :=
  sampleDocument [sampleChannel [] (sampleMetrology [])] [sampleScale []]

/-- After a load, READY but not in service mode, the channel gets another maximum. -/
theorem maximum_moves_locked :
    let conf :=
      runVpi (parsePrinted [oneChannel]) initialization
        [.loadConfiguration 0 (fileOf oneChannel)]
    conf.ready = true ∧ conf.serviceMode = false ∧
      conf.channelConfiguration.map (fun c => c.maxWeightValue) = [20000] ∧
      (VpiCall.serve (parsePrinted [oneChannel]) conf (.setMaximumChannel ⟨1, 500⟩)).2 =
        matrixlibOk ∧
      (VpiCall.serve (parsePrinted [oneChannel]) conf
        (.setMaximumChannel ⟨1, 500⟩)).1.channelConfiguration.map
          (fun c => c.maxWeightValue) = [500] ∧
      ¬ EveryCallGuarded (parsePrinted [oneChannel]) initialization
        [.loadConfiguration 0 (fileOf oneChannel), .setMaximumChannel ⟨1, 500⟩] := by
  intro conf
  have hfacts :
      conf.ready = true ∧ conf.serviceMode = false ∧
        conf.channelConfiguration.map (fun c => c.maxWeightValue) = [20000] ∧
        (VpiCall.serve (parsePrinted [oneChannel]) conf (.setMaximumChannel ⟨1, 500⟩)).2 =
          matrixlibOk ∧
        (VpiCall.serve (parsePrinted [oneChannel]) conf
          (.setMaximumChannel ⟨1, 500⟩)).1.channelConfiguration.map
            (fun c => c.maxWeightValue) = [500] := by
    decide +kernel
  obtain ⟨hready, hlocked, hbefore, hcode, hafter⟩ := hfacts
  refine ⟨hready, hlocked, hbefore, hcode, hafter, ?_⟩
  intro hguarded
  have hcall :=
    hguarded [.loadConfiguration 0 (fileOf oneChannel)] (.setMaximumChannel ⟨1, 500⟩) [] rfl rfl
  have hsame := (hcall.locked fun h => Bool.false_ne_true (hlocked.symm.trans h.2)).channels
  have hmaximum := congrArg (List.map ChannelMetrology.maxWeightValue) hsame
  simp only [List.map_map, Function.comp_def, Channel.metrology] at hmaximum
  exact absurd (hafter.symm.trans (hmaximum.trans hbefore)) (by decide)

end Metrology
end MatrixBin
