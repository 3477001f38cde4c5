import MatrixBin.Library.DispatchTable
import MatrixBin.Metrology.VpiHandlers
import Mathlib.Data.List.Pairwise

/-!
# The entry points `VpiMain`

The metrology library (`matrixlib.cc`) and the database library (`postgreSQL_scales.c`) have an
entry point of one shape each: a table of functions, a check that the number of the call is not
greater than the size of the table, and a call of what the table holds.  The numbers of the
metrology library count from 0, those of the database library from 1.

`VPI_SET_WIM_ADJUSTMENT` and `VPI_WIM_PRINT` are one number, `addScale` is registered nowhere,
and neither check excludes the numbers below the table.
-/

namespace MatrixBin

open Library

/-! ### The metrology library -/

namespace Metrology

/-- The functions of `interface_matrixlib.h` that have a body in the library. -/
inductive VpiFunction
  | libVersion | loadConfiguration | setMaximum | setMinimum
  | setCalibrateZero | setCalibrateGane | setCalibrateZeroCorrection
  | zeroTracking | setZeroManualRange | setZeroInitialRange
  | setMaximumChannel | setDiscret | setAveragTime | setZeroIndication
  | processingCurMeasurement | switchUnit | addScale
  | stub (handler : VpiStub)
deriving DecidableEq, Repr

/-- The numbers of the functions that only print their name. -/
def VpiStub.number : VpiStub → Nat
  | .getTAC => 102
  | .saveConfiguration => 104
  | .setRangeMode => 107
  | .setIncrementSize => 108
  | .setDecPoint => 109
  | .setLinearization => 113
  | .saveCalibration => 114
  | .setWarmUpTime => 115
  | .zeroSet => 123
  | .zeroReset => 124
  | .zeroSave => 125
  | .zeroRestore => 126
  | .tareMode => 140
  | .tareSet => 141
  | .tareReset => 142
  | .tarePreset => 143
  | .tareSave => 144
  | .tareRestore => 145
  | .tareAutoSet => 146
  | .tareAutoClear => 147
  | .filteringPerform => 161
  | .calculateWeight => 162
  | .normalizeWeight => 163
  | .isMotion => 165
  | .modeX10 => 166
  | .setChannelOnOff => 167
  | .print => 180
  | .saveResults => 181
  | .setWimMaxCapacity => 200
  | .setWimMinCapacity => 201
  | .setWimMaxPlatform => 202
  | .setWimMinPlatform => 203
  | .setWimMaxWagonMass => 204
  | .setWimMinWagonMass => 205
  | .setWimMaxTrainMass => 206
  | .setWimMinTrainMass => 207
  | .setWimMaxSpeed => 208
  | .setWimMinSpeed => 209
  | .setWimMaxTransitSpeed => 210
  | .setWimAdjusment => 220
  | .wimCalculateSpeed => 211
  | .wimSolver => 212
  | .wimPrint => 220
  | .wimSaveResults => 221
  | .resetToFactory => 500

/-- The `VPI_*` number of a function. -/
def VpiFunction.number : VpiFunction → Nat
  | .libVersion => 101
  | .loadConfiguration => 103
  | .setMaximum => 105
  | .setMinimum => 106
  | .setCalibrateZero => 110
  | .setCalibrateGane => 111
  | .setCalibrateZeroCorrection => 112
  | .zeroTracking => 120
  | .setZeroManualRange => 121
  | .setZeroInitialRange => 122
  | .setMaximumChannel => 127
  | .setDiscret => 128
  | .setAveragTime => 129
  | .setZeroIndication => 130
  | .processingCurMeasurement => 160
  | .switchUnit => 164
  | .addScale => 401
  | .stub handler => handler.number

/-- `VPI_MAX_FUNCTION` -/
def vpiMaxFunction : Nat := 1000

/-- The assignments of `initialization`, in their order. -/
def registered : List VpiFunction :=
  [.libVersion, .stub .getTAC, .loadConfiguration, .stub .saveConfiguration,
    .setMaximum, .setMinimum, .stub .setRangeMode, .stub .setIncrementSize, .stub .setDecPoint,
    .setCalibrateZero, .setCalibrateGane, .setCalibrateZeroCorrection, .stub .setLinearization,
    .stub .saveCalibration, .stub .setWarmUpTime,
    .zeroTracking, .setZeroManualRange, .setZeroInitialRange,
    .stub .zeroSet, .stub .zeroReset, .stub .zeroSave, .stub .zeroRestore,
    .setMaximumChannel, .setDiscret, .setAveragTime, .setZeroIndication,
    .stub .tareMode, .stub .tareSet, .stub .tareReset, .stub .tarePreset, .stub .tareSave,
    .stub .tareRestore, .stub .tareAutoSet, .stub .tareAutoClear,
    .processingCurMeasurement, .stub .filteringPerform, .stub .calculateWeight,
    .stub .normalizeWeight, .switchUnit, .stub .isMotion, .stub .modeX10, .stub .setChannelOnOff,
    .stub .print, .stub .saveResults,
    .stub .setWimMaxCapacity, .stub .setWimMinCapacity, .stub .setWimMaxPlatform,
    .stub .setWimMinPlatform, .stub .setWimMaxWagonMass, .stub .setWimMinWagonMass,
    .stub .setWimMaxTrainMass, .stub .setWimMinTrainMass, .stub .setWimMaxSpeed,
    .stub .setWimMinSpeed, .stub .setWimMaxTransitSpeed,
    .stub .setWimAdjusment, .stub .wimCalculateSpeed, .stub .wimSolver, .stub .wimPrint,
    .stub .wimSaveResults, .stub .resetToFactory]

/-- `VpiFunc` behind `initialization`. -/
def vpiFunc : List (Option VpiFunction) := registerAll VpiFunction.number vpiMaxFunction registered

/-- `VpiMain`: what it comes to for the number of the call block. -/
def vpiMain (function : Int) : Dispatched VpiFunction :=
  dispatch vpiFunc 0 matrixlibRecoveryFunctionError function

theorem mem_registered (f : VpiFunction) : f = .addScale ∨ f ∈ registered := by
  cases f with
  | stub handler => cases handler <;> exact Or.inr (by decide)
  | _ => decide

/-- No number but 220 is given twice. -/
theorem number_injective
    {f g : VpiFunction}
    (hnumber : f.number = g.number)
    (hne : f.number ≠ 220) :
    f = g := by
  have hpairwise : (VpiFunction.addScale :: registered).Pairwise
      fun f g => f.number = g.number → f.number = 220 := by decide +kernel
  have hsymmetric : Std.Symm fun f g : VpiFunction => f.number = g.number → f.number = 220 :=
    ⟨fun f g h heq => heq.trans (h heq.symm)⟩
  have hmem (f : VpiFunction) : f ∈ VpiFunction.addScale :: registered := by
    rcases mem_registered f with rfl | hf
    · exact List.mem_cons_self
    · exact List.mem_cons_of_mem _ hf
  by_contra hfg
  exact hne (hpairwise.forall (hmem f) (hmem g) hfg hnumber)

theorem number_le (f : VpiFunction) : f.number < vpiMaxFunction := by
  cases f with
  | stub handler => cases handler <;> decide
  | _ => decide

/-- The numbers for which the entry point of the metrology library is right. -/
theorem vpiMain_right_iff
    (function : Int) :
    RightAt VpiFunction.number matrixlibRecoveryFunctionError function (vpiMain function) ↔
      1000 < function ∨ (0 ≤ function ∧ function < 1000 ∧ function ≠ 220 ∧ function ≠ 401) := by
  have hright : RightAt VpiFunction.number matrixlibRecoveryFunctionError function
        (vpiMain function) ↔
      (vpiMaxFunction : Int) < function ∨
        (((0 : Nat) : Int) ≤ function ∧ function < (vpiMaxFunction : Int) + ((0 : Nat) : Int) ∧
          (∀ f : VpiFunction, (f.number : Int) = function → f ∈ registered) ∧
            ∀ f g : VpiFunction, (f.number : Int) = function → (g.number : Int) = function →
              f = g) := by
    have hindex : VpiFunction.number = fun f => f.number - 0 := by simp only [Nat.sub_zero]
    rw [vpiMain, vpiFunc]
    nth_rewrite 2 [hindex]
    exact dispatch_right_iff (fun f => Nat.zero_le f.number) fun f => (number_le f).le
  have hregistered : (∀ f : VpiFunction, (f.number : Int) = function → f ∈ registered) ↔
      function ≠ 401 := by
    constructor
    · rintro h rfl
      exact absurd (h .addScale rfl) (by decide)
    · intro hne f hf
      refine (mem_registered f).resolve_left ?_
      rintro rfl
      exact hne hf.symm
  have hunique : (∀ f g : VpiFunction, (f.number : Int) = function →
      (g.number : Int) = function → f = g) ↔ function ≠ 220 := by
    constructor
    · rintro h rfl
      exact absurd (h (.stub .setWimAdjusment) (.stub .wimPrint) rfl rfl) (by decide)
    · intro hne f g hf hg
      exact number_injective (by omega) (by omega)
  rw [hright, hregistered, hunique]
  simp only [vpiMaxFunction]
  omega

end Metrology

/-! ### The database library -/

namespace Postgres

/-- The functions of the table of `postgreSQL_scales.c`. -/
inductive VpiFunction
  | libVersion | connectToDB | connectClose | serverVersion | writeTrain
deriving DecidableEq, Repr

/-- The `VPI_*` number of a function; the numbers 6 to 16 have none. -/
def VpiFunction.number : VpiFunction → Nat
  | .libVersion => 1
  | .connectToDB => 2
  | .connectClose => 3
  | .serverVersion => 4
  | .writeTrain => 5

/-- `SCALES_RECOVERY_ERROR` -/
def scalesRecoveryError : Int := -1

/-- `VpiFunc` -/
def vpiFunc : List (Option VpiFunction) :=
  [some .libVersion, some .connectToDB, some .connectClose, some .serverVersion, some .writeTrain,
    none, none, none, none, none, none, none, none, none, none, none, none, none, none, none]

/-- `VpiMain`: what it comes to for the number of the call block. -/
def vpiMain (function : Int) : Dispatched VpiFunction :=
  dispatch vpiFunc 1 scalesRecoveryError function

/-- The table is the one that registering the five functions gives. -/
theorem vpiFunc_eq_registerAll :
    vpiFunc =
      registerAll (fun f : VpiFunction => f.number - 1) 20
        [.libVersion, .connectToDB, .connectClose, .serverVersion, .writeTrain] := rfl

/-- The numbers for which the entry point of the database library is right. -/
theorem vpiMain_right_iff
    (function : Int) :
    RightAt VpiFunction.number scalesRecoveryError function (vpiMain function) ↔ 1 ≤ function := by
  have hregistered (f : VpiFunction) :
      f ∈ [VpiFunction.libVersion, .connectToDB, .connectClose, .serverVersion, .writeTrain] := by
    cases f <;> decide
  have hunique (f g : VpiFunction) (hf : (f.number : Int) = function)
      (hg : (g.number : Int) = function) : f = g := by
    have hnumber : f.number = g.number := by omega
    cases f <;> cases g <;> first | rfl | exact absurd hnumber (by decide)
  have hbounds (f : VpiFunction) : 1 ≤ f.number ∧ f.number ≤ 20 := by
    cases f <;> decide
  rw [vpiMain, vpiFunc_eq_registerAll,
    dispatch_right_iff (fun f => (hbounds f).1) fun f => (hbounds f).2]
  constructor
  · rintro (habove | ⟨hlow, -⟩) <;> omega
  · intro hlow
    by_cases habove : ((20 : Nat) : Int) < function
    · exact Or.inl habove
    · exact Or.inr ⟨by omega, by omega, fun f _ => hregistered f, hunique⟩

end Postgres

/-! ### Both -/

/-- **The entry points.**  A call of the metrology library stays inside the table, reaches the
functions of its number and no other and returns the recovery error for the other numbers
exactly if the number is none below 0, not the size of the table and neither 220 nor 401; a call
of the database library exactly if the number is positive. -/
theorem vpiMain_dispatches_iff
    (function : Int) :
    (RightAt Metrology.VpiFunction.number Metrology.matrixlibRecoveryFunctionError function
        (Metrology.vpiMain function) ↔
      1000 < function ∨ (0 ≤ function ∧ function < 1000 ∧ function ≠ 220 ∧ function ≠ 401)) ∧
      (RightAt Postgres.VpiFunction.number Postgres.scalesRecoveryError function
          (Postgres.vpiMain function) ↔
        1 ≤ function) :=
  ⟨Metrology.vpiMain_right_iff function, Postgres.vpiMain_right_iff function⟩

/-- The table is read behind its end and before its start, the number of `setWimAdjusment`
reaches `wimPrint`, and `addScale` is refused. -/
theorem vpiMain_misdirects :
    Metrology.vpiMain 1000 = .outOfBounds ∧ Metrology.vpiMain (-1) = .outOfBounds ∧
      Metrology.vpiMain (Metrology.VpiStub.number .setWimAdjusment) = .called (.stub .wimPrint) ∧
      Metrology.vpiMain (Metrology.VpiFunction.number .addScale) =
        .returned Metrology.matrixlibRecoveryFunctionError ∧
      Postgres.vpiMain 0 = .outOfBounds ∧
      ¬ RightAt Metrology.VpiFunction.number Metrology.matrixlibRecoveryFunctionError 1000
        (Metrology.vpiMain 1000) := by
  have hend : Metrology.vpiMain 1000 = .outOfBounds := by decide +kernel
  refine ⟨hend, by decide +kernel, by decide +kernel, by decide +kernel, by decide, fun h => ?_⟩
  exact h.inBounds hend

end MatrixBin
