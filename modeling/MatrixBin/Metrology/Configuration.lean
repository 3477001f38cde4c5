import Mathlib.Data.List.Basic
import MatrixBin.Library.FloatFormat

/-!
# Metrology configuration (`typedef_matrixlib.h`, `interface_matrixlib.h`)

The part of the global `Configuration` that the calibration handlers and the
measurement handler read and write: the system flags and the table of measuring
channels.  Raw values are 32-bit integers, whose differences wrap around; ratios
and averaged weights are floats, rounded as binary32 wherever a result does not
name another `Rounding`.  Texts, sensors, sections and scales of the configuration
are not read by these handlers and are left out.
-/

namespace MatrixBin
namespace Metrology

open Library

/-! ### Numbers -/

/-- The C type `float`. -/
instance floatRounding : Rounding := FloatFormat.binary32.rounding

/-- The values of an `int`. -/
def FitsInt (a : Int) : Prop := -2147483648 ≤ a ∧ a ≤ 2147483647

instance (a : Int) : Decidable (FitsInt a) := inferInstanceAs (Decidable (_ ∧ _))

/-- A difference of raw values that is an `int` is the one that is computed. -/
theorem toInt_sub_of_fits
    {a b : Int32}
    (h : FitsInt (a.toInt - b.toInt)) :
    (a - b).toInt = a.toInt - b.toInt := by
  obtain ⟨hlow, hhigh⟩ := h
  rw [Int32.toInt_sub]
  exact Int.bmod_eq_of_le (by omega) (by omega)

/-! ### Return codes -/

def matrixlibOk : Int := 0
def matrixlibParamError : Int := -2
def matrixlibSystemNotConfiguration : Int := -5
def matrixlibSystemNoInServiceMode : Int := -6
def matrixlibExecutionSequenceError : Int := -7
def matrixlibLinearitazionError : Int := -8
def matrixlibChannelError : Int := -9

/-! ### Flags -/

def flChannelRawData : UInt32 := 0x0001
def flChannelAveragValue : UInt32 := 0x0004

def flSystemConfigurationReady : UInt32 := 0x0001
def flSystemServiceMode : UInt32 := 0x0002

/-- The C test `flags & fl`. -/
def hasFlag (flags fl : UInt32) : Bool :=
  flags &&& fl != 0

/-! ### Channels -/

/-- `LinearSection_t`: one calibration point, with the ratio from this point to the next. -/
structure LinearSection where
  rawValue : Int32
  weightValue : Int
  ratio : FloatValue
deriving DecidableEq, Repr

/-- `AveragValue_t` -/
structure AveragValue where
  averagTime : Int
  averagWeightValue : FloatValue
  averagRawValue : Int
  startTime : Int
deriving DecidableEq, Repr

/-- `Channel_t`: measuring channel. -/
structure Channel where
  channel : Int
  flagChannel : UInt32
  maxWeightValue : Int
  zeroCalibrationValue : Int32
  diffZeroValue : Int32
  averagValue : AveragValue
  linearSections : List LinearSection
deriving DecidableEq, Repr

/-- The channel works in RAW_DATA mode. -/
def Channel.rawData (ch : Channel) : Bool :=
  hasFlag ch.flagChannel flChannelRawData

/-- `SystemConfiguration_t` -/
structure SystemConfiguration where
  flagSystem : UInt32
  channelConfiguration : List Channel
deriving DecidableEq, Repr

def SystemConfiguration.ready (conf : SystemConfiguration) : Bool :=
  hasFlag conf.flagSystem flSystemConfigurationReady

def SystemConfiguration.serviceMode (conf : SystemConfiguration) : Bool :=
  hasFlag conf.flagSystem flSystemServiceMode

/-- `getIdxChannel`: the first channel with the given identifier, `none` for the
`-1` of the source. -/
def getIdxChannel (conf : SystemConfiguration) (channel : Int) : Option Nat :=
  conf.channelConfiguration.findIdx? (fun ch => ch.channel == channel)

/-- The channel that `getIdxChannel` addresses. -/
def channelOf (conf : SystemConfiguration) (channel : Int) : Option Channel :=
  (getIdxChannel conf channel).bind (fun idx => conf.channelConfiguration[idx]?)

/-- Store a channel at an index of the table. -/
def SystemConfiguration.setChannel
    (conf : SystemConfiguration) (idx : Nat) (ch : Channel) : SystemConfiguration :=
  { conf with channelConfiguration := conf.channelConfiguration.set idx ch }

/-- VDB, the call block: the parameter structure that `pParam` points to and the
alternative function `fun`, which replaces the handler when it is set. -/
structure Vdb (π : Type) where
  pParam : π
  funAdd : Option (π → SystemConfiguration → π × SystemConfiguration × Int)

/-! ### Addressing channels -/

theorem channelOf_eq_find
    (conf : SystemConfiguration)
    (channel : Int) :
    channelOf conf channel =
      conf.channelConfiguration.find? (fun ch => ch.channel == channel) := by
  unfold channelOf getIdxChannel
  induction conf.channelConfiguration with
  | nil => rfl
  | cons ch rest ih =>
      simp only [List.findIdx?_cons, List.find?_cons]
      cases h : ch.channel == channel with
      | true => rfl
      | false =>
          rw [← ih]
          cases List.findIdx? (fun ch => ch.channel == channel) rest with
          | none => rfl
          | some idx => rfl

theorem channelOf_id
    {conf : SystemConfiguration}
    {channel : Int}
    {ch : Channel}
    (h : channelOf conf channel = some ch) :
    ch.channel = channel := by
  rw [channelOf_eq_find] at h
  simpa using List.find?_some h

/-- Rewriting the addressed channel in place, keeping its identifier, changes
what the table answers for that identifier and for no other. -/
theorem channelOf_setChannel
    {conf : SystemConfiguration}
    {channel other : Int}
    {idx : Nat}
    {ch ch' : Channel}
    (hidx : getIdxChannel conf channel = some idx)
    (hch : channelOf conf channel = some ch)
    (hid : ch'.channel = ch.channel) :
    channelOf (conf.setChannel idx ch') other =
      if other = channel then some ch' else channelOf conf other := by
  have hid' : ch'.channel = channel := hid.trans (channelOf_id hch)
  simp only [channelOf_eq_find, SystemConfiguration.setChannel] at *
  unfold getIdxChannel at hidx
  clear hch hid
  generalize conf.channelConfiguration = table at hidx
  induction table generalizing idx with
  | nil => simp at hidx
  | cons c rest ih =>
      rw [List.findIdx?_cons] at hidx
      by_cases hc : c.channel = channel
      · simp only [hc, beq_self_eq_true, if_true, Option.some.injEq] at hidx
        subst hidx
        by_cases ho : other = channel
        · simp [ho, hid']
        · have hne : channel ≠ other := fun h => ho h.symm
          simp [hid', hc, hne, ho]
      · have hbeq : (c.channel == channel) = false := by simpa using hc
        simp only [hbeq, Bool.false_eq_true, if_false, Option.map_eq_some_iff] at hidx
        obtain ⟨j, hj, rfl⟩ := hidx
        rw [List.set_cons_succ, List.find?_cons, List.find?_cons, ih hj]
        by_cases ho : other = channel
        · subst ho
          simp [hbeq]
        · simp [ho]

end Metrology
end MatrixBin
