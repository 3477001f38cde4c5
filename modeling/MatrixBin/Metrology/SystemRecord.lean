import MatrixBin.Metrology.Configuration

/-!
# The whole configuration (`typedef_matrixlib.h`)

All fields of the global `Configuration`.  `SystemConfiguration` is the part of it that
the calibration handlers see; `MatrixConfiguration.system` is this view.

A `char*` that is not null is a string that `strdup` made: the text and the number of the
call of the library that made it.  Nothing is freed, so strings made in different calls
lie at different addresses.
-/

namespace MatrixBin
namespace Metrology

def matrixlibRecoveryFunctionError : Int := -3
def matrixlibScaleError : Int := -10
def matrixlibConfigOpenError : Int := -11
def matrixlibAllocError : Int := -12
def matrixlibConfigError : Int := -13

def flChannelInMotion : UInt32 := 0x0002

/-- A string on the heap. -/
structure CharPtr where
  call : Nat
  text : List UInt8
deriving DecidableEq

/-- `Section_t` -/
structure Section where
  idSection : Int
  liveRail : Int
  deadRail : Int
deriving DecidableEq

/-- `Platform_t` -/
structure Platform where
  idPlatform : Int
  description : Option CharPtr
  sections : List Section
deriving DecidableEq

/-- `PlatformSection_t` -/
structure PlatformSection where
  idPlatform : Int
  idSection : Int
deriving DecidableEq

/-- `Sensor_t` -/
structure Sensor where
  name : Option CharPtr
  type : Option CharPtr
  count : Int
deriving DecidableEq

/-- `Channel_t` -/
structure ChannelConfiguration extends Channel where
  description : Option CharPtr
  comPort : Int
  deviceType : Int
  sensors : Sensor
  idScale : Int
  pluginSections : List PlatformSection
deriving DecidableEq

/-- `DiscretChannel_t` -/
structure DiscretChannel where
  value : Int
  multiplier : Library.FloatValue
deriving DecidableEq

/-- `ZeroButton_t` -/
structure ZeroButton where
  active : Int
  percentMax : Int
  addCoef : Int
deriving DecidableEq

/-- `ZeroIndication_t` -/
structure ZeroIndication where
  diffCenterD : ℚ
  underloadD : Int
deriving DecidableEq

/-- `Zero_t` -/
structure ZeroSettings where
  typeZero : Int
  autoTrackingD : Int
  autoTrackingTimeout : Int
  percentMax : Int
  addCoef : Int
  zeroButton : ZeroButton
  zeroIndication : ZeroIndication
deriving DecidableEq

/-- `ScaleConfiguration_t` -/
structure ScaleConfiguration where
  idScale : Int
  descriptionStatic : Option CharPtr
  descriptionMotion : Option CharPtr
  flagModeWork : UInt32
  maximumWeight : Int
  minimumWeight : Int
  idxUnit : Int
  idChannel : List Int
  discretChannel : DiscretChannel
  zero : ZeroSettings
  modeStatic : Option CharPtr
  modeMotion : Option CharPtr
deriving DecidableEq

/-- `LoadReceptor_t` -/
structure LoadReceptor where
  description : Option CharPtr
  platforms : List Platform
deriving DecidableEq

/-- `SystemConfiguration_t` -/
structure MatrixConfiguration where
  fileConfiguration : Option CharPtr
  jsonConfig : Option CharPtr
  version : Option CharPtr
  flagSystem : UInt32
  units : List (Option CharPtr)
  devTypes : List (Option CharPtr)
  channelConfiguration : List ChannelConfiguration
  scaleConfiguration : List ScaleConfiguration
  loadReceptor : LoadReceptor
deriving DecidableEq

/-! ### Zero-initialized values -/

def Section.zero : Section := ⟨0, 0, 0⟩

def Platform.zero : Platform := ⟨0, none, []⟩

def PlatformSection.zero : PlatformSection := ⟨0, 0⟩

def LinearSection.zero : LinearSection := ⟨0, 0, 0⟩

def ChannelConfiguration.zero : ChannelConfiguration where
  channel := 0
  flagChannel := 0
  maxWeightValue := 0
  zeroCalibrationValue := 0
  diffZeroValue := 0
  averagValue := ⟨0, 0, 0, 0⟩
  linearSections := []
  description := none
  comPort := 0
  deviceType := 0
  sensors := ⟨none, none, 0⟩
  idScale := 0
  pluginSections := []

def ScaleConfiguration.zeroed : ScaleConfiguration where
  idScale := 0
  descriptionStatic := none
  descriptionMotion := none
  flagModeWork := 0
  maximumWeight := 0
  minimumWeight := 0
  idxUnit := 0
  idChannel := []
  discretChannel := ⟨0, 0⟩
  zero := ⟨0, 0, 0, 0, 0, ⟨0, 0, 0⟩, ⟨0, 0⟩⟩
  modeStatic := none
  modeMotion := none

/-- `initialization` -/
def initialization : MatrixConfiguration where
  fileConfiguration := none
  jsonConfig := none
  version := none
  flagSystem := 0
  units := []
  devTypes := []
  channelConfiguration := []
  scaleConfiguration := []
  loadReceptor := ⟨none, []⟩

/-! ### The view of the calibration handlers -/

namespace MatrixConfiguration

variable (conf : MatrixConfiguration)

def system : SystemConfiguration :=
  ⟨conf.flagSystem, conf.channelConfiguration.map ChannelConfiguration.toChannel⟩

def ready : Bool := hasFlag conf.flagSystem flSystemConfigurationReady

def serviceMode : Bool := hasFlag conf.flagSystem flSystemServiceMode

/-- Rewrite the part of a channel that the calibration handlers see. -/
def setChannel (idx : Nat) (ch : Channel) : MatrixConfiguration :=
  { conf with
    channelConfiguration :=
      conf.channelConfiguration.modify idx fun c => { c with toChannel := ch } }

def setScale (idx : Nat) (scale : ScaleConfiguration) : MatrixConfiguration :=
  { conf with scaleConfiguration := conf.scaleConfiguration.set idx scale }

/-- `getIdxScale` -/
def getIdxScale (idScale : Int) : Option Nat :=
  conf.scaleConfiguration.findIdx? fun scale => scale.idScale == idScale

end MatrixConfiguration

theorem system_setChannel
    (conf : MatrixConfiguration)
    (idx : Nat)
    (ch : Channel) :
    (conf.setChannel idx ch).system = conf.system.setChannel idx ch := by
  have hmap :
      (conf.channelConfiguration.modify idx fun c => { c with toChannel := ch }).map
          ChannelConfiguration.toChannel =
        (conf.channelConfiguration.map ChannelConfiguration.toChannel).set idx ch := by
    apply List.ext_getElem?
    intro i
    simp only [List.getElem?_map, List.getElem?_modify, List.getElem?_set, List.length_map]
    by_cases hi : idx = i
    · subst hi
      cases h : conf.channelConfiguration[idx]? with
      | none => simp [List.getElem?_eq_none_iff.mp h]
      | some c => simp [(List.getElem?_eq_some_iff.mp h).1]
    · cases h : conf.channelConfiguration[i]? <;> simp [hi]
  simp [MatrixConfiguration.system, MatrixConfiguration.setChannel,
    SystemConfiguration.setChannel, hmap]

end Metrology
end MatrixBin
