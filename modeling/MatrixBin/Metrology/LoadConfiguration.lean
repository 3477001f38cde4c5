import MatrixBin.Library.Filler
import MatrixBin.Library.JsonDocument
import MatrixBin.Metrology.SystemRecord
import Mathlib.Data.List.TakeWhile
import Mathlib.Data.Rat.Floor

/-!
# Loading the configuration (`load_configuration.cc`)

The parsers store what they read in the global `Configuration` while they descend through
the document; each is a `Filler` of the part of the configuration that it writes.  `call`
is the number of the call of the library that runs: `strdup` stamps its strings with it.

Two of the failures are lost on the way: a defect in an element of `connectedSections` and
the verdict of `parseMetrologyChannel` on a channel before the last (`parseChannelList`).
-/

namespace MatrixBin
namespace Metrology

open Library

/-- A `double` stored in an `int`, as the x86 conversion does it: towards zero, and the
least `int` for what does not fit and for a NaN. -/
def doubleToInt (d : FloatValue) : Int :=
  match d with
  | .finite q =>
      let n := q.num.tdiv q.den
      if -2 ^ 31 ≤ n ∧ n < 2 ^ 31 then n else -2 ^ 31
  | _ => -2 ^ 31

/-- The C test of a `double`; a NaN is not zero. -/
def truthy (d : FloatValue) : Bool := d ≠ 0

section Fields

variable {σ : Type}

/-- A number that has to be there, stored as an `int`. -/
def setNumber (json : Json) (name : String) (f : Int → σ → σ) : Filler σ :=
  .require (json.getObjectItem name) fun item => f (doubleToInt item.getNumberValue)

/-- A text that has to be there, stored with `strdup`. -/
def setString (call : Nat) (json : Json) (name : String) (f : Option CharPtr → σ → σ) :
    Filler σ :=
  .require ((json.getObjectItem name).bind Json.getStringValue) fun text => f (some ⟨call, text⟩)

/-- An object that has to be there. -/
def withObject (json : Json) (name : String) (k : Json → Filler σ) : Filler σ :=
  match json.getObjectItem name with
  | some item => if item.isObject then k item else .fail
  | none => .fail

/-- An array that has to be there. -/
def withArray (json : Json) (name : String) (k : List Json → Filler σ) : Filler σ :=
  match (json.getObjectItem name).bind Json.getArray with
  | some items => k items
  | none => .fail

end Fields

/-! ### Platforms -/

def parseSection (json : Json) : Filler Section :=
  .steps
    [setNumber json "id" fun v s => { s with idSection := v },
      setNumber json "live_rail" fun v s => { s with liveRail := v },
      setNumber json "dead_rail" fun v s => { s with deadRail := v }]

def parsePlatformSection (json : Json) : Filler Platform :=
  withArray json "sections" fun items =>
    .onPart Platform.sections (fun v s => { s with sections := v })
      (.vector Section.zero (items.map parseSection))

def parsePlatform (call : Nat) (json : Json) : Filler Platform :=
  .steps
    [setNumber json "id" fun v s => { s with idPlatform := v },
      setString call json "description" fun v s => { s with description := v },
      parsePlatformSection json]

def parserGPU (call : Nat) (tree : Json) : Filler LoadReceptor :=
  withObject tree "gpu" fun gpu =>
    .steps
      [setString call gpu "description" fun v s => { s with description := v },
        withArray gpu "platforms" fun items =>
          .onPart LoadReceptor.platforms (fun v s => { s with platforms := v })
            (.vector Platform.zero (items.map (parsePlatform call)))]

/-! ### Channels -/

def parseLinearSection (json : Json) : Filler LinearSection :=
  if json.isObject then
    .steps
      [setNumber json "weight" fun v s => { s with weightValue := v },
        setNumber json "counter" fun v s => { s with rawValue := .ofInt v }]
  else .fail

/-- The points of a metrology section, if it has an array of them. -/
def parseLinearSections (metrology : Json) : Filler Channel :=
  match (metrology.getObjectItem "linear_sections").bind Json.getArray with
  | some items =>
      .onPart Channel.linearSections (fun v s => { s with linearSections := v })
        (.vector LinearSection.zero (items.map parseLinearSection))
  | none => .done

def parseMetrologyChannel (json : Json) : Filler Channel :=
  withObject json "metrology" fun metrology =>
    .steps
      [setNumber metrology "max_weight_value" fun v s => { s with maxWeightValue := v },
        setNumber metrology "zero_calibration_value" fun v s =>
          { s with zeroCalibrationValue := .ofInt v },
        parseLinearSections metrology]

def parseSensors (call : Nat) (sensors : Json) : Filler Sensor :=
  .steps
    [setString call sensors "name" fun v s => { s with name := v },
      setString call sensors "type" fun v s => { s with type := v },
      setNumber sensors "count" fun v s => { s with count := v }]

def parseConnected (json : Json) : Filler PlatformSection :=
  if json.isObject then
    .steps
      [setNumber json "id_plaform" fun v s => { s with idPlatform := v },
        setNumber json "id_section" fun v s => { s with idSection := v }]
  else .fail

/-- `connectedSections`: a defect in an element ends the inner loop only. -/
def parseConnectedSections (json : Json) : Filler ChannelConfiguration :=
  withArray json "connectedSections" fun items =>
    (Filler.onPart ChannelConfiguration.pluginSections (fun v s => { s with pluginSections := v })
      (.vector PlatformSection.zero (items.map parseConnected))).ignored

/-- What `wim` makes of the flags of a channel. -/
def setInMotion (d : FloatValue) (flags : UInt32) : UInt32 :=
  if truthy d then flags ||| flChannelInMotion else flags &&& ~~~flChannelInMotion

/-- The fields of a channel up to the metrology section; a failure leaves the loop. -/
def parseChannelFields (call : Nat) (json : Json) : Filler ChannelConfiguration :=
  if json.isObject then
    .steps
      [setNumber json "id" fun v s => { s with channel := v },
        setString call json "description" fun v s => { s with description := v },
        setNumber json "comPort" fun v s => { s with comPort := v },
        setNumber json "deviceType" fun v s => { s with deviceType := v },
        withObject json "sensors" fun sensors =>
          .onPart ChannelConfiguration.sensors (fun v s => { s with sensors := v })
            (parseSensors call sensors),
        parseConnectedSections json,
        setNumber json "average_time" fun v s =>
          { s with averagValue := { s.averagValue with averagTime := v } },
        .require (json.getObjectItem "wim") fun item s =>
          { s with flagChannel := setInMotion item.getNumberValue s.flagChannel }]
  else .fail

/-- The loop of `parseChannels` over the channels left, with `rc` before it.  The verdict
on the metrology section of a channel is the `rc` of the next turn, which overwrites it. -/
def parseChannelList (call : Nat) : Bool → List Json → Filler (List ChannelConfiguration)
  | rc, [] => ⟨rc, id⟩
  | _, json :: rest =>
      let fields := parseChannelFields call json
      if fields.ok then
        let metrology := parseMetrologyChannel json
        let later := parseChannelList call metrology.ok rest
        ⟨later.ok, fun channels =>
          match channels with
          | [] => []
          | c :: cs =>
              { fields.fill c with toChannel := metrology.fill (fields.fill c).toChannel } ::
                later.fill cs⟩
      else
        ⟨false, fun channels =>
          match channels with
          | [] => []
          | c :: cs => fields.fill c :: cs⟩

def parseChannels (call : Nat) (hardware : Json) : Filler MatrixConfiguration :=
  withArray hardware "channels" fun items =>
    .onPart MatrixConfiguration.channelConfiguration
      (fun v s => { s with channelConfiguration := v })
      ⟨(parseChannelList call true items).ok, fun channels =>
        (parseChannelList call true items).fill
          (resize ChannelConfiguration.zero items.length channels)⟩

def parserHardware (call : Nat) (tree : Json) : Filler MatrixConfiguration :=
  withObject tree "hardware" fun hardware =>
    .steps
      [withArray hardware "deviceTypes" fun items =>
          .onPart MatrixConfiguration.devTypes (fun v s => { s with devTypes := v })
            (.vector none
              (items.map fun item => .require item.getStringValue fun dev _ => some ⟨call, dev⟩)),
        parseChannels call hardware]

/-! ### Scales -/

def scaleStaticMode : UInt32 := 1
def scaleMotionMode : UInt32 := 2

/-- The flag of a text of `modesWork`. -/
def modeFlag (mode : List UInt8) : Option UInt32 :=
  if mode = utf8 "В СТАТИКЕ" then some scaleStaticMode
  else if mode = utf8 "В ДВИЖЕНИИ" then some scaleMotionMode
  else none

def parseMode (json : Json) : Filler ScaleConfiguration :=
  .require (json.getStringValue.bind modeFlag) fun flag s =>
    { s with flagModeWork := s.flagModeWork ||| flag }

def parseScale (json : Json) : Filler ScaleConfiguration :=
  if json.isObject then
    .steps
      [setNumber json "id" fun v s => { s with idScale := v },
        setNumber json "units" fun v s => { s with idxUnit := v },
        withArray json "modesWork" fun items => .steps (items.map parseMode),
        withArray json "channelIds" fun items =>
          .onPart ScaleConfiguration.idChannel (fun v s => { s with idChannel := v })
            (.vector 0
              (items.map fun item => .store fun _ => doubleToInt item.getNumberValue)),
        withObject json "internalDiscreteness" fun discret =>
          .onPart ScaleConfiguration.discretChannel (fun v s => { s with discretChannel := v })
            (.steps
              [setNumber discret "value" fun v s => { s with value := v },
                .require (discret.getObjectItem "multiplier") fun item s =>
                  { s with multiplier := FloatFormat.binary32.convert item.getNumberValue }])]
  else .fail

def parserScales (tree : Json) : Filler MatrixConfiguration :=
  withArray tree "scales" fun items =>
    .onPart MatrixConfiguration.scaleConfiguration (fun v s => { s with scaleConfiguration := v })
      (.vector ScaleConfiguration.zeroed (items.map parseScale))

/-! ### The file -/

/-- `parserJSON` on a document that was parsed. -/
def parserTree (call : Nat) (tree : Json) : Filler MatrixConfiguration :=
  .steps
    [setString call tree "version" fun v s => { s with version := v },
      .onPart MatrixConfiguration.loadReceptor (fun v s => { s with loadReceptor := v })
        (parserGPU call tree),
      parserHardware call tree,
      parserScales tree]

/-- What the system calls of one load deliver: the size that `stat` reports, whether
`calloc` and `open` succeed, and the bytes that `read` returns. -/
structure ConfigurationFile where
  named : Bool
  size : Option Nat
  allocated : Bool
  opened : Bool
  bytes : Option (List UInt8)

section Load

variable (cJsonParse : List UInt8 → Option Json)

/-- `parserJSON` on the text up to its NUL. -/
def parserJSON (call : Nat) (text : List UInt8) : Filler MatrixConfiguration :=
  match cJsonParse text with
  | some tree => parserTree call tree
  | none => .fail

/-- `loadConfiguration`, with `fun == NULL`. -/
def loadConfiguration (call : Nat) (file : ConfigurationFile) (conf : MatrixConfiguration) :
    MatrixConfiguration × Int :=
  if !file.named then (conf, matrixlibParamError)
  else
    match file.size with
    | none => (conf, matrixlibConfigOpenError)
    | some size =>
        if size = 0 then (conf, matrixlibConfigError)
        else if !file.allocated then (conf, matrixlibAllocError)
        else if !file.opened then (conf, matrixlibConfigOpenError)
        else
          match file.bytes with
          | none => (conf, matrixlibConfigError)
          | some bytes =>
              if bytes.length ≠ size then (conf, matrixlibConfigError)
              else
                let text := bytes.takeWhile (· ≠ 0)
                let parser := parserJSON cJsonParse call text
                let conf' := parser.fill conf
                if parser.ok then
                  ({ conf' with
                      jsonConfig := some ⟨call, text⟩
                      flagSystem := conf'.flagSystem ||| flSystemConfigurationReady },
                    matrixlibOk)
                else (conf', matrixlibConfigError)

/-- The text that reaches the parser. -/
def ConfigurationFile.text (file : ConfigurationFile) : Option (List UInt8) :=
  if file.named ∧ file.size ≠ some 0 ∧ file.allocated ∧ file.opened ∧
      file.size = file.bytes.map List.length then
    file.bytes.map (·.takeWhile (· ≠ 0))
  else none

/-- The document of the file, if it can be read and parsed. -/
def ConfigurationFile.document (file : ConfigurationFile) : Option Json :=
  file.text.bind cJsonParse

theorem ConfigurationFile.text_eq_some_iff
    (file : ConfigurationFile)
    (text : List UInt8) :
    file.text = some text ↔
      file.named = true ∧ file.size ≠ some 0 ∧ file.allocated = true ∧ file.opened = true ∧
        ∃ bytes, file.bytes = some bytes ∧ file.size = some bytes.length ∧
          bytes.takeWhile (· ≠ 0) = text := by
  unfold ConfigurationFile.text
  constructor
  · intro h
    split at h
    · rename_i hread
      obtain ⟨hnamed, hsize, hallocated, hopened, hlength⟩ := hread
      obtain ⟨bytes, hbytes, htext⟩ := Option.map_eq_some_iff.mp h
      rw [hbytes, Option.map_some] at hlength
      exact ⟨hnamed, hsize, hallocated, hopened, bytes, hbytes, hlength, htext⟩
    · cases h
  · rintro ⟨hnamed, hsize, hallocated, hopened, bytes, hbytes, hlength, htext⟩
    have hread :
        file.named ∧ file.size ≠ some 0 ∧ file.allocated ∧ file.opened ∧
          file.size = file.bytes.map List.length := by
      refine ⟨hnamed, hsize, hallocated, hopened, ?_⟩
      rw [hbytes, Option.map_some]
      exact hlength
    rw [if_pos hread, hbytes, Option.map_some, htext]

/-- A file that was not read changes nothing. -/
theorem loadConfiguration_unread
    (call : Nat)
    {file : ConfigurationFile}
    (hfile : file.text = none)
    (conf : MatrixConfiguration) :
    (loadConfiguration cJsonParse call file conf).1 = conf ∧
      (loadConfiguration cJsonParse call file conf).2 < 0 := by
  have hnot (text : List UInt8) : ¬ file.text = some text := by simp [hfile]
  simp only [ConfigurationFile.text_eq_some_iff] at hnot
  unfold loadConfiguration
  cases hnamed : file.named with
  | false => simp [matrixlibParamError]
  | true =>
      cases hsize : file.size with
      | none => simp [matrixlibConfigOpenError]
      | some size =>
          by_cases hzero : size = 0
          · simp [hzero, matrixlibConfigError]
          · cases hallocated : file.allocated with
            | false => simp [hzero, matrixlibAllocError]
            | true =>
                cases hopened : file.opened with
                | false => simp [hzero, matrixlibConfigOpenError]
                | true =>
                    cases hbytes : file.bytes with
                    | none => simp [hzero, matrixlibConfigError]
                    | some bytes =>
                        have hshort : bytes.length ≠ size := by
                          rintro rfl
                          apply hnot (bytes.takeWhile (· ≠ 0))
                          simp [hnamed, hsize, hzero, hallocated, hopened, hbytes]
                        simp [hzero, hshort, matrixlibConfigError]

/-- A file that was read goes to the parser. -/
theorem loadConfiguration_read
    {call : Nat}
    {file : ConfigurationFile}
    {conf : MatrixConfiguration}
    {text : List UInt8}
    (hfile : file.text = some text) :
    loadConfiguration cJsonParse call file conf =
      let parser := parserJSON cJsonParse call text
      let conf' := parser.fill conf
      if parser.ok then
        ({ conf' with
            jsonConfig := some ⟨call, text⟩
            flagSystem := conf'.flagSystem ||| flSystemConfigurationReady },
          matrixlibOk)
      else (conf', matrixlibConfigError) := by
  obtain ⟨hnamed, hsize, hallocated, hopened, bytes, hbytes, hlength, rfl⟩ :=
    file.text_eq_some_iff text |>.mp hfile
  have hzero : bytes.length ≠ 0 := by
    intro h
    exact hsize (by rw [hlength, h])
  unfold loadConfiguration
  simp [hnamed, hlength, hzero, hallocated, hopened, hbytes]

end Load

/-! ### Printed documents -/

/-- A parser that knows the printed texts of some documents. -/
def parsePrinted (trees : List Json) (text : List UInt8) : Option Json :=
  trees.find? fun tree => tree.print = text

/-- A readable file with the printed text of a document. -/
def fileOf (tree : Json) : ConfigurationFile where
  named := true
  size := some tree.print.length
  allocated := true
  opened := true
  bytes := some tree.print

theorem fileOf_document
    {trees : List Json}
    {tree : Json}
    (hprint : tree.print ≠ [] ∧ 0 ∉ tree.print)
    (hfirst : trees.find? (fun other => decide (other.print = tree.print)) = some tree) :
    (fileOf tree).document (parsePrinted trees) = some tree := by
  have hwhole : tree.print.takeWhile (· ≠ 0) = tree.print := by
    refine List.takeWhile_eq_self_iff.mpr fun b hb => ?_
    simp only [decide_eq_true_eq, ne_eq]
    rintro rfl
    exact hprint.2 hb
  have htext : (fileOf tree).text = some tree.print := by
    rw [ConfigurationFile.text_eq_some_iff]
    exact ⟨rfl, by simp [fileOf, hprint.1], rfl, rfl, tree.print, rfl, rfl, hwhole⟩
  rw [ConfigurationFile.document, htext, Option.bind_some]
  exact hfirst

def sampleMetrology (sections : List (String × Json)) : Json :=
  .ofMembers
    ([("max_weight_value", .number 20000), ("zero_calibration_value", .number 0)] ++ sections)

/-- A channel with the elements of `connectedSections` and the metrology section given. -/
def sampleChannel (connected : List Json) (metrology : Json) : Json :=
  .ofMembers
    [("id", .number 1), ("description", .ofText "channel"), ("comPort", .number 1),
      ("deviceType", .number 0),
      ("sensors",
        .ofMembers [("name", .ofText "s"), ("type", .ofText "analog"), ("count", .number 4)]),
      ("connectedSections", .array connected), ("average_time", .number 10), ("wim", .number 0),
      ("metrology", metrology)]

def sampleScale (modes : List Json) : Json :=
  .ofMembers
    [("id", .number 1), ("units", .number 0), ("modesWork", .array modes),
      ("channelIds", .array [.number 1]),
      ("internalDiscreteness", .ofMembers [("value", .number 1), ("multiplier", .number 10)])]

def sampleDocument (channels scales : List Json) : Json :=
  .ofMembers
    [("version", .ofText "1.0.0"),
      ("gpu", .ofMembers [("description", .ofText "gpu"), ("platforms", .array [])]),
      ("hardware",
        .ofMembers [("deviceTypes", .array [.ofText "LDU"]), ("channels", .array channels)]),
      ("scales", .array scales)]

end Metrology
end MatrixBin
