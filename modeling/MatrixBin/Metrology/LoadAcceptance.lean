import MatrixBin.Metrology.LoadConfiguration

/-!
# Which documents are accepted

`documentComplete` says that every element of every array of the document has all of its
parts.  The parsers reject a document for every defect but two kinds (`hiddenDefect`): a
defect in an element of `connectedSections`, and one in the metrology section of a channel
before the last.
-/

namespace MatrixBin
namespace Metrology

open Library

/-! ### Complete documents -/

def sectionComplete (json : Json) : Bool :=
  json.has "id" && json.has "live_rail" && json.has "dead_rail"

def platformComplete (json : Json) : Bool :=
  json.has "id" && json.hasString "description" &&
    json.listed "sections" fun items => items.all sectionComplete

def gpuComplete (tree : Json) : Bool :=
  tree.within "gpu" fun gpu =>
    gpu.hasString "description" && gpu.listed "platforms" fun items => items.all platformComplete

def linearSectionComplete (json : Json) : Bool :=
  json.isObject && json.has "weight" && json.has "counter"

/-- The points of a metrology section are complete, if it has an array of them. -/
def linearSectionsComplete (metrology : Json) : Bool :=
  match (metrology.getObjectItem "linear_sections").bind Json.getArray with
  | some items => items.all linearSectionComplete
  | none => true

def metrologyComplete (channel : Json) : Bool :=
  channel.within "metrology" fun metrology =>
    metrology.has "max_weight_value" && metrology.has "zero_calibration_value" &&
      linearSectionsComplete metrology

def sensorsComplete (sensors : Json) : Bool :=
  sensors.hasString "name" && sensors.hasString "type" && sensors.has "count"

def connectedComplete (json : Json) : Bool :=
  json.isObject && json.has "id_plaform" && json.has "id_section"

/-- The parts of a channel, but for the elements of `connectedSections` and the metrology
section. -/
def channelFieldsComplete (channel : Json) : Bool :=
  channel.isObject && channel.has "id" && channel.hasString "description" &&
    channel.has "comPort" && channel.has "deviceType" && channel.within "sensors" sensorsComplete &&
    channel.listed "connectedSections" (fun _ => true) && channel.has "average_time" &&
    channel.has "wim"

/-- No element of `connectedSections` has a defect. -/
def connectionsComplete (channel : Json) : Bool :=
  match (channel.getObjectItem "connectedSections").bind Json.getArray with
  | some items => items.all connectedComplete
  | none => true

def channelComplete (channel : Json) : Bool :=
  channelFieldsComplete channel && connectionsComplete channel && metrologyComplete channel

/-- `hardware`, with the check `p` of the list of channels. -/
def hardwareWith (p : List Json → Bool) (tree : Json) : Bool :=
  tree.within "hardware" fun hardware =>
    (hardware.listed "deviceTypes" fun items => items.all fun item => item.getStringValue.isSome) &&
      hardware.listed "channels" p

def modeComplete (json : Json) : Bool := (json.getStringValue.bind modeFlag).isSome

def scaleComplete (scale : Json) : Bool :=
  scale.isObject && scale.has "id" && scale.has "units" &&
    (scale.listed "modesWork" fun items => items.all modeComplete) &&
    scale.listed "channelIds" (fun _ => true) &&
    scale.within "internalDiscreteness" fun discret =>
      discret.has "value" && discret.has "multiplier"

def scalesComplete (tree : Json) : Bool :=
  tree.listed "scales" fun items => items.all scaleComplete

/-- A document with the check `p` of the list of channels. -/
def documentWith (p : List Json → Bool) (tree : Json) : Bool :=
  tree.hasString "version" && gpuComplete tree && hardwareWith p tree && scalesComplete tree

def documentComplete (tree : Json) : Bool :=
  documentWith (fun channels => channels.all channelComplete) tree

/-! ### What the parsers check -/

/-- The checks of `parseChannels`: the fields of every channel and the metrology section
of the last one. -/
def channelsChecked (channels : List Json) : Bool :=
  channels.all channelFieldsComplete &&
    match channels.getLast? with
    | some channel => metrologyComplete channel
    | none => true

/-- The channels of a document. -/
def channelItems (tree : Json) : List Json :=
  (((tree.getObjectItem "hardware").bind (·.getObjectItem "channels")).bind Json.getArray).getD []

/-- A defect that the parsers do not report. -/
def hiddenDefect (tree : Json) : Bool :=
  (channelItems tree).any (fun channel => !connectionsComplete channel) ||
    (channelItems tree).dropLast.any (fun channel => !metrologyComplete channel)

/-- A defect anywhere else. -/
def otherDefect (tree : Json) : Bool := !documentWith channelsChecked tree

section Verdicts

variable {σ : Type}

@[simp] theorem setNumber_ok
    (json : Json)
    (name : String)
    (f : Int → σ → σ) :
    (setNumber json name f).ok = json.has name := by
  simp [setNumber, Json.has]

@[simp] theorem setString_ok
    (call : Nat)
    (json : Json)
    (name : String)
    (f : Option CharPtr → σ → σ) :
    (setString call json name f).ok = json.hasString name := by
  simp [setString, Json.hasString]

@[simp] theorem withObject_ok
    (json : Json)
    (name : String)
    (k : Json → Filler σ) :
    (withObject json name k).ok = json.within name fun item => (k item).ok := by
  unfold withObject Json.within
  cases json.getObjectItem name with
  | none => rfl
  | some item => by_cases hobject : item.isObject <;> simp [hobject]

@[simp] theorem withArray_ok
    (json : Json)
    (name : String)
    (k : List Json → Filler σ) :
    (withArray json name k).ok = json.listed name fun items => (k items).ok := by
  unfold withArray Json.listed
  cases (json.getObjectItem name).bind Json.getArray <;> rfl

end Verdicts

@[simp] theorem parseSection_ok (json : Json) : (parseSection json).ok = sectionComplete json := by
  simp [parseSection, sectionComplete, Bool.and_assoc]

@[simp] theorem parsePlatform_ok
    (call : Nat)
    (json : Json) :
    (parsePlatform call json).ok = platformComplete json := by
  simp [parsePlatform, parsePlatformSection, platformComplete, Bool.and_assoc, List.all_map,
    Function.comp_def]

@[simp] theorem parserGPU_ok
    (call : Nat)
    (tree : Json) :
    (parserGPU call tree).ok = gpuComplete tree := by
  simp [parserGPU, gpuComplete, List.all_map, Function.comp_def]

@[simp] theorem parseLinearSection_ok
    (json : Json) :
    (parseLinearSection json).ok = linearSectionComplete json := by
  unfold parseLinearSection linearSectionComplete
  cases json.isObject <;> simp

@[simp] theorem parseLinearSections_ok
    (metrology : Json) :
    (parseLinearSections metrology).ok = linearSectionsComplete metrology := by
  unfold parseLinearSections linearSectionsComplete
  cases (metrology.getObjectItem "linear_sections").bind Json.getArray with
  | none => rfl
  | some items => simp [List.all_map, Function.comp_def]

@[simp] theorem parseMetrologyChannel_ok
    (json : Json) :
    (parseMetrologyChannel json).ok = metrologyComplete json := by
  simp [parseMetrologyChannel, metrologyComplete, Bool.and_assoc]

@[simp] theorem parseSensors_ok
    (call : Nat)
    (sensors : Json) :
    (parseSensors call sensors).ok = sensorsComplete sensors := by
  simp [parseSensors, sensorsComplete, Bool.and_assoc]

@[simp] theorem parseChannelFields_ok
    (call : Nat)
    (json : Json) :
    (parseChannelFields call json).ok = channelFieldsComplete json := by
  have hsensors :
      (json.within "sensors" fun item => sensorsComplete item) =
        json.within "sensors" sensorsComplete := rfl
  unfold parseChannelFields channelFieldsComplete
  cases json.isObject <;>
    simp [parseConnectedSections, hsensors, Json.has, Bool.and_assoc]

/-- The loop reports the fields of all channels and the last metrology section. -/
theorem parseChannelList_ok
    (call : Nat)
    (rc : Bool)
    (items : List Json) :
    (parseChannelList call rc items).ok =
      (items.all channelFieldsComplete &&
        match items.getLast? with
        | some channel => metrologyComplete channel
        | none => rc) := by
  induction items generalizing rc with
  | nil => rfl
  | cons json rest ih =>
      unfold parseChannelList
      cases hfields : channelFieldsComplete json with
      | false => simp [hfields]
      | true =>
          cases rest with
          | nil => simp [hfields, ih]
          | cons next later =>
              obtain ⟨last, hlast⟩ : ∃ last, (next :: later).getLast? = some last :=
                ⟨_, List.getLast?_eq_some_getLast (by simp)⟩
              simp [hfields, ih, List.getLast?_cons_cons, hlast]

theorem parseChannelList_checked
    (call : Nat) :
    (fun items => (parseChannelList call true items).ok) = channelsChecked := by
  funext items
  exact parseChannelList_ok call true items

@[simp] theorem parserHardware_ok
    (call : Nat)
    (tree : Json) :
    (parserHardware call tree).ok = hardwareWith channelsChecked tree := by
  simp [parserHardware, parseChannels, hardwareWith, parseChannelList_checked, List.all_map,
    Function.comp_def]

@[simp] theorem parseMode_ok (json : Json) : (parseMode json).ok = modeComplete json := by
  simp [parseMode, modeComplete]

theorem steps_parseMode_ok (items : List Json) :
    (Filler.steps (items.map parseMode)).ok = items.all modeComplete := by
  simp [Filler.steps_ok, List.all_map, Function.comp_def]

@[simp] theorem parseScale_ok (json : Json) : (parseScale json).ok = scaleComplete json := by
  have hids (items : List Json) : (items.all fun _ => true) = true := by
    simp
  unfold parseScale scaleComplete
  cases json.isObject <;>
    simp [steps_parseMode_ok, hids, Json.has, Bool.and_assoc, List.all_map, Function.comp_def]

@[simp] theorem parserScales_ok (tree : Json) : (parserScales tree).ok = scalesComplete tree := by
  simp [parserScales, scalesComplete, List.all_map, Function.comp_def]

theorem parserTree_ok
    (call : Nat)
    (tree : Json) :
    (parserTree call tree).ok = documentWith channelsChecked tree := by
  simp [parserTree, documentWith, Bool.and_assoc]

/-! ### Hidden defects -/

/-- Complete channels are the checked ones without a hidden defect. -/
theorem channels_complete_iff
    (channels : List Json) :
    channels.all channelComplete = true ↔
      channelsChecked channels = true ∧
        channels.any (fun channel => !connectionsComplete channel) = false ∧
        channels.dropLast.any (fun channel => !metrologyComplete channel) = false := by
  rcases List.eq_nil_or_concat channels with rfl | ⟨earlier, last, rfl⟩
  · simp [channelsChecked]
  · simp only [List.concat_eq_append, channelsChecked, List.all_append, List.all_cons,
      List.all_nil, List.any_append, List.any_cons, List.any_nil, List.dropLast_concat,
      List.getLast?_append, List.getLast?_singleton, Option.some_or, Bool.and_true, Bool.or_false,
      Bool.and_eq_true, Bool.or_eq_false_iff, List.all_eq_true, List.any_eq_false, channelComplete,
      Bool.not_eq_false, Bool.not_eq_eq_eq_not, Bool.not_true, Bool.not_false]
    constructor
    · rintro ⟨hearlier, ⟨hfields, hconnections⟩, hmetrology⟩
      exact
        ⟨⟨⟨fun c hc => (hearlier c hc).1.1, hfields⟩, hmetrology⟩,
          ⟨fun c hc => (hearlier c hc).1.2, hconnections⟩, fun c hc => (hearlier c hc).2⟩
    · rintro ⟨⟨⟨hfields, hfield⟩, hlast⟩, ⟨hconnections, hconnection⟩, hmetrology⟩
      exact
        ⟨fun c hc => ⟨⟨hfields c hc, hconnections c hc⟩, hmetrology c hc⟩,
          ⟨hfield, hconnection⟩, hlast⟩

/-- A document is complete when it has neither kind of defect. -/
theorem documentComplete_iff
    (tree : Json) :
    documentComplete tree = true ↔ otherDefect tree = false ∧ hiddenDefect tree = false := by
  have hhardware :
      hardwareWith (fun channels => channels.all channelComplete) tree = true ↔
        hardwareWith channelsChecked tree = true ∧ hiddenDefect tree = false := by
    unfold hardwareWith Json.within hiddenDefect channelItems
    cases htree : tree.getObjectItem "hardware" with
    | none => simp
    | some hardware =>
        unfold Json.listed
        cases hchannels : (hardware.getObjectItem "channels").bind Json.getArray with
        | none =>
            simp only [hchannels, Bool.and_false, Bool.false_eq_true, false_and]
        | some channels =>
            simp only [Option.bind_some, hchannels, Option.getD_some, Bool.and_eq_true,
              Bool.or_eq_false_iff, channels_complete_iff]
            tauto
  unfold documentComplete otherDefect documentWith
  simp only [Bool.and_eq_true, hhardware, Bool.not_eq_false']
  tauto

section Acceptance

variable (cJsonParse : List UInt8 → Option Json)

/-- A readable file with a document is accepted exactly when its document passes the checks
of the parsers. -/
theorem loadConfiguration_ok_iff
    {call : Nat}
    {file : ConfigurationFile}
    {conf : MatrixConfiguration}
    {tree : Json}
    (hfile : file.document cJsonParse = some tree) :
    (loadConfiguration cJsonParse call file conf).2 = matrixlibOk ↔ otherDefect tree = false := by
  obtain ⟨text, htext, hparse⟩ := Option.bind_eq_some_iff.mp hfile
  rw [loadConfiguration_read cJsonParse htext]
  cases hok : documentWith channelsChecked tree <;>
    simp [parserJSON, hparse, parserTree_ok, hok, otherDefect, matrixlibConfigError, matrixlibOk]

/-- The load reports success exactly on the complete documents, for every document but
those whose only defects are hidden. -/
theorem loadConfiguration_accepts_complete_iff
    (call : Nat)
    (file : ConfigurationFile)
    (conf : MatrixConfiguration)
    (tree : Json)
    (hfile : file.document cJsonParse = some tree) :
    ((loadConfiguration cJsonParse call file conf).2 = matrixlibOk ↔
        documentComplete tree = true) ↔
      (hiddenDefect tree = true → otherDefect tree = true) := by
  rw [loadConfiguration_ok_iff cJsonParse hfile, documentComplete_iff]
  cases hiddenDefect tree <;> cases otherDefect tree <;> simp

end Acceptance

/-- A channel and a scale with all their parts. -/
def completeDocument : Json :=
  sampleDocument
    [sampleChannel [.ofMembers [("id_plaform", .number 1), ("id_section", .number 1)]]
      (sampleMetrology
        [("linear_sections", .array [.ofMembers [("weight", .number 0), ("counter", .number 0)]])])]
    [sampleScale [.ofText "В СТАТИКЕ"]]

theorem completeDocument_accepted :
    ((loadConfiguration (parsePrinted [completeDocument]) 0 (fileOf completeDocument)
          initialization).2 = matrixlibOk ↔
        documentComplete completeDocument = true) ↔
      (hiddenDefect completeDocument = true → otherDefect completeDocument = true) :=
  loadConfiguration_accepts_complete_iff _ 0 _ initialization completeDocument
    (fileOf_document (by decide +kernel) (by simp))

/-- The first channel has an element of `connectedSections` without its identifiers and no
metrology section at all. -/
def brokenDocument : Json :=
  sampleDocument
    [sampleChannel [.ofMembers []] .null, sampleChannel [] (sampleMetrology [])] []

theorem brokenDocument_accepted :
    documentComplete brokenDocument = false ∧
      (loadConfiguration (parsePrinted [brokenDocument]) 0 (fileOf brokenDocument)
        initialization).2 = matrixlibOk := by
  have hfile : (fileOf brokenDocument).document (parsePrinted [brokenDocument]) =
      some brokenDocument :=
    fileOf_document (by decide +kernel) (by simp)
  refine ⟨by decide +kernel, ?_⟩
  rw [loadConfiguration_ok_iff _ hfile]
  decide +kernel

end Metrology
end MatrixBin
