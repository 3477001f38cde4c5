import MatrixBin.Metrology.LoadAcceptance

/-!
# What a load leaves of the configuration before it

Vectors are resized, not cleared, and several fields of their elements are never assigned,
assigned only if the document has them, or combined with what is there.  The leftovers of
a configuration are what a successful load does not overwrite: two configurations become
the same by a load exactly when their leftovers agree.
-/

namespace MatrixBin
namespace Metrology

open Library

/-! ### Lookups -/

section Lookups

variable {σ : Type} {json item : Json} {name : String}

theorem setNumber_of_some
    (h : json.getObjectItem name = some item)
    (f : Int → σ → σ) :
    setNumber json name f = .store (f (doubleToInt item.getNumberValue)) := by
  simp [setNumber, h]

theorem setString_of_some
    {text : List UInt8}
    (h : (json.getObjectItem name).bind Json.getStringValue = some text)
    (call : Nat)
    (f : Option CharPtr → σ → σ) :
    setString call json name f = .store (f (some ⟨call, text⟩)) := by
  simp [setString, h]

theorem withArray_of_some
    {items : List Json}
    (h : (json.getObjectItem name).bind Json.getArray = some items)
    (k : List Json → Filler σ) :
    withArray json name k = k items := by
  simp [withArray, h]

theorem withObject_of_some
    (h : json.getObjectItem name = some item)
    (hobject : item.isObject = true)
    (k : Json → Filler σ) :
    withObject json name k = k item := by
  simp [withObject, h, hobject]

theorem exists_of_has
    (h : json.has name = true) :
    ∃ item, json.getObjectItem name = some item :=
  Option.isSome_iff_exists.mp h

theorem exists_of_hasString
    (h : json.hasString name = true) :
    ∃ text, (json.getObjectItem name).bind Json.getStringValue = some text :=
  Option.isSome_iff_exists.mp h

theorem exists_of_listed
    {p : List Json → Bool}
    (h : json.listed name p = true) :
    ∃ items, (json.getObjectItem name).bind Json.getArray = some items ∧ p items = true := by
  unfold Json.listed at h
  split at h
  · rename_i items hitems
    exact ⟨items, hitems, h⟩
  · cases h

theorem exists_of_within
    {p : Json → Bool}
    (h : json.within name p = true) :
    ∃ item, json.getObjectItem name = some item ∧ item.isObject = true ∧ p item = true := by
  unfold Json.within at h
  split at h
  · rename_i item hitem
    exact ⟨item, hitem, by simpa using h⟩
  · cases h

end Lookups

/-! ### Platforms -/

theorem parseSection_overwrites
    {json : Json}
    (h : sectionComplete json = true) :
    (parseSection json).Overwrites := by
  simp only [sectionComplete, Bool.and_eq_true] at h
  obtain ⟨v, hv⟩ := exists_of_has h.1.1
  obtain ⟨w, hw⟩ := exists_of_has h.1.2
  obtain ⟨x, hx⟩ := exists_of_has h.2
  intro a b
  simp [parseSection, setNumber_of_some hv, setNumber_of_some hw, setNumber_of_some hx]

theorem parsePlatform_overwrites
    (call : Nat)
    {json : Json}
    (h : platformComplete json = true) :
    (parsePlatform call json).Overwrites := by
  simp only [platformComplete, Bool.and_eq_true] at h
  obtain ⟨v, hv⟩ := exists_of_has h.1.1
  obtain ⟨text, htext⟩ := exists_of_hasString h.1.2
  obtain ⟨items, hitems, hcomplete⟩ := exists_of_listed h.2
  have hall : (items.map parseSection).all Filler.ok = true := by
    simpa [List.all_map, Function.comp_def] using hcomplete
  have hsections : (Filler.vector Section.zero (items.map parseSection)).Overwrites := by
    apply Filler.Overwrites.vector _ hall
    intro p hp
    obtain ⟨item, hitem, rfl⟩ := List.mem_map.mp hp
    exact parseSection_overwrites (List.all_eq_true.mp hcomplete item hitem)
  intro a b
  simp [parsePlatform, parsePlatformSection, setNumber_of_some hv, setString_of_some htext,
    withArray_of_some hitems, hsections a.sections b.sections]

/-- The platforms of a successful load do not depend on the configuration before it. -/
theorem parserGPU_platforms
    (call : Nat)
    {tree : Json}
    (h : gpuComplete tree = true)
    (a b : LoadReceptor) :
    (parserGPU call tree).fill a = (parserGPU call tree).fill b := by
  obtain ⟨gpu, hgpu, hobject, hparts⟩ := exists_of_within h
  simp only [Bool.and_eq_true] at hparts
  obtain ⟨text, htext⟩ := exists_of_hasString hparts.1
  obtain ⟨items, hitems, hcomplete⟩ := exists_of_listed hparts.2
  have hall : (items.map (parsePlatform call)).all Filler.ok = true := by
    simpa [List.all_map, Function.comp_def] using hcomplete
  have hplatforms : (Filler.vector Platform.zero (items.map (parsePlatform call))).Overwrites := by
    apply Filler.Overwrites.vector _ hall
    intro p hp
    obtain ⟨item, hitem, rfl⟩ := List.mem_map.mp hp
    exact parsePlatform_overwrites call (List.all_eq_true.mp hcomplete item hitem)
  simp [parserGPU, withObject_of_some hgpu hobject, setString_of_some htext,
    withArray_of_some hitems, hplatforms a.platforms b.platforms]

/-! ### Metrology sections -/

/-- The number of a member as it is stored. -/
def numberAt (json : Json) (name : String) : Option Int :=
  (json.getObjectItem name).map fun item => doubleToInt item.getNumberValue

theorem setNumber_eq_require
    {σ : Type}
    (json : Json)
    (name : String)
    (f : Int → σ → σ) :
    setNumber json name f = .require (numberAt json name) f := by
  unfold setNumber numberAt
  cases json.getObjectItem name <;> rfl

/-- The metrology section of a channel. -/
def metrologyOf (channel : Json) : Option Json :=
  (channel.getObjectItem "metrology").filter Json.isObject

/-- What a load assigns to `max_weight_value`, if it does. -/
def maxRead (channel : Json) : Option Int :=
  (metrologyOf channel).bind (numberAt · "max_weight_value")

/-- What a load assigns to `zero_calibration_value`, if it gets there. -/
def zeroRead (channel : Json) : Option Int32 :=
  if (maxRead channel).isSome then
    ((metrologyOf channel).bind (numberAt · "zero_calibration_value")).map Int32.ofInt
  else none

/-- The points that a load reads, if it gets there and the section has an array of them. -/
def sectionsRead (channel : Json) : Option (List Json) :=
  if (zeroRead channel).isSome then
    (metrologyOf channel).bind fun metrology =>
      (metrology.getObjectItem "linear_sections").bind Json.getArray
  else none

/-- `linearSections` after a load. -/
def storeSections (channel : Json) (sections : List LinearSection) : List LinearSection :=
  match sectionsRead channel with
  | some items => (Filler.vector LinearSection.zero (items.map parseLinearSection)).fill sections
  | none => sections

/-- The fields are read from the object `metrology`, where there is one. -/
theorem parseMetrologyChannel_fill_metrology
    (json : Json)
    (a : Channel) :
    (parseMetrologyChannel json).fill a =
      match metrologyOf json with
      | some metrology =>
          (Filler.steps
            [setNumber metrology "max_weight_value" fun v (s : Channel) =>
                { s with maxWeightValue := v },
              setNumber metrology "zero_calibration_value" fun v s =>
                { s with zeroCalibrationValue := .ofInt v },
              parseLinearSections metrology]).fill a
      | none => a := by
  unfold parseMetrologyChannel withObject metrologyOf
  cases json.getObjectItem "metrology" with
  | none => rfl
  | some metrology =>
      by_cases hobject : metrology.isObject
      · simp only [hobject, if_true, Option.filter_some]
      · simp only [hobject, Option.filter_some, Bool.false_eq_true, if_false, Filler.fail_fill]

theorem parseMetrologyChannel_fill
    (json : Json)
    (a : Channel) :
    (parseMetrologyChannel json).fill a =
      { a with
        maxWeightValue := (maxRead json).getD a.maxWeightValue
        zeroCalibrationValue := (zeroRead json).getD a.zeroCalibrationValue
        linearSections := storeSections json a.linearSections } := by
  rw [parseMetrologyChannel_fill_metrology]
  cases hm : metrologyOf json with
  | none => simp [maxRead, zeroRead, sectionsRead, storeSections, hm]
  | some metrology =>
      simp only [setNumber_eq_require]
      cases hmax : numberAt metrology "max_weight_value" with
      | none => simp [maxRead, zeroRead, sectionsRead, storeSections, hm, hmax]
      | some v =>
          cases hzero : numberAt metrology "zero_calibration_value" with
          | none => simp [maxRead, zeroRead, sectionsRead, storeSections, hm, hmax, hzero]
          | some w =>
              cases hitems : (metrology.getObjectItem "linear_sections").bind Json.getArray with
              | none =>
                  simp [maxRead, zeroRead, sectionsRead, storeSections, parseLinearSections, hm, hmax,
                    hzero, hitems]
              | some items =>
                  simp [maxRead, zeroRead, sectionsRead, storeSections, parseLinearSections, hm, hmax,
                    hzero, hitems]

/-- What a load assigns to the fields of a point. -/
def weightRead (json : Json) : Option Int :=
  if json.isObject then numberAt json "weight" else none

def counterRead (json : Json) : Option Int32 :=
  if (weightRead json).isSome then (numberAt json "counter").map Int32.ofInt else none

theorem parseLinearSection_fill
    (json : Json)
    (a : LinearSection) :
    (parseLinearSection json).fill a =
      { a with
        weightValue := (weightRead json).getD a.weightValue
        rawValue := (counterRead json).getD a.rawValue } := by
  by_cases hobject : json.isObject
  · cases hweight : numberAt json "weight" with
    | none => simp [parseLinearSection, setNumber_eq_require, hobject, weightRead, counterRead, hweight]
    | some v =>
        cases hcounter : numberAt json "counter" <;>
          simp [parseLinearSection, setNumber_eq_require, hobject, weightRead, counterRead, hweight,
            hcounter]
  · simp [parseLinearSection, hobject, weightRead, counterRead]

/-- What a load assigns to the fields of a connection. -/
def platformRead (json : Json) : Option Int :=
  if json.isObject then numberAt json "id_plaform" else none

def sectionRead (json : Json) : Option Int :=
  if (platformRead json).isSome then numberAt json "id_section" else none

theorem parseConnected_fill
    (json : Json)
    (a : PlatformSection) :
    (parseConnected json).fill a =
      { a with
        idPlatform := (platformRead json).getD a.idPlatform
        idSection := (sectionRead json).getD a.idSection } := by
  by_cases hobject : json.isObject
  · cases hplatform : numberAt json "id_plaform" with
    | none => simp [parseConnected, setNumber_eq_require, hobject, platformRead, sectionRead, hplatform]
    | some v =>
        cases hsection : numberAt json "id_section" <;>
          simp [parseConnected, setNumber_eq_require, hobject, platformRead, sectionRead, hplatform,
            hsection]
  · simp [parseConnected, hobject, platformRead, sectionRead]

/-! ### Leftovers -/

/-- What is left of a number: nothing if it is assigned. -/
def leftOf {α : Type} [OfNat α 0] (assigned : Option α) (old : α) : α :=
  if assigned.isSome then 0 else old

theorem getD_eq_getD_iff
    {α : Type}
    [OfNat α 0]
    (assigned : Option α)
    (a b : α) :
    assigned.getD a = assigned.getD b ↔ leftOf assigned a = leftOf assigned b := by
  cases assigned <;> simp [leftOf]

/-- Of a point the ratio is always left. -/
def linearSectionLeft (json : Json) (a : LinearSection) : LinearSection where
  rawValue := leftOf (counterRead json) a.rawValue
  weightValue := leftOf (weightRead json) a.weightValue
  ratio := a.ratio

def connectedLeft (json : Json) (a : PlatformSection) : PlatformSection where
  idPlatform := leftOf (platformRead json) a.idPlatform
  idSection := leftOf (sectionRead json) a.idSection

theorem parseLinearSection_leaves
    (json : Json) :
    (parseLinearSection json).Leaves (linearSectionLeft json) := by
  intro a b
  simp [parseLinearSection_fill, linearSectionLeft, getD_eq_getD_iff]

theorem parseConnected_leaves
    (json : Json) :
    (parseConnected json).Leaves (connectedLeft json) := by
  intro a b
  simp [parseConnected_fill, connectedLeft, getD_eq_getD_iff]

/-- The points that were there if the document has none, their ratios otherwise. -/
def sectionsLeft (channel : Json) (sections : List LinearSection) : List LinearSection :=
  match sectionsRead channel with
  | some items =>
      Filler.itemsLeft parseLinearSection linearSectionLeft items
        (resize LinearSection.zero items.length sections)
  | none => sections

theorem storeSections_leaves
    (channel : Json)
    (a b : List LinearSection) :
    storeSections channel a = storeSections channel b ↔
      sectionsLeft channel a = sectionsLeft channel b := by
  unfold storeSections sectionsLeft
  cases sectionsRead channel with
  | none => rfl
  | some items => exact Filler.Leaves.vector LinearSection.zero parseLinearSection_leaves items a b

/-- The elements of `connectedSections`. -/
def connectedItems (channel : Json) : List Json :=
  ((channel.getObjectItem "connectedSections").bind Json.getArray).getD []

/-- What a load leaves of a channel: the identifier of its scale, all flags but
`FL_CHANNEL_IN_MOTION`, `diff_zero_value`, the averaging but its time, and what the
metrology section and the connections do not assign. -/
def channelLeft (json : Json) (c : ChannelConfiguration) : ChannelConfiguration where
  channel := 0
  flagChannel := c.flagChannel &&& ~~~flChannelInMotion
  maxWeightValue := leftOf (maxRead json) c.maxWeightValue
  zeroCalibrationValue := leftOf (zeroRead json) c.zeroCalibrationValue
  diffZeroValue := c.diffZeroValue
  averagValue := { c.averagValue with averagTime := 0 }
  linearSections := sectionsLeft json c.linearSections
  description := none
  comPort := 0
  deviceType := 0
  sensors := ⟨none, none, 0⟩
  idScale := c.idScale
  pluginSections :=
    Filler.itemsLeft parseConnected connectedLeft (connectedItems json)
      (resize PlatformSection.zero (connectedItems json).length c.pluginSections)

/-- The channel after a load. -/
def channelFill (call : Nat) (json : Json) (c : ChannelConfiguration) : ChannelConfiguration :=
  let filled := (parseChannelFields call json).fill c
  { filled with toChannel := (parseMetrologyChannel json).fill filled.toChannel }

/-- The channel after a load, field by field. -/
theorem channelFill_eq
    (call : Nat)
    {json : Json}
    (h : channelFieldsComplete json = true) :
    ∃ (id comPort deviceType averagTime : Int) (text : List UInt8) (sensors : Sensor) (wim : FloatValue),
      ∀ c, channelFill call json c =
        { channel := id
          flagChannel := setInMotion wim c.flagChannel
          maxWeightValue := (maxRead json).getD c.maxWeightValue
          zeroCalibrationValue := (zeroRead json).getD c.zeroCalibrationValue
          diffZeroValue := c.diffZeroValue
          averagValue := { c.averagValue with averagTime := averagTime }
          linearSections := storeSections json c.linearSections
          description := some ⟨call, text⟩
          comPort := comPort
          deviceType := deviceType
          sensors := sensors
          idScale := c.idScale
          pluginSections :=
            (Filler.vector PlatformSection.zero ((connectedItems json).map parseConnected)).fill
              c.pluginSections } := by
  simp only [channelFieldsComplete, Bool.and_eq_true] at h
  obtain ⟨⟨⟨⟨⟨⟨⟨⟨hobject, hid⟩, hdescription⟩, hcom⟩, hdevice⟩, hsensors⟩, hconnected⟩, haverage⟩,
    hwim⟩ := h
  obtain ⟨id, hid⟩ := exists_of_has hid
  obtain ⟨text, htext⟩ := exists_of_hasString hdescription
  obtain ⟨com, hcom⟩ := exists_of_has hcom
  obtain ⟨device, hdevice⟩ := exists_of_has hdevice
  obtain ⟨sensors, hsensors, hsensorsObject, hparts⟩ := exists_of_within hsensors
  obtain ⟨items, hitems, -⟩ := exists_of_listed hconnected
  obtain ⟨average, haverage⟩ := exists_of_has haverage
  obtain ⟨wim, hwim⟩ := exists_of_has hwim
  simp only [sensorsComplete, Bool.and_eq_true] at hparts
  obtain ⟨name, hname⟩ := exists_of_hasString hparts.1.1
  obtain ⟨type, htype⟩ := exists_of_hasString hparts.1.2
  obtain ⟨count, hcount⟩ := exists_of_has hparts.2
  refine
    ⟨doubleToInt id.getNumberValue, doubleToInt com.getNumberValue,
      doubleToInt device.getNumberValue, doubleToInt average.getNumberValue, text,
      ⟨some ⟨call, name⟩, some ⟨call, type⟩, doubleToInt count.getNumberValue⟩,
      wim.getNumberValue, ?_⟩
  intro c
  simp [channelFill, parseChannelFields, parseConnectedSections, parseSensors, connectedItems,
    parseMetrologyChannel_fill, hobject, hitems, hwim, setNumber_of_some hid,
    setNumber_of_some hcom, setNumber_of_some hdevice, setNumber_of_some haverage,
    setNumber_of_some hcount, setString_of_some htext, setString_of_some hname,
    setString_of_some htype, withObject_of_some hsensors hsensorsObject, withArray_of_some hitems]

/-- Setting some flags gives the same from two states when the other flags agree. -/
theorem or_eq_or_iff
    (f g m : UInt32) :
    f ||| m = g ||| m ↔ f &&& ~~~m = g &&& ~~~m := by
  simp only [← UInt32.toBitVec_inj, UInt32.toBitVec_or, UInt32.toBitVec_and, UInt32.toBitVec_not]
  rw [BitVec.eq_of_getElem_eq_iff, BitVec.eq_of_getElem_eq_iff]
  refine forall_congr' fun i => forall_congr' fun hi => ?_
  simp only [BitVec.getElem_or, BitVec.getElem_and, BitVec.getElem_not]
  cases m.toBitVec[i] <;> simp

theorem setInMotion_eq_iff
    (d : FloatValue)
    (f g : UInt32) :
    setInMotion d f = setInMotion d g ↔
      f &&& ~~~flChannelInMotion = g &&& ~~~flChannelInMotion := by
  unfold setInMotion
  split
  · exact or_eq_or_iff f g flChannelInMotion
  · rfl

theorem channelFill_leaves
    (call : Nat)
    {json : Json}
    (h : channelFieldsComplete json = true)
    (a b : ChannelConfiguration) :
    channelFill call json a = channelFill call json b ↔
      channelLeft json a = channelLeft json b := by
  obtain ⟨id, comPort, deviceType, averagTime, text, sensors, wim, hfill⟩ := channelFill_eq call h
  have hplugins :=
    Filler.Leaves.vector PlatformSection.zero parseConnected_leaves (connectedItems json)
      a.pluginSections b.pluginSections
  simp [hfill, channelLeft, setInMotion_eq_iff, getD_eq_getD_iff, storeSections_leaves, hplugins]

/-! ### Scales -/

/-- The flags of a list of modes. -/
def modeFlags : List Json → UInt32
  | [] => 0
  | json :: rest => (json.getStringValue.bind modeFlag).getD 0 ||| modeFlags rest

/-- The elements of `modesWork`. -/
def modeItems (scale : Json) : List Json :=
  ((scale.getObjectItem "modesWork").bind Json.getArray).getD []

theorem steps_parseMode_fill
    {items : List Json}
    (h : items.all modeComplete = true)
    (s : ScaleConfiguration) :
    (Filler.steps (items.map parseMode)).fill s =
      { s with flagModeWork := s.flagModeWork ||| modeFlags items } := by
  induction items generalizing s with
  | nil => simp [modeFlags]
  | cons json rest ih =>
      simp only [List.all_cons, Bool.and_eq_true] at h
      obtain ⟨flag, hflag⟩ := Option.isSome_iff_exists.mp h.1
      simp [parseMode, hflag, ih h.2, modeFlags, UInt32.or_assoc]

/-- What a load leaves of a scale: the descriptions, the flags of the modes that the
document does not list, the limits and the zero settings. -/
def scaleLeft (json : Json) (s : ScaleConfiguration) : ScaleConfiguration :=
  { s with
    idScale := 0
    flagModeWork := s.flagModeWork &&& ~~~modeFlags (modeItems json)
    idxUnit := 0
    idChannel := []
    discretChannel := ⟨0, 0⟩ }

/-- The scale after a load, field by field. -/
theorem parseScale_fill
    {json : Json}
    (h : scaleComplete json = true) :
    ∃ (id units : Int) (channels : List Int) (discret : DiscretChannel),
      ∀ s, (parseScale json).fill s =
        { s with
          idScale := id
          flagModeWork := s.flagModeWork ||| modeFlags (modeItems json)
          idxUnit := units
          idChannel := channels
          discretChannel := discret } := by
  simp only [scaleComplete, Bool.and_eq_true] at h
  obtain ⟨⟨⟨⟨⟨hobject, hid⟩, hunits⟩, hmodes⟩, hchannels⟩, hdiscret⟩ := h
  obtain ⟨id, hid⟩ := exists_of_has hid
  obtain ⟨units, hunits⟩ := exists_of_has hunits
  obtain ⟨modes, hmodes, hcomplete⟩ := exists_of_listed hmodes
  obtain ⟨channels, hchannels, -⟩ := exists_of_listed hchannels
  obtain ⟨discret, hdiscret, hdiscretObject, hparts⟩ := exists_of_within hdiscret
  simp only [Bool.and_eq_true] at hparts
  obtain ⟨value, hvalue⟩ := exists_of_has hparts.1
  obtain ⟨multiplier, hmultiplier⟩ := exists_of_has hparts.2
  let ids :=
    Filler.vector (0 : Int)
      (channels.map fun item => .store fun _ => doubleToInt item.getNumberValue)
  have hids : ids.Overwrites := by
    apply Filler.Overwrites.vector
    · simp [List.all_map, Function.comp_def]
    · intro p hp
      obtain ⟨item, -, rfl⟩ := List.mem_map.mp hp
      intro a b
      rfl
  refine
    ⟨doubleToInt id.getNumberValue, doubleToInt units.getNumberValue, ids.fill [],
      ⟨doubleToInt value.getNumberValue, FloatFormat.binary32.convert multiplier.getNumberValue⟩, ?_⟩
  intro s
  have hall : (Filler.steps (modes.map parseMode)).ok = true := by
    rw [steps_parseMode_ok, hcomplete]
  have hsame : ids.fill s.idChannel = ids.fill [] := hids _ _
  simp [parseScale, hobject, modeItems, hmodes, hmultiplier, hall, steps_parseMode_fill hcomplete,
    setNumber_of_some hid, setNumber_of_some hunits, setNumber_of_some hvalue,
    withArray_of_some hmodes, withArray_of_some hchannels,
    withObject_of_some hdiscret hdiscretObject, ← hsame, ids]

theorem parseScale_leaves
    {json : Json}
    (h : scaleComplete json = true)
    (a b : ScaleConfiguration) :
    (parseScale json).fill a = (parseScale json).fill b ↔ scaleLeft json a = scaleLeft json b := by
  obtain ⟨id, units, channels, discret, hfill⟩ := parseScale_fill h
  simp [hfill, scaleLeft, or_eq_or_iff]

/-! ### The configuration after a load -/

/-- The scales of a document. -/
def scaleItems (tree : Json) : List Json :=
  ((tree.getObjectItem "scales").bind Json.getArray).getD []

theorem parseChannelList_fill
    (call : Nat)
    (rc : Bool)
    {items : List Json}
    (h : items.all channelFieldsComplete = true)
    {channels : List ChannelConfiguration}
    (hlen : channels.length = items.length) :
    (parseChannelList call rc items).fill channels =
      List.zipWith (channelFill call) items channels := by
  induction items generalizing rc channels with
  | nil => simpa [parseChannelList] using hlen
  | cons json rest ih =>
      cases channels with
      | nil => simp at hlen
      | cons c later =>
          simp only [List.all_cons, Bool.and_eq_true] at h
          have hlater : later.length = rest.length := by simpa using hlen
          simp [parseChannelList, h.1, channelFill, ih _ h.2 hlater]

/-- What a successful load makes of the three tables. -/
theorem parserTree_tables
    (call : Nat)
    {tree : Json}
    (h : documentWith channelsChecked tree = true)
    (conf : MatrixConfiguration) :
    ((parserTree call tree).fill conf).loadReceptor = (parserGPU call tree).fill conf.loadReceptor ∧
      ((parserTree call tree).fill conf).channelConfiguration =
        List.zipWith (channelFill call) (channelItems tree)
          (resize ChannelConfiguration.zero (channelItems tree).length conf.channelConfiguration) ∧
      ((parserTree call tree).fill conf).scaleConfiguration =
        List.zipWith (fun json s => (parseScale json).fill s) (scaleItems tree)
          (resize ScaleConfiguration.zeroed (scaleItems tree).length conf.scaleConfiguration) := by
  simp only [documentWith, Bool.and_eq_true] at h
  obtain ⟨⟨⟨hversion, hgpu⟩, hhardware⟩, hscales⟩ := h
  obtain ⟨version, hversion⟩ := exists_of_hasString hversion
  obtain ⟨hardware, hhardware, hobject, hparts⟩ := exists_of_within hhardware
  simp only [Bool.and_eq_true] at hparts
  obtain ⟨types, htypes, hstrings⟩ := exists_of_listed hparts.1
  obtain ⟨channels, hchannels, hchecked⟩ := exists_of_listed hparts.2
  obtain ⟨scales, hscales, hcomplete⟩ := exists_of_listed hscales
  have hfields : channels.all channelFieldsComplete = true := by
    simp only [channelsChecked, Bool.and_eq_true] at hchecked
    exact hchecked.1
  have hchannelItems : channelItems tree = channels := by
    simp [channelItems, hhardware, hchannels]
  have hscaleItems : scaleItems tree = scales := by
    simp [scaleItems, hscales]
  have hverdicts : (scales.map parseScale).all Filler.ok = true := by
    simpa [List.all_map, Function.comp_def] using hcomplete
  have hscalesFill (as : List ScaleConfiguration) :
      (Filler.vector ScaleConfiguration.zeroed (scales.map parseScale)).fill as =
        List.zipWith (fun json s => (parseScale json).fill s) scales
          (resize ScaleConfiguration.zeroed scales.length as) := by
    simp only [Filler.vector]
    rw [Filler.items_fill_of_ok hverdicts (length_resize _ _ _), List.length_map,
      List.zipWith_map_left]
  have hchannelsFill (as : List ChannelConfiguration) :
      (parseChannelList call true channels).fill
          (resize ChannelConfiguration.zero channels.length as) =
        List.zipWith (channelFill call) channels
          (resize ChannelConfiguration.zero channels.length as) :=
    parseChannelList_fill call true hfields (length_resize _ _ _)
  have hloop : (parseChannelList call true channels).ok = true := by
    rw [parseChannelList_ok]
    exact hchecked
  simp [-List.all_eq_true, List.all_map, Function.comp_def, parserTree, parserHardware,
    parseChannels, parserScales, setString_of_some hversion,
    withObject_of_some hhardware hobject, withArray_of_some htypes, withArray_of_some hchannels,
    withArray_of_some hscales, hchannelItems, hscaleItems, hscalesFill, hchannelsFill, hgpu,
    hloop, hstrings]

/-- The channels of a successful load have all their fields. -/
theorem channelItems_complete
    {tree : Json}
    (h : documentWith channelsChecked tree = true) :
    (channelItems tree).all channelFieldsComplete = true := by
  simp only [documentWith, Bool.and_eq_true] at h
  obtain ⟨hardware, hhardware, -, hparts⟩ := exists_of_within h.1.2
  simp only [Bool.and_eq_true] at hparts
  obtain ⟨channels, hchannels, hchecked⟩ := exists_of_listed hparts.2
  simp only [channelsChecked, Bool.and_eq_true] at hchecked
  simpa [channelItems, hhardware, hchannels] using hchecked.1

theorem scaleItems_complete
    {tree : Json}
    (h : documentWith channelsChecked tree = true) :
    (scaleItems tree).all scaleComplete = true := by
  simp only [documentWith, Bool.and_eq_true] at h
  obtain ⟨scales, hscales, hcomplete⟩ := exists_of_listed h.2
  simpa [scaleItems, hscales] using hcomplete

/-- The same platforms, channels and scales. -/
def SameTables (a b : MatrixConfiguration) : Prop :=
  a.loadReceptor.platforms = b.loadReceptor.platforms ∧
    a.channelConfiguration = b.channelConfiguration ∧
    a.scaleConfiguration = b.scaleConfiguration

/-- What a load leaves of the channels that were there. -/
def channelLeftovers (tree : Json) (conf : MatrixConfiguration) : List ChannelConfiguration :=
  List.zipWith channelLeft (channelItems tree)
    (resize ChannelConfiguration.zero (channelItems tree).length conf.channelConfiguration)

/-- What a load leaves of the scales that were there. -/
def scaleLeftovers (tree : Json) (conf : MatrixConfiguration) : List ScaleConfiguration :=
  List.zipWith scaleLeft (scaleItems tree)
    (resize ScaleConfiguration.zeroed (scaleItems tree).length conf.scaleConfiguration)

/-- Two lists become the same exactly when the same is left of them. -/
theorem zipWith_eq_iff
    {δ α β γ : Type}
    {f : δ → α → β}
    {g : δ → α → γ}
    {js : List δ}
    (hfg : ∀ j ∈ js, ∀ a b, f j a = f j b ↔ g j a = g j b)
    {as bs : List α}
    (has : as.length = js.length)
    (hbs : bs.length = js.length) :
    List.zipWith f js as = List.zipWith f js bs ↔ List.zipWith g js as = List.zipWith g js bs := by
  induction js generalizing as bs with
  | nil => simp
  | cons j rest ih =>
      match as, bs, has, hbs with
      | a :: later, b :: later', has, hbs =>
          simp only [List.zipWith_cons_cons, List.cons.injEq, hfg j (by simp) a b,
            ih (fun k hk => hfg k (by simp [hk])) (by simpa using has) (by simpa using hbs)]

/-- One file, two configurations before the load. -/
theorem parserTree_sameTables_iff
    (call : Nat)
    {tree : Json}
    (h : documentWith channelsChecked tree = true)
    (a b : MatrixConfiguration) :
    SameTables ((parserTree call tree).fill a) ((parserTree call tree).fill b) ↔
      channelLeftovers tree a = channelLeftovers tree b ∧
        scaleLeftovers tree a = scaleLeftovers tree b := by
  have hgpu : gpuComplete tree = true := by
    simp only [documentWith, Bool.and_eq_true] at h
    exact h.1.1.2
  obtain ⟨hplatformsA, hchannelsA, hscalesA⟩ := parserTree_tables call h a
  obtain ⟨hplatformsB, hchannelsB, hscalesB⟩ := parserTree_tables call h b
  have hchannels :=
    zipWith_eq_iff
      (fun json hjson =>
        channelFill_leaves call (List.all_eq_true.mp (channelItems_complete h) json hjson))
      (length_resize ChannelConfiguration.zero (channelItems tree).length a.channelConfiguration)
      (length_resize ChannelConfiguration.zero (channelItems tree).length b.channelConfiguration)
  have hscales :=
    zipWith_eq_iff
      (fun json hjson =>
        parseScale_leaves (List.all_eq_true.mp (scaleItems_complete h) json hjson))
      (length_resize ScaleConfiguration.zeroed (scaleItems tree).length a.scaleConfiguration)
      (length_resize ScaleConfiguration.zeroed (scaleItems tree).length b.scaleConfiguration)
  unfold SameTables channelLeftovers scaleLeftovers
  rw [hplatformsA, hplatformsB, hchannelsA, hchannelsB, hscalesA, hscalesB, hchannels, hscales,
    parserGPU_platforms call hgpu a.loadReceptor b.loadReceptor]
  simp

/-! ### Loading twice -/

theorem leftOf_getD
    {α : Type}
    [OfNat α 0]
    (assigned : Option α)
    (a : α) :
    leftOf assigned (assigned.getD a) = leftOf assigned a := by
  cases assigned <;> rfl

theorem getD_getD
    {α : Type}
    (assigned : Option α)
    (a : α) :
    assigned.getD (assigned.getD a) = assigned.getD a := by
  cases assigned <;> rfl

theorem storeSections_twice
    (channel : Json)
    (sections : List LinearSection) :
    storeSections channel (storeSections channel sections) = storeSections channel sections := by
  have hitem (json : Json) : (parseLinearSection json).Absorbs (parseLinearSection json) := by
    intro a
    simp [parseLinearSection_fill, getD_getD]
  unfold storeSections
  cases sectionsRead channel with
  | none => rfl
  | some items => exact Filler.Absorbs.vector LinearSection.zero items (fun _ => rfl) hitem sections

theorem setInMotion_and_not
    (d : FloatValue)
    (f : UInt32) :
    setInMotion d f &&& ~~~flChannelInMotion = f &&& ~~~flChannelInMotion := by
  unfold setInMotion
  split
  · rw [← or_eq_or_iff, UInt32.or_assoc, UInt32.or_self]
  · rw [UInt32.and_assoc, UInt32.and_self]

/-- A load leaves of its own result what it leaves of the channel before. -/
theorem channelLeft_channelFill
    (call : Nat)
    {json : Json}
    (h : channelFieldsComplete json = true)
    (c : ChannelConfiguration) :
    channelLeft json (channelFill call json c) = channelLeft json c := by
  obtain ⟨id, comPort, deviceType, averagTime, text, sensors, wim, hfill⟩ := channelFill_eq call h
  have hsections :
      sectionsLeft json (storeSections json c.linearSections) = sectionsLeft json c.linearSections :=
    (storeSections_leaves json _ _).mp (storeSections_twice json c.linearSections)
  have hitem (json : Json) : (parseConnected json).Absorbs (parseConnected json) := by
    intro a
    simp [parseConnected_fill, getD_getD]
  have hplugins :=
    (Filler.Leaves.vector PlatformSection.zero parseConnected_leaves (connectedItems json) _ _).mp
      (Filler.Absorbs.vector PlatformSection.zero (connectedItems json) (fun _ => rfl) hitem
        c.pluginSections)
  simp [hfill, channelLeft, leftOf_getD, hsections, setInMotion_and_not, hplugins]

theorem scaleLeft_parseScale
    {json : Json}
    (h : scaleComplete json = true)
    (s : ScaleConfiguration) :
    scaleLeft json ((parseScale json).fill s) = scaleLeft json s := by
  obtain ⟨id, units, channels, discret, hfill⟩ := parseScale_fill h
  have hflags :
      (s.flagModeWork ||| modeFlags (modeItems json)) &&& ~~~modeFlags (modeItems json) =
        s.flagModeWork &&& ~~~modeFlags (modeItems json) := by
    rw [← or_eq_or_iff, UInt32.or_assoc, UInt32.or_self]
  simp [hfill, scaleLeft, hflags]

theorem zipWith_zipWith
    {δ α β : Type}
    {f : δ → α → α}
    {g : δ → α → β}
    {js : List δ}
    (hfg : ∀ j ∈ js, ∀ a, g j (f j a) = g j a)
    (as : List α) :
    List.zipWith g js (List.zipWith f js as) = List.zipWith g js as := by
  induction js generalizing as with
  | nil => simp
  | cons j rest ih =>
      cases as with
      | nil => simp
      | cons a later => simp [hfg j (by simp) a, ih fun k hk => hfg k (by simp [hk])]

theorem parserTree_leftovers
    (call : Nat)
    {tree : Json}
    (h : documentWith channelsChecked tree = true)
    (conf : MatrixConfiguration) :
    channelLeftovers tree ((parserTree call tree).fill conf) = channelLeftovers tree conf ∧
      scaleLeftovers tree ((parserTree call tree).fill conf) = scaleLeftovers tree conf := by
  obtain ⟨-, hchannels, hscales⟩ := parserTree_tables call h conf
  unfold channelLeftovers scaleLeftovers
  rw [hchannels, hscales]
  constructor
  · rw [resize_of_length (by simp [length_resize])]
    exact
      zipWith_zipWith
        (fun json hjson =>
          channelLeft_channelFill call (List.all_eq_true.mp (channelItems_complete h) json hjson)) _
  · rw [resize_of_length (by simp [length_resize])]
    exact
      zipWith_zipWith
        (fun json hjson =>
          scaleLeft_parseScale (List.all_eq_true.mp (scaleItems_complete h) json hjson)) _

/-! ### Loads of one file -/

section SameFile

variable (cJsonParse : List UInt8 → Option Json)

theorem hasFlag_or
    (flags fl : UInt32)
    (hfl : fl ≠ 0) :
    hasFlag (flags ||| fl) fl = true := by
  have hand : (flags ||| fl) &&& fl = fl := by
    simp only [← UInt32.toBitVec_inj, UInt32.toBitVec_or, UInt32.toBitVec_and]
    apply BitVec.eq_of_getElem_eq
    intro i hi
    simp only [BitVec.getElem_or, BitVec.getElem_and]
    cases fl.toBitVec[i] <;> simp
  rw [hasFlag, hand]
  simpa using hfl

/-- A successful load stores what the parsers make of the document. -/
theorem loadConfiguration_tables
    (call : Nat)
    {file : ConfigurationFile}
    {tree : Json}
    (hfile : file.document cJsonParse = some tree)
    (hchecked : documentWith channelsChecked tree = true)
    (conf : MatrixConfiguration) :
    ∃ json flags, hasFlag flags flSystemConfigurationReady = true ∧
      (loadConfiguration cJsonParse call file conf).1 =
        { (parserTree call tree).fill conf with jsonConfig := json, flagSystem := flags } := by
  obtain ⟨text, htext, hparse⟩ := Option.bind_eq_some_iff.mp hfile
  rw [loadConfiguration_read cJsonParse htext]
  simp only [parserJSON, hparse, parserTree_ok, hchecked, if_true]
  exact ⟨_, _, hasFlag_or _ _ (by decide), rfl⟩

/-- The load gives the same tables from both configurations, and loading the file once more
changes nothing. -/
def FunctionOfFile
    (call earlier : Nat)
    (file : ConfigurationFile)
    (a b : MatrixConfiguration) : Prop :=
  SameTables (loadConfiguration cJsonParse call file a).1
      (loadConfiguration cJsonParse call file b).1 ∧
    SameTables
      (loadConfiguration cJsonParse call file (loadConfiguration cJsonParse earlier file a).1).1
      (loadConfiguration cJsonParse call file a).1

/-- The result of a successful load is a function of the file exactly when the two
configurations before it have the same leftovers. -/
theorem functionOfFile_iff
    (call earlier : Nat)
    (file : ConfigurationFile)
    (tree : Json)
    (a b : MatrixConfiguration)
    (hfile : file.document cJsonParse = some tree)
    (hload : (loadConfiguration cJsonParse call file a).2 = matrixlibOk) :
    FunctionOfFile cJsonParse call earlier file a b ↔
      channelLeftovers tree a = channelLeftovers tree b ∧
        scaleLeftovers tree a = scaleLeftovers tree b := by
  have hchecked : documentWith channelsChecked tree = true := by
    have hother := (loadConfiguration_ok_iff cJsonParse hfile).mp hload
    simpa [otherDefect] using hother
  have hsame (c d : MatrixConfiguration) :
      SameTables (loadConfiguration cJsonParse call file c).1
          (loadConfiguration cJsonParse call file d).1 ↔
        channelLeftovers tree c = channelLeftovers tree d ∧
          scaleLeftovers tree c = scaleLeftovers tree d := by
    obtain ⟨json, flags, -, hc⟩ := loadConfiguration_tables cJsonParse call hfile hchecked c
    obtain ⟨json', flags', -, hd⟩ := loadConfiguration_tables cJsonParse call hfile hchecked d
    rw [hc, hd]
    exact parserTree_sameTables_iff call hchecked c d
  have htwice :
      SameTables
        (loadConfiguration cJsonParse call file (loadConfiguration cJsonParse earlier file a).1).1
        (loadConfiguration cJsonParse call file a).1 := by
    obtain ⟨json, flags, -, ha⟩ := loadConfiguration_tables cJsonParse earlier hfile hchecked a
    rw [hsame, ha]
    exact parserTree_leftovers earlier hchecked a
  unfold FunctionOfFile
  rw [hsame]
  exact and_iff_left htwice

end SameFile

/-- A scale with both modes and a channel with a point. -/
def bothModes : Json :=
  sampleDocument
    [sampleChannel []
      (sampleMetrology
        [("linear_sections", .array [.ofMembers [("weight", .number 0), ("counter", .number 7)]])])]
    [sampleScale [.ofText "В СТАТИКЕ", .ofText "В ДВИЖЕНИИ"]]

/-- The same scale with one mode, the same channel without points. -/
def oneMode : Json :=
  sampleDocument [sampleChannel [] (sampleMetrology [])] [sampleScale [.ofText "В СТАТИКЕ"]]

/-- The configuration in which `bothModes` has been loaded. -/
def bothModesLoaded : MatrixConfiguration :=
  (loadConfiguration (parsePrinted [bothModes, oneMode]) 0 (fileOf bothModes) initialization).1

theorem oneMode_document :
    (fileOf oneMode).document (parsePrinted [bothModes, oneMode]) = some oneMode := by
  have hne : bothModes.print ≠ oneMode.print := by decide +kernel
  exact fileOf_document (by decide +kernel) (by simp [hne])

theorem oneMode_functionOfFile :
    FunctionOfFile (parsePrinted [bothModes, oneMode]) 1 0 (fileOf oneMode) initialization
        bothModesLoaded ↔
      channelLeftovers oneMode initialization = channelLeftovers oneMode bothModesLoaded ∧
        scaleLeftovers oneMode initialization = scaleLeftovers oneMode bothModesLoaded :=
  functionOfFile_iff _ 1 0 _ oneMode initialization bothModesLoaded oneMode_document
    (by decide +kernel)

/-- After a load of both modes the file with one mode gives a scale with both, and a channel
with a point that the file does not have. -/
theorem earlier_load_shows :
    (loadConfiguration (parsePrinted [bothModes, oneMode]) 1 (fileOf oneMode)
        initialization).2 = matrixlibOk ∧
      (loadConfiguration (parsePrinted [bothModes, oneMode]) 1 (fileOf oneMode)
        initialization).1.scaleConfiguration.map ScaleConfiguration.flagModeWork = [1] ∧
      (loadConfiguration (parsePrinted [bothModes, oneMode]) 1 (fileOf oneMode)
        bothModesLoaded).1.scaleConfiguration.map ScaleConfiguration.flagModeWork = [3] ∧
      (loadConfiguration (parsePrinted [bothModes, oneMode]) 1 (fileOf oneMode)
        bothModesLoaded).1.channelConfiguration.map (fun c => c.linearSections) =
          [[⟨7, 0, 0⟩]] ∧
      ¬ FunctionOfFile (parsePrinted [bothModes, oneMode]) 1 0 (fileOf oneMode) initialization
        bothModesLoaded := by
  have hfacts :
      (loadConfiguration (parsePrinted [bothModes, oneMode]) 1 (fileOf oneMode)
          initialization).2 = matrixlibOk ∧
        (loadConfiguration (parsePrinted [bothModes, oneMode]) 1 (fileOf oneMode)
          initialization).1.scaleConfiguration.map ScaleConfiguration.flagModeWork = [1] ∧
        (loadConfiguration (parsePrinted [bothModes, oneMode]) 1 (fileOf oneMode)
          bothModesLoaded).1.scaleConfiguration.map ScaleConfiguration.flagModeWork = [3] ∧
        (loadConfiguration (parsePrinted [bothModes, oneMode]) 1 (fileOf oneMode)
          bothModesLoaded).1.channelConfiguration.map (fun c => c.linearSections) =
            [[⟨7, 0, 0⟩]] := by
    decide +kernel
  obtain ⟨hloaded, hone, hboth, hpoint⟩ := hfacts
  refine ⟨hloaded, hone, hboth, hpoint, ?_⟩
  rintro ⟨⟨-, -, hscales⟩, -⟩
  rw [hscales, hboth] at hone
  cases hone

end Metrology
end MatrixBin
