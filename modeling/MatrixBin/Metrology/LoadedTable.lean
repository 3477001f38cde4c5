import MatrixBin.Library.SortedTable
import MatrixBin.Metrology.CurMeasurement
import MatrixBin.Metrology.LoadLeftovers

/-!
# Loaded and calibrated tables

The same calibration points can reach a channel in two ways: from a file, or by
`setCalibrateZero` and a `setCalibrateGane` for each load.  Both ways the table has the
points in the order of the weights.  Only the calibration computes the ratios; the load
leaves in every slot of the table the ratio that was there, and measuring uses nothing else.
-/

namespace MatrixBin
namespace Metrology

open Library

/-- The point of a section. -/
def LinearSection.pair (s : LinearSection) : Int32 × Int := (s.rawValue, s.weightValue)

/-- Weights strictly increasing along the table. -/
def StrictWeight (sections : List LinearSection) : Prop :=
  sections.Pairwise fun s t => s.weightValue < t.weightValue

/-- Points to calibrate with: the zero and loads of increasing weights and raw values. -/
structure CalibrationPoints where
  zero : Int32
  loads : List (Int32 × Int)
  weights : ((zero, 0) :: loads).Pairwise fun p q => p.2 < q.2
  raws : ((zero, 0) :: loads).Pairwise fun p q => p.1 < q.1

def CalibrationPoints.points (P : CalibrationPoints) : List (Int32 × Int) := (P.zero, 0) :: P.loads

/-- A point as a section without a ratio. -/
def sectionOfPair (p : Int32 × Int) : LinearSection := ⟨p.1, p.2, 0⟩

/-! ### The calibrated table -/

theorem putSection_pairs
    (rawValue : Int32)
    (weightValue : Int)
    {sections : List LinearSection}
    (hnew : ∀ s ∈ sections, s.weightValue ≠ weightValue) :
    ((putSection rawValue weightValue sections).map LinearSection.pair).Perm
      ((rawValue, weightValue) :: sections.map LinearSection.pair) := by
  induction sections with
  | nil => exact List.Perm.refl _
  | cons s rest ih =>
      have hs : s.weightValue ≠ weightValue := hnew s (by simp)
      have hrest := ih fun t ht => hnew t (by simp [ht])
      unfold putSection
      split
      · simp only [List.map_cons]
        exact (hrest.cons s.pair).trans (List.Perm.swap _ _ _)
      · exact List.Perm.refl _

/-- The loop over the points is the loop of a table sorted by weight. -/
theorem putSection_eq_putKey
    (rawValue : Int32)
    (weightValue : Int)
    (sections : List LinearSection) :
    putSection rawValue weightValue sections =
      putKey LinearSection.weightValue weightValue ⟨rawValue, weightValue, 0⟩
        (fun s => { s with rawValue := rawValue }) sections := by
  induction sections with
  | nil => rfl
  | cons s rest ih => rw [putSection, putKey, ih]

theorem putSection_strictWeight
    (rawValue : Int32)
    (weightValue : Int)
    {sections : List LinearSection}
    (h : StrictWeight sections) :
    StrictWeight (putSection rawValue weightValue sections) := by
  have hsorted : KeySorted LinearSection.weightValue sections := h
  rw [putSection_eq_putKey]
  change KeySorted LinearSection.weightValue _
  refine KeySorted.putKey ?_ ?_ hsorted
  · rfl
  · intro s
    rfl

theorem calcRatios_pairs
    [Rounding]
    (prev : Option FloatValue)
    (sections : List LinearSection) :
    (calcRatios prev sections).map LinearSection.pair = sections.map LinearSection.pair := by
  fun_induction calcRatios prev sections with
  | case1 prev s t rest ih => simpa [LinearSection.pair] using ih
  | case2 q s => rfl
  | case3 s => rfl
  | case4 => rfl

theorem StrictWeight.of_pairs
    {sections sections' : List LinearSection}
    (hpairs : sections.map LinearSection.pair = sections'.map LinearSection.pair)
    (h : StrictWeight sections) :
    StrictWeight sections' := by
  have hmap (l : List LinearSection) :
      StrictWeight l ↔ (l.map LinearSection.pair).Pairwise fun p q => p.2 < q.2 := by
    rw [List.pairwise_map]
    rfl
  rw [hmap, ← hpairs, ← hmap]
  exact h

/-- Every call of the run returns without an error code. -/
def CallsServed : SystemConfiguration → List CalibrationCall → Prop
  | _, [] => True
  | conf, call :: rest => 0 ≤ (call.handle conf).2 ∧ CallsServed (call.handle conf).1 rest

/-- A served load on a raw-data channel puts its point into the table. -/
theorem gane_served
    {conf : SystemConfiguration}
    {p : GaneCalibration}
    {ch : Channel}
    (hch : channelOf conf p.channel = some ch)
    (hraw : ch.rawData)
    (hcode : 0 ≤ ((CalibrationCall.gane p).handle conf).2) :
    conf.ready ∧ conf.serviceMode ∧
      channelOf ((CalibrationCall.gane p).handle conf).1 p.channel =
        some (setCalibrationGaneChannel ch p.rawValue p.weightValue).1 := by
  obtain ⟨hready, hservice, hact⟩ := calibrationHandler_served calibrateGane hch hcode
  refine ⟨hready, hservice, ?_⟩
  have hcode' : 0 ≤ (calibrateGane p ch).2 := hact ▸ hcode
  have hput : calibrateGane p ch = setCalibrationGaneChannel ch p.rawValue p.weightValue := by
    unfold calibrateGane at hcode' ⊢
    rw [if_pos hraw] at hcode' ⊢
    split_ifs at hcode' ⊢
    · simp [matrixlibExecutionSequenceError] at hcode'
    · simp [matrixlibParamError] at hcode'
    · rfl
  simp only [CalibrationCall.handle, setCalibrateGane,
    channelOf_calibrationHandler calibrateGane_channel, hready, hservice, hch, and_self, if_true,
    Option.map_some, hput]

/-- A run of served loads of new weights adds their points in the order of the weights. -/
theorem ganes_served
    {channel : Int}
    {ganes : List GaneCalibration}
    (hchannel : ∀ p ∈ ganes, p.channel = channel)
    {conf : SystemConfiguration}
    {ch : Channel}
    (hch : channelOf conf channel = some ch)
    (hraw : ch.rawData)
    (hserved : CallsServed conf (ganes.map .gane))
    (hsorted : StrictWeight ch.linearSections)
    (hnew :
      (ch.linearSections.map LinearSection.weightValue ++
        ganes.map GaneCalibration.weightValue).Nodup) :
    ∃ ch', channelOf (runCalibration conf (ganes.map .gane)) channel = some ch' ∧ ch'.rawData ∧
      StrictWeight ch'.linearSections ∧
      (ch'.linearSections.map LinearSection.pair).Perm
        (ch.linearSections.map LinearSection.pair ++
          ganes.map fun p => (p.rawValue, p.weightValue)) := by
  induction ganes generalizing conf ch with
  | nil => exact ⟨ch, hch, hraw, hsorted, by simp⟩
  | cons p rest ih =>
      obtain ⟨hcode, hlater⟩ := hserved
      have hp : p.channel = channel := hchannel p (by simp)
      rw [← hp] at hch
      obtain ⟨-, -, hput⟩ := gane_served hch hraw hcode
      rw [hp] at hput
      let sections := putSection p.rawValue p.weightValue ch.linearSections
      have hpairs :
          (setCalibrationGaneChannel ch p.rawValue p.weightValue).1.linearSections.map
              LinearSection.pair =
            sections.map LinearSection.pair :=
        calcRatios_pairs none sections
      have hfresh : ∀ s ∈ ch.linearSections, s.weightValue ≠ p.weightValue := by
        intro s hs heq
        have hdisjoint := (List.nodup_append.mp hnew).2.2
        exact
          hdisjoint s.weightValue (List.mem_map_of_mem hs) p.weightValue (by simp) heq
      have hperm := putSection_pairs p.rawValue p.weightValue hfresh
      have hsorted' :
          StrictWeight (setCalibrationGaneChannel ch p.rawValue p.weightValue).1.linearSections :=
        StrictWeight.of_pairs hpairs.symm
          (putSection_strictWeight p.rawValue p.weightValue hsorted)
      have hweights :
          ((setCalibrationGaneChannel ch p.rawValue p.weightValue).1.linearSections.map
              LinearSection.weightValue).Perm
            (p.weightValue :: ch.linearSections.map LinearSection.weightValue) := by
        have hmap := (hpairs ▸ hperm).map Prod.snd
        simpa [LinearSection.pair, Function.comp_def] using hmap
      have hnew' :
          ((setCalibrationGaneChannel ch p.rawValue p.weightValue).1.linearSections.map
              LinearSection.weightValue ++ rest.map GaneCalibration.weightValue).Nodup := by
        refine ((hweights.append_right _).nodup_iff).mpr ?_
        have hmiddle :
            (ch.linearSections.map LinearSection.weightValue ++
                p.weightValue :: rest.map GaneCalibration.weightValue).Perm
              (p.weightValue :: (ch.linearSections.map LinearSection.weightValue ++
                rest.map GaneCalibration.weightValue)) :=
          List.perm_middle
        exact hmiddle.nodup_iff.mp (by simpa using hnew)
      obtain ⟨ch', hch', hraw', hstrict, hperm'⟩ :=
        ih (fun q hq => hchannel q (by simp [hq])) hput hraw hlater hsorted' hnew'
      refine ⟨ch', hch', hraw', hstrict, hperm'.trans ?_⟩
      rw [hpairs]
      have hmiddle :
          ((p.rawValue, p.weightValue) :: (ch.linearSections.map LinearSection.pair ++
              rest.map fun q => (q.rawValue, q.weightValue))).Perm
            (ch.linearSections.map LinearSection.pair ++
              (p.rawValue, p.weightValue) :: rest.map fun q => (q.rawValue, q.weightValue)) :=
        List.perm_middle.symm
      exact (hperm.append_right _).trans hmiddle

theorem handle_flagSystem
    (call : CalibrationCall)
    (conf : SystemConfiguration) :
    (call.handle conf).1.flagSystem = conf.flagSystem := by
  cases call with
  | zero p => exact calibrationHandler_flagSystem p conf
  | gane p => exact calibrationHandler_flagSystem p conf
  | zeroCorrection p => exact calibrationHandler_flagSystem p conf

theorem runCalibration_flagSystem
    (calls : List CalibrationCall)
    (conf : SystemConfiguration) :
    (runCalibration conf calls).flagSystem = conf.flagSystem := by
  induction calls generalizing conf with
  | nil => rfl
  | cons call rest ih => exact (ih _).trans (handle_flagSystem call conf)

/-- The calls that calibrate a channel with some points: the zero, then the loads. -/
def calibrationCalls (channel : Int) (P : CalibrationPoints) (ganes : List GaneCalibration) :
    List CalibrationCall :=
  .zero ⟨channel, P.zero⟩ :: ganes.map .gane

/-- The table of a calibrated channel: the points in order, with the right ratios. -/
theorem calibrated_table
    {P : CalibrationPoints}
    {channel : Int}
    {ganes : List GaneCalibration}
    (hchannel : ∀ p ∈ ganes, p.channel = channel)
    (hloads : (ganes.map fun p => (p.rawValue, p.weightValue)).Perm P.loads)
    {conf : SystemConfiguration}
    {ch : Channel}
    (hch : channelOf conf channel = some ch)
    (hraw : ch.rawData)
    (hserved : CallsServed conf (calibrationCalls channel P ganes)) :
    ∃ ch', channelOf (runCalibration conf (calibrationCalls channel P ganes)) channel = some ch' ∧
      ch'.rawData ∧ (runCalibration conf (calibrationCalls channel P ganes)).ready ∧
      ch'.linearSections.map LinearSection.pair = P.points ∧
      RatiosStored sectionRatio ch'.linearSections := by
  obtain ⟨hcode, hlater⟩ := hserved
  obtain ⟨hready, hservice, hact⟩ := calibrationHandler_served calibrateZero hch hcode
  let zeroed : Channel :=
    initLinerarSections { ch with zeroCalibrationValue := P.zero, diffZeroValue := 0 }
  have hzero :
      channelOf ((CalibrationCall.zero ⟨channel, P.zero⟩).handle conf).1 channel = some zeroed := by
    simp only [CalibrationCall.handle, setCalibrateZero,
      channelOf_calibrationHandler calibrateZero_channel, hready, hservice, hch, and_self, if_true,
      Option.map_some, calibrateZero, hraw, zeroed]
  have hweights : (P.points.map Prod.snd).Nodup := by
    refine (List.pairwise_map.mpr P.weights).imp ?_
    intro a b hab
    exact hab.ne
  have hnew :
      (zeroed.linearSections.map LinearSection.weightValue ++
        ganes.map GaneCalibration.weightValue).Nodup := by
    have hperm :
        (zeroed.linearSections.map LinearSection.weightValue ++
            ganes.map GaneCalibration.weightValue).Perm (P.points.map Prod.snd) := by
      have hsnd := hloads.map Prod.snd
      simp only [List.map_map, Function.comp_def] at hsnd
      simpa [zeroed, initLinerarSections, CalibrationPoints.points] using hsnd
    exact hperm.nodup_iff.mpr hweights
  obtain ⟨ch', hch', hraw', hstrict, hpoints⟩ :=
    ganes_served hchannel hzero hraw hlater (List.pairwise_singleton _ _) hnew
  have hstored :
      TableStored sectionRatio (runCalibration conf (calibrationCalls channel P ganes))
        channel := by
    have hsets : (CalibrationCall.zero ⟨channel, P.zero⟩).Sets conf channel := by
      refine ⟨⟨ch, hch, hraw⟩, rfl, hact.trans ?_⟩
      simp [calibrateZero, hraw]
    have hcomputes (call : CalibrationCall) (conf : SystemConfiguration) :
        call.Computes sectionRatio conf channel :=
      call.computes_sectionRatio conf channel
    exact @runCalibration_tableStored _ _ (ganes.map .gane) _ _ sectionRatio_ofPoints
      (runComputes_of_forall hcomputes _ _)
      (hsets.tableStored sectionRatio_ofPoints (hcomputes _ conf))
  have hready' : (runCalibration conf (calibrationCalls channel P ganes)).ready := by
    unfold SystemConfiguration.ready
    rw [runCalibration_flagSystem]
    exact hready
  refine ⟨ch', hch', hraw', hready', ?_, hstored ch' hch'⟩
  have hall : (ch'.linearSections.map LinearSection.pair).Perm P.points := by
    refine hpoints.trans ?_
    simpa [zeroed, initLinerarSections, LinearSection.pair, CalibrationPoints.points] using hloads
  have hsorted : (ch'.linearSections.map LinearSection.pair).Pairwise fun p q => p.2 < q.2 :=
    List.pairwise_map.mpr hstrict
  refine List.Perm.eq_of_pairwise ?_ hsorted P.weights hall
  intro a b _ _ hab hba
  exact absurd hab (not_lt.mpr hba.le)

/-! ### Slots -/

/-- The index of the section that the search loop of a measurement settles on. -/
def slotFor (rawValue : Int32) : List Int32 → Nat
  | [] => 0
  | _ :: rest => if ∃ r ∈ rest, r < rawValue then slotFor rawValue rest + 1 else 0

theorem slotFor_lt
    (rawValue r : Int32)
    (rest : List Int32) :
    slotFor rawValue (r :: rest) < (r :: rest).length := by
  induction rest generalizing r with
  | nil => simp [slotFor]
  | cons t later ih =>
      unfold slotFor
      split
      · simpa using ih t
      · simp

theorem ratioFor_eq_slot
    (sections : List LinearSection)
    (rawValue : Int32) :
    ratioFor sections rawValue =
      ((sections[slotFor rawValue (sections.map LinearSection.rawValue)]?).map
        LinearSection.ratio).getD 0 := by
  induction sections with
  | nil => rfl
  | cons s rest ih =>
      rw [ratioFor_cons, List.map_cons, slotFor]
      have hiff :
          (∃ r ∈ rest.map LinearSection.rawValue, r < rawValue) ↔
            ∃ t ∈ rest, t.rawValue < rawValue := by
        simp
      by_cases h : ∃ t ∈ rest, t.rawValue < rawValue
      · rw [if_pos h, if_pos (hiff.mpr h), List.getElem?_cons_succ]
        exact ih
      · rw [if_neg h, if_neg (fun hr => h (hiff.mp hr))]
        rfl

/-! ### The loaded table -/

/-- The points that the metrology section of a channel lists, with what a load assigns. -/
def listedPoints (channel : Json) : Option (List (Option Int32 × Option Int)) :=
  (sectionsRead channel).map fun items =>
    items.map fun item => (counterRead item, weightRead item)

theorem linearSectionComplete_of_read
    {item : Json}
    {rawValue : Int32}
    {weightValue : Int}
    (hcounter : counterRead item = some rawValue)
    (hweight : weightRead item = some weightValue) :
    linearSectionComplete item = true := by
  have hread : (numberAt item "counter").map Int32.ofInt = some rawValue := by
    simpa [counterRead, hweight] using hcounter
  obtain ⟨counter, hhas, -⟩ := Option.map_eq_some_iff.mp hread
  unfold weightRead at hweight
  split at hweight
  · rename_i hobject
    obtain ⟨w, hw, -⟩ := Option.map_eq_some_iff.mp hweight
    obtain ⟨c, hc, -⟩ := Option.map_eq_some_iff.mp hhas
    simp [linearSectionComplete, Json.has, hobject, hw, hc]
  · cases hweight

/-- The points of a list of items, each of them read. -/
theorem linearSections_read
    {items : List Json}
    {points : List (Int32 × Int)}
    (h :
      (items.map fun item => (counterRead item, weightRead item)) =
        points.map fun p => (some p.1, some p.2))
    (as : List LinearSection) :
    items.all linearSectionComplete = true ∧
      List.zipWith (fun item a => (parseLinearSection item).fill a) items as =
        List.zipWith (fun (p : Int32 × Int) (a : LinearSection) => ⟨p.1, p.2, a.ratio⟩) points as := by
  induction items generalizing points as with
  | nil =>
      obtain rfl : points = [] := by simpa using h.symm
      simp
  | cons item rest ih =>
      match points, h with
      | p :: later, h =>
          simp only [List.map_cons, List.cons.injEq, Prod.mk.injEq] at h
          obtain ⟨⟨hcounter, hweight⟩, hrest⟩ := h
          have hitem := linearSectionComplete_of_read hcounter hweight
          cases as with
          | nil => simp [hitem, (ih hrest []).1]
          | cons a as =>
              refine ⟨by simp [hitem, (ih hrest as).1], ?_⟩
              rw [List.zipWith_cons_cons, List.zipWith_cons_cons, (ih hrest as).2,
                parseLinearSection_fill, hcounter, hweight]
              rfl

/-- The points are stored; the ratios are those that were in the slots. -/
theorem storeSections_listed
    {json : Json}
    {points : List (Int32 × Int)}
    (h : listedPoints json = some (points.map fun p => (some p.1, some p.2)))
    (sections : List LinearSection) :
    storeSections json sections =
      List.zipWith (fun (p : Int32 × Int) (a : LinearSection) => ⟨p.1, p.2, a.ratio⟩) points
        (resize LinearSection.zero points.length sections) := by
  obtain ⟨items, hitems, hpoints⟩ := Option.map_eq_some_iff.mp h
  have hlen : items.length = points.length := by
    simpa using congrArg List.length hpoints
  obtain ⟨hcomplete, hzip⟩ :=
    linearSections_read hpoints (resize LinearSection.zero points.length sections)
  have hok : (items.map parseLinearSection).all Filler.ok = true := by
    simpa [List.all_map, Function.comp_def] using hcomplete
  rw [← hzip, storeSections, hitems]
  simp only [Filler.vector, List.length_map, hlen]
  rw [Filler.items_fill_of_ok hok (by rw [length_resize, List.length_map, hlen]),
    List.zipWith_map_left]

/-- The ratio that is in a slot of a table, 0 in a new slot. -/
def slotRatio (sections : List LinearSection) (k : Nat) : FloatValue :=
  ((sections[k]?).map LinearSection.ratio).getD 0

theorem storeSections_points
    {json : Json}
    {points : List (Int32 × Int)}
    (h : listedPoints json = some (points.map fun p => (some p.1, some p.2)))
    (sections : List LinearSection) :
    (storeSections json sections).map LinearSection.pair = points ∧
      ∀ k < points.length,
        slotRatio (storeSections json sections) k = slotRatio sections k := by
  rw [storeSections_listed h]
  have hlen := length_resize LinearSection.zero points.length sections
  constructor
  · have hpair (as : List LinearSection) (has : as.length = points.length) :
        (List.zipWith (fun (p : Int32 × Int) (a : LinearSection) => ⟨p.1, p.2, a.ratio⟩) points
          as).map LinearSection.pair = points := by
      clear h hlen
      induction points generalizing as with
      | nil => rfl
      | cons p rest ih =>
          match as, has with
          | a :: later, has => simp [LinearSection.pair, ih later (by simpa using has)]
    exact hpair _ hlen
  · intro k hk
    unfold slotRatio
    rw [List.getElem?_zipWith, getElem?_resize LinearSection.zero hk, List.getElem?_eq_getElem hk]
    cases sections[k]? <;> rfl

/-! ### Measuring on both -/

/-- The channel at an index is put into raw-data mode. -/
def SystemConfiguration.enterRawData (conf : SystemConfiguration) (idx : Nat) :
    SystemConfiguration :=
  match conf.channelConfiguration[idx]? with
  | some ch => conf.setChannel idx { ch with flagChannel := ch.flagChannel ||| flChannelRawData }
  | none => conf

/-- A channel whose metrology section, with some points, has been loaded from a file. -/
structure LoadedChannel (cJsonParse : List UInt8 → Option Json) (P : CalibrationPoints) where
  call : Nat
  file : ConfigurationFile
  before : MatrixConfiguration
  tree : Json
  idx : Nat
  channel : Int
  document : file.document cJsonParse = some tree
  accepted : (loadConfiguration cJsonParse call file before).2 = matrixlibOk
  listed :
    ((channelItems tree)[idx]?).bind listedPoints =
      some (P.points.map fun p => (some p.1, some p.2))
  addressed :
    getIdxChannel (loadConfiguration cJsonParse call file before).1.system channel = some idx

/-- The system after the load, the channel in raw-data mode. -/
def LoadedChannel.system
    {cJsonParse : List UInt8 → Option Json}
    {P : CalibrationPoints}
    (L : LoadedChannel cJsonParse P) : SystemConfiguration :=
  (loadConfiguration cJsonParse L.call L.file L.before).1.system.enterRawData L.idx

/-- The table that is in the channel's place before the load. -/
def LoadedChannel.slots
    {cJsonParse : List UInt8 → Option Json}
    {P : CalibrationPoints}
    (L : LoadedChannel cJsonParse P) : List LinearSection :=
  ((L.before.channelConfiguration[L.idx]?).map fun c => c.linearSections).getD []

/-- A raw-data channel that served calls have calibrated with some points, the loads in any
order. -/
structure CalibratedChannel (P : CalibrationPoints) where
  before : SystemConfiguration
  channel : Int
  ch : Channel
  ganes : List GaneCalibration
  addressed : channelOf before channel = some ch
  rawData : ch.rawData = true
  own : ∀ p ∈ ganes, p.channel = channel
  loads : (ganes.map fun p => (p.rawValue, p.weightValue)).Perm P.loads
  served : CallsServed before (calibrationCalls channel P ganes)

def CalibratedChannel.system
    {P : CalibrationPoints}
    (C : CalibratedChannel P) : SystemConfiguration :=
  runCalibration C.before (calibrationCalls C.channel P C.ganes)

/-- The weight that a measurement on a channel reports. -/
def weightOf (conf : SystemConfiguration) (channel : Int) (cur : CurMeasurement) (now : Int) :
    FloatValue :=
  (processingCurMeasurement ⟨{ cur with channel := channel }, none⟩ now conf).cur.weightValue

theorem weightOf_eq
    {conf : SystemConfiguration}
    {channel : Int}
    {ch : Channel}
    (hready : conf.ready)
    (hch : channelOf conf channel = some ch)
    (hraw : ch.rawData)
    (cur : CurMeasurement)
    (now : Int) :
    weightOf conf channel cur now =
      if ch.linearSections.length < 2 then 0
      else .mul (.ofInt cur.rawValue.toInt) (ratioFor ch.linearSections cur.rawValue) := by
  split
  · rename_i hlen
    obtain ⟨idx, hidx, hget⟩ := Option.bind_eq_some_iff.mp hch
    simp [weightOf, processingCurMeasurement, hready, hidx, hget, hraw, hlen]
  · rename_i hlen
    exact (processingCurMeasurement_weight now hready hch hraw (not_lt.mp hlen)).2

/-- The loaded channel in raw-data mode: the points of the file with the ratios of the
slots. -/
theorem LoadedChannel.table
    {cJsonParse : List UInt8 → Option Json}
    {P : CalibrationPoints}
    (L : LoadedChannel cJsonParse P) :
    ∃ ch, channelOf L.system L.channel = some ch ∧ ch.rawData ∧ L.system.ready ∧
      ch.linearSections.map LinearSection.pair = P.points ∧
      ∀ k < P.points.length, slotRatio ch.linearSections k = slotRatio L.slots k := by
  have hchecked : documentWith channelsChecked L.tree = true := by
    have hother := (loadConfiguration_ok_iff cJsonParse L.document).mp L.accepted
    simpa [otherDefect] using hother
  obtain ⟨json, hjson, hlisted⟩ := Option.bind_eq_some_iff.mp L.listed
  obtain ⟨text, flags, hready, hload⟩ :=
    loadConfiguration_tables cJsonParse L.call L.document hchecked L.before
  obtain ⟨-, hchannels, -⟩ := parserTree_tables L.call hchecked L.before
  have hidx : L.idx < (channelItems L.tree).length := (List.getElem?_eq_some_iff.mp hjson).1
  have hfields : channelFieldsComplete json = true :=
    List.all_eq_true.mp (channelItems_complete hchecked) json (List.mem_of_getElem? hjson)
  let old := (L.before.channelConfiguration[L.idx]?).getD ChannelConfiguration.zero
  let new := (channelFill L.call json old).toChannel
  have hget :
      (loadConfiguration cJsonParse L.call L.file L.before).1.system.channelConfiguration[L.idx]? =
        some new := by
    rw [hload]
    simp only [MatrixConfiguration.system, List.getElem?_map]
    rw [hchannels, List.getElem?_zipWith, hjson, getElem?_resize ChannelConfiguration.zero hidx]
    rfl
  have hsystem :
      L.system =
        (loadConfiguration cJsonParse L.call L.file L.before).1.system.setChannel L.idx
          { new with flagChannel := new.flagChannel ||| flChannelRawData } := by
    simp [LoadedChannel.system, SystemConfiguration.enterRawData, hget]
  let raised : Channel := { new with flagChannel := new.flagChannel ||| flChannelRawData }
  have hid : raised.channel = new.channel := rfl
  have hch :
      channelOf (loadConfiguration cJsonParse L.call L.file L.before).1.system L.channel =
        some new := by
    simp [channelOf, L.addressed, hget]
  have hold : old.linearSections = L.slots := by
    simp only [old, LoadedChannel.slots]
    cases L.before.channelConfiguration[L.idx]? <;> rfl
  have hnew : new.linearSections = storeSections json L.slots := by
    obtain ⟨_, _, _, _, _, _, _, hfill⟩ := channelFill_eq L.call hfields
    simp [new, hfill, hold]
  obtain ⟨hpoints, hratios⟩ := storeSections_points hlisted L.slots
  refine ⟨raised, ?_, ?_, ?_, ?_, ?_⟩
  · rw [hsystem, channelOf_setChannel L.addressed hch hid, if_pos rfl]
  · exact hasFlag_or new.flagChannel flChannelRawData (by decide)
  · rw [hsystem, hload]
    exact hready
  · simpa [raised, hnew] using hpoints
  · simpa [raised, hnew] using hratios

theorem length_of_pairs
    {sections : List LinearSection}
    {P : CalibrationPoints}
    (hpairs : sections.map LinearSection.pair = P.points) :
    sections.length = P.points.length := by
  simpa using congrArg List.length hpairs

/-- The weight on the loaded channel. -/
theorem LoadedChannel.weight
    {cJsonParse : List UInt8 → Option Json}
    {P : CalibrationPoints}
    (L : LoadedChannel cJsonParse P)
    (cur : CurMeasurement)
    (now : Int) :
    weightOf L.system L.channel cur now =
      if P.points.length < 2 then 0
      else
        .mul (.ofInt cur.rawValue.toInt)
          (slotRatio L.slots (slotFor cur.rawValue (P.points.map Prod.fst))) := by
  obtain ⟨ch, hch, hraw, hready, hpairs, hratios⟩ := L.table
  have hraws : ch.linearSections.map LinearSection.rawValue = P.points.map Prod.fst := by
    rw [← hpairs]
    simp [LinearSection.pair, Function.comp_def]
  have hslot : slotFor cur.rawValue (P.points.map Prod.fst) < P.points.length := by
    have hlt := slotFor_lt cur.rawValue P.zero (P.loads.map Prod.fst)
    simpa [CalibrationPoints.points] using hlt
  rw [weightOf_eq hready hch hraw, length_of_pairs hpairs, ratioFor_eq_slot, hraws]
  split
  · rfl
  · exact congrArg _ (hratios _ hslot)

/-- The ratio that the calibration computes for the section of a reading. -/
def CalibrationPoints.ratioAt (P : CalibrationPoints) (rawValue : Int32) : Option FloatValue :=
  (segmentBy Prod.fst P.points rawValue).map fun s =>
    sectionRatio (sectionOfPair s.1) (sectionOfPair s.2)

/-- The weight on the calibrated channel. -/
theorem CalibratedChannel.weight
    {P : CalibrationPoints}
    (C : CalibratedChannel P)
    (cur : CurMeasurement)
    (now : Int)
    {ratio : FloatValue}
    (hratio : P.ratioAt cur.rawValue = some ratio) :
    weightOf C.system C.channel cur now = .mul (.ofInt cur.rawValue.toInt) ratio := by
  obtain ⟨ch, hch, hraw, hready, hpairs, hstored⟩ :=
    calibrated_table C.own C.loads C.addressed C.rawData C.served
  have hsorted : StrictRaw ch.linearSections := by
    have hraws : (ch.linearSections.map LinearSection.pair).Pairwise fun p q => p.1 < q.1 := by
      rw [hpairs]
      exact P.raws
    rw [List.pairwise_map] at hraws
    exact hraws
  obtain ⟨⟨p, q⟩, hpoints, rfl⟩ := Option.map_eq_some_iff.mp hratio
  -- the search in the table is the search in the points
  have hkeys (s : LinearSection) : cur.rawValue ≤ s.rawValue ↔ cur.rawValue ≤ s.pair.1 := Iff.rfl
  have hsearch := @segmentBy_map _ _ _ _ _ _ _ _ _ _ Prod.fst _ _ hkeys ch.linearSections
  rw [hpairs, hpoints] at hsearch
  obtain ⟨⟨s, t⟩, hseg, hpair⟩ := Option.map_eq_some_iff.mp hsearch.symm
  obtain ⟨rfl, rfl⟩ := Prod.mk.inj hpair
  have hlen : ¬ ch.linearSections.length < 2 := by
    obtain ⟨front, back, heq⟩ := segmentBy_neighbours hseg
    rw [heq, List.length_append, List.length_cons, List.length_cons]
    omega
  unfold CalibratedChannel.system
  rw [weightOf_eq hready hch hraw, if_neg hlen, ratioFor_stored hstored hsorted hseg]
  rfl

/-- Without a load there is no section, and the weight is 0. -/
theorem CalibratedChannel.weight_zero
    {P : CalibrationPoints}
    (C : CalibratedChannel P)
    (hlen : P.points.length < 2)
    (cur : CurMeasurement)
    (now : Int) :
    weightOf C.system C.channel cur now = 0 := by
  obtain ⟨ch, hch, hraw, hready, hpairs, -⟩ :=
    calibrated_table C.own C.loads C.addressed C.rawData C.served
  unfold CalibratedChannel.system
  rw [weightOf_eq hready hch hraw, length_of_pairs hpairs, if_pos hlen]

/-- Two ratios that a reading cannot tell apart: they are the same, or their products with the
reading are rounded to the same float. -/
inductive SameProduct (rawValue : Int32) (ratio : FloatValue) : FloatValue → Prop
  | same : SameProduct rawValue ratio ratio
  | rounded {other : FloatValue} (hne : ratio ≠ other)
      (hproduct :
        FloatValue.mul (.ofInt rawValue.toInt) ratio =
          FloatValue.mul (.ofInt rawValue.toInt) other) :
      SameProduct rawValue ratio other

theorem sameProduct_iff
    (rawValue : Int32)
    (ratio other : FloatValue) :
    SameProduct rawValue ratio other ↔
      FloatValue.mul (.ofInt rawValue.toInt) ratio =
        FloatValue.mul (.ofInt rawValue.toInt) other := by
  constructor
  · rintro (_ | ⟨-, hproduct⟩)
    · rfl
    · exact hproduct
  · intro hproduct
    by_cases heq : ratio = other
    · rw [← heq]
      exact .same
    · exact .rounded heq hproduct

/-- A loaded and a calibrated channel report the same weight exactly when there are less than
two points, or the reading cannot tell what the slot of its section held before the load from
the ratio that the calibration computes for this section; so for every reading if every slot
held this ratio. -/
theorem loaded_eq_calibrated_iff
    {cJsonParse : List UInt8 → Option Json}
    {P : CalibrationPoints}
    (L : LoadedChannel cJsonParse P)
    (C : CalibratedChannel P)
    (cur : CurMeasurement)
    (now now' : Int) :
    weightOf L.system L.channel cur now = weightOf C.system C.channel cur now' ↔
      P.points.length < 2 ∨
        ∃ ratio, P.ratioAt cur.rawValue = some ratio ∧
          SameProduct cur.rawValue
            (slotRatio L.slots (slotFor cur.rawValue (P.points.map Prod.fst))) ratio := by
  rw [L.weight]
  by_cases hlen : P.points.length < 2
  · rw [if_pos hlen, C.weight_zero hlen]
    simp [hlen]
  · obtain ⟨p, q, hseg⟩ := exists_segmentBy Prod.fst (not_lt.mp hlen) cur.rawValue
    have hratio : P.ratioAt cur.rawValue =
        some (sectionRatio (sectionOfPair p) (sectionOfPair q)) := by
      rw [CalibrationPoints.ratioAt, hseg]
      rfl
    rw [if_neg hlen, C.weight cur now' hratio, ← sameProduct_iff]
    simp only [hlen, false_or, hratio, Option.some.injEq, exists_eq_left']

/-! ### The first load of a file -/

/-- The zero at 0 and a load of 500 at 1000. -/
def oneLoad : CalibrationPoints where
  zero := 0
  loads := [(1000, 500)]
  weights := by simp
  raws := by decide

def oneLoadDocument : Json :=
  sampleDocument
    [sampleChannel []
      (sampleMetrology
        [("linear_sections",
          .array
            [.ofMembers [("weight", .number 0), ("counter", .number 0)],
              .ofMembers [("weight", .number 500), ("counter", .number 1000)]])])]
    []

theorem oneLoadDocument_loaded :
    (loadConfiguration (parsePrinted [oneLoadDocument]) 0 (fileOf oneLoadDocument)
        initialization).2 = matrixlibOk ∧
      getIdxChannel
        (loadConfiguration (parsePrinted [oneLoadDocument]) 0 (fileOf oneLoadDocument)
          initialization).1.system 1 = some 0 := by
  decide +kernel

/-- The file with these points is loaded first. -/
def firstLoaded : LoadedChannel (parsePrinted [oneLoadDocument]) oneLoad where
  call := 0
  file := fileOf oneLoadDocument
  before := initialization
  tree := oneLoadDocument
  idx := 0
  channel := 1
  document := fileOf_document (by decide +kernel) (by simp)
  accepted := oneLoadDocument_loaded.1
  listed := by decide +kernel
  addressed := oneLoadDocument_loaded.2

/-- The uncalibrated channel is calibrated with the same points. -/
def onceCalibrated : CalibratedChannel oneLoad where
  before := uncalibrated
  channel := 1
  ch :=
    { channel := 1
      flagChannel := 1
      maxWeightValue := 20000
      zeroCalibrationValue := -1
      diffZeroValue := 0
      averagValue := ⟨0, 0, 0, 0⟩
      linearSections := [] }
  ganes := [⟨1, 1000, 500⟩]
  addressed := by decide +kernel
  rawData := by decide
  own := by simp
  loads := by simp [oneLoad]
  served := ⟨by decide +kernel, by decide +kernel, trivial⟩

/-- The reading 200 is a weight of 100 on the calibrated channel and of 0 on the loaded one. -/
theorem firstLoaded_weighs_nothing :
    weightOf firstLoaded.system firstLoaded.channel ⟨1, 200, 0, 0⟩ 0 = 0 ∧
      weightOf onceCalibrated.system onceCalibrated.channel ⟨1, 200, 0, 0⟩ 0 = 100 ∧
      weightOf firstLoaded.system firstLoaded.channel ⟨1, 200, 0, 0⟩ 0 ≠
        weightOf onceCalibrated.system onceCalibrated.channel ⟨1, 200, 0, 0⟩ 0 := by
  have hloaded : weightOf firstLoaded.system firstLoaded.channel ⟨1, 200, 0, 0⟩ 0 = 0 := by
    decide +kernel
  have hcalibrated :
      weightOf onceCalibrated.system onceCalibrated.channel ⟨1, 200, 0, 0⟩ 0 = 100 := by
    decide +kernel
  refine ⟨hloaded, hcalibrated, ?_⟩
  rw [hloaded, hcalibrated]
  decide

end Metrology
end MatrixBin
