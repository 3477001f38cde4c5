import Mathlib.Data.Finset.Card
import Mathlib.Data.Finset.Dedup
import MatrixBin.Scaled.CalibrationNumber
import MatrixBin.Scaled.ScaleTable

/-!
# Reading the configuration (`config.c`)

`loadConfig` fills the fixed arrays of `scaled.h` from the sections of the file: `scale[]` and
the `st[]` of each scale, the models in use in `mod_cmd[]`, their names, the titles of the
command sections, and the text of each id in the buffer of `jobj_add_int`.  The sections are
what libconfuse makes of the file.  An access that leaves an array is `none`.

`loads_in_range_iff` says which of the files that are not rejected fit the arrays.
-/

namespace MatrixBin
namespace Scaled

open Library

def maxScales : Nat := 4

def maxDevsInscale : Nat := 6

def maxModels : Nat := 4

/-- `sizeof model` -/
def modelSize : Nat := 12

/-- `sizeof buf` in `jobj_add_int` -/
def jobjSize : Nat := 8

/-- A section `device` -/
structure DeviceSection where
  model : Option (List UInt8)
  datatype : Option (List UInt8)
deriving DecidableEq

/-- `strcmp(p,"raw")==0` -/
def DeviceSection.raw (d : DeviceSection) : Bool := d.datatype = some [0x72, 0x61, 0x77]

/-- A section `serial`; `ser` tells whether `conf_serial` can access the device, and the id is
a `long`. -/
structure SerialSection where
  ser : Bool
  id : ℤ
  device : List DeviceSection

/-- A section `cmd` of the section `command` -/
structure CmdSection where
  title : List UInt8
  setZero : Option (List UInt8)
  setTare : Option (List UInt8)
  resetTare : Option (List UInt8)

structure ConfigFile where
  serial : List SerialSection
  command : List CmdSection

/-- The errors of `loadConfig` behind the parser. -/
inductive ConfigError
  | parseSection
deriving DecidableEq

/-- `scale_term_t`: the model is an entry of `mod_cmd`. -/
structure LoadedTerm where
  datatypeRaw : Bool
  model : Option Nat
deriving DecidableEq

structure LoadedScale where
  id : ℤ
  st : List LoadedTerm
  st_ne : st ≠ []

/-- `mod_cmd` and `scale` -/
structure Loaded where
  models : List ModelCmd
  scales : List LoadedScale

/-- The scales with their models, as the threads find them. -/
def Loaded.table (l : Loaded) : List ScaleSys :=
  l.scales.map fun s =>
    { id := s.id
      st := s.st.map fun t => ⟨t.datatypeRaw, t.model.bind fun k => l.models[k]?⟩
      st_ne := by simp [s.st_ne] }

/-- `sprintf(buf,"%d",val)` -/
def intText (val : ℤ) : List UInt8 := (if val < 0 then [0x2d] else []) ++ printNat val.natAbs

/-- The text of an integer fits with its terminator. -/
def JobjFits (val : ℤ) : Prop := (intText val).length < jobjSize

instance (val : ℤ) : Decidable (JobjFits val) := inferInstanceAs (Decidable (_ < _))

/-- The entry with a name. -/
def findModel (models : List ModelCmd) (name : List UInt8) : Option Nat :=
  models.findIdx? fun m => m.model = name

def noCmds : Vector (Option (List UInt8)) maxTermCmds := Vector.replicate maxTermCmds none

/-- One device: its model is a new one, or in use and loses its commands. -/
def loadDevice (models : List ModelCmd) (d : DeviceSection) :
    Option (List ModelCmd × LoadedTerm) :=
  match d.model with
  | none => some (models, ⟨d.raw, none⟩)
  | some name =>
      match findModel models name with
      | some k =>
          some (models.modify k fun m => { m with cmds := noCmds }, ⟨d.raw, some k⟩)
      | none =>
          if models.length < maxModels ∧ name.length < modelSize then
            some (models ++ [⟨name, noCmds⟩], ⟨d.raw, some models.length⟩)
          else none

/-- The loop over the devices of a scale, from the index `j` on. -/
def loadDevices (models : List ModelCmd) (j : Nat) :
    (ds : List DeviceSection) →
      Option (List ModelCmd × { st : List LoadedTerm // st.length = ds.length })
  | [] => some (models, ⟨[], rfl⟩)
  | d :: ds =>
      if j < maxDevsInscale then
        (loadDevice models d).bind fun (models, t) =>
          (loadDevices models (j + 1) ds).map fun (models, st) =>
            (models, ⟨t :: st.1, by simp [st.2]⟩)
      else none

/-- One scale. -/
def loadSerial (models : List ModelCmd) (sec : SerialSection) :
    Option (Except ConfigError (List ModelCmd × LoadedScale)) :=
  if sec.ser = false then some (.error .parseSection)
  else
    let id := sec.id.bmod (2 ^ 32)
    if ¬ JobjFits id then none
    else if h : sec.device = [] then some (.error .parseSection)
    else
      (loadDevices models 0 sec.device).map fun (models, st) =>
        .ok (models, ⟨id, st.1, fun hst => h (List.length_eq_zero_iff.mp (by
          rw [← st.2, hst, List.length_nil]))⟩)

/-- The loop over the scales. -/
def loadSerials (models : List ModelCmd) (scales : List LoadedScale) :
    List SerialSection → Option (Except ConfigError (List ModelCmd × List LoadedScale))
  | [] => some (.ok (models, scales))
  | sec :: rest =>
      (loadSerial models sec).bind fun
        | .error e => some (.error e)
        | .ok (models, s) =>
            if scales.length < maxScales then loadSerials models (scales ++ [s]) rest else none

/-- The commands of a section. -/
def CmdSection.cmds (c : CmdSection) (old : Vector (Option (List UInt8)) maxTermCmds) :
    Vector (Option (List UInt8)) maxTermCmds :=
  ((old.set 0 c.setZero).set 1 c.setTare).set 2 c.resetTare

/-- `parse_commands` -/
def parseCommands (models : List ModelCmd) : List CmdSection → Option (List ModelCmd)
  | [] => some models
  | c :: rest =>
      if c.title.length < modelSize then
        match findModel models c.title with
        | none => parseCommands models rest
        | some k => parseCommands (models.modify k fun m => { m with cmds := c.cmds m.cmds }) rest
      else none

/-- `loadConfig` up to the section `Length`. -/
def loadConfig (file : ConfigFile) : Option (Except ConfigError Loaded) :=
  if file.serial = [] then some (.error .parseSection)
  else
    (loadSerials [] [] file.serial).bind fun
      | .error e => some (.error e)
      | .ok (models, scales) =>
          (parseCommands models file.command).map fun models => .ok ⟨models, scales⟩

/-! ### Capacities -/

/-- None of the checks of `loadConfig` rejects the file. -/
structure ConfigFile.Accepted (file : ConfigFile) : Prop where
  serial_ne : file.serial ≠ []
  ser : ∀ sec ∈ file.serial, sec.ser = true
  device_ne : ∀ sec ∈ file.serial, sec.device ≠ []

/-- What the other threads rely on when they index the arrays: `m` is a calibration number
that `ldu_loop` reports. -/
structure Loaded.InRange (l : Loaded) : Prop where
  scale_cnt : l.scales.length ≤ maxScales
  dev_cnt : ∀ s ∈ l.scales, s.st.length ≤ maxDevsInscale
  models_cnt : l.models.length ≤ maxModels
  names : ∀ m ∈ l.models, m.model.length < modelSize
  models : ∀ s ∈ l.scales, ∀ t ∈ s.st, ∀ k, t.model = some k → k < l.models.length
  first : ∀ s ∈ l.scales, (s.st.head s.st_ne).model ≠ none
  ids : ∀ s ∈ l.scales, JobjFits s.id
  numbers : ∀ reply, JobjFits (atoi (calibrationText reply))

/-- The file is loaded without leaving an array, into tables whose uses do not leave one. -/
def ConfigFile.LoadsInRange (file : ConfigFile) : Prop :=
  ∃ l, loadConfig file = some (.ok l) ∧ l.InRange

/-- The names of the models, in the order of the file. -/
def SerialSection.names (sec : SerialSection) : List (List UInt8) :=
  sec.device.filterMap DeviceSection.model

def ConfigFile.names (file : ConfigFile) : List (List UInt8) :=
  file.serial.flatMap SerialSection.names

/-- At most four different names, of at most eleven bytes. -/
structure NamesFit (names : List (List UInt8)) : Prop where
  few : names.dedup.length ≤ maxModels
  short : ∀ name ∈ names, name.length < modelSize

/-- A section whose devices fit `st[]`, the first one with a model, and whose id has at most
seven characters. -/
structure SerialSection.Fits (sec : SerialSection) : Prop where
  devices : sec.device.length ≤ maxDevsInscale
  first : ∀ d, sec.device.head? = some d → d.model ≠ none
  id : -1000000 < sec.id.bmod (2 ^ 32) ∧ sec.id.bmod (2 ^ 32) < 10000000

structure ConfigFile.Fits (file : ConfigFile) : Prop where
  scales : file.serial.length ≤ maxScales
  sections : ∀ sec ∈ file.serial, sec.Fits
  names : NamesFit file.names
  titles : ∀ c ∈ file.command, c.title.length < modelSize

section Integers

theorem jobjFits_iff
    (val : ℤ) :
    JobjFits val ↔ -1000000 < val ∧ val < 10000000 := by
  rw [JobjFits, intText, jobjSize, List.length_append]
  by_cases hneg : val < 0
  · have hsix : (printNat val.natAbs).length ≤ 6 ↔ val.natAbs < 10 ^ 6 :=
      length_printNat_le_iff (by omega)
    rw [if_pos hneg, List.length_singleton]
    omega
  · have hseven : (printNat val.natAbs).length ≤ 7 ↔ val.natAbs < 10 ^ 7 :=
      length_printNat_le_iff (by omega)
    rw [if_neg hneg, List.length_nil]
    omega

/-- A number that is read from five bytes. -/
theorem calibration_number_fits
    (reply : List UInt8) :
    JobjFits (atoi (calibrationText reply)) := by
  have hlen := length_calibrationText reply
  have hlt := natAbs_atoi_lt (hlen.trans (by omega))
  have hpow : 10 ^ (calibrationText reply).length ≤ 10 ^ 5 := Nat.pow_le_pow_right (by omega) hlen
  rw [jobjFits_iff]
  omega

end Integers

/-! ### The models in use -/

section Models

variable {names more : List (List UInt8)} {models : List ModelCmd}

/-- The entries of `mod_cmd` after these names. -/
structure ModelsOf (names : List (List UInt8)) (models : List ModelCmd) : Prop where
  nodup : (models.map ModelCmd.model).Nodup
  mem_iff : ∀ name, name ∈ models.map ModelCmd.model ↔ name ∈ names

theorem ModelsOf.length_eq
    (h : ModelsOf names models) :
    models.length = names.dedup.length := by
  have hset : (models.map ModelCmd.model).toFinset = names.toFinset := by
    ext name
    rw [List.mem_toFinset, List.mem_toFinset, h.mem_iff]
  have hcard := congrArg Finset.card hset
  rwa [List.toFinset_card_of_nodup h.nodup, List.length_map, List.card_toFinset] at hcard

/-- Fewer names fit as well. -/
theorem NamesFit.of_append
    (h : NamesFit (names ++ more)) :
    NamesFit names := by
  refine ⟨?_, fun name hname => h.short name (List.mem_append_left _ hname)⟩
  have hsubset : names.toFinset ⊆ (names ++ more).toFinset := by
    intro name hname
    rw [List.mem_toFinset] at hname ⊢
    exact List.mem_append_left _ hname
  have hcard := Finset.card_le_card hsubset
  rw [List.card_toFinset, List.card_toFinset] at hcard
  exact hcard.trans h.few

theorem findModel_isSome_iff
    (name : List UInt8) :
    (findModel models name).isSome ↔ name ∈ models.map ModelCmd.model := by
  rw [findModel, List.findIdx?_isSome]
  simp

theorem findModel_lt
    {name : List UInt8}
    {k : Nat}
    (h : findModel models name = some k) :
    k < models.length := by
  rw [findModel, List.findIdx?_eq_some_iff_findIdx_eq] at h
  exact h.1

/-- Setting the commands of an entry leaves the names alone. -/
theorem map_model_modify
    (models : List ModelCmd)
    (k : Nat)
    (cmds : ModelCmd → Vector (Option (List UInt8)) maxTermCmds) :
    (models.modify k fun m => { m with cmds := cmds m }).map ModelCmd.model =
      models.map ModelCmd.model := by
  induction models generalizing k with
  | nil => simp
  | cons m models ih =>
      cases k with
      | zero => simp
      | succ k => simp [ih k]

theorem ModelsOf.modify
    (h : ModelsOf names models)
    (k : Nat)
    (cmds : ModelCmd → Vector (Option (List UInt8)) maxTermCmds) :
    ModelsOf names (models.modify k fun m => { m with cmds := cmds m }) := by
  constructor
  · rw [map_model_modify]
    exact h.nodup
  · intro name
    rw [map_model_modify, h.mem_iff]

/-- A name that is in use already. -/
theorem ModelsOf.again
    {name : List UInt8}
    (h : ModelsOf names models)
    (hname : name ∈ names) :
    ModelsOf (names ++ [name]) models := by
  refine ⟨h.nodup, fun other => ?_⟩
  rw [h.mem_iff, List.mem_append, List.mem_singleton]
  constructor
  · exact Or.inl
  · rintro (hmem | rfl)
    · exact hmem
    · exact hname

/-- A new name. -/
theorem ModelsOf.add
    {name : List UInt8}
    (h : ModelsOf names models)
    (hname : name ∉ names) :
    ModelsOf (names ++ [name]) (models ++ [⟨name, noCmds⟩]) := by
  constructor
  · rw [List.map_append, List.map_singleton, List.nodup_append]
    refine ⟨h.nodup, List.nodup_singleton name, ?_⟩
    intro a ha b hb hab
    have hb : b = name := List.mem_singleton.mp hb
    rw [h.mem_iff, hab, hb] at ha
    exact hname ha
  · intro other
    rw [List.map_append, List.mem_append, h.mem_iff, List.map_singleton, List.mem_append]

theorem NamesFit.again
    {name : List UInt8}
    (hfit : NamesFit names)
    (hname : name ∈ names) :
    NamesFit (names ++ [name]) := by
  refine ⟨?_, ?_⟩
  · have hset : (names ++ [name]).toFinset = names.toFinset := by
      ext other
      rw [List.mem_toFinset, List.mem_toFinset, List.mem_append, List.mem_singleton]
      constructor
      · rintro (hmem | rfl)
        · exact hmem
        · exact hname
      · exact Or.inl
    rw [← List.card_toFinset, hset, List.card_toFinset]
    exact hfit.few
  · intro other hother
    rw [List.mem_append, List.mem_singleton] at hother
    rcases hother with hmem | rfl
    · exact hfit.short other hmem
    · exact hfit.short other hname

/-- A new name needs a free entry and fits it. -/
theorem ModelsOf.namesFit_add_iff
    {name : List UInt8}
    (h : ModelsOf names models)
    (hfit : NamesFit names)
    (hname : name ∉ names) :
    NamesFit (names ++ [name]) ↔ models.length < maxModels ∧ name.length < modelSize := by
  have hlen := (h.add hname).length_eq
  rw [List.length_append, List.length_singleton] at hlen
  constructor
  · rintro ⟨hfew, hshort⟩
    refine ⟨by omega, hshort name ?_⟩
    exact List.mem_append_right _ (List.mem_singleton_self name)
  · rintro ⟨hroom, hlast⟩
    refine ⟨by omega, fun other hother => ?_⟩
    rw [List.mem_append, List.mem_singleton] at hother
    rcases hother with hmem | rfl
    · exact hfit.short other hmem
    · exact hlast

/-- The list of models only grows. -/
theorem ModelsOf.length_le
    {longer : List ModelCmd}
    (h : ModelsOf names models)
    (hlonger : ModelsOf (names ++ more) longer) :
    models.length ≤ longer.length := by
  have hsub : names.toFinset ⊆ (names ++ more).toFinset := by
    intro name hname
    rw [List.mem_toFinset] at hname ⊢
    exact List.mem_append_left _ hname
  have hcard := Finset.card_le_card hsub
  rwa [List.card_toFinset, List.card_toFinset, ← h.length_eq, ← hlonger.length_eq] at hcard

end Models

/-! ### The loops over the sections -/

section Sections

variable {names : List (List UInt8)} {models : List ModelCmd} {d : DeviceSection}
  {ds : List DeviceSection} {j : Nat}

theorem loadDevice_none
    (hmodel : d.model = none) :
    loadDevice models d = some (models, ⟨d.raw, none⟩) := by
  rw [loadDevice, hmodel]

/-- A model in use loses its commands. -/
theorem loadDevice_again
    {name : List UInt8}
    {k : Nat}
    (hmodel : d.model = some name)
    (hfind : findModel models name = some k) :
    loadDevice models d =
      some (models.modify k fun m => { m with cmds := noCmds }, ⟨d.raw, some k⟩) := by
  rw [loadDevice, hmodel]
  simp only [hfind]

/-- A new model needs a free entry. -/
theorem loadDevice_new
    {name : List UInt8}
    (hmodel : d.model = some name)
    (hfind : findModel models name = none) :
    loadDevice models d =
      if models.length < maxModels ∧ name.length < modelSize then
        some (models ++ [⟨name, noCmds⟩], ⟨d.raw, some models.length⟩)
      else none := by
  rw [loadDevice, hmodel]
  simp only [hfind]

theorem ModelsOf.findModel_none_iff
    (h : ModelsOf names models)
    (name : List UInt8) :
    findModel models name = none ↔ name ∉ names := by
  rw [← h.mem_iff, ← findModel_isSome_iff, Option.not_isSome_iff_eq_none]

/-- A device with room for its model. -/
theorem loadDevice_of_fits
    (h : ModelsOf names models)
    (hfit : NamesFit (names ++ d.model.toList)) :
    ∃ longer t, loadDevice models d = some (longer, t) ∧
      ModelsOf (names ++ d.model.toList) longer ∧
      t.model.isSome = d.model.isSome ∧ ∀ k, t.model = some k → k < longer.length := by
  cases hmodel : d.model with
  | none =>
      refine ⟨models, ⟨d.raw, none⟩, loadDevice_none hmodel, ?_, rfl, fun k hk => nomatch hk⟩
      rwa [Option.toList_none, List.append_nil]
  | some name =>
      rw [hmodel, Option.toList_some] at hfit
      rw [Option.toList_some]
      by_cases hname : name ∈ names
      · obtain ⟨k, hfind⟩ := Option.ne_none_iff_exists'.mp
          (mt (h.findModel_none_iff name).mp (not_not_intro hname))
        refine ⟨_, ⟨d.raw, some k⟩, loadDevice_again hmodel hfind,
          (h.again hname).modify k _, rfl, ?_⟩
        intro i hi
        rw [List.length_modify, ← Option.some.inj hi]
        exact findModel_lt hfind
      · have hroom := (h.namesFit_add_iff hfit.of_append hname).mp hfit
        have hnew := loadDevice_new hmodel ((h.findModel_none_iff name).mpr hname)
        rw [if_pos hroom] at hnew
        refine ⟨_, ⟨d.raw, some models.length⟩, hnew, h.add hname, rfl, ?_⟩
        intro i hi
        rw [List.length_append, List.length_singleton, ← Option.some.inj hi]
        exact Nat.lt_succ_self _

/-- A device whose model does not fit leaves the array of models or the array of its name. -/
theorem fits_of_loadDevice
    (h : ModelsOf names models)
    (hfit : NamesFit names)
    (hrun : (loadDevice models d).isSome) :
    NamesFit (names ++ d.model.toList) := by
  cases hmodel : d.model with
  | none => rwa [Option.toList_none, List.append_nil]
  | some name =>
      rw [Option.toList_some]
      by_cases hname : name ∈ names
      · exact hfit.again hname
      · refine (h.namesFit_add_iff hfit hname).mpr ?_
        by_contra hroom
        rw [loadDevice_new hmodel ((h.findModel_none_iff name).mpr hname), if_neg hroom] at hrun
        exact Bool.false_ne_true hrun

/-- The names of a list of devices. -/
theorem names_cons
    (names : List (List UInt8))
    (d : DeviceSection)
    (ds : List DeviceSection) :
    names ++ (d :: ds).filterMap DeviceSection.model =
      names ++ d.model.toList ++ ds.filterMap DeviceSection.model := by
  cases hmodel : d.model <;> simp [hmodel]

/-- The devices of a scale. -/
theorem loadDevices_of_fits
    (h : ModelsOf names models)
    (hfew : j + ds.length ≤ maxDevsInscale)
    (hfit : NamesFit (names ++ ds.filterMap DeviceSection.model)) :
    ∃ longer st, loadDevices models j ds = some (longer, st) ∧
      ModelsOf (names ++ ds.filterMap DeviceSection.model) longer ∧
      st.1.map (fun t => t.model.isSome) = ds.map (fun d => d.model.isSome) ∧
      ∀ t ∈ st.1, ∀ k, t.model = some k → k < longer.length := by
  induction ds generalizing names models j with
  | nil => exact ⟨models, ⟨[], rfl⟩, rfl, by simpa using h, rfl, by simp⟩
  | cons d ds ih =>
      rw [List.length_cons] at hfew
      rw [names_cons] at hfit ⊢
      obtain ⟨mid, t, hone, hmid, hsome, hidx⟩ := loadDevice_of_fits h hfit.of_append
      obtain ⟨longer, st, hrest, hlonger, hall, hidxs⟩ := ih hmid (j := j + 1) (by omega) hfit
      refine ⟨longer, ⟨t :: st.1, by simp [st.2]⟩, ?_, hlonger, ?_, ?_⟩
      · rw [loadDevices, if_pos (by omega), hone, Option.bind_some]
        simp only [hrest, Option.map_some]
      · rw [List.map_cons, List.map_cons, hsome, hall]
      · intro s hs k hk
        rcases List.mem_cons.mp hs with rfl | hs
        · exact (hidx k hk).trans_le (hmid.length_le hlonger)
        · exact hidxs s hs k hk

theorem fits_of_loadDevices
    (h : ModelsOf names models)
    (hfit : NamesFit names)
    (hj : j ≤ maxDevsInscale)
    (hrun : (loadDevices models j ds).isSome) :
    j + ds.length ≤ maxDevsInscale ∧
      NamesFit (names ++ ds.filterMap DeviceSection.model) := by
  induction ds generalizing names models j with
  | nil => exact ⟨by simpa using hj, by simpa using hfit⟩
  | cons d ds ih =>
      rw [loadDevices] at hrun
      split at hrun
      next hlt =>
        have hone : NamesFit (names ++ d.model.toList) := by
          refine fits_of_loadDevice h hfit ?_
          cases hdev : loadDevice models d with
          | none => simp [hdev] at hrun
          | some r => rfl
        obtain ⟨mid, t, heq, hmid, -, -⟩ := loadDevice_of_fits h hone
        rw [heq, Option.bind_some, Option.isSome_map] at hrun
        obtain ⟨hfew, hrest⟩ := ih hmid hone (j := j + 1) (by omega) hrun
        rw [names_cons, List.length_cons]
        exact ⟨by omega, hrest⟩
      next => exact absurd hrun (by simp)

/-- What is loaded of a section. -/
structure ScaleOf (models : List ModelCmd) (sec : SerialSection) (s : LoadedScale) : Prop where
  id : s.id = sec.id.bmod (2 ^ 32)
  st : s.st.map (fun t => t.model.isSome) = sec.device.map (fun d => d.model.isSome)
  models : ∀ t ∈ s.st, ∀ k, t.model = some k → k < models.length

/-- A section that fits what is left of the arrays. -/
structure SerialSection.FitsArrays (sec : SerialSection) : Prop where
  devices : sec.device.length ≤ maxDevsInscale
  id : JobjFits (sec.id.bmod (2 ^ 32))

variable {sec : SerialSection} {secs : List SerialSection}

theorem loadSerial_of_fits
    (h : ModelsOf names models)
    (hser : sec.ser = true)
    (hdev : sec.device ≠ [])
    (hsec : sec.FitsArrays)
    (hfit : NamesFit (names ++ sec.names)) :
    ∃ longer s, loadSerial models sec = some (.ok (longer, s)) ∧
      ModelsOf (names ++ sec.names) longer ∧ ScaleOf longer sec s := by
  obtain ⟨longer, st, hrun, hlonger, hall, hidx⟩ :=
    loadDevices_of_fits (j := 0) h (by simpa using hsec.devices) hfit
  rw [loadSerial, if_neg (by simp [hser])]
  simp only [hsec.id, not_true_eq_false, if_false, hdev, dite_false, hrun, Option.map_some]
  exact ⟨longer, _, rfl, hlonger, ⟨rfl, hall, hidx⟩⟩

theorem fits_of_loadSerial
    (h : ModelsOf names models)
    (hser : sec.ser = true)
    (hdev : sec.device ≠ [])
    (hfit : NamesFit names)
    (hrun : (loadSerial models sec).isSome) :
    sec.FitsArrays ∧ NamesFit (names ++ sec.names) := by
  rw [loadSerial, if_neg (by simp [hser])] at hrun
  by_cases hid : JobjFits (sec.id.bmod (2 ^ 32))
  · simp only [hid, not_true_eq_false, if_false, hdev, dite_false, Option.isSome_map] at hrun
    obtain ⟨hlen, hnames⟩ := fits_of_loadDevices h hfit (Nat.zero_le _) hrun
    exact ⟨⟨by omega, hid⟩, hnames⟩
  · simp only [hid, not_false_eq_true, if_true] at hrun
    exact absurd hrun Bool.false_ne_true

/-- The models of the earlier scales stay where they are. -/
theorem ScaleOf.mono
    {longer : List ModelCmd}
    {s : LoadedScale}
    (h : ScaleOf models sec s)
    (hle : models.length ≤ longer.length) :
    ScaleOf longer sec s :=
  ⟨h.id, h.st, fun t ht k hk => (h.models t ht k hk).trans_le hle⟩

/-- The names of a list of sections. -/
theorem flatMap_names_cons
    (names : List (List UInt8))
    (sec : SerialSection)
    (secs : List SerialSection) :
    names ++ (sec :: secs).flatMap SerialSection.names =
      names ++ sec.names ++ secs.flatMap SerialSection.names := by
  rw [List.flatMap_cons, List.append_assoc]

theorem loadSerials_of_fits
    {done : List SerialSection}
    {scales : List LoadedScale}
    (h : ModelsOf names models)
    (hdone : List.Forall₂ (ScaleOf models) done scales)
    (hser : ∀ sec ∈ secs, sec.ser = true)
    (hdev : ∀ sec ∈ secs, sec.device ≠ [])
    (hfew : scales.length + secs.length ≤ maxScales)
    (hsec : ∀ sec ∈ secs, sec.FitsArrays)
    (hfit : NamesFit (names ++ secs.flatMap SerialSection.names)) :
    ∃ longer all, loadSerials models scales secs = some (.ok (longer, all)) ∧
      ModelsOf (names ++ secs.flatMap SerialSection.names) longer ∧
      List.Forall₂ (ScaleOf longer) (done ++ secs) all := by
  induction secs generalizing names models done scales with
  | nil => exact ⟨models, scales, rfl, by simpa using h, by simpa using hdone⟩
  | cons sec secs ih =>
      rw [List.length_cons] at hfew
      rw [flatMap_names_cons] at hfit ⊢
      rw [List.forall_mem_cons] at hser hdev hsec
      obtain ⟨mid, s, hone, hmid, hs⟩ :=
        loadSerial_of_fits h hser.1 hdev.1 hsec.1 hfit.of_append
      have hmids : List.Forall₂ (ScaleOf mid) (done ++ [sec]) (scales ++ [s]) :=
        List.rel_append (hdone.imp fun _ _ hold => hold.mono (h.length_le hmid))
          (.cons hs .nil)
      have hroom : scales.length < maxScales := by omega
      obtain ⟨longer, all, hrest, hlonger, hall⟩ := ih hmid hmids hser.2 hdev.2
        (by rw [List.length_append, List.length_singleton]; omega) hsec.2 hfit
      refine ⟨longer, all, ?_, hlonger, by simpa using hall⟩
      rw [loadSerials, hone, Option.bind_some]
      simp only [hroom, if_true, hrest]

theorem fits_of_loadSerials
    {scales : List LoadedScale}
    (h : ModelsOf names models)
    (hser : ∀ sec ∈ secs, sec.ser = true)
    (hdev : ∀ sec ∈ secs, sec.device ≠ [])
    (hfew : scales.length ≤ maxScales)
    (hfit : NamesFit names)
    (hrun : (loadSerials models scales secs).isSome) :
    scales.length + secs.length ≤ maxScales ∧ (∀ sec ∈ secs, sec.FitsArrays) ∧
      NamesFit (names ++ secs.flatMap SerialSection.names) := by
  induction secs generalizing names models scales with
  | nil => exact ⟨by simpa using hfew, by simp, by simpa using hfit⟩
  | cons sec secs ih =>
      rw [List.forall_mem_cons] at hser hdev
      rw [loadSerials] at hrun
      have hone : (loadSerial models sec).isSome := by
        cases hload : loadSerial models sec with
        | none => simp [hload] at hrun
        | some r => rfl
      obtain ⟨hsec, hnames⟩ := fits_of_loadSerial h hser.1 hdev.1 hfit hone
      obtain ⟨mid, s, heq, hmid, -⟩ := loadSerial_of_fits h hser.1 hdev.1 hsec hnames
      rw [heq, Option.bind_some] at hrun
      by_cases hroom : scales.length < maxScales
      · simp only [hroom, if_true] at hrun
        obtain ⟨hlen, hsecs, hall⟩ := ih hmid hser.2 hdev.2
          (by rw [List.length_append, List.length_singleton]; omega) hnames hrun
        rw [List.length_append, List.length_singleton] at hlen
        rw [flatMap_names_cons, List.length_cons, List.forall_mem_cons]
        exact ⟨by omega, ⟨hsec, hsecs⟩, hall⟩
      · simp only [hroom, if_false] at hrun
        exact absurd hrun Bool.false_ne_true

/-- The command sections only need room for their titles. -/
theorem parseCommands_isSome_iff
    (cs : List CmdSection)
    (models : List ModelCmd) :
    (parseCommands models cs).isSome ↔ ∀ c ∈ cs, c.title.length < modelSize := by
  induction cs generalizing models with
  | nil => simp [parseCommands]
  | cons c cs ih =>
      rw [List.forall_mem_cons, parseCommands]
      by_cases htitle : c.title.length < modelSize
      · rw [if_pos htitle]
        cases hfind : findModel models c.title <;> simp only [ih, htitle, true_and]
      · rw [if_neg htitle]
        simp [htitle]

/-- They leave the names of the models alone. -/
theorem map_model_parseCommands
    {cs : List CmdSection}
    {after : List ModelCmd}
    (hrun : parseCommands models cs = some after) :
    after.map ModelCmd.model = models.map ModelCmd.model := by
  induction cs generalizing models with
  | nil => rw [← Option.some.inj hrun]
  | cons c cs ih =>
      rw [parseCommands] at hrun
      split at hrun
      next =>
        split at hrun
        next => exact ih hrun
        next => rw [ih hrun, map_model_modify]
      next => exact nomatch hrun

end Sections

/-! ### The file -/

section Files

variable {file : ConfigFile}

theorem modelsOf_nil : ModelsOf [] [] := ⟨List.nodup_nil, fun _ => Iff.rfl⟩

theorem namesFit_nil : NamesFit [] := ⟨Nat.zero_le _, fun _ h => nomatch h⟩

/-- What an accepted file that keeps to the arrays is loaded into. -/
theorem loadConfig_eq
    (h : file.Accepted)
    (hfew : file.serial.length ≤ maxScales)
    (hsec : ∀ sec ∈ file.serial, sec.FitsArrays)
    (hnames : NamesFit file.names) :
    ∃ models scales, ModelsOf file.names models ∧
      List.Forall₂ (ScaleOf models) file.serial scales ∧
      loadConfig file =
        (parseCommands models file.command).map fun models => .ok ⟨models, scales⟩ := by
  have hnil : List.Forall₂ (ScaleOf []) [] [] := .nil
  obtain ⟨models, scales, hrun, hmodels, hscales⟩ :=
    loadSerials_of_fits modelsOf_nil hnil h.ser h.device_ne (by simpa using hfew) hsec hnames
  refine ⟨models, scales, hmodels, hscales, ?_⟩
  rw [loadConfig, if_neg h.serial_ne, hrun, Option.bind_some]

theorem fits_of_loadConfig
    (h : file.Accepted)
    (hrun : (loadConfig file).isSome) :
    file.serial.length ≤ maxScales ∧ (∀ sec ∈ file.serial, sec.FitsArrays) ∧
      NamesFit file.names ∧ ∀ c ∈ file.command, c.title.length < modelSize := by
  have hserials : (loadSerials [] [] file.serial).isSome := by
    rw [loadConfig, if_neg h.serial_ne] at hrun
    cases hload : loadSerials [] [] file.serial with
    | none => simp [hload] at hrun
    | some r => rfl
  obtain ⟨hfew, hsec, hnames⟩ := fits_of_loadSerials modelsOf_nil h.ser h.device_ne
    (Nat.zero_le _) namesFit_nil hserials
  rw [List.length_nil, Nat.zero_add] at hfew
  obtain ⟨models, scales, -, -, heq⟩ := loadConfig_eq h hfew hsec hnames
  rw [heq, Option.isSome_map, parseCommands_isSome_iff] at hrun
  exact ⟨hfew, hsec, hnames, hrun⟩

/-- The first device of a section has a model exactly when the first one of its scale has. -/
theorem ScaleOf.head_model_iff
    {models : List ModelCmd}
    {sec : SerialSection}
    {s : LoadedScale}
    (h : ScaleOf models sec s) :
    (s.st.head s.st_ne).model ≠ none ↔
      ∀ d, sec.device.head? = some d → d.model ≠ none := by
  have hst := congrArg List.head? h.st
  rw [List.head?_map, List.head?_map, List.head?_eq_some_head s.st_ne, Option.map_some] at hst
  obtain ⟨d, hd, hsome⟩ := Option.map_eq_some_iff.mp hst.symm
  simp only [hd, Option.some.injEq, forall_eq']
  rw [← Option.isSome_iff_ne_none, ← Option.isSome_iff_ne_none, hsome]

/-- Each section has its scale, and each scale its section. -/
theorem scaleOf_mem
    {models : List ModelCmd}
    {secs : List SerialSection}
    {scales : List LoadedScale}
    (h : List.Forall₂ (ScaleOf models) secs scales) :
    (∀ sec ∈ secs, ∃ s ∈ scales, ScaleOf models sec s) ∧
      ∀ s ∈ scales, ∃ sec ∈ secs, ScaleOf models sec s := by
  induction h with
  | nil => simp
  | cons hone _ ih =>
      rw [List.forall_mem_cons, List.forall_mem_cons]
      refine ⟨⟨⟨_, List.mem_cons_self, hone⟩, fun sec hsec => ?_⟩,
        ⟨⟨_, List.mem_cons_self, hone⟩, fun s hs => ?_⟩⟩
      · obtain ⟨s, hs, hof⟩ := ih.1 sec hsec
        exact ⟨s, List.mem_cons_of_mem _ hs, hof⟩
      · obtain ⟨sec, hsec, hof⟩ := ih.2 s hs
        exact ⟨sec, List.mem_cons_of_mem _ hsec, hof⟩

/-- The tables of a file that fits are in range. -/
theorem ConfigFile.Fits.inRange
    {models after : List ModelCmd}
    {scales : List LoadedScale}
    (h : file.Fits)
    (hmodels : ModelsOf file.names models)
    (hafter : after.map ModelCmd.model = models.map ModelCmd.model)
    (hscales : List.Forall₂ (ScaleOf models) file.serial scales) :
    Loaded.InRange ⟨after, scales⟩ := by
  have hlen : after.length = models.length := by
    simpa using congrArg List.length hafter
  have hsection : ∀ s ∈ scales, ∃ sec ∈ file.serial, ScaleOf models sec s :=
    (scaleOf_mem hscales).2
  refine ⟨?_, ?_, ?_, ?_, ?_, ?_, ?_, calibration_number_fits⟩
  · exact hscales.length_eq ▸ h.scales
  · intro s hs
    obtain ⟨sec, hsec, hof⟩ := hsection s hs
    have hcount := congrArg List.length hof.st
    rw [List.length_map, List.length_map] at hcount
    exact hcount ▸ (h.sections sec hsec).devices
  · exact (hlen.trans hmodels.length_eq).symm ▸ h.names.few
  · intro m hm
    have hmem : m.model ∈ after.map ModelCmd.model := List.mem_map_of_mem hm
    rw [hafter, hmodels.mem_iff] at hmem
    exact h.names.short _ hmem
  · intro s hs t ht k hk
    obtain ⟨sec, -, hof⟩ := hsection s hs
    exact hlen.symm ▸ hof.models t ht k hk
  · intro s hs
    obtain ⟨sec, hsec, hof⟩ := hsection s hs
    exact hof.head_model_iff.mpr (h.sections sec hsec).first
  · intro s hs
    obtain ⟨sec, hsec, hof⟩ := hsection s hs
    rw [hof.id, jobjFits_iff]
    exact (h.sections sec hsec).id

/-- Exactly the files that fit are loaded in range. -/
theorem loads_in_range_iff
    (h : file.Accepted) :
    file.LoadsInRange ↔ file.Fits := by
  constructor
  · rintro ⟨l, hrun, hl⟩
    obtain ⟨hfew, hsec, hnames, htitles⟩ := fits_of_loadConfig h (by rw [hrun]; rfl)
    refine ⟨hfew, fun sec hmem => ?_, hnames, htitles⟩
    refine ⟨(hsec sec hmem).devices, ?_, (jobjFits_iff _).mp (hsec sec hmem).id⟩
    obtain ⟨models, scales, -, hscales, heq⟩ := loadConfig_eq h hfew hsec hnames
    obtain ⟨after, -, hafter⟩ := Option.map_eq_some_iff.mp (heq.symm.trans hrun)
    obtain ⟨s, hs, hof⟩ := (scaleOf_mem hscales).1 sec hmem
    rw [← Except.ok.inj hafter] at hl
    exact hof.head_model_iff.mp (hl.first s hs)
  · intro hfits
    have hsec : ∀ sec ∈ file.serial, sec.FitsArrays := fun sec hmem =>
      ⟨(hfits.sections sec hmem).devices, (jobjFits_iff _).mpr (hfits.sections sec hmem).id⟩
    obtain ⟨models, scales, hmodels, hscales, heq⟩ :=
      loadConfig_eq h hfits.scales hsec hfits.names
    obtain ⟨after, hafter⟩ := Option.isSome_iff_exists.mp
      ((parseCommands_isSome_iff file.command models).mpr hfits.titles)
    rw [hafter, Option.map_some] at heq
    exact ⟨_, heq, hfits.inRange hmodels (map_model_parseCommands hafter) hscales⟩

/-- A section that is loaded has passed the checks. -/
theorem accepted_of_loadSerials
    {secs : List SerialSection}
    {models : List ModelCmd}
    {scales : List LoadedScale}
    {r : List ModelCmd × List LoadedScale}
    (hrun : loadSerials models scales secs = some (.ok r)) :
    ∀ sec ∈ secs, sec.ser = true ∧ sec.device ≠ [] := by
  induction secs generalizing models scales with
  | nil => exact fun sec hsec => nomatch hsec
  | cons sec secs ih =>
      rw [loadSerials] at hrun
      obtain ⟨one, hone, hrest⟩ := Option.bind_eq_some_iff.mp hrun
      rw [List.forall_mem_cons]
      cases one with
      | error e => exact nomatch hrest
      | ok one =>
          refine ⟨⟨?_, ?_⟩, ?_⟩
          · by_contra hser
            rw [loadSerial, if_pos (by simpa using hser)] at hone
            exact nomatch hone
          · intro hdev
            rw [loadSerial] at hone
            split at hone
            next => exact nomatch hone
            next =>
              by_cases hid : JobjFits (sec.id.bmod (2 ^ 32))
              · simp only [hid, not_true_eq_false, if_false] at hone
                exact nomatch hone
              · simp only [hid, not_false_eq_true, if_true] at hone
                exact nomatch hone
          · simp only at hrest
            split at hrest
            next => exact ih hrest
            next => exact nomatch hrest

/-- `loadConfig` succeeds on no file that one of its checks rejects. -/
theorem accepted_of_loadConfig
    {l : Loaded}
    (hrun : loadConfig file = some (.ok l)) :
    file.Accepted := by
  rw [loadConfig] at hrun
  split at hrun
  next => exact nomatch hrun
  next hne =>
    obtain ⟨one, hone, hrest⟩ := Option.bind_eq_some_iff.mp hrun
    cases one with
    | error e => exact nomatch hrest
    | ok one =>
        have hall := accepted_of_loadSerials hone
        exact ⟨hne, fun sec hsec => (hall sec hsec).1, fun sec hsec => (hall sec hsec).2⟩

/-- A terminal with the model `CAS`. -/
def casDevice : DeviceSection := ⟨some [0x43, 0x41, 0x53], some [0x72, 0x61, 0x77]⟩

/-- One scale with one terminal. -/
def oneScaleFile : ConfigFile := ⟨[⟨true, 101, [casDevice]⟩], []⟩

/-- The file with one scale is loaded in range. -/
theorem one_scale_file_loads : oneScaleFile.Accepted ∧ oneScaleFile.LoadsInRange := by
  have haccepted : oneScaleFile.Accepted := ⟨by decide, by decide, by decide⟩
  refine ⟨haccepted, (loads_in_range_iff haccepted).mpr ?_⟩
  refine ⟨by decide, fun sec hsec => ?_, ⟨by decide, by decide⟩, fun c hc => nomatch hc⟩
  rw [List.mem_singleton.mp hsec]
  exact ⟨by decide, by simp [casDevice], by decide⟩

/-- Five scales. -/
def fiveScalesFile : ConfigFile :=
  ⟨(List.range 5).map fun i => ⟨true, 101 + i, [casDevice]⟩, []⟩

/-- A terminal whose model is a name of twelve bytes. -/
def longNameFile : ConfigFile := ⟨[⟨true, 101, [⟨some (List.replicate 12 0x41), none⟩]⟩], []⟩

/-- A terminal without a model. -/
def noModelFile : ConfigFile := ⟨[⟨true, 101, [⟨none, none⟩]⟩], []⟩

/-- A file that leaves an array is not loaded in range. -/
theorem not_loadsInRange_of_isNone
    (h : (loadConfig file).isNone = true) :
    ¬ file.LoadsInRange := by
  rintro ⟨l, hrun, -⟩
  rw [hrun] at h
  exact Bool.false_ne_true h

/-- Five scales overrun `scale`, a model of twelve bytes overruns its name, and a device without
a model leaves `st[0]->model` null; no check rejects these files. -/
theorem accepted_files_overrun :
    (fiveScalesFile.Accepted ∧ ¬ fiveScalesFile.LoadsInRange) ∧
      (longNameFile.Accepted ∧ ¬ longNameFile.LoadsInRange) ∧
      noModelFile.Accepted ∧ ¬ noModelFile.LoadsInRange := by
  refine ⟨⟨⟨by decide, by decide, by decide⟩, ?_⟩, ⟨⟨by decide, by decide, by decide⟩, ?_⟩,
    ⟨by decide, by decide, by decide⟩, ?_⟩
  · exact not_loadsInRange_of_isNone (by decide +kernel)
  · exact not_loadsInRange_of_isNone (by decide +kernel)
  · rintro ⟨l, hrun, hl⟩
    have hload : loadConfig noModelFile =
        some (.ok ⟨[], [⟨101, [⟨false, none⟩], by simp⟩]⟩) := rfl
    rw [hload] at hrun
    rw [← Except.ok.inj (Option.some.inj hrun)] at hl
    exact hl.first _ (List.mem_singleton_self _) rfl

end Files

end Scaled
end MatrixBin
