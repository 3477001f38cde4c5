import MatrixBin.Scaled.CalibrationSession
import MatrixBin.Scaled.Commands
import MatrixBin.Scaled.LoadConfig

/-!
# The two searches for a scale (`commands.c`, `mqtt_thread.c`)

`runcommand` looks through all of `scale[]` and keeps the last scale with the id; `find_scale`
takes the first one, and `on_message` does not look for the id -1 at all.  `loadConfig` lets
several sections have one id.  A scale is its index in `scale[]` here: two scales with the same
settings are two devices.
-/

namespace MatrixBin
namespace Scaled

open Library

/-- The loop of `runcommand` with the index of the scale. -/
def lastScale (scales : List ScaleSys) (id : ℤ) : Option Nat :=
  scales.zipIdx.foldl (fun s x => if x.1.id = id then some x.2 else s) none

/-- The number of the scales with an id. -/
def countId (scales : List ScaleSys) (id : ℤ) : Nat := (scales.map ScaleSys.id).count id

section Searches

variable {scales : List ScaleSys} {id : ℤ} {i : Nat}

theorem lastScale_append_singleton
    (scales : List ScaleSys)
    (x : ScaleSys)
    (id : ℤ) :
    lastScale (scales ++ [x]) id =
      if x.id = id then some scales.length else lastScale scales id := by
  simp [lastScale, List.zipIdx_append, List.foldl_append]

theorem findScale_append_singleton
    (scales : List ScaleSys)
    (x : ScaleSys)
    (id : ℤ) :
    findScale (scales ++ [x]) id =
      (findScale scales id).or (if x.id = id then some scales.length else none) := by
  rw [findScale, findScale, List.findIdx?_append]
  by_cases h : x.id = id <;> simp [h]

theorem countId_append_singleton
    (scales : List ScaleSys)
    (x : ScaleSys)
    (id : ℤ) :
    countId (scales ++ [x]) id = countId scales id + if x.id = id then 1 else 0 := by
  simp [countId, List.count_append, List.count_singleton]

theorem lastScale_lt
    (h : lastScale scales id = some i) :
    i < scales.length := by
  induction scales using List.reverseRecOn with
  | nil => simp [lastScale] at h
  | append_singleton scales x ih =>
      rw [lastScale_append_singleton] at h
      rw [List.length_append, List.length_singleton]
      split at h
      · rw [← Option.some.inj h]
        exact Nat.lt_succ_self _
      · exact (ih h).trans (Nat.lt_succ_self _)

/-- The scale that `runcommand` uses is the one at this index. -/
theorem findScaleSys_eq
    (scales : List ScaleSys)
    (id : ℤ) :
    findScaleSys scales id = (lastScale scales id).bind fun i => scales[i]? := by
  induction scales using List.reverseRecOn with
  | nil => simp [findScaleSys, lastScale]
  | append_singleton scales x ih =>
      rw [findScaleSys_append_singleton, lastScale_append_singleton, ih]
      split
      · simp
      · cases hlast : lastScale scales id with
        | none => rfl
        | some i =>
            rw [Option.bind_some, Option.bind_some,
              List.getElem?_append_left (lastScale_lt hlast)]

theorem lastScale_eq_none_iff :
    lastScale scales id = none ↔ countId scales id = 0 := by
  induction scales using List.reverseRecOn with
  | nil => simp [lastScale, countId]
  | append_singleton scales x ih =>
      rw [lastScale_append_singleton, countId_append_singleton]
      split <;> simp [ih]

theorem findScale_eq_none_iff :
    findScale scales id = none ↔ countId scales id = 0 := by
  rw [findScale, List.findIdx?_eq_none_iff, countId, List.count_eq_zero]
  simp [eq_comm]

theorem findScale_lt
    (h : findScale scales id = some i) :
    i < scales.length := by
  rw [findScale, List.findIdx?_eq_some_iff_findIdx_eq] at h
  exact h.1

/-- The last scale with an id is the first one exactly if there are not two. -/
theorem lastScale_eq_findScale_iff :
    lastScale scales id = findScale scales id ↔ countId scales id ≤ 1 := by
  induction scales using List.reverseRecOn with
  | nil => simp [lastScale, findScale, countId]
  | append_singleton scales x ih =>
      rw [lastScale_append_singleton, findScale_append_singleton, countId_append_singleton]
      split
      next =>
        -- the new scale is the last one, so there must not be an earlier one
        rw [← Nat.le_sub_iff_add_le (le_refl 1), Nat.sub_self, Nat.le_zero,
          ← findScale_eq_none_iff]
        cases hfirst : findScale scales id with
        | none => simp
        | some i =>
            have hlt := findScale_lt hfirst
            simp only [Option.some_or, Option.some.injEq, reduceCtorEq, iff_false]
            omega
      next => rw [Option.or_none, Nat.add_zero, ih]

end Searches

/-! ### The session -/

/-- The scale that a message of the MQTT thread selects. -/
def mqttScale (scales : List ScaleSys) (id : ℤ) : Option Nat :=
  if id = -1 then none else findScale scales id

/-- The selected scale is the first one with an id other than -1. -/
def SelectedFirst (scales : List ScaleSys) (st : Session) : Prop :=
  ∀ k, st.curScale = some k → ∃ id, id ≠ -1 ∧ findScale scales id = some k

section Sessions

variable {scales : List ScaleSys} {st : Session} {id : ℤ}

theorem id_of_findScale
    {k : Nat}
    (h : findScale scales id = some k) :
    scales[k]?.map ScaleSys.id = some id := by
  rw [findScale, List.findIdx?_eq_some_iff_getElem] at h
  obtain ⟨hk, hid, -⟩ := h
  rw [List.getElem?_eq_getElem hk, Option.map_some, Option.some.injEq]
  exact of_decide_eq_true hid

theorem beginScale_selects
    (hnone : st.curScale = none)
    (id : ℤ) :
    (beginScale scales st id).2.map Prod.fst = mqttScale scales id ∧
      SelectedFirst scales (beginScale scales st id).1 := by
  have hstart : SelectedFirst scales st := fun k hk => nomatch hnone.symm.trans hk
  rw [beginScale, mqttScale]
  by_cases hid : id = -1
  · rw [if_pos hid, if_pos hid]
    exact ⟨rfl, hstart⟩
  · rw [if_neg hid, if_neg hid]
    cases hfind : findScale scales id with
    | none => exact ⟨rfl, hstart⟩
    | some i =>
        refine ⟨rfl, fun k hk => ⟨id, hid, ?_⟩⟩
        rw [hfind]
        exact hk

/-- A message selects the first scale with its id, whether a session goes on or begins. -/
theorem selectScale_selects
    (h : SelectedFirst scales st)
    (id : ℤ) :
    (selectScale scales st id).2.map Prod.fst = mqttScale scales id ∧
      SelectedFirst scales (selectScale scales st id).1 := by
  cases hcur : st.curScale with
  | none =>
      simp only [selectScale, hcur]
      exact beginScale_selects hcur id
  | some k =>
      by_cases hsame : scales[k]?.map ScaleSys.id = some id
      · simp only [selectScale, hcur, if_pos hsame]
        refine ⟨?_, h⟩
        obtain ⟨own, hown, hfind⟩ := h k hcur
        obtain rfl := Option.some.inj ((id_of_findScale hfind).symm.trans hsame)
        rw [mqttScale, if_neg hown, hfind]
        rfl
      · simp only [selectScale, hcur, if_neg hsame]
        exact beginScale_selects rfl id

/-- The exchange with the terminal does not change the selection. -/
theorem curScale_execLduCmd
    (st : Session)
    (i : Nat)
    (stopFlow : Bool)
    (env : ExecEnv) :
    (execLduCmd st i stopFlow env).1.curScale = st.curScale := by
  rw [execLduCmd]
  split
  · rfl
  · cases stopFlow <;> rfl

theorem curScale_serveCmd
    (scales : List ScaleSys)
    (st : Session)
    (chan cmd : List UInt8)
    (env : ExecEnv) :
    (serveCmd scales st chan cmd env).session.curScale =
      (selectScale scales st (atoi chan)).1.curScale := by
  rw [serveCmd]
  split
  next heq => rw [heq]
  next heq => rw [heq]; exact curScale_execLduCmd ..

/-- A message leaves the session as it was, or selects a scale. -/
theorem sessionStep_selects
    {next : Session}
    {m : CalibrMsg × ExecEnv}
    (h : SelectedFirst scales st)
    (hstep : sessionStep scales st m = some next) :
    SelectedFirst scales next := by
  obtain ⟨res, hres, rfl⟩ := Option.map_eq_some_iff.mp hstep
  simp only [onMessage] at hres
  split at hres
  next => rw [← Option.some.inj hres]; exact h
  next =>
    split at hres
    next => rw [← Option.some.inj hres]; exact h
    next =>
      split at hres
      next chan cmd _ _ =>
        simp only [Option.bind_eq_some_iff] at hres
        obtain ⟨chan, -, hres⟩ := hres
        have hselect := (selectScale_selects h (atoi chan)).2
        split at hres
        next =>
          rw [← Option.some.inj hres]
          intro k hk
          rw [curScale_serveCmd] at hk
          exact hselect k hk
        next =>
          split at hres
          next heq =>
            rw [← Option.some.inj hres]
            rw [heq] at hselect
            exact hselect
          next => cases hres
      next => rw [← Option.some.inj hres]; exact h

theorem session_selects
    {messages : List (CalibrMsg × ExecEnv)}
    (hrun : runSteps (sessionStep scales) Session.initial messages = some st)
    (id : ℤ) :
    (selectScale scales st id).2.map Prod.fst = mqttScale scales id := by
  have hinitial : SelectedFirst scales Session.initial := fun k hk => nomatch hk
  exact (selectScale_selects
    (runSteps_keeps hinitial (fun _ _ _ hkeep hstep => sessionStep_selects hkeep hstep)
      hrun) id).1

/-- Both threads use the same scale exactly for an id that is not shared, and -1 is shared
with the id of no scale. -/
theorem lastScale_eq_mqttScale_iff :
    lastScale scales id = mqttScale scales id ↔
      countId scales id ≤ if id = -1 then 0 else 1 := by
  rw [mqttScale]
  split
  next => rw [lastScale_eq_none_iff, Nat.le_zero]
  next => exact lastScale_eq_findScale_iff

end Sessions

/-! ### The loaded tables -/

/-- The ids of the sections, as `int`. -/
def ConfigFile.ids (file : ConfigFile) : List ℤ :=
  file.serial.map fun sec => sec.id.bmod (2 ^ 32)

section Files

variable {file : ConfigFile} {l : Loaded}

theorem scaleOf_ids
    {models : List ModelCmd}
    {secs : List SerialSection}
    {scales : List LoadedScale}
    (h : List.Forall₂ (ScaleOf models) secs scales) :
    scales.map LoadedScale.id = secs.map fun sec => sec.id.bmod (2 ^ 32) := by
  induction h with
  | nil => rfl
  | cons hone _ ih => rw [List.map_cons, List.map_cons, hone.id, ih]

/-- The ids are taken over as they are. -/
theorem ids_of_loadConfig
    (h : loadConfig file = some (.ok l)) :
    l.table.map ScaleSys.id = file.ids := by
  have haccepted := accepted_of_loadConfig h
  obtain ⟨hfew, hsec, hnames, -⟩ := fits_of_loadConfig haccepted (by rw [h]; rfl)
  obtain ⟨models, scales, -, hscales, heq⟩ := loadConfig_eq haccepted hfew hsec hnames
  obtain ⟨after, -, hafter⟩ := Option.map_eq_some_iff.mp (heq.symm.trans h)
  rw [← Except.ok.inj hafter, Loaded.table, List.map_map, ConfigFile.ids, ← scaleOf_ids hscales]
  rfl

/-- **The same scale.**  After any messages, a message and a datagram with one id select the
same scale exactly if at most one section has it, and none for -1. -/
theorem same_scale_iff
    {messages : List (CalibrMsg × ExecEnv)}
    {st : Session}
    (h : loadConfig file = some (.ok l))
    (hrun : runSteps (sessionStep l.table) Session.initial messages = some st)
    (id : ℤ) :
    lastScale l.table id = (selectScale l.table st id).2.map Prod.fst ↔
      file.ids.count id ≤ if id = -1 then 0 else 1 := by
  rw [session_selects hrun, lastScale_eq_mqttScale_iff, countId, ids_of_loadConfig h]

theorem same_scale_one_scale_file :
    ∃ l, loadConfig oneScaleFile = some (.ok l) ∧
      (lastScale l.table 101 =
          (selectScale l.table Session.initial 101).2.map Prod.fst ↔
        oneScaleFile.ids.count 101 ≤ if (101 : ℤ) = -1 then 0 else 1) := by
  have hload : loadConfig oneScaleFile =
      some (.ok ⟨[⟨[0x43, 0x41, 0x53], noCmds⟩], [⟨101, [⟨true, some 0⟩], by simp⟩]⟩) := rfl
  have hrun : ∀ scales, runSteps (sessionStep scales) Session.initial [] =
      some Session.initial := fun _ => rfl
  exact ⟨_, hload, same_scale_iff hload (hrun _) 101⟩

/-- Two sections with the id 1. -/
def sharedIdFile : ConfigFile := ⟨[⟨true, 1, [casDevice]⟩, ⟨true, 1, [casDevice]⟩], []⟩

/-- A section with the id -1. -/
def minusOneFile : ConfigFile := ⟨[⟨true, -1, [casDevice]⟩], []⟩

/-- What both threads select for an id in a file. -/
def selections (file : ConfigFile) (id : ℤ) : Option (Option Nat × Option Nat) :=
  match loadConfig file with
  | some (.ok l) =>
      some (lastScale l.table id, (selectScale l.table Session.initial id).2.map Prod.fst)
  | _ => none

/-- With a shared id the datagram goes to the second scale and the session to the first; with
the id -1 only the datagram has a scale. -/
theorem shared_id_selects_two_scales :
    selections sharedIdFile 1 = some (some 1, some 0) ∧
      selections minusOneFile (-1) = some (some 0, none) := by
  decide +kernel

end Files

end Scaled
end MatrixBin
