import MatrixBin.Library.DecimalText
import MatrixBin.Library.TransitionRuns
import MatrixBin.Scaled.ScaleTable
import Mathlib.Logic.Function.Basic

/-!
# The calibration session of the MQTT thread (`mqtt_thread.c`)

`on_message` keeps the scale under calibration in the static pointer `cur_scale`,
which is an index into the scale table here, and pauses the scale's loop through its
`calibr_mode`.  `exec_ldu_cmd` first stops the flow of the terminal when a session
begins, and only a successful stop sets `calibr_mode`.  What the terminal does is an
input: `ExecEnv`.  A payload is the result of `cJSON_Parse`; the buffers `ibuf` and
`obuf` are not bounded here.

A scale's loop tests its flag once in a cycle, so it may still be at work on the port when
the flag is set.  `session_kept_iff` says in which runs of the MQTT thread and the loops
`cur_scale` and the flags stay together and no port is read by both.
-/

namespace MatrixBin
namespace Scaled

open Library

/-- A string item of the payload: `valuestring` is null in an item of another type. -/
abbrev JsonItem := Option (List UInt8)

/-- The items that `on_message` looks up in a parsed payload. -/
structure CalibrJson where
  chan : Option JsonItem
  cmd : Option JsonItem
deriving DecidableEq

structure CalibrMsg where
  topic : String
  payload : Option CalibrJson
deriving DecidableEq

/-- What happens during `exec_ldu_cmd`: `cur_cmd.rc` and `obuf` after the wait for the
stopped flow, and the bytes that are then read from the port. -/
structure ExecEnv where
  rc : ℤ
  stopped : List UInt8
  answer : List UInt8
deriving DecidableEq

/-- `cur_scale` and the flags `calibr_mode` of the scales. -/
structure Session where
  curScale : Option Nat
  calibrMode : Nat → Bool

def Session.initial : Session where
  curScale := none
  calibrMode := fun _ => false

/-- The message that `on_message` publishes on `calibration/cmd_response`. -/
structure CmdResponse where
  chan : List UInt8
  cmd : List UInt8
  response : List UInt8
  retCode : String
deriving DecidableEq

/-- The effect of one message.  `read` is a read of a scale's port in transparent mode,
with the `calibr_mode` of the scale at that moment. -/
structure MessageResult where
  session : Session
  read : Option (Nat × Bool)
  response : Option CmdResponse

/-- `find_scale` without its assignment: the first scale with the id. -/
def findScale (scales : List ScaleSys) (id : ℤ) : Option Nat :=
  scales.findIdx? fun s => s.id = id

/-- `cur_cmd.rc==0 && obuf[0]=='D' && obuf[1]==':'` -/
def ExecEnv.StopSucceeds (env : ExecEnv) : Prop :=
  env.rc = 0 ∧ env.stopped.take 2 = [0x44, 0x3a]

instance (env : ExecEnv) : Decidable env.StopSucceeds :=
  inferInstanceAs (Decidable (_ ∧ _))

/-- `exec_ldu_cmd` for the scale `i`: the session, the returned length, `obuf` and the
read of the port. -/
def execLduCmd (st : Session) (i : Nat) (stopFlow : Bool) (env : ExecEnv) :
    Session × ℤ × List UInt8 × Option (Nat × Bool) :=
  if stopFlow ∧ ¬ env.StopSucceeds then (st, -1, env.stopped, none)
  else
    let st :=
      if stopFlow then { st with calibrMode := Function.update st.calibrMode i true } else st
    (st, env.answer.length, env.answer, some (i, st.calibrMode i))

/-- No scale is selected: the search for the scale with the id. -/
def beginScale (scales : List ScaleSys) (st : Session) (id : ℤ) :
    Session × Option (Nat × Bool) :=
  if id = -1 then (st, none)
  else
    match findScale scales id with
    | none => (st, none)
    | some i => ({ st with curScale := some i }, some (i, true))

/-- The choice of the scale: the session before `exec_ldu_cmd`, and the scale with
`switch_mode`. -/
def selectScale (scales : List ScaleSys) (st : Session) (id : ℤ) :
    Session × Option (Nat × Bool) :=
  match st.curScale with
  | some k =>
      if scales[k]?.map ScaleSys.id = some id then (st, some (k, false))
      else
        beginScale scales
          { curScale := none, calibrMode := Function.update st.calibrMode k false } id
  | none => beginScale scales st id

/-- The response object: the answer up to its terminator, or the error texts. -/
def cmdResponse (chan cmd : List UInt8) (len : ℤ) (obuf : List UInt8) : CmdResponse :=
  if len ≤ 0 then ⟨chan, cmd, [0x4e, 0x4f], "COMM_ERR"⟩
  else ⟨chan, cmd, (obuf.take (len.toNat - 1)).takeWhile (· ≠ 0), "OK"⟩

/-- `on_message` once both strings are known. -/
def serveCmd (scales : List ScaleSys) (st : Session) (chan cmd : List UInt8) (env : ExecEnv) :
    MessageResult :=
  match selectScale scales st (atoi chan) with
  | (st, none) => ⟨st, none, none⟩
  | (st, some (i, switchMode)) =>
      let (st, len, obuf, read) := execLduCmd st i switchMode env
      ⟨st, read, some (cmdResponse chan cmd len obuf)⟩

/-- `on_message`; `none` where a null `valuestring` is read. -/
def onMessage (scales : List ScaleSys) (st : Session) (msg : CalibrMsg) (env : ExecEnv) :
    Option MessageResult :=
  if msg.topic ≠ "calibration/cmd" then some ⟨st, none, none⟩
  else
    match msg.payload with
    | none => some ⟨st, none, none⟩
    | some json =>
        match json.chan, json.cmd with
        | some chan, some cmd =>
            chan.bind fun chan =>
              match cmd with
              | some cmd => some (serveCmd scales st chan cmd env)
              | none =>
                  -- the command is only read once a scale has been chosen
                  match selectScale scales st (atoi chan) with
                  | (st, none) => some ⟨st, none, none⟩
                  | (_, some _) => none
        | _, _ => some ⟨st, none, none⟩

def sessionStep (scales : List ScaleSys) (st : Session) (m : CalibrMsg × ExecEnv) :
    Option Session :=
  (onMessage scales st m.1 m.2).map MessageResult.session

/-- Either no scale is under calibration and every loop runs, or the loop of the scale
under calibration is the only one that is paused. -/
def Session.Together (st : Session) : Prop :=
  (st.curScale = none ∧ ∀ i, st.calibrMode i = false) ∨
  ∃ k, st.curScale = some k ∧ ∀ i, st.calibrMode i = decide (i = k)

/-- The message begins a session with a scale of the table. -/
def SwitchesTo (scales : List ScaleSys) (st : Session) (msg : CalibrMsg) (i : Nat) : Prop :=
  ∃ chan cmd : List UInt8, msg.topic = "calibration/cmd" ∧
    msg.payload = some ⟨some (some chan), some (some cmd)⟩ ∧
    (selectScale scales st (atoi chan)).2 = some (i, true)

/-! ### One message -/

theorem beginScale_cases
    (scales : List ScaleSys)
    {st : Session}
    (id : ℤ)
    (hcur : st.curScale = none)
    (hmode : ∀ i, st.calibrMode i = false) :
    ((beginScale scales st id).2 = none ∧ (beginScale scales st id).1.Together) ∨
    ∃ i, beginScale scales st id = ({ st with curScale := some i }, some (i, true)) := by
  rw [beginScale]
  split
  · exact Or.inl ⟨rfl, Or.inl ⟨hcur, hmode⟩⟩
  · split
    · exact Or.inl ⟨rfl, Or.inl ⟨hcur, hmode⟩⟩
    · exact Or.inr ⟨_, rfl⟩

/-- The three ways to choose: nothing to do, the session goes on, or a session begins
with every loop running. -/
theorem selectScale_cases
    (scales : List ScaleSys)
    {st : Session}
    (id : ℤ)
    (h : st.Together) :
    ((selectScale scales st id).2 = none ∧ (selectScale scales st id).1.Together) ∨
    (∃ k, st.curScale = some k ∧ selectScale scales st id = (st, some (k, false))) ∨
    ∃ i, (selectScale scales st id).2 = some (i, true) ∧
      (selectScale scales st id).1.curScale = some i ∧
      ∀ j, (selectScale scales st id).1.calibrMode j = false := by
  have hbegin : ∀ t : Session, t.curScale = none → (∀ i, t.calibrMode i = false) →
      selectScale scales st id = beginScale scales t id →
      ((selectScale scales st id).2 = none ∧ (selectScale scales st id).1.Together) ∨
      ∃ i, (selectScale scales st id).2 = some (i, true) ∧
        (selectScale scales st id).1.curScale = some i ∧
        ∀ j, (selectScale scales st id).1.calibrMode j = false := by
    intro t hcur hmode heq
    rw [heq]
    rcases beginScale_cases scales id hcur hmode with hnone | ⟨i, hi⟩
    · exact Or.inl hnone
    · rw [hi]
      exact Or.inr ⟨i, rfl, rfl, hmode⟩
  rcases h with ⟨hcur, hmode⟩ | ⟨k, hcur, hmode⟩
  · rcases hbegin st hcur hmode (by simp [selectScale, hcur]) with hnone | hsome
    · exact Or.inl hnone
    · exact Or.inr (Or.inr hsome)
  · by_cases hid : scales[k]?.map ScaleSys.id = some id
    · exact Or.inr (Or.inl ⟨k, hcur, by simp only [selectScale, hcur, if_pos hid]⟩)
    · have hoff : ∀ i, Function.update st.calibrMode k false i = false := by
        intro i
        by_cases hi : i = k
        · simp [hi]
        · simp [hi, hmode]
      rcases hbegin ⟨none, Function.update st.calibrMode k false⟩ rfl hoff
        (by simp only [selectScale, hcur, if_neg hid]) with hnone | hsome
      · exact Or.inl hnone
      · exact Or.inr (Or.inr hsome)

/-- The session after the chosen command, and what is read. -/
theorem serveCmd_together
    {scales : List ScaleSys}
    {st : Session}
    {chan cmd : List UInt8}
    {env : ExecEnv}
    (h : st.Together)
    (hstop : ∀ i, (selectScale scales st (atoi chan)).2 = some (i, true) → env.StopSucceeds) :
    (serveCmd scales st chan cmd env).session.Together ∧
      ∀ i paused, (serveCmd scales st chan cmd env).read = some (i, paused) → paused = true := by
  rcases selectScale_cases scales (atoi chan) h with ⟨hnone, htogether⟩ | ⟨k, hcur, hsame⟩ |
    ⟨i, hbegin, hcur, hmode⟩
  · have hsel : selectScale scales st (atoi chan) =
        ((selectScale scales st (atoi chan)).1, none) := Prod.ext rfl hnone
    rw [serveCmd, hsel]
    exact ⟨htogether, by simp⟩
  · have hpaused : st.calibrMode k = true := by
      rcases h with ⟨hnone, -⟩ | ⟨k', hcur', hmode⟩
      · simp [hcur] at hnone
      · obtain rfl := Option.some.inj (hcur.symm.trans hcur')
        simp [hmode]
    simp only [serveCmd, hsame, execLduCmd]
    refine ⟨by simpa using h, ?_⟩
    intro i paused hread
    simp only [Bool.false_eq_true, false_and, if_false, Option.some.injEq, Prod.mk.injEq] at hread
    exact hread.2 ▸ hpaused
  · have hsel : selectScale scales st (atoi chan) =
        ((selectScale scales st (atoi chan)).1, some (i, true)) := Prod.ext rfl hbegin
    rw [serveCmd, hsel]
    simp only [execLduCmd, hstop i hbegin, not_true, and_false, if_false, if_true]
    refine ⟨Or.inr ⟨i, hcur, ?_⟩, ?_⟩
    · intro j
      by_cases hj : j = i
      · simp [hj]
      · simp [hj, hmode]
    · intro j paused hread
      simp only [Function.update_self, Option.some.injEq, Prod.mk.injEq] at hread
      exact hread.2.symm

/-- A session that begins with a failed stop leaves the scale selected with its loop
running. -/
theorem serveCmd_failed_stop
    {scales : List ScaleSys}
    {st : Session}
    {chan cmd : List UInt8}
    {env : ExecEnv}
    {i : Nat}
    (h : st.Together)
    (hbegin : (selectScale scales st (atoi chan)).2 = some (i, true))
    (hstop : ¬ env.StopSucceeds) :
    ¬ (serveCmd scales st chan cmd env).session.Together := by
  rcases selectScale_cases scales (atoi chan) h with ⟨hnone, -⟩ | ⟨k, -, hsame⟩ |
    ⟨i', hbegin', hcur, hmode⟩
  · simp [hbegin] at hnone
  · simp [hsame] at hbegin
  · have hsel : selectScale scales st (atoi chan) =
        ((selectScale scales st (atoi chan)).1, some (i', true)) := Prod.ext rfl hbegin'
    rw [serveCmd, hsel]
    simp only [execLduCmd, hstop, not_false_eq_true, and_self, if_true]
    rintro (⟨hnone, -⟩ | ⟨k, hk, hpaused⟩)
    · simp [hcur] at hnone
    · obtain rfl := Option.some.inj (hcur.symm.trans hk)
      have := hpaused i'
      simp [hmode] at this

theorem onMessage_together
    {scales : List ScaleSys}
    {st : Session}
    {msg : CalibrMsg}
    {env : ExecEnv}
    {res : MessageResult}
    (h : st.Together)
    (hstop : ∀ i, SwitchesTo scales st msg i → env.StopSucceeds)
    (hres : onMessage scales st msg env = some res) :
    res.session.Together ∧ ∀ i paused, res.read = some (i, paused) → paused = true := by
  obtain ⟨topic, payload⟩ := msg
  simp only [onMessage] at hres
  split at hres
  · obtain rfl := Option.some.inj hres
    exact ⟨h, by simp⟩
  · rename_i htopic
    split at hres
    · obtain rfl := Option.some.inj hres
      exact ⟨h, by simp⟩
    · rename_i json
      split at hres
      · rename_i chan cmd hchan hcmd
        simp only [Option.bind_eq_some_iff] at hres
        obtain ⟨chan, rfl, hres⟩ := hres
        split at hres
        · rename_i cmd
          obtain rfl := Option.some.inj hres
          refine serveCmd_together h ?_
          intro i hi
          obtain ⟨jchan, jcmd⟩ := json
          simp only at hchan hcmd
          exact hstop i ⟨chan, cmd, not_not.mp htopic, by rw [hchan, hcmd], hi⟩
        · split at hres
          · rename_i st' hsel
            obtain rfl := Option.some.inj hres
            rcases selectScale_cases scales (atoi chan) h with ⟨-, htogether⟩ | ⟨k, -, hsame⟩ |
              ⟨i, hbegin, -⟩
            · rw [hsel] at htogether
              exact ⟨htogether, by simp⟩
            · simp [hsame] at hsel
            · simp [hsel] at hbegin
          · simp at hres
      · obtain rfl := Option.some.inj hres
        exact ⟨h, by simp⟩

theorem onMessage_failed_stop
    {scales : List ScaleSys}
    {st : Session}
    {msg : CalibrMsg}
    {env : ExecEnv}
    {i : Nat}
    (h : st.Together)
    (hswitch : SwitchesTo scales st msg i)
    (hstop : ¬ env.StopSucceeds) :
    ∃ res, onMessage scales st msg env = some res ∧ ¬ res.session.Together := by
  obtain ⟨chan, cmd, htopic, hpayload, hbegin⟩ := hswitch
  exact ⟨serveCmd scales st chan cmd env, by simp [onMessage, htopic, hpayload],
    serveCmd_failed_stop h hbegin hstop⟩

/-- A port is read for the selected scale. -/
theorem selectScale_curScale
    {scales : List ScaleSys}
    {st : Session}
    {id : ℤ}
    {i : Nat}
    {switchMode : Bool}
    (h : (selectScale scales st id).2 = some (i, switchMode)) :
    (selectScale scales st id).1.curScale = some i := by
  have hbegin : ∀ t : Session, (beginScale scales t id).2 = some (i, switchMode) →
      (beginScale scales t id).1.curScale = some i := by
    intro t ht
    rw [beginScale] at ht ⊢
    split_ifs at ht ⊢
    split at ht
    · cases ht
    · obtain ⟨rfl, -⟩ := Prod.mk.inj (Option.some.inj ht)
      rfl
  rw [selectScale] at h ⊢
  split at h
  · rename_i k hcur
    split_ifs at h ⊢ with hid
    · obtain ⟨rfl, -⟩ := Prod.mk.inj (Option.some.inj h)
      exact hcur
    · exact hbegin _ h
  · exact hbegin st h

theorem serveCmd_reads
    {scales : List ScaleSys}
    {st : Session}
    {chan cmd : List UInt8}
    {env : ExecEnv}
    {i : Nat}
    {paused : Bool}
    (h : (serveCmd scales st chan cmd env).read = some (i, paused)) :
    (serveCmd scales st chan cmd env).session.curScale = some i := by
  rw [serveCmd] at h ⊢
  split at h
  · cases h
  · rename_i st' k switchMode hsel
    have hcur : st'.curScale = some k := by
      have hselected := selectScale_curScale (congrArg Prod.snd hsel)
      rwa [hsel] at hselected
    simp only [execLduCmd] at h ⊢
    split_ifs at h ⊢
    all_goals
      obtain ⟨rfl, -⟩ := Prod.mk.inj (Option.some.inj h)
      exact hcur

theorem onMessage_reads
    {scales : List ScaleSys}
    {st : Session}
    {msg : CalibrMsg}
    {env : ExecEnv}
    {res : MessageResult}
    {i : Nat}
    {paused : Bool}
    (hres : onMessage scales st msg env = some res)
    (hread : res.read = some (i, paused)) :
    res.session.curScale = some i := by
  simp only [onMessage] at hres
  split at hres
  · obtain rfl := Option.some.inj hres
    cases hread
  · split at hres
    · obtain rfl := Option.some.inj hres
      cases hread
    · split at hres
      · simp only [Option.bind_eq_some_iff] at hres
        obtain ⟨chan, -, hres⟩ := hres
        split at hres
        · obtain rfl := Option.some.inj hres
          exact serveCmd_reads hread
        · split at hres
          · obtain rfl := Option.some.inj hres
            cases hread
          · cases hres
      · obtain rfl := Option.some.inj hres
        cases hread

/-! ### The loops of the scales -/

/-- Where the loop of a scale stands: before its test of `calibr_mode`, in the `sleep` of that
branch, or in the rest of a cycle, where it reads the port. -/
inductive LoopPlace
  | top
  | asleep
  | cycle
deriving DecidableEq, Repr

/-- The MQTT thread with the loops.  `reading` is the scale whose port `exec_ldu_cmd` reads.
The last two fields only record: no port has been read since `calibr_mode` was last set; a
port has been read whose loop was not paused. -/
structure Calibration where
  session : Session
  reading : Option Nat
  loop : Nat → LoopPlace
  unread : Bool
  strayRead : Bool

def Calibration.start : Calibration where
  session := .initial
  reading := none
  loop := fun _ => .top
  unread := false
  strayRead := false

/-- The loop has left its cycle, and does not begin another. -/
def Calibration.Paused (c : Calibration) (i : Nat) : Prop :=
  c.session.calibrMode i = true ∧ c.loop i ≠ .cycle

instance (c : Calibration) (i : Nat) : Decidable (c.Paused i) :=
  inferInstanceAs (Decidable (_ ∧ _))

inductive CalibrationAct
  | message (msg : CalibrMsg) (env : ExecEnv)
  | read
  | finish
  | test (i : Nat)
  | awake (i : Nat)
  | cycleEnd (i : Nat)

/-- The flag of the selected scale has just been set. -/
def Session.begins (before after : Session) : Bool :=
  match after.curScale with
  | some k => after.calibrMode k && !before.calibrMode k
  | none => false

/-- One action.  A message is `on_message` up to the reads of `exec_ldu_cmd`, and the whole of it
where none is made. -/
def calibrationStep (scales : List ScaleSys) (c : Calibration) :
    CalibrationAct → Option Calibration
  | .message msg env =>
      if c.reading = none then
        (onMessage scales c.session msg env).map fun res =>
          { c with
            session := res.session
            reading := res.read.map Prod.fst
            unread := c.unread || c.session.begins res.session }
      else none
  | .read =>
      c.reading.map fun i =>
        { c with unread := false, strayRead := c.strayRead || !decide (c.Paused i) }
  | .finish => if c.reading = none then none else some { c with reading := none }
  | .test i =>
      if c.loop i = .top then
        some { c with
          loop := Function.update c.loop i (if c.session.calibrMode i then .asleep else .cycle) }
      else none
  | .awake i =>
      if c.loop i = .asleep then some { c with loop := Function.update c.loop i .top } else none
  | .cycleEnd i =>
      if c.loop i = .cycle then some { c with loop := Function.update c.loop i .top } else none

/-- The session is together, and no port has been read but while its scale's loop was
paused. -/
structure Calibration.Kept (c : Calibration) : Prop where
  together : c.session.Together
  no_stray : c.strayRead = false

/-- In every state that the run reaches. -/
def SessionKept (scales : List ScaleSys) (acts : List CalibrationAct) : Prop :=
  HoldsAlong (calibrationStep scales) Calibration.Kept .start acts

/-- The condition on a step: a message that begins a session has its stop succeed, and the first
read of a session comes after the cycle in which the loop was stopped. -/
def StopsInTime (scales : List ScaleSys) (c : Calibration) : CalibrationAct → Prop
  | .message msg env => ∀ i, SwitchesTo scales c.session msg i → env.StopSucceeds
  | .read => c.unread = true → ∀ i, c.reading = some i → c.loop i ≠ .cycle
  | _ => True

/-- Once the port of a session has been read, the loop stays out of its cycle. -/
structure Calibration.Inv (c : Calibration) : Prop where
  kept : c.Kept
  reads_selected : ∀ i, c.reading = some i → c.session.curScale = some i
  out_of_cycle : ∀ k, c.session.curScale = some k → c.unread = false → c.loop k ≠ .cycle

theorem Session.Together.calibrMode
    {st : Session}
    {k : Nat}
    (h : st.Together)
    (hcur : st.curScale = some k) :
    st.calibrMode k = true := by
  rcases h with ⟨hnone, -⟩ | ⟨k', hk', hmode⟩
  · cases hcur.symm.trans hnone
  · obtain rfl := Option.some.inj (hcur.symm.trans hk')
    rw [hmode, decide_eq_true rfl]

theorem Session.Together.curScale
    {st : Session}
    {k : Nat}
    (h : st.Together)
    (hmode : st.calibrMode k = true) :
    st.curScale = some k := by
  rcases h with ⟨-, hoff⟩ | ⟨k', hk', hmode'⟩
  · rw [hoff] at hmode
    cases hmode
  · rw [hmode'] at hmode
    rw [hk', of_decide_eq_true hmode]

theorem start_calibrationInv : Calibration.start.Inv where
  kept := ⟨.inl ⟨rfl, fun _ => rfl⟩, rfl⟩
  reads_selected := fun _ hi => nomatch hi
  out_of_cycle := fun _ hk => nomatch hk

section CalibrationRuns

variable {scales : List ScaleSys} {c c' : Calibration}

/-- A message keeps the session together exactly if no begun session has its stop fail. -/
theorem Calibration.Inv.message_iff
    {msg : CalibrMsg} {env : ExecEnv} {res : MessageResult}
    (h : c.Inv)
    (hres : onMessage scales c.session msg env = some res) :
    res.session.Together ↔ ∀ i, SwitchesTo scales c.session msg i → env.StopSucceeds := by
  constructor
  · intro htogether i hswitch
    by_contra hstop
    obtain ⟨res', hres', hnot⟩ := onMessage_failed_stop h.kept.together hswitch hstop
    obtain rfl := Option.some.inj (hres.symm.trans hres')
    exact hnot htogether
  · intro hstop
    exact (onMessage_together h.kept.together hstop hres).1

/-- A read finds the loop paused exactly if it is not the first of a session, or finds the loop
out of its cycle. -/
theorem Calibration.Inv.read_iff
    {i : Nat}
    (h : c.Inv)
    (hreading : c.reading = some i) :
    c.Paused i ↔ (c.unread = true → c.loop i ≠ .cycle) := by
  have hcur := h.reads_selected i hreading
  constructor
  · exact fun hpaused _ => hpaused.2
  · intro hfirst
    refine ⟨h.kept.together.calibrMode hcur, ?_⟩
    cases hunread : c.unread with
    | false => exact h.out_of_cycle i hcur hunread
    | true => exact hfirst hunread

theorem Calibration.Inv.kept_iff
    {a : CalibrationAct}
    (h : c.Inv)
    (hstep : calibrationStep scales c a = some c') :
    c'.Kept ↔ StopsInTime scales c a := by
  have hsame (hsession : c'.session = c.session) (hstray : c'.strayRead = c.strayRead) :
      c'.Kept := ⟨hsession ▸ h.kept.together, hstray.trans h.kept.no_stray⟩
  cases a with
  | message msg env =>
      rw [calibrationStep, Option.ite_none_right_eq_some, Option.map_eq_some_iff] at hstep
      obtain ⟨-, res, hres, rfl⟩ := hstep
      rw [StopsInTime, ← h.message_iff hres]
      exact ⟨fun hkept => hkept.together, fun htogether => ⟨htogether, h.kept.no_stray⟩⟩
  | read =>
      rw [calibrationStep, Option.map_eq_some_iff] at hstep
      obtain ⟨i, hreading, rfl⟩ := hstep
      have hcondition : StopsInTime scales c .read ↔ c.Paused i := by
        rw [h.read_iff hreading, StopsInTime, hreading]
        simp
      rw [hcondition]
      constructor
      · intro hkept
        simpa using (Bool.or_eq_false_iff.mp hkept.no_stray).2
      · intro hpaused
        exact ⟨h.kept.together, by simp [h.kept.no_stray, hpaused]⟩
  | finish =>
      rw [calibrationStep, Option.ite_none_left_eq_some] at hstep
      obtain ⟨-, hc'⟩ := hstep
      obtain rfl := Option.some.inj hc'
      exact iff_of_true (hsame rfl rfl) trivial
  | test i =>
      rw [calibrationStep, Option.ite_none_right_eq_some] at hstep
      obtain ⟨-, hc'⟩ := hstep
      obtain rfl := Option.some.inj hc'
      exact iff_of_true (hsame rfl rfl) trivial
  | awake i =>
      rw [calibrationStep, Option.ite_none_right_eq_some] at hstep
      obtain ⟨-, hc'⟩ := hstep
      obtain rfl := Option.some.inj hc'
      exact iff_of_true (hsame rfl rfl) trivial
  | cycleEnd i =>
      rw [calibrationStep, Option.ite_none_right_eq_some] at hstep
      obtain ⟨-, hc'⟩ := hstep
      obtain rfl := Option.some.inj hc'
      exact iff_of_true (hsame rfl rfl) trivial

/-- A loop that moves to a place out of its cycle, or to its cycle while its flag is not set. -/
theorem Calibration.Inv.move
    {i : Nat} {place : LoopPlace}
    (h : c.Inv)
    (hplace : place = .cycle → c.session.calibrMode i = false) :
    ({ c with loop := Function.update c.loop i place } : Calibration).Inv := by
  refine ⟨⟨h.kept.together, h.kept.no_stray⟩, h.reads_selected, ?_⟩
  intro k hcur hunread
  by_cases hk : k = i
  · subst hk
    intro hcycle
    have hoff := hplace (by simpa using hcycle)
    rw [h.kept.together.calibrMode hcur] at hoff
    cases hoff
  · have hloop : Function.update c.loop i place k = c.loop k := Function.update_of_ne hk _ _
    simp only [hloop]
    exact h.out_of_cycle k hcur hunread

theorem Calibration.Inv.step
    {a : CalibrationAct}
    (h : c.Inv)
    (hstops : StopsInTime scales c a)
    (hstep : calibrationStep scales c a = some c') :
    c'.Inv := by
  have hkept := (h.kept_iff hstep).mpr hstops
  cases a with
  | message msg env =>
      rw [calibrationStep, Option.ite_none_right_eq_some, Option.map_eq_some_iff] at hstep
      obtain ⟨-, res, hres, rfl⟩ := hstep
      refine ⟨hkept, ?_, ?_⟩
      · intro i hi
        obtain ⟨⟨i', paused⟩, hread, rfl⟩ := Option.map_eq_some_iff.mp hi
        exact onMessage_reads hres hread
      · intro k hcur hunread
        obtain ⟨hold, hbegins⟩ := Bool.or_eq_false_iff.mp hunread
        have hset : res.session.calibrMode k = true := hkept.together.calibrMode hcur
        have hcur' : res.session.curScale = some k := hcur
        -- the flag was set before: the session goes on
        have hwas : c.session.calibrMode k = true := by
          simpa [Session.begins, hcur', hset] using hbegins
        exact h.out_of_cycle k (h.kept.together.curScale hwas) hold
  | read =>
      rw [calibrationStep, Option.map_eq_some_iff] at hstep
      obtain ⟨i, hreading, rfl⟩ := hstep
      refine ⟨hkept, h.reads_selected, ?_⟩
      intro k hcur _
      obtain rfl := Option.some.inj ((h.reads_selected i hreading).symm.trans hcur)
      exact ((h.read_iff hreading).mpr fun hunread => hstops hunread i hreading).2
  | finish =>
      rw [calibrationStep, Option.ite_none_left_eq_some] at hstep
      obtain ⟨-, hc'⟩ := hstep
      obtain rfl := Option.some.inj hc'
      refine ⟨hkept, ?_, h.out_of_cycle⟩
      intro i hi
      cases hi
  | test i =>
      rw [calibrationStep, Option.ite_none_right_eq_some] at hstep
      obtain ⟨-, hc'⟩ := hstep
      obtain rfl := Option.some.inj hc'
      refine h.move fun hcycle => ?_
      by_contra hset
      rw [if_pos (by simpa using hset)] at hcycle
      cases hcycle
  | awake i =>
      rw [calibrationStep, Option.ite_none_right_eq_some] at hstep
      obtain ⟨-, hc'⟩ := hstep
      obtain rfl := Option.some.inj hc'
      exact h.move fun hcycle => nomatch hcycle
  | cycleEnd i =>
      rw [calibrationStep, Option.ite_none_right_eq_some] at hstep
      obtain ⟨-, hc'⟩ := hstep
      obtain rfl := Option.some.inj hc'
      exact h.move fun hcycle => nomatch hcycle

/-- **The calibration session.**  For every run of messages, reads and loops, and every behaviour
of the terminal: the session is kept exactly when each message that begins one has its stop
succeed, and the first read of a session comes after the loop's cycle. -/
theorem session_kept_iff
    (scales : List ScaleSys)
    (acts : List CalibrationAct) :
    SessionKept scales acts ↔ MeetsAlong (calibrationStep scales) (StopsInTime scales) .start acts :=
  holdsAlong_iff_meetsAlong (fun _ h => h.kept) (fun _ _ _ h hstep => h.kept_iff hstep)
    (fun _ _ _ h hstops hstep => h.step hstops hstep) start_calibrationInv acts

end CalibrationRuns

/-- The scale of the id 1. -/
def bareScale : ScaleSys where
  id := 1
  st := [⟨false, none⟩]
  st_ne := by simp

def calibrMsg : CalibrMsg :=
  ⟨"calibration/cmd", some ⟨some (some [0x31]), some (some [0x43, 0x47, 0x0d])⟩⟩

/-- The terminal does not answer the stop of its flow, and the next message reads its port in the
loop's cycle; or it answers, and the loop has not come back to its test. -/
theorem onMessage_reads_running_scale :
    (∃ c, runSteps (calibrationStep [bareScale]) .start
        [.test 0, .message calibrMsg ⟨-2, [], []⟩, .message calibrMsg ⟨-2, [], [0x31, 0x0d]⟩, .read] =
          some c ∧
      c.session.curScale = some 0 ∧ c.session.calibrMode 0 = false ∧ c.strayRead = true) ∧
    (∃ c, runSteps (calibrationStep [bareScale]) .start
        [.test 0, .message calibrMsg ⟨0, [0x44, 0x3a], [0x31, 0x0d]⟩, .read] = some c ∧
      c.session.calibrMode 0 = true ∧ c.loop 0 = .cycle ∧ c.strayRead = true) ∧
    ¬ SessionKept [bareScale]
      [.test 0, .message calibrMsg ⟨-2, [], []⟩, .message calibrMsg ⟨-2, [], [0x31, 0x0d]⟩, .read] := by
  have hrun : ∃ c, runSteps (calibrationStep [bareScale]) .start
      [.test 0, .message calibrMsg ⟨-2, [], []⟩, .message calibrMsg ⟨-2, [], [0x31, 0x0d]⟩, .read] =
        some c ∧
      c.session.curScale = some 0 ∧ c.session.calibrMode 0 = false ∧ c.strayRead = true :=
    ⟨_, rfl, rfl, rfl, rfl⟩
  refine ⟨hrun, ⟨_, rfl, rfl, rfl, rfl⟩, fun hkept => ?_⟩
  obtain ⟨c, hc, -, -, hstray⟩ := hrun
  rw [(hkept.last hc).no_stray] at hstray
  cases hstray

end Scaled
end MatrixBin
