import MatrixBin.Scaled.CalibrationSession
import MatrixBin.Scaled.GetResp
import MatrixBin.Scaled.LduLoop

/-!
# The buffers of the MQTT thread (`mqtt_thread.c`, `ldu_loop.c`)

`on_message` copies the payload into `ibuf` and cuts the answer in `obuf` behind its last byte.
`exec_ldu_cmd` lets the scale's loop copy a line into `obuf`, and then collects the answer
there, as many bytes as FIONREAD announces at each read.

The step of a run is one message, one copy, or one outcome of `sem_timedwait`, `pselect` and
`read`; a thread that has left one of the arrays is `none`.  `mqtt_buffers_iff` says in which
runs that does not happen.
-/

namespace MatrixBin
namespace Scaled

open Library

/-- `sizeof ibuf` -/
def ibufSize : Nat := 512

/-- `sizeof obuf` -/
def obufSize : Nat := 512

/-- Between messages, in `sem_timedwait`, or collecting the answer: `p` is `obuf+total`. -/
inductive MqttPhase
  | idle
  | stopping (i : Nat)
  | collecting (i : Nat) (total : ℤ)
deriving DecidableEq

/-- The thread: `rc` is that of `cur_cmd`, whose `cmdbuf` is `obuf`, and `pending` tells which
scales have `cur_cmd` as their command. -/
structure MqttThread where
  session : Session
  phase : MqttPhase
  obuf : Bytes
  rc : ℤ
  pending : Nat → Bool

def MqttThread.initial : MqttThread := ⟨.initial, .idle, fun _ => 0, 0, fun _ => false⟩

/-- A scale's loop may copy a line that is shorter than the `packet_length` of some thread. -/
inductive MqttAct
  | message (payloadlen : Nat) (msg : CalibrMsg)
  | copies (i : Nat) (line : List UInt8) (t : ScaleThread)
  | stopped
  | interrupted
  | timeout
  | ready (bytes : ℤ) (result : ReadResult)

/-- The session is chosen: `exec_ldu_cmd` begins, with `memset` if the flow is not stopped
first. -/
def MqttThread.execLduCmd (s : MqttThread) (session : Session) (i : Nat) (stopFlow : Bool) :
    MqttThread :=
  if stopFlow then
    { s with
      session := session
      phase := .stopping i
      rc := -2
      pending := Function.update s.pending i true }
  else { s with session := session, phase := .collecting i 0, obuf := fun _ => 0 }

/-- `on_message` up to `exec_ldu_cmd`.  It is not modelled where a null string is read. -/
def MqttThread.onMessage (scales : List ScaleSys) (s : MqttThread) (payloadlen : Nat)
    (msg : CalibrMsg) : Option (Option MqttThread) :=
  if msg.topic ≠ "calibration/cmd" then some (some s)
  else if ibufSize ≤ payloadlen then some none
  else
    match msg.payload with
    | none => some (some s)
    | some json =>
        match json.chan, json.cmd with
        | some chan, some cmd =>
            chan.bind fun chan =>
              match selectScale scales s.session (atoi chan) with
              | (session, none) => some (some { s with session := session })
              | (session, some (i, switchMode)) =>
                  cmd.map fun _ => some (s.execLduCmd session i switchMode)
        | _, _ => some (some s)

/-- `obuf[len-1]=0`, once `exec_ldu_cmd` has returned. -/
def MqttThread.finish (s : MqttThread) (len : ℤ) : Option MqttThread :=
  if 0 ≤ len - 1 ∧ len - 1 < obufSize then
    some { s with phase := .idle, obuf := s.obuf.write (len - 1).toNat [0] }
  else none

/-- `sem_timedwait` has returned. -/
def MqttThread.stopFlow (s : MqttThread) (i : Nat) : Option MqttThread :=
  if s.rc = 0 ∧ s.obuf 0 = 0x44 ∧ s.obuf 1 = 0x3a then
    some { s with
      session := { s.session with calibrMode := Function.update s.session.calibrMode i true }
      phase := .collecting i 0
      obuf := fun _ => 0 }
  else s.finish (-1)

/-- What `read` returns. -/
def ReadResult.len : ReadResult → ℤ
  | .failed => -1
  | .bytes data => data.length

/-- `read(fd,p,bytes)` with the amount of FIONREAD; a negative one is refused. -/
def ReadResult.ofAmount (bytes : ℤ) (result : ReadResult) : ReadResult :=
  if bytes < 0 then .failed else result.upTo bytes.toNat

/-- `*(p-1)` -/
def obufAt (m : Bytes) (i : ℤ) : Option UInt8 :=
  if 0 ≤ i ∧ i < obufSize then some (m i.toNat) else none

/-- One read of the answer. -/
def MqttThread.collect (s : MqttThread) (i : Nat) (total : ℤ) (result : ReadResult) :
    Option MqttThread :=
  (if 0 ≤ total then store obufSize s.obuf total.toNat result.data else none).bind fun obuf =>
    (obufAt obuf (total + result.len - 1)).bind fun last =>
      if last = 0x0d ∨ result.len = 0 then
        -- `printf("%s\n",obuf)`
        (strlen obufSize obuf 0).bind fun _ =>
          ({ s with obuf := obuf } : MqttThread).finish (total + result.len)
      else some { s with obuf := obuf, phase := .collecting i (total + result.len) }

/-- `memcpy(s->cmd->cmdbuf,wtmsg,m)` in the loop of a scale. -/
def MqttThread.copy (s : MqttThread) (i : Nat) (line : List UInt8) : Option MqttThread :=
  (store obufSize s.obuf 0 line).map fun obuf =>
    { s with obuf := obuf, rc := 0, pending := Function.update s.pending i false }

def MqttThread.step (scales : List ScaleSys) (s : MqttThread) :
    MqttAct → Option (Option MqttThread)
  | .message payloadlen msg => if s.phase = .idle then s.onMessage scales payloadlen msg else none
  | .copies i line t =>
      if s.pending i = true ∧ s.rc = -2 ∧ line.length < t.packetLength.getD 0 then
        some (s.copy i line)
      else none
  | .stopped =>
      match s.phase with
      | .stopping i => some (s.stopFlow i)
      | _ => none
  | .interrupted =>
      match s.phase with
      | .collecting _ _ => some (some s)
      | _ => none
  | .timeout =>
      match s.phase with
      | .collecting _ total => some (s.finish total)
      | _ => none
  | .ready bytes result =>
      match s.phase with
      | .collecting i total => some (s.collect i total (result.ofAmount bytes))
      | _ => none

def mqttStep (scales : List ScaleSys) (s : Option MqttThread) (a : MqttAct) :
    Option (Option MqttThread) :=
  s.bind fun s => s.step scales a

/-! ### What the steps need -/

/-- No access has left an array. -/
def BuffersKept (s : Option MqttThread) : Prop := s.isSome = true

/-- A read finds room for its bytes behind those before, leaves at least one byte, and if it is
the last one there is a NUL in `obuf`. -/
structure CollectFits (obuf : Bytes) (total : ℤ) (result : ReadResult) : Prop where
  room : total + result.data.length ≤ obufSize
  nonempty : 1 ≤ total + result.len
  terminated :
    obuf.write total.toNat result.data (total + result.len - 1).toNat = 0x0d ∨ result.len = 0 →
      ∃ j < obufSize, obuf.write total.toNat result.data j = 0

/-- The payload of a command is shorter than `ibuf`, the flow is stopped when a session begins,
and the terminal answers, by reads that fit. -/
def MqttThread.Fits (s : MqttThread) : MqttAct → Prop
  | .message payloadlen msg => msg.topic = "calibration/cmd" → payloadlen < ibufSize
  | .stopped => s.rc = 0 ∧ s.obuf 0 = 0x44 ∧ s.obuf 1 = 0x3a
  | .timeout => ∀ i total, s.phase = .collecting i total → 1 ≤ total
  | .ready bytes result =>
      ∀ i total, s.phase = .collecting i total → CollectFits s.obuf total (result.ofAmount bytes)
  | _ => True

def MqttFits (s : Option MqttThread) (a : MqttAct) : Prop := ∃ t, s = some t ∧ t.Fits a

/-- `p` lies in `obuf`, or behind its last byte. -/
def MqttThread.Inv (s : MqttThread) : Prop :=
  ∀ i total, s.phase = .collecting i total → 0 ≤ total ∧ total ≤ obufSize

section Steps

variable {s : MqttThread} {total : ℤ} {result : ReadResult}

theorem MqttThread.finish_eq
    (s : MqttThread)
    (hpos : 1 ≤ total)
    (hle : total ≤ obufSize) :
    s.finish total =
      some { s with phase := .idle, obuf := s.obuf.write (total - 1).toNat [0] } :=
  if_pos ⟨by omega, by omega⟩

theorem MqttThread.finish_none
    (s : MqttThread)
    (hneg : ¬ 1 ≤ total) :
    s.finish total = none :=
  if_neg (by omega)

/-- What became of one action: an array was left exactly if the action does not fit. -/
def MqttThread.Outcome (s : MqttThread) (a : MqttAct) (s' : Option MqttThread) : Prop :=
  (BuffersKept s' ↔ s.Fits a) ∧ ∀ t, s' = some t → t.Inv

theorem MqttThread.Inv.of_idle
    (h : s.phase = .idle) :
    s.Inv := by
  intro i total hphase
  rw [h] at hphase
  exact MqttPhase.noConfusion hphase

theorem MqttThread.execLduCmd_inv
    (s : MqttThread)
    (session : Session)
    (i : Nat)
    (stopFlow : Bool) :
    (s.execLduCmd session i stopFlow).Inv := by
  intro j total hphase
  rw [MqttThread.execLduCmd] at hphase
  split at hphase
  · exact MqttPhase.noConfusion hphase
  · rw [MqttPhase.collecting.injEq] at hphase
    obtain ⟨-, rfl⟩ := hphase
    exact ⟨le_refl 0, by decide⟩

theorem MqttThread.onMessage_outcome
    {scales : List ScaleSys}
    {payloadlen : Nat}
    {msg : CalibrMsg}
    {s' : Option MqttThread}
    (hidle : s.phase = .idle)
    (hstep : s.onMessage scales payloadlen msg = some s') :
    s.Outcome (.message payloadlen msg) s' := by
  have hsame : s.Inv := .of_idle hidle
  -- the message is dropped, or leads to another state within the invariant
  have hkept {t : MqttThread} (ht : t.Inv) (hs' : some t = s')
      (hfits : msg.topic = "calibration/cmd" → payloadlen < ibufSize) :
      s.Outcome (.message payloadlen msg) s' := by
    subst hs'
    refine ⟨iff_of_true rfl hfits, fun u hu => ?_⟩
    rw [← Option.some.inj hu]
    exact ht
  rw [MqttThread.onMessage] at hstep
  split at hstep
  · rename_i htopic
    exact hkept hsame (Option.some.inj hstep) fun heq => absurd heq htopic
  · rename_i htopic
    split at hstep
    · rename_i hlong
      obtain rfl := Option.some.inj hstep
      refine ⟨iff_of_false (by simp [BuffersKept]) fun hfits => ?_, fun t ht => absurd ht (by simp)⟩
      exact absurd (hfits (not_not.mp htopic)) (Nat.not_lt.mpr hlong)
    · rename_i hshort
      have hfits : msg.topic = "calibration/cmd" → payloadlen < ibufSize :=
        fun _ => Nat.lt_of_not_le hshort
      split at hstep
      · exact hkept hsame (Option.some.inj hstep) hfits
      · split at hstep
        · obtain ⟨chan, -, hstep⟩ := Option.bind_eq_some_iff.mp hstep
          split at hstep
          · refine hkept ?_ (Option.some.inj hstep) hfits
            exact .of_idle hidle
          · obtain ⟨cmd, -, heq⟩ := Option.map_eq_some_iff.mp hstep
            exact hkept (s.execLduCmd_inv _ _ _) heq hfits
        · exact hkept hsame (Option.some.inj hstep) hfits

/-- A line that a scale's loop copies is shorter than any frame. -/
theorem MqttThread.copy_outcome
    (h : s.Inv)
    {i : Nat}
    {line : List UInt8}
    {t : ScaleThread}
    (hline : line.length < t.packetLength.getD 0) :
    s.Outcome (.copies i line t) (s.copy i line) := by
  have hshort : t.packetLength.getD 0 ≤ 18 := by
    cases t with
    | ldu l => cases l <;> decide
    | dis2Loop => decide
    | dis4Loop => decide
  have hroom : 0 + line.length ≤ obufSize := by
    rw [obufSize]
    omega
  rw [MqttThread.copy, store_eq hroom]
  refine ⟨iff_of_true rfl trivial, fun t ht => ?_⟩
  rw [← Option.some.inj ht]
  exact h

theorem MqttThread.stopFlow_outcome
    (s : MqttThread)
    (i : Nat) :
    s.Outcome .stopped (s.stopFlow i) := by
  rw [MqttThread.stopFlow]
  split
  · rename_i hanswered
    refine ⟨iff_of_true rfl hanswered, fun t ht => ?_⟩
    rw [← Option.some.inj ht]
    intro j total hphase
    rw [MqttPhase.collecting.injEq] at hphase
    obtain ⟨-, rfl⟩ := hphase
    exact ⟨le_refl 0, by decide⟩
  · rename_i hsilent
    rw [s.finish_none (by omega)]
    exact ⟨iff_of_false (by simp [BuffersKept]) hsilent, fun t ht => absurd ht (by simp)⟩

theorem MqttThread.finish_inv
    {t : MqttThread}
    (h : s.finish total = some t) :
    t.Inv := by
  rw [MqttThread.finish, Option.ite_none_right_eq_some] at h
  obtain rfl := Option.some.inj h.2
  exact .of_idle rfl

theorem MqttThread.timeout_outcome
    (h : s.Inv)
    {i : Nat}
    (hphase : s.phase = .collecting i total) :
    s.Outcome .timeout (s.finish total) := by
  refine ⟨?_, fun t ht => MqttThread.finish_inv ht⟩
  have hfits : s.Fits .timeout ↔ 1 ≤ total := by
    constructor
    · intro hall
      exact hall i total hphase
    · intro hpos j total' hphase'
      rw [hphase, MqttPhase.collecting.injEq] at hphase'
      rwa [← hphase'.2]
  rw [hfits]
  by_cases hpos : 1 ≤ total
  · rw [s.finish_eq hpos (h i total hphase).2]
    exact iff_of_true rfl hpos
  · rw [s.finish_none hpos]
    exact iff_of_false (by simp [BuffersKept]) hpos

theorem ReadResult.len_le
    (result : ReadResult) :
    result.len ≤ result.data.length := by
  cases result with
  | failed => exact (by decide : (-1 : ℤ) ≤ 0)
  | bytes data => exact le_refl _

/-- **One read of the answer.** -/
theorem MqttThread.collect_isSome_iff
    (s : MqttThread)
    (i : Nat)
    (hpos : 0 ≤ total) :
    (s.collect i total result).isSome ↔ CollectFits s.obuf total result := by
  have hlen := result.len_le
  have hat : total = (total.toNat : ℤ) := (Int.toNat_of_nonneg hpos).symm
  rw [MqttThread.collect, if_pos hpos]
  by_cases hroom : total + result.data.length ≤ obufSize
  · rw [store_eq (by omega), Option.bind_some]
    by_cases hbyte : 1 ≤ total + result.len
    · have hlast : obufAt (s.obuf.write total.toNat result.data) (total + result.len - 1) =
          some (s.obuf.write total.toNat result.data (total + result.len - 1).toNat) :=
        if_pos ⟨by omega, by omega⟩
      rw [hlast, Option.bind_some]
      split
      · rename_i hends
        have hstring : (strlen obufSize (s.obuf.write total.toNat result.data) 0).isSome ↔
            ∃ j < obufSize, s.obuf.write total.toNat result.data j = 0 := by
          rw [strlen_isSome_iff]
          simp
        by_cases hzero : ∃ j < obufSize, s.obuf.write total.toNat result.data j = 0
        · obtain ⟨len, hstrlen⟩ := Option.isSome_iff_exists.mp (hstring.mpr hzero)
          rw [hstrlen, Option.bind_some, MqttThread.finish_eq _ hbyte (by omega)]
          exact iff_of_true rfl ⟨hroom, hbyte, fun _ => hzero⟩
        · have hnone : strlen obufSize (s.obuf.write total.toNat result.data) 0 = none := by
            rw [← Option.not_isSome_iff_eq_none, hstring]
            exact hzero
          rw [hnone]
          exact iff_of_false (by simp) fun hfits => hzero (hfits.terminated hends)
      · rename_i hgoes
        exact iff_of_true rfl ⟨hroom, hbyte, fun hends => absurd hends hgoes⟩
    · have hlast : obufAt (s.obuf.write total.toNat result.data) (total + result.len - 1) = none :=
        if_neg (by omega)
      rw [hlast]
      exact iff_of_false (by simp) fun hfits => hbyte hfits.nonempty
  · have hstore : store obufSize s.obuf total.toNat result.data = none := if_neg (by omega)
    rw [hstore]
    exact iff_of_false (by simp) fun hfits => hroom hfits.room

theorem MqttThread.collect_inv
    {i : Nat}
    {t : MqttThread}
    (hfits : CollectFits s.obuf total result)
    (h : s.collect i total result = some t) :
    t.Inv := by
  have hlen := result.len_le
  have hroom := hfits.room
  have hbyte := hfits.nonempty
  obtain ⟨obuf, -, h⟩ := Option.bind_eq_some_iff.mp h
  obtain ⟨last, -, h⟩ := Option.bind_eq_some_iff.mp h
  split at h
  · obtain ⟨len, -, h⟩ := Option.bind_eq_some_iff.mp h
    exact MqttThread.finish_inv h
  · obtain rfl := Option.some.inj h
    intro j total' hphase
    rw [MqttPhase.collecting.injEq] at hphase
    obtain ⟨-, rfl⟩ := hphase
    exact ⟨by omega, by omega⟩

theorem MqttThread.ready_outcome
    (h : s.Inv)
    {i : Nat}
    (hphase : s.phase = .collecting i total)
    (bytes : ℤ)
    (result : ReadResult) :
    s.Outcome (.ready bytes result) (s.collect i total (result.ofAmount bytes)) := by
  have hpos := (h i total hphase).1
  have hkept : (s.collect i total (result.ofAmount bytes)).isSome ↔
      CollectFits s.obuf total (result.ofAmount bytes) := s.collect_isSome_iff i hpos
  refine ⟨?_, fun t ht => MqttThread.collect_inv (hkept.mp (by rw [ht]; rfl)) ht⟩
  rw [BuffersKept, hkept]
  constructor
  · intro hfits j total' hphase'
    rw [hphase, MqttPhase.collecting.injEq] at hphase'
    rwa [← hphase'.2]
  · intro hall
    exact hall i total hphase

/-- **One action.** -/
theorem MqttThread.step_outcome
    (h : s.Inv)
    {scales : List ScaleSys}
    {a : MqttAct}
    {s' : Option MqttThread}
    (hstep : s.step scales a = some s') :
    s.Outcome a s' := by
  cases a with
  | message payloadlen msg =>
      rw [MqttThread.step, Option.ite_none_right_eq_some] at hstep
      exact MqttThread.onMessage_outcome hstep.1 hstep.2
  | copies i line t =>
      rw [MqttThread.step, Option.ite_none_right_eq_some] at hstep
      obtain ⟨⟨-, -, hline⟩, heq⟩ := hstep
      obtain rfl := Option.some.inj heq
      exact MqttThread.copy_outcome h hline
  | stopped =>
      rw [MqttThread.step] at hstep
      split at hstep
      · obtain rfl := Option.some.inj hstep
        exact s.stopFlow_outcome _
      · exact absurd hstep (by simp)
  | interrupted =>
      rw [MqttThread.step] at hstep
      split at hstep
      · obtain rfl := Option.some.inj hstep
        refine ⟨iff_of_true rfl trivial, fun t ht => ?_⟩
        rwa [← Option.some.inj ht]
      · exact absurd hstep (by simp)
  | timeout =>
      rw [MqttThread.step] at hstep
      split at hstep
      · rename_i i total hphase
        obtain rfl := Option.some.inj hstep
        exact MqttThread.timeout_outcome h hphase
      · exact absurd hstep (by simp)
  | ready bytes result =>
      rw [MqttThread.step] at hstep
      split at hstep
      · rename_i i total hphase
        obtain rfl := Option.some.inj hstep
        exact MqttThread.ready_outcome h hphase bytes result
      · exact absurd hstep (by simp)

end Steps

section Runs

/-- **The buffers of the MQTT thread.**  In every order of messages, copies and reads, all
accesses to `ibuf` and `obuf` are inside exactly if every action fits. -/
theorem mqtt_buffers_iff
    (scales : List ScaleSys)
    (schedule : List MqttAct) :
    HoldsAlong (mqttStep scales) BuffersKept (some .initial) schedule ↔
      MeetsAlong (mqttStep scales) MqttFits (some .initial) schedule := by
  let inv (s : Option MqttThread) : Prop := ∃ t, s = some t ∧ t.Inv
  have hinit : inv (some .initial) := ⟨_, rfl, .of_idle rfl⟩
  have hholds : ∀ s, inv s → BuffersKept s := by
    rintro s ⟨t, rfl, -⟩
    rfl
  have hstep : ∀ s a s', inv s → mqttStep scales s a = some s' →
      (BuffersKept s' ↔ MqttFits s a) ∧ ∀ t, s' = some t → t.Inv := by
    rintro s a s' ⟨t, rfl, ht⟩ hact
    obtain ⟨hkept, hinv⟩ := MqttThread.step_outcome ht hact
    refine ⟨hkept.trans ?_, hinv⟩
    constructor
    · intro hfits
      exact ⟨t, rfl, hfits⟩
    · rintro ⟨t', heq, hfits⟩
      rwa [Option.some.inj heq]
  refine holdsAlong_iff_meetsAlong hholds (fun s a s' hs hact => (hstep s a s' hs hact).1) ?_ hinit
    schedule
  intro s a s' hs hfits hact
  obtain ⟨hkept, hinv⟩ := hstep s a s' hs hact
  obtain ⟨t, rfl⟩ := Option.isSome_iff_exists.mp (hkept.mpr hfits)
  exact ⟨t, rfl, hinv t rfl⟩

/-- The message of the session in `calibrMsg`, with an answer to the stop of the flow. -/
def beginCalibration : List MqttAct :=
  [.message 24 calibrMsg, .copies 0 [0x44, 0x3a, 0x0d] (.ldu .lduLoop), .stopped]

/-- A payload of 512 bytes; a terminal that does not answer the stop of the flow; and one that
falls silent behind it. -/
theorem mqtt_thread_leaves_buffers :
    ¬ HoldsAlong (mqttStep [bareScale]) BuffersKept (some .initial) [.message 512 calibrMsg] ∧
      ¬ HoldsAlong (mqttStep [bareScale]) BuffersKept (some .initial)
        [.message 24 calibrMsg, .stopped] ∧
      ¬ HoldsAlong (mqttStep [bareScale]) BuffersKept (some .initial)
        (beginCalibration ++ [.timeout]) := by
  have hlost {schedule : List MqttAct}
      (hrun : (runSteps (mqttStep [bareScale]) (some .initial) schedule).map Option.isSome =
        some false) :
      ¬ HoldsAlong (mqttStep [bareScale]) BuffersKept (some .initial) schedule := by
    intro h
    obtain ⟨s, hs, hnone⟩ := Option.map_eq_some_iff.mp hrun
    have hkept : s.isSome = true := h.last hs
    rw [hnone] at hkept
    exact Bool.noConfusion hkept
  refine ⟨hlost ?_, hlost ?_, hlost ?_⟩
  · decide +kernel
  · decide +kernel
  · decide +kernel

end Runs

end Scaled
end MatrixBin
