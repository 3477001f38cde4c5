import MatrixBin.Library.TransitionRuns
import Mathlib.Logic.Function.Basic

/-!
# The command mailbox of one scale (`commands.c`, `mqtt_thread.c`, `ldu_loop.c`)

`runcommand` and `exec_ldu_cmd` each own one record `cur_cmd`.  A producer fills its
record, stores the record's address in `s->cmd` and waits on the counting semaphore
`s->sem`; the scale's loop finds the record, carries the command out, posts the
semaphore and clears `s->cmd`.  Every access to the shared data is one action here,
and the actions of the three threads interleave freely.  The loop reads `s->cmd`
again for each access, as the code does; the arguments of `write` are evaluated
before it is called.

A request is a producer with the number of its `s->cmd=&cur_cmd`.  An order is the
number of the UDP thread's `cur_cmd.cmdbuf=`.  The fields `request`, `completed`,
`orders`, `denied` and `deniedWritten` only record what happened.

`safe_of_orderly` and `denied_never_written` give the conditions on the steps of a
run under which the mailbox keeps its promises.
-/

namespace MatrixBin
namespace Scaled

open Library

/-- The thread that hands over a command. -/
inductive Producer
  | udp
  | mqtt
deriving DecidableEq, Repr

/-- The value of `rc` that marks a record as pending. -/
def Producer.pendingRc : Producer → Int
  | .udp => -1
  | .mqtt => -2

/-- `cmd_pending_t` -/
structure CmdPending where
  cmdbuf : List UInt8
  rc : Int
deriving DecidableEq, Repr

/-- Where a producer stands: before `cur_cmd.cmdbuf=`, before `cur_cmd.rc=`, before
`s->cmd=`, inside `sem_timedwait`, and after it. -/
inductive ProducerPc
  | idle
  | buffered
  | armed
  | waiting
  | woken
  | timedOut
deriving DecidableEq, Repr

abbrev Request := Producer × Nat

/-- Where the loop stands.  A request is the one that the check of `s->cmd->rc` found; the
order is that of the text which `write` has been given, if it is the UDP thread's. -/
inductive LoopPc
  | top
  | pending
  | write (r : Request)
  | fetched (r : Request) (order : Option Nat)
  | reply (r : Request)
  | reply2 (r : Request)
  | post (r : Request) (rc : Int) (inLines : Bool)
  | clear (inLines : Bool)
  | read
  | copy (r : Request) (line : List UInt8)
  | ready (r : Request)
deriving DecidableEq, Repr

/-- What `catch_cmd_reply` and `get_cmd_reply2` return. -/
inductive CmdReply
  | missing
  | ok
  | err
deriving DecidableEq, Repr

def CmdReply.rc : CmdReply → Int
  | .missing => -1
  | .ok => 0
  | .err => 1

structure MailboxState where
  cmd : Option Producer
  sem : Nat
  curCmd : Producer → CmdPending
  producer : Producer → ProducerPc
  loop : LoopPc
  calibrMode : Bool
  request : Producer → Nat
  completed : Producer → Option (Nat × Int)
  orders : Nat
  denied : List Nat
  deniedWritten : Bool

def MailboxState.initial : MailboxState where
  cmd := none
  sem := 0
  curCmd := fun _ => ⟨[], 0⟩
  producer := fun _ => .idle
  loop := .top
  calibrMode := false
  request := fun _ => 0
  completed := fun _ => none
  orders := 0
  denied := []
  deniedWritten := false

inductive MailboxAct
  | buffer (p : Producer) (text : List UInt8)
  | arm (p : Producer)
  | place (p : Producer)
  | wake (p : Producer)
  | timeout (p : Producer)
  | answer (p : Producer)
  | leaveCalibr
  | loopTop
  | loopPending
  | fetch
  | write (ok : Bool)
  | reply (out : CmdReply)
  | reply2 (out : CmdReply)
  | post
  | clear
  | line (text : List UInt8) (packetLength : Nat)
  | linesDone
  | copy
  | ready
deriving DecidableEq, Repr

def MailboxState.setProducer (s : MailboxState) (p : Producer) (pc : ProducerPc) : MailboxState :=
  { s with producer := Function.update s.producer p pc }

def MailboxState.setRc (s : MailboxState) (p : Producer) (rc : Int) : MailboxState :=
  { s with curCmd := Function.update s.curCmd p { s.curCmd p with rc := rc } }

def MailboxState.setBuf (s : MailboxState) (p : Producer) (text : List UInt8) : MailboxState :=
  { s with curCmd := Function.update s.curCmd p { s.curCmd p with cmdbuf := text } }

/-- After the wait: `runcommand` sends the application code 01 unless `rc` is 0 or 1;
`exec_ldu_cmd` enters the calibration mode on a reply that starts with `D:`. -/
def MailboxState.report (s : MailboxState) : Producer → MailboxState
  | .udp =>
      if (s.curCmd .udp).rc ≠ 0 ∧ (s.curCmd .udp).rc ≠ 1 then
        { s with denied := s.orders :: s.denied }
      else s
  | .mqtt =>
      { s with
        calibrMode := s.calibrMode ||
          decide ((s.curCmd .mqtt).rc = 0 ∧ (s.curCmd .mqtt).cmdbuf.take 2 = [0x44, 0x3a]) }

/-- One action of one thread; `none` when the thread is elsewhere. -/
def mailboxStep (s : MailboxState) : MailboxAct → Option MailboxState
  | .buffer p text =>
      if s.producer p = .idle then
        some (({ s with orders := if p = Producer.udp then s.orders + 1 else s.orders }.setBuf p
          text).setProducer p .buffered)
      else none
  | .arm p =>
      if s.producer p = .buffered then some ((s.setRc p p.pendingRc).setProducer p .armed)
      else none
  | .place p =>
      if s.producer p = .armed then
        some ({ s with
          cmd := some p
          request := Function.update s.request p (s.request p + 1) }.setProducer p .waiting)
      else none
  | .wake p =>
      if s.producer p = .waiting ∧ 0 < s.sem then
        some ({ s with sem := s.sem - 1 }.setProducer p .woken)
      else none
  -- a wait times out only while the semaphore cannot be taken
  | .timeout p =>
      if s.producer p = .waiting ∧ s.sem = 0 then some (s.setProducer p .timedOut) else none
  | .answer p =>
      if s.producer p = .woken ∨ s.producer p = .timedOut then
        some ((s.report p).setProducer p .idle)
      else none
  | .leaveCalibr =>
      if s.producer .mqtt = .idle then some { s with calibrMode := false } else none
  | .loopTop =>
      if s.loop = .top then
        if s.calibrMode then some s else some { s with loop := .pending }
      else none
  | .loopPending =>
      if s.loop = .pending then
        match s.cmd with
        | none => some { s with loop := .read }
        | some p =>
            if (s.curCmd p).rc = -1 then some { s with loop := .write (p, s.request p) }
            else some { s with loop := .read }
      else none
  -- the text of the record that `s->cmd` points to now
  | .fetch =>
      match s.loop, s.cmd with
      | .write r, some p =>
          some { s with loop := .fetched r (if p = Producer.udp then some s.orders else none) }
      | _, _ => none
  | .write ok =>
      match s.loop with
      | .fetched r order =>
          if ok then
            some { s with
              loop := .reply r
              deniedWritten := s.deniedWritten || decide (∃ n ∈ order, n ∈ s.denied) }
          else some { s with loop := .post r (-1) false }
      | _ => none
  | .reply out =>
      match s.loop, s.cmd with
      | .reply r, some p =>
          if out = .missing then some { s.setRc p out.rc with loop := .reply2 r }
          else some { s.setRc p out.rc with loop := .post r out.rc false }
      | _, _ => none
  | .reply2 out =>
      match s.loop, s.cmd with
      | .reply2 r, some p => some { s.setRc p out.rc with loop := .post r out.rc false }
      | _, _ => none
  | .post =>
      match s.loop with
      | .post r rc inLines =>
          some { s with
            sem := s.sem + 1
            completed := Function.update s.completed r.1 (some (r.2, rc))
            loop := .clear inLines }
      | _ => none
  | .clear =>
      match s.loop with
      | .clear inLines => some { s with cmd := none, loop := if inLines then .read else .top }
      | _ => none
  | .line text packetLength =>
      if s.loop = .read then
        match s.cmd with
        | none => some s
        | some p =>
            if text.length < packetLength ∧ (s.curCmd p).rc = -2 then
              some { s with loop := .copy (p, s.request p) text }
            else some s
      else none
  | .linesDone => if s.loop = .read then some { s with loop := .top } else none
  | .copy =>
      match s.loop, s.cmd with
      | .copy r text, some p =>
          some { s.setBuf p (text ++ (s.curCmd p).cmdbuf.drop text.length) with loop := .ready r }
      | _, _ => none
  | .ready =>
      match s.loop, s.cmd with
      | .ready r, some p => some { s.setRc p 0 with loop := .post r 0 true }
      | _, _ => none

section Fields

variable (s : MailboxState) (p q : Producer)

@[simp] theorem MailboxState.setProducer_self (pc : ProducerPc) :
    (s.setProducer p pc).producer p = pc := by
  simp [MailboxState.setProducer]

@[simp] theorem MailboxState.setProducer_of_ne (pc : ProducerPc) (h : q ≠ p) :
    (s.setProducer p pc).producer q = s.producer q := by
  simp [MailboxState.setProducer, h]

@[simp] theorem MailboxState.setRc_self (rc : Int) :
    ((s.setRc p rc).curCmd p).rc = rc := by
  simp [MailboxState.setRc]

@[simp] theorem MailboxState.setRc_of_ne (rc : Int) (h : q ≠ p) :
    (s.setRc p rc).curCmd q = s.curCmd q := by
  simp [MailboxState.setRc, h]

@[simp] theorem MailboxState.setBuf_rc (text : List UInt8) :
    ((s.setBuf p text).curCmd q).rc = (s.curCmd q).rc := by
  by_cases h : q = p <;> simp [MailboxState.setBuf, h]

end Fields

/-- What a step can do, branch by branch. -/
inductive MailboxMove (s : MailboxState) : MailboxAct → MailboxState → Prop
  | buffer (p : Producer) (text : List UInt8)
      (hpc : s.producer p = .idle) :
      MailboxMove s (.buffer p text)
        (({ s with orders := if p = Producer.udp then s.orders + 1 else s.orders }.setBuf p
          text).setProducer p .buffered)
  | arm (p : Producer)
      (hpc : s.producer p = .buffered) :
      MailboxMove s (.arm p) ((s.setRc p p.pendingRc).setProducer p .armed)
  | place (p : Producer)
      (hpc : s.producer p = .armed) :
      MailboxMove s (.place p) ({ s with
        cmd := some p
        request := Function.update s.request p (s.request p + 1) }.setProducer p .waiting)
  | wake (p : Producer)
      (hpc : s.producer p = .waiting)
      (hsem : 0 < s.sem) :
      MailboxMove s (.wake p) ({ s with sem := s.sem - 1 }.setProducer p .woken)
  | timeout (p : Producer)
      (hpc : s.producer p = .waiting)
      (hsem : s.sem = 0) :
      MailboxMove s (.timeout p) (s.setProducer p .timedOut)
  | answer (p : Producer)
      (hpc : s.producer p = .woken ∨ s.producer p = .timedOut) :
      MailboxMove s (.answer p) ((s.report p).setProducer p .idle)
  | leaveCalibr
      (hpc : s.producer .mqtt = .idle) :
      MailboxMove s .leaveCalibr { s with calibrMode := false }
  | paused
      (hloop : s.loop = .top)
      (hcalibr : s.calibrMode = true) :
      MailboxMove s .loopTop s
  | loopTop
      (hloop : s.loop = .top)
      (hcalibr : s.calibrMode = false) :
      MailboxMove s .loopTop { s with loop := .pending }
  | found (p : Producer)
      (hloop : s.loop = .pending)
      (hcmd : s.cmd = some p)
      (hrc : (s.curCmd p).rc = -1) :
      MailboxMove s .loopPending { s with loop := .write (p, s.request p) }
  | nothing
      (hloop : s.loop = .pending)
      (hnone : ∀ p, s.cmd = some p → (s.curCmd p).rc ≠ -1) :
      MailboxMove s .loopPending { s with loop := .read }
  | fetched (r : Request) (p : Producer)
      (hloop : s.loop = .write r)
      (hcmd : s.cmd = some p) :
      MailboxMove s .fetch
        { s with loop := .fetched r (if p = Producer.udp then some s.orders else none) }
  | written (r : Request) (order : Option Nat)
      (hloop : s.loop = .fetched r order) :
      MailboxMove s (.write true) { s with
        loop := .reply r
        deniedWritten := s.deniedWritten || decide (∃ n ∈ order, n ∈ s.denied) }
  | writeFailed (r : Request) (order : Option Nat)
      (hloop : s.loop = .fetched r order) :
      MailboxMove s (.write false) { s with loop := .post r (-1) false }
  | missing (r : Request) (p : Producer)
      (hloop : s.loop = .reply r)
      (hcmd : s.cmd = some p) :
      MailboxMove s (.reply .missing)
        { s.setRc p CmdReply.missing.rc with loop := .reply2 r }
  | reply (r : Request) (p : Producer) (out : CmdReply)
      (hloop : s.loop = .reply r)
      (hcmd : s.cmd = some p)
      (hout : out ≠ .missing) :
      MailboxMove s (.reply out) { s.setRc p out.rc with loop := .post r out.rc false }
  | reply2 (r : Request) (p : Producer) (out : CmdReply)
      (hloop : s.loop = .reply2 r)
      (hcmd : s.cmd = some p) :
      MailboxMove s (.reply2 out) { s.setRc p out.rc with loop := .post r out.rc false }
  | post (r : Request) (rc : Int) (inLines : Bool)
      (hloop : s.loop = .post r rc inLines) :
      MailboxMove s .post { s with
        sem := s.sem + 1
        completed := Function.update s.completed r.1 (some (r.2, rc))
        loop := .clear inLines }
  | clear (inLines : Bool)
      (hloop : s.loop = .clear inLines) :
      MailboxMove s .clear { s with cmd := none, loop := if inLines then .read else .top }
  | skipped (text : List UInt8) (packetLength : Nat)
      (hloop : s.loop = .read) :
      MailboxMove s (.line text packetLength) s
  | line (text : List UInt8) (packetLength : Nat) (p : Producer)
      (hloop : s.loop = .read)
      (hcmd : s.cmd = some p)
      (hline : text.length < packetLength ∧ (s.curCmd p).rc = -2) :
      MailboxMove s (.line text packetLength) { s with loop := .copy (p, s.request p) text }
  | linesDone
      (hloop : s.loop = .read) :
      MailboxMove s .linesDone { s with loop := .top }
  | copy (r : Request) (text : List UInt8) (p : Producer)
      (hloop : s.loop = .copy r text)
      (hcmd : s.cmd = some p) :
      MailboxMove s .copy
        { s.setBuf p (text ++ (s.curCmd p).cmdbuf.drop text.length) with loop := .ready r }
  | ready (r : Request) (p : Producer)
      (hloop : s.loop = .ready r)
      (hcmd : s.cmd = some p) :
      MailboxMove s .ready { s.setRc p 0 with loop := .post r 0 true }

/-- **The cases of a step.** -/
theorem mailboxStep_moves
    {s s' : MailboxState}
    {a : MailboxAct}
    (hstep : mailboxStep s a = some s') :
    MailboxMove s a s' := by
  cases a with
  | buffer p text =>
      simp only [mailboxStep, Option.ite_none_right_eq_some, Option.some.injEq] at hstep
      obtain ⟨hpc, rfl⟩ := hstep
      exact .buffer p text hpc
  | arm p =>
      simp only [mailboxStep, Option.ite_none_right_eq_some, Option.some.injEq] at hstep
      obtain ⟨hpc, rfl⟩ := hstep
      exact .arm p hpc
  | place p =>
      simp only [mailboxStep, Option.ite_none_right_eq_some, Option.some.injEq] at hstep
      obtain ⟨hpc, rfl⟩ := hstep
      exact .place p hpc
  | wake p =>
      simp only [mailboxStep, Option.ite_none_right_eq_some, Option.some.injEq] at hstep
      obtain ⟨⟨hpc, hsem⟩, rfl⟩ := hstep
      exact .wake p hpc hsem
  | timeout p =>
      simp only [mailboxStep, Option.ite_none_right_eq_some, Option.some.injEq] at hstep
      obtain ⟨⟨hpc, hsem⟩, rfl⟩ := hstep
      exact .timeout p hpc hsem
  | answer p =>
      simp only [mailboxStep, Option.ite_none_right_eq_some, Option.some.injEq] at hstep
      obtain ⟨hpc, rfl⟩ := hstep
      exact .answer p hpc
  | leaveCalibr =>
      simp only [mailboxStep, Option.ite_none_right_eq_some, Option.some.injEq] at hstep
      obtain ⟨hpc, rfl⟩ := hstep
      exact .leaveCalibr hpc
  | loopTop =>
      simp only [mailboxStep, Option.ite_none_right_eq_some] at hstep
      obtain ⟨hloop, hstep⟩ := hstep
      split at hstep
      · rename_i hcalibr
        obtain rfl := Option.some.inj hstep
        exact .paused hloop hcalibr
      · rename_i hcalibr
        obtain rfl := Option.some.inj hstep
        exact .loopTop hloop ((Bool.not_eq_true _).mp hcalibr)
  | loopPending =>
      simp only [mailboxStep, Option.ite_none_right_eq_some] at hstep
      obtain ⟨hloop, hstep⟩ := hstep
      split at hstep
      · rename_i hcmd
        obtain rfl := Option.some.inj hstep
        exact .nothing hloop (by simp [hcmd])
      · rename_i p hcmd
        split at hstep
        · rename_i hrc
          obtain rfl := Option.some.inj hstep
          exact .found p hloop hcmd hrc
        · rename_i hrc
          obtain rfl := Option.some.inj hstep
          refine .nothing hloop fun q hq => ?_
          obtain rfl := Option.some.inj (hcmd.symm.trans hq)
          exact hrc
  | fetch =>
      simp only [mailboxStep] at hstep
      split at hstep
      · rename_i r p hloop hcmd
        obtain rfl := Option.some.inj hstep
        exact .fetched r p hloop hcmd
      · cases hstep
  | write ok =>
      simp only [mailboxStep] at hstep
      split at hstep
      · rename_i r order hloop
        cases ok
        · obtain rfl := Option.some.inj hstep
          exact .writeFailed r order hloop
        · obtain rfl := Option.some.inj hstep
          exact .written r order hloop
      · cases hstep
  | reply out =>
      simp only [mailboxStep] at hstep
      split at hstep
      · rename_i r p hloop hcmd
        split at hstep
        · rename_i hout
          subst hout
          obtain rfl := Option.some.inj hstep
          exact .missing r p hloop hcmd
        · rename_i hout
          obtain rfl := Option.some.inj hstep
          exact .reply r p out hloop hcmd hout
      · cases hstep
  | reply2 out =>
      simp only [mailboxStep] at hstep
      split at hstep
      · rename_i r p hloop hcmd
        obtain rfl := Option.some.inj hstep
        exact .reply2 r p out hloop hcmd
      · cases hstep
  | post =>
      simp only [mailboxStep] at hstep
      split at hstep
      · rename_i r rc inLines hloop
        obtain rfl := Option.some.inj hstep
        exact .post r rc inLines hloop
      · cases hstep
  | clear =>
      simp only [mailboxStep] at hstep
      split at hstep
      · rename_i inLines hloop
        obtain rfl := Option.some.inj hstep
        exact .clear inLines hloop
      · cases hstep
  | line text packetLength =>
      simp only [mailboxStep, Option.ite_none_right_eq_some] at hstep
      obtain ⟨hloop, hstep⟩ := hstep
      split at hstep
      · obtain rfl := Option.some.inj hstep
        exact .skipped text packetLength hloop
      · rename_i p hcmd
        split at hstep
        · rename_i hline
          obtain rfl := Option.some.inj hstep
          exact .line text packetLength p hloop hcmd hline
        · obtain rfl := Option.some.inj hstep
          exact .skipped text packetLength hloop
  | linesDone =>
      simp only [mailboxStep, Option.ite_none_right_eq_some, Option.some.injEq] at hstep
      obtain ⟨hloop, rfl⟩ := hstep
      exact .linesDone hloop
  | copy =>
      simp only [mailboxStep] at hstep
      split at hstep
      · rename_i r text p hloop hcmd
        obtain rfl := Option.some.inj hstep
        exact .copy r text p hloop hcmd
      · cases hstep
  | ready =>
      simp only [mailboxStep] at hstep
      split at hstep
      · rename_i r p hloop hcmd
        obtain rfl := Option.some.inj hstep
        exact .ready r p hloop hcmd
      · cases hstep

/-! ### What the mailbox promises -/

/-- The loop has finished the latest request of a producer. -/
def MailboxState.Completed (s : MailboxState) (p : Producer) : Prop :=
  ∃ rc, s.completed p = some (s.request p, rc)

/-- A woken producer reads the outcome of its own request; `s->cmd` never holds the
other producer's record in place of a request that is waited for and not finished;
without a waiting producer the semaphore is 0. -/
structure MailboxState.Safe (s : MailboxState) : Prop where
  woken_own : ∀ p, s.producer p = .woken → s.completed p = some (s.request p, (s.curCmd p).rc)
  pending_kept : ∀ p q, s.producer p = .waiting → ¬ s.Completed p → s.cmd = some q → q = p
  idle_sem : (∀ p, s.producer p ≠ .waiting) → s.sem = 0

/-- The request that the loop is at work on, before the post. -/
def LoopPc.serving : LoopPc → Option Request
  | .write r => some r
  | .fetched r _ => some r
  | .reply r => some r
  | .reply2 r => some r
  | .post r _ _ => some r
  | .copy r _ => some r
  | .ready r => some r
  | _ => none

/-- The request whose command has not been written yet. -/
def LoopPc.writing : LoopPc → Option Request
  | .write r => some r
  | .fetched r _ => some r
  | _ => none

def Producer.other : Producer → Producer
  | .udp => .mqtt
  | .mqtt => .udp

/-- The condition on a step: a command is handed over only while the other producer
does not wait, and the semaphore is posted only for a request that is still waited
for. -/
def Orderly (s : MailboxState) : MailboxAct → Prop
  | .place p => s.producer p.other ≠ .waiting
  | .post => ∀ r ∈ s.loop.serving, s.producer r.1 = .waiting ∧ s.request r.1 = r.2
  | _ => True

instance (s : MailboxState) : (a : MailboxAct) → Decidable (Orderly s a)
  | .place p => inferInstanceAs (Decidable (s.producer p.other ≠ .waiting))
  | .post => inferInstanceAs
      (Decidable (∀ r ∈ s.loop.serving, s.producer r.1 = .waiting ∧ s.request r.1 = r.2))
  | .buffer .. | .arm _ | .wake _ | .timeout _ | .answer _ | .leaveCalibr => isTrue trivial
  | .loopTop | .loopPending | .fetch | .write _ | .reply _ | .reply2 _ => isTrue trivial
  | .clear | .line .. | .linesDone | .copy | .ready => isTrue trivial

structure MailboxState.Inv (s : MailboxState) : Prop where
  one_waiter : ∀ p q, s.producer p = .waiting → s.producer q = .waiting → p = q
  sem_cases : s.sem = 0 ∨ (s.sem = 1 ∧ ∃ p, s.producer p = .waiting ∧ s.Completed p)
  settled : ∀ p rc, s.producer p = .waiting ∨ s.producer p = .woken →
    s.completed p = some (s.request p, rc) →
    (s.curCmd p).rc = rc ∧ ((∃ inLines, s.loop = .clear inLines) ∨ s.cmd ≠ some p)
  woken_completed : ∀ p, s.producer p = .woken → s.Completed p
  waiter_cmd : ∀ p q, s.producer p = .waiting → s.cmd = some q → q = p
  past : ∀ p n rc, s.completed p = some (n, rc) → n ≤ s.request p
  serving_past : ∀ p n, s.loop.serving = some (p, n) → n ≤ s.request p
  serving : ∀ p, s.loop.serving = some (p, s.request p) → s.producer p = .waiting →
    s.cmd = some p ∧ ¬ s.Completed p
  serving_write : ∀ p, s.loop.writing = some (p, s.request p) → s.producer p = .waiting →
    (s.curCmd p).rc = -1
  serving_post : ∀ p rc inLines, s.loop = .post (p, s.request p) rc inLines →
    s.producer p = .waiting → (s.curCmd p).rc = rc

theorem LoopPc.serving_of_writing
    {pc : LoopPc}
    {r : Request}
    (h : pc.writing = some r) :
    pc.serving = some r := by
  cases pc with
  | write r' => exact h
  | fetched r' order => exact h
  | _ => cases h

theorem MailboxState.Inv.safe
    {s : MailboxState}
    (h : s.Inv) :
    s.Safe := by
  refine ⟨?_, ?_, ?_⟩
  · intro p hp
    obtain ⟨rc, hrc⟩ := h.woken_completed p hp
    obtain ⟨hcur, -⟩ := h.settled p rc (Or.inr hp) hrc
    rw [hrc, hcur]
  · intro p q hp _ hq
    exact h.waiter_cmd p q hp hq
  · intro hidle
    rcases h.sem_cases with hsem | ⟨-, p, hp, -⟩
    · exact hsem
    · exact (hidle p hp).elim

theorem MailboxState.inv_initial :
    MailboxState.initial.Inv := by
  constructor <;> simp [MailboxState.initial, LoopPc.serving, LoopPc.writing]

/-! ### What the steps keep -/

/-- Steps of a producer outside its wait, and the end of a wait while the semaphore
is 0. -/
theorem MailboxState.Inv.producer_frame
    {s s' : MailboxState}
    (h : s.Inv)
    (hsem : s'.sem = s.sem)
    (hcmd : s'.cmd = s.cmd)
    (hloop : s'.loop = s.loop)
    (hrequest : s'.request = s.request)
    (hcompleted : s'.completed = s.completed)
    (hproducer : ∀ p,
      (s'.producer p = s.producer p ∧ (s'.curCmd p).rc = (s.curCmd p).rc) ∨
      (s'.producer p ≠ .waiting ∧ s'.producer p ≠ .woken ∧
        (s.producer p = .waiting → s.sem = 0))) :
    s'.Inv := by
  have hwaiting : ∀ p, s'.producer p = .waiting →
      s.producer p = .waiting ∧ (s'.curCmd p).rc = (s.curCmd p).rc := by
    intro p hp
    rcases hproducer p with ⟨hsame, hrc⟩ | ⟨hne, -⟩
    · exact ⟨hsame ▸ hp, hrc⟩
    · exact (hne hp).elim
  have hwoken : ∀ p, s'.producer p = .woken →
      s.producer p = .woken ∧ (s'.curCmd p).rc = (s.curCmd p).rc := by
    intro p hp
    rcases hproducer p with ⟨hsame, hrc⟩ | ⟨-, hne, -⟩
    · exact ⟨hsame ▸ hp, hrc⟩
    · exact (hne hp).elim
  constructor
  case one_waiter =>
    intro p q hp hq
    exact h.one_waiter p q (hwaiting p hp).1 (hwaiting q hq).1
  case sem_cases =>
    rw [hsem]
    rcases h.sem_cases with hzero | ⟨hone, p, hp, hdone⟩
    · exact Or.inl hzero
    · rcases hproducer p with ⟨hsame, -⟩ | ⟨-, -, hzero⟩
      · exact Or.inr ⟨hone, p, hsame.trans hp, by rwa [Completed, hcompleted, hrequest]⟩
      · exact Or.inl (hzero hp)
  case settled =>
    intro p rc hp hdone
    rw [hcompleted, hrequest] at hdone
    rw [hloop, hcmd]
    rcases hp with hp | hp
    · rw [(hwaiting p hp).2]
      exact h.settled p rc (Or.inl (hwaiting p hp).1) hdone
    · rw [(hwoken p hp).2]
      exact h.settled p rc (Or.inr (hwoken p hp).1) hdone
  case woken_completed =>
    intro p hp
    rw [Completed, hcompleted, hrequest]
    exact h.woken_completed p (hwoken p hp).1
  case waiter_cmd =>
    intro p q hp hq
    exact h.waiter_cmd p q (hwaiting p hp).1 (hcmd ▸ hq)
  case past =>
    intro p n rc hn
    rw [hrequest]
    exact h.past p n rc (hcompleted ▸ hn)
  case serving_past =>
    intro p n hn
    rw [hrequest]
    exact h.serving_past p n (hloop ▸ hn)
  case serving =>
    intro p hserving hp
    rw [hloop, hrequest] at hserving
    rw [Completed, hcompleted, hrequest, hcmd]
    exact h.serving p hserving (hwaiting p hp).1
  case serving_write =>
    intro p hwrite hp
    rw [hloop, hrequest] at hwrite
    rw [(hwaiting p hp).2]
    exact h.serving_write p hwrite (hwaiting p hp).1
  case serving_post =>
    intro p rc inLines hpost hp
    rw [hloop, hrequest] at hpost
    rw [(hwaiting p hp).2]
    exact h.serving_post p rc inLines hpost (hwaiting p hp).1

/-- Steps of the loop other than the post and the clearing of `s->cmd`: only the
record that `s->cmd` points to may change. -/
theorem MailboxState.Inv.loop_frame
    {s s' : MailboxState}
    (h : s.Inv)
    (hclear : ∀ inLines, s.loop ≠ .clear inLines)
    (hsem : s'.sem = s.sem)
    (hcmd : s'.cmd = s.cmd)
    (hproducer : s'.producer = s.producer)
    (hrequest : s'.request = s.request)
    (hcompleted : s'.completed = s.completed)
    (hrc : ∀ p, s.cmd ≠ some p → (s'.curCmd p).rc = (s.curCmd p).rc)
    (hserving : ∀ p n, s'.loop.serving = some (p, n) →
      s.loop.serving = some (p, n) ∨ (s.cmd = some p ∧ n = s.request p))
    (hwrite : ∀ p, s'.loop.writing = some (p, s.request p) → s.producer p = .waiting →
      s.cmd = some p → (s'.curCmd p).rc = -1)
    (hpost : ∀ p rc inLines, s'.loop = .post (p, s.request p) rc inLines →
      s.producer p = .waiting → s.cmd = some p → (s'.curCmd p).rc = rc) :
    s'.Inv := by
  have hopen : ∀ p rc, s.producer p = .waiting ∨ s.producer p = .woken →
      s.completed p = some (s.request p, rc) → (s.curCmd p).rc = rc ∧ s.cmd ≠ some p := by
    intro p rc hp hdone
    obtain ⟨hcur, ⟨inLines, hloop⟩ | hne⟩ := h.settled p rc hp hdone
    · exact (hclear inLines hloop).elim
    · exact ⟨hcur, hne⟩
  have hcurrent : ∀ p, s'.loop.serving = some (p, s.request p) → s.producer p = .waiting →
      s.cmd = some p ∧ ¬ s.Completed p := by
    intro p hp hwaiting
    rcases hserving p _ hp with hold | ⟨hnew, -⟩
    · exact h.serving p hold hwaiting
    · refine ⟨hnew, ?_⟩
      rintro ⟨rc, hdone⟩
      exact (hopen p rc (Or.inl hwaiting) hdone).2 hnew
  constructor
  case one_waiter => rw [hproducer]; exact h.one_waiter
  case sem_cases =>
    simp only [Completed, hsem, hproducer, hcompleted, hrequest]
    exact h.sem_cases
  case settled =>
    intro p rc hp hdone
    rw [hproducer] at hp
    rw [hcompleted, hrequest] at hdone
    obtain ⟨hcur, hne⟩ := hopen p rc hp hdone
    rw [hcmd, hrc p hne]
    exact ⟨hcur, Or.inr hne⟩
  case woken_completed =>
    intro p hp
    rw [Completed, hcompleted, hrequest]
    exact h.woken_completed p (hproducer ▸ hp)
  case waiter_cmd =>
    intro p q hp hq
    exact h.waiter_cmd p q (hproducer ▸ hp) (hcmd ▸ hq)
  case past =>
    intro p n rc hn
    rw [hrequest]
    exact h.past p n rc (hcompleted ▸ hn)
  case serving_past =>
    intro p n hn
    rw [hrequest]
    rcases hserving p n hn with hold | ⟨-, rfl⟩
    · exact h.serving_past p n hold
    · exact Nat.le_refl _
  case serving =>
    intro p hp hwaiting
    rw [hrequest] at hp
    rw [Completed, hcompleted, hrequest, hcmd]
    exact hcurrent p hp (hproducer ▸ hwaiting)
  case serving_write =>
    intro p hp hwaiting
    rw [hrequest] at hp
    rw [hproducer] at hwaiting
    exact hwrite p hp hwaiting (hcurrent p (LoopPc.serving_of_writing hp) hwaiting).1
  case serving_post =>
    intro p rc inLines hp hwaiting
    rw [hrequest] at hp
    rw [hproducer] at hwaiting
    exact hpost p rc inLines hp hwaiting (hcurrent p (by rw [hp]; rfl) hwaiting).1

/-- A producer that was not waiting, or whose wait ends with the semaphore at 0, moves
on to a place outside its wait. -/
theorem MailboxState.Inv.moved
    {s t : MailboxState}
    {p : Producer}
    {pc : ProducerPc}
    (h : s.Inv)
    (hpc : pc ≠ .waiting ∧ pc ≠ .woken)
    (hwas : s.producer p = .waiting → s.sem = 0)
    (hsem : t.sem = s.sem)
    (hcmd : t.cmd = s.cmd)
    (hloop : t.loop = s.loop)
    (hrequest : t.request = s.request)
    (hcompleted : t.completed = s.completed)
    (hproducer : t.producer = s.producer)
    (hrc : ∀ q, q ≠ p → (t.curCmd q).rc = (s.curCmd q).rc) :
    (t.setProducer p pc).Inv := by
  refine h.producer_frame hsem hcmd hloop hrequest hcompleted ?_
  intro q
  by_cases hq : q = p
  · subst hq
    exact Or.inr ⟨by simpa using hpc.1, by simpa using hpc.2, hwas⟩
  · exact Or.inl ⟨by rw [MailboxState.setProducer_of_ne _ _ _ _ hq, hproducer], hrc q hq⟩

/-- A command is handed over: its producer is now the only one that waits. -/
theorem MailboxState.Inv.place
    {s : MailboxState}
    {p : Producer}
    (h : s.Inv)
    (hother : s.producer p.other ≠ .waiting)
    (harmed : s.producer p = .armed) :
    ({ s with
      cmd := some p
      request := Function.update s.request p (s.request p + 1) }.setProducer p .waiting).Inv := by
  have hnone : ∀ q, s.producer q ≠ .waiting := by
    intro q
    cases p <;> cases q <;> simp_all [Producer.other]
  have hsem : s.sem = 0 := by
    rcases h.sem_cases with hzero | ⟨-, q, hq, -⟩
    · exact hzero
    · exact (hnone q hq).elim
  -- the new number has not been completed and is not being served
  have hfresh : ∀ rc, s.completed p ≠ some (s.request p + 1, rc) := by
    intro rc hdone
    have := h.past p _ rc hdone
    omega
  have hunserved : s.loop.serving ≠ some (p, s.request p + 1) := by
    intro hserving
    have := h.serving_past p _ hserving
    omega
  constructor <;> simp only [MailboxState.setProducer, MailboxState.Completed]
  case one_waiter => grind [Function.update_apply]
  case sem_cases => exact Or.inl hsem
  case settled =>
    have hsettled := h.settled
    grind [Function.update_apply]
  case woken_completed =>
    intro q hq
    have hwoken := h.woken_completed q
    grind [Function.update_apply, MailboxState.Completed]
  case waiter_cmd => grind [Function.update_apply]
  case past =>
    intro q n rc hn
    have hpast := h.past q n
    grind [Function.update_apply]
  case serving_past =>
    intro q n hn
    have hpast := h.serving_past q n hn
    grind [Function.update_apply]
  case serving => grind [Function.update_apply]
  case serving_write =>
    have hserving : ∀ r, s.loop.writing = some r → s.loop.serving = some r :=
      fun _ => LoopPc.serving_of_writing
    grind [Function.update_apply]
  case serving_post => grind [Function.update_apply, LoopPc.serving]

/-- The producer that is woken is the one whose request has been finished. -/
theorem MailboxState.Inv.wake
    {s : MailboxState}
    {p : Producer}
    (h : s.Inv)
    (hwaiting : s.producer p = .waiting)
    (hsem : 0 < s.sem) :
    ({ s with sem := s.sem - 1 }.setProducer p .woken).Inv := by
  have hdone : s.sem = 1 ∧ s.Completed p := by
    rcases h.sem_cases with hzero | ⟨hone, q, hq, hdone⟩
    · omega
    · exact ⟨hone, h.one_waiter q p hq hwaiting ▸ hdone⟩
  constructor <;> simp only [MailboxState.setProducer, MailboxState.Completed]
  case one_waiter =>
    have hone := h.one_waiter
    grind [Function.update_apply]
  case sem_cases => omega
  case settled =>
    have hsettled := h.settled
    grind [Function.update_apply]
  case woken_completed =>
    intro q hq
    have hwoken := h.woken_completed q
    grind [Function.update_apply, MailboxState.Completed]
  case waiter_cmd =>
    have hcmd := h.waiter_cmd
    grind [Function.update_apply]
  case past => exact h.past
  case serving_past => exact h.serving_past
  case serving =>
    intro q hq
    have hserving := h.serving q hq
    grind [Function.update_apply, MailboxState.Completed]
  case serving_write =>
    have hwrite := h.serving_write
    grind [Function.update_apply]
  case serving_post =>
    have hpost := h.serving_post
    grind [Function.update_apply]

/-- The post finishes a request that is still waited for. -/
theorem MailboxState.Inv.post
    {s : MailboxState}
    {p : Producer}
    {rc : Int}
    {inLines : Bool}
    (h : s.Inv)
    (hloop : s.loop = .post (p, s.request p) rc inLines)
    (hwaiting : s.producer p = .waiting) :
    ({ s with
      sem := s.sem + 1
      completed := Function.update s.completed p (some (s.request p, rc))
      loop := .clear inLines } : MailboxState).Inv := by
  obtain ⟨hcmd, hopen⟩ := h.serving p (by rw [hloop]; rfl) hwaiting
  have hrc := h.serving_post p rc inLines hloop hwaiting
  have hsem : s.sem = 0 := by
    rcases h.sem_cases with hzero | ⟨-, q, hq, hdone⟩
    · exact hzero
    · exact (hopen (h.one_waiter q p hq hwaiting ▸ hdone)).elim
  constructor <;> simp only [MailboxState.Completed, LoopPc.serving]
  case one_waiter => exact h.one_waiter
  case sem_cases => exact Or.inr ⟨by omega, p, hwaiting, rc, by simp⟩
  case settled =>
    have hsettled := h.settled
    grind [Function.update_apply]
  case woken_completed =>
    intro q hq
    have hwoken := h.woken_completed q
    grind [Function.update_apply, MailboxState.Completed]
  case waiter_cmd => exact h.waiter_cmd
  case past =>
    intro q n rc hn
    have hpast := h.past q n
    grind [Function.update_apply]
  all_goals simp [LoopPc.writing]

/-- Clearing `s->cmd` settles nothing that is still open. -/
theorem MailboxState.Inv.clear
    {s : MailboxState}
    (h : s.Inv)
    (next : LoopPc)
    (hnext : next.serving = none)
    (hpost : ∀ r rc inLines, next ≠ .post r rc inLines) :
    ({ s with cmd := none, loop := next } : MailboxState).Inv := by
  constructor <;> simp only [MailboxState.Completed]
  case one_waiter => exact h.one_waiter
  case sem_cases => exact h.sem_cases
  case settled =>
    intro q rc hq hdone
    exact ⟨(h.settled q rc hq hdone).1, Or.inr (by simp)⟩
  case woken_completed => exact h.woken_completed
  case waiter_cmd => simp
  case past => exact h.past
  case serving_past => simp [hnext]
  case serving => simp [hnext]
  case serving_write =>
    intro q hq
    cases hnext.symm.trans (LoopPc.serving_of_writing hq)
  case serving_post => simp [hpost]

/-- The loop stores an outcome through `s->cmd` and goes on with the same request. -/
theorem MailboxState.Inv.outcome
    {s : MailboxState}
    {p : Producer}
    {r : Request}
    {rc : Int}
    {next : LoopPc}
    (h : s.Inv)
    (hcmd : s.cmd = some p)
    (hserving : s.loop.serving = some r)
    (hnext : next.serving = some r)
    (hwrite : next.writing = none)
    (hpost : ∀ r' rc' inLines, next = .post r' rc' inLines → rc' = rc) :
    ({ s.setRc p rc with loop := next } : MailboxState).Inv := by
  refine h.loop_frame ?_ rfl rfl rfl rfl rfl ?_ ?_ ?_ ?_
  · intro inLines hclear
    simp [hclear, LoopPc.serving] at hserving
  · intro q hq
    have hne : q ≠ p := by
      rintro rfl
      exact hq hcmd
    exact congrArg CmdPending.rc (s.setRc_of_ne p q rc hne)
  · intro q n hq
    exact Or.inl (hserving.trans (hnext.symm.trans hq))
  · intro q hq
    cases hwrite.symm.trans hq
  · intro q rc' inLines hq _ hq'
    obtain rfl := Option.some.inj (hcmd.symm.trans hq')
    rw [hpost _ _ _ hq]
    exact s.setRc_self p rc

/-- The loop goes to a place where it serves no request. -/
theorem MailboxState.Inv.loop_leads
    {s : MailboxState}
    {next : LoopPc}
    (h : s.Inv)
    (hclear : ∀ inLines, s.loop ≠ .clear inLines)
    (hnext : next.serving = none) :
    ({ s with loop := next } : MailboxState).Inv := by
  refine h.loop_frame hclear rfl rfl rfl rfl rfl (fun _ _ => rfl) ?_ ?_ ?_
  · intro p n hserving
    cases hserving.symm.trans hnext
  · intro p hp
    cases hnext.symm.trans (LoopPc.serving_of_writing hp)
  · rintro p rc inLines rfl
    cases hnext

theorem MailboxState.Inv.step
    {s s' : MailboxState}
    {a : MailboxAct}
    (h : s.Inv)
    (hord : Orderly s a)
    (hstep : mailboxStep s a = some s') :
    s'.Inv := by
  cases mailboxStep_moves hstep with
  | buffer p text hpc =>
      refine h.moved (by simp) (by simp [hpc]) rfl rfl rfl rfl rfl rfl ?_
      intro q _
      exact MailboxState.setBuf_rc _ p q text
  | arm p hpc =>
      refine h.moved (by simp) (by simp [hpc]) rfl rfl rfl rfl rfl rfl ?_
      intro q hq
      rw [MailboxState.setRc_of_ne _ _ _ _ hq]
  | place p hpc => exact h.place hord hpc
  | wake p hpc hsem => exact h.wake hpc hsem
  | timeout p hpc hsem =>
      exact h.moved (by simp) (fun _ => hsem) rfl rfl rfl rfl rfl rfl fun _ _ => rfl
  | answer p hpc =>
      have hwas : s.producer p ≠ .waiting := by
        rcases hpc with hpc | hpc <;> simp [hpc]
      cases p with
      | udp =>
          rw [MailboxState.report]
          split_ifs
          all_goals
            exact h.moved (by simp) (fun hp => (hwas hp).elim) rfl rfl rfl rfl rfl rfl fun _ _ => rfl
      | mqtt =>
          exact h.moved (by simp) (fun hp => (hwas hp).elim) rfl rfl rfl rfl rfl rfl fun _ _ => rfl
  | leaveCalibr _ =>
      exact h.producer_frame rfl rfl rfl rfl rfl fun _ => Or.inl ⟨rfl, rfl⟩
  | paused _ _ => exact h
  | loopTop hloop _ => exact h.loop_leads (by simp [hloop]) rfl
  | found p hloop hcmd hrc =>
      refine h.loop_frame (by simp [hloop]) rfl rfl rfl rfl rfl (fun _ _ => rfl) ?_ ?_ ?_
      all_goals grind [LoopPc.serving]
  | nothing hloop _ => exact h.loop_leads (by simp [hloop]) rfl
  | fetched r p hloop _ =>
      have hwrite := h.serving_write
      refine h.loop_frame (by simp [hloop]) rfl rfl rfl rfl rfl (fun _ _ => rfl) ?_ ?_ ?_
      all_goals grind [LoopPc.serving, LoopPc.writing]
  | written r order hloop =>
      refine h.loop_frame (by simp [hloop]) rfl rfl rfl rfl rfl (fun _ _ => rfl) ?_ ?_ ?_
      · intro q n hq
        exact Or.inl (by rw [hloop]; exact hq)
      all_goals simp [LoopPc.writing]
  | writeFailed r order hloop =>
      have hwrite := h.serving_write
      refine h.loop_frame (by simp [hloop]) rfl rfl rfl rfl rfl (fun _ _ => rfl) ?_ ?_ ?_
      all_goals grind [LoopPc.serving, LoopPc.writing]
  | missing r p hloop hcmd =>
      exact h.outcome hcmd (by rw [hloop]; rfl) rfl rfl (by simp)
  | reply r p out hloop hcmd _ =>
      exact h.outcome hcmd (by rw [hloop]; rfl) rfl rfl (by simp)
  | reply2 r p out hloop hcmd =>
      exact h.outcome hcmd (by rw [hloop]; rfl) rfl rfl (by simp)
  | post r rc inLines hloop =>
      obtain ⟨p, n⟩ := r
      obtain ⟨hwaiting, hn⟩ := hord (p, n) (by rw [hloop]; rfl)
      obtain rfl : s.request p = n := hn
      exact h.post hloop hwaiting
  | clear inLines _ =>
      cases inLines
      all_goals exact h.clear _ rfl (by simp)
  | skipped _ _ _ => exact h
  | line text packetLength p hloop hcmd _ =>
      refine h.loop_frame (by simp [hloop]) rfl rfl rfl rfl rfl (fun _ _ => rfl) ?_ ?_ ?_
      all_goals grind [LoopPc.serving, LoopPc.writing]
  | linesDone hloop => exact h.loop_leads (by simp [hloop]) rfl
  | copy r text p hloop _ =>
      refine h.loop_frame (by simp [hloop]) rfl rfl rfl rfl rfl ?_ ?_ ?_ ?_
      · intro q _
        exact s.setBuf_rc p q _
      · intro q n hq
        exact Or.inl (by rw [hloop]; exact hq)
      all_goals simp [LoopPc.writing]
  | ready r p hloop hcmd =>
      exact h.outcome hcmd (by rw [hloop]; rfl) rfl rfl (by simp)

/-- **The mailbox under orderly steps.**  In every run whose commands are handed over
while the other producer does not wait, and whose posts are for requests that are
still waited for, every state keeps the promises. -/
theorem safe_of_orderly
    {s : MailboxState}
    (hs : ReachedUnder mailboxStep Orderly .initial s) :
    s.Safe :=
  (hs.invariant MailboxState.inv_initial fun _ _ _ h hord hstep => h.step hord hstep).safe

/-- One request of the UDP thread, carried out and waited for. -/
def exchange : List MailboxAct :=
  [.buffer .udp [0x53, 0x5a, 0x0d], .arm .udp, .place .udp, .loopTop, .loopPending, .fetch, .write true,
    .reply .ok, .post, .wake .udp]

theorem safe_of_orderly_exchange :
    ∃ s, runSteps (guarded mailboxStep Orderly) .initial exchange = some s ∧
      s.producer .udp = .woken ∧ s.Safe := by
  have hrun : ∃ s, runSteps (guarded mailboxStep Orderly) .initial exchange = some s ∧
      s.producer .udp = .woken := ⟨_, rfl, rfl⟩
  obtain ⟨s, hs, hwoken⟩ := hrun
  exact ⟨s, hs, hwoken, safe_of_orderly (.of_runSteps exchange .start hs)⟩

/-- A request that times out and is carried out late leaves a post behind: the next
request is woken before the loop has seen it, and reads -1. -/
theorem late_post_wakes_next_request :
    ∃ s, runSteps mailboxStep .initial
        [.buffer .udp [0x53, 0x5a, 0x0d], .arm .udp, .place .udp, .timeout .udp, .answer .udp,
          .loopTop, .loopPending, .fetch, .write true, .reply .ok, .post, .clear,
          .buffer .udp [0x53, 0x54, 0x0d], .arm .udp, .place .udp, .wake .udp] = some s ∧
      s.producer .udp = .woken ∧ s.request .udp = 2 ∧ s.completed .udp = some (1, 0) ∧
      (s.curCmd .udp).rc = -1 ∧ ¬ s.Safe := by
  refine ⟨_, rfl, rfl, rfl, rfl, rfl, ?_⟩
  intro hsafe
  have hown := hsafe.woken_own .udp rfl
  revert hown
  decide

/-! ### Commands that have been answered 01 -/

/-- The loop may still come to fetch the text of the record in `s->cmd`. -/
def LoopPc.beforeFetch : LoopPc → Bool
  | .top => true
  | .pending => true
  | .read => true
  | .write _ => true
  | _ => false

/-- The order whose text `write` has been given. -/
def LoopPc.order : LoopPc → Option Nat
  | .fetched _ order => order
  | _ => none

/-- The condition on a step: when `runcommand` answers 01, its record is not in `s->cmd`
before the loop fetches the text, and `write` has not been given the text of this order. -/
def AnsweredPastWrite (s : MailboxState) : MailboxAct → Prop
  | .answer .udp => (s.curCmd .udp).rc ≠ 0 → (s.curCmd .udp).rc ≠ 1 →
      (s.cmd = some .udp → s.loop.beforeFetch = false) ∧ s.loop.order ≠ some s.orders
  | _ => True

/-- A denied order is neither under way, nor before the loop fetches its text, nor about to
be written. -/
structure MailboxState.DeniedInv (s : MailboxState) : Prop where
  past : ∀ n ∈ s.denied, n ≤ s.orders
  denied_idle : s.orders ∈ s.denied → s.producer .udp = .idle
  denied_past : s.orders ∈ s.denied → s.cmd = some .udp → s.loop.beforeFetch = false
  order_open : ∀ n, s.loop.order = some n → n ∉ s.denied
  not_written : s.deniedWritten = false

/-- Steps that deny nothing and put no denied record before the fetch. -/
theorem MailboxState.DeniedInv.frame
    {s s' : MailboxState}
    (h : s.DeniedInv)
    (hwritten : s'.deniedWritten = s.deniedWritten)
    (hdenied : s'.denied = s.denied)
    (horders : s'.orders = s.orders)
    (hproducer : s.orders ∈ s.denied → s'.producer .udp = s.producer .udp)
    (hcmd : s.orders ∈ s.denied → s'.cmd = some .udp → s'.loop.beforeFetch = true →
      s.cmd = some .udp ∧ s.loop.beforeFetch = true)
    (horder : ∀ n, s'.loop.order = some n → n ∉ s.denied) :
    s'.DeniedInv := by
  refine ⟨?_, ?_, ?_, ?_, hwritten.trans h.not_written⟩
  · rw [hdenied, horders]
    exact h.past
  · rw [hdenied, horders]
    intro hd
    exact (hproducer hd).trans (h.denied_idle hd)
  · rw [hdenied, horders]
    intro hd hudp
    by_contra hloop
    obtain ⟨hcmd', hloop'⟩ := hcmd hd hudp (by simpa using hloop)
    rw [h.denied_past hd hcmd'] at hloop'
    exact Bool.false_ne_true hloop'
  · rw [hdenied]
    exact horder

/-- A producer under way has not been denied. -/
theorem MailboxState.DeniedInv.moved
    {s t : MailboxState}
    {p : Producer}
    {pc : ProducerPc}
    (h : s.DeniedInv)
    (hbusy : s.producer p ≠ .idle)
    (hwritten : t.deniedWritten = s.deniedWritten)
    (hdenied : t.denied = s.denied)
    (horders : t.orders = s.orders)
    (hproducer : t.producer = s.producer)
    (hloop : t.loop = s.loop)
    (hcmd : p = .mqtt → t.cmd = some .udp → s.cmd = some .udp) :
    (t.setProducer p pc).DeniedInv := by
  have hmqtt : s.orders ∈ s.denied → p = .mqtt := by
    intro hd
    cases p with
    | udp => exact (hbusy (h.denied_idle hd)).elim
    | mqtt => rfl
  refine h.frame hwritten hdenied horders ?_ ?_ ?_
  · intro hd
    obtain rfl := hmqtt hd
    rw [MailboxState.setProducer_of_ne _ _ _ _ (by decide), hproducer]
  · intro hd hudp hbefore
    exact ⟨hcmd (hmqtt hd) hudp, hloop ▸ hbefore⟩
  · intro n hn
    exact h.order_open n (hloop ▸ hn)

/-- Steps of the loop: none leads back before the fetch, nor takes a text. -/
theorem MailboxState.DeniedInv.loop_frame
    {s s' : MailboxState}
    (h : s.DeniedInv)
    (hwritten : s'.deniedWritten = s.deniedWritten)
    (hdenied : s'.denied = s.denied)
    (horders : s'.orders = s.orders)
    (hproducer : s'.producer = s.producer)
    (hcmd : s'.cmd = s.cmd)
    (hloop : s'.loop.beforeFetch = true → s.loop.beforeFetch = true)
    (horder : s'.loop.order = none) :
    s'.DeniedInv := by
  refine h.frame hwritten hdenied horders (fun _ => congrFun hproducer _) ?_ ?_
  · intro _ hudp hbefore
    exact ⟨hcmd.symm.trans hudp, hloop hbefore⟩
  · intro n hn
    cases horder.symm.trans hn

/-- The UDP thread begins an order: it has a number that was not denied. -/
theorem MailboxState.DeniedInv.order
    {s : MailboxState}
    (h : s.DeniedInv)
    (text : List UInt8) :
    (({ s with orders := s.orders + 1 }.setBuf .udp text).setProducer .udp .buffered).DeniedInv := by
  have hnew : s.orders + 1 ∉ s.denied := fun hmem => by
    have := h.past _ hmem
    omega
  refine ⟨?_, fun hd => (hnew hd).elim, fun hd => (hnew hd).elim, h.order_open, h.not_written⟩
  intro n hn
  exact Nat.le_succ_of_le (h.past n hn)

/-- The answer 01 denies the last order. -/
theorem MailboxState.DeniedInv.answer
    {s : MailboxState}
    (h : s.DeniedInv)
    (hpast : AnsweredPastWrite s (.answer .udp)) :
    ((s.report .udp).setProducer .udp .idle).DeniedInv := by
  rw [MailboxState.report]
  split_ifs with hrc
  · obtain ⟨hcmd, horder⟩ := hpast hrc.1 hrc.2
    refine ⟨?_, fun _ => MailboxState.setProducer_self _ _ _, fun _ => hcmd, ?_, h.not_written⟩
    · intro n hn
      rcases List.mem_cons.mp hn with rfl | hn
      · exact Nat.le_refl _
      · exact h.past n hn
    · intro n hn hmem
      rcases List.mem_cons.mp hmem with rfl | hmem
      · exact horder hn
      · exact h.order_open n hn hmem
  · exact ⟨h.past, fun _ => MailboxState.setProducer_self _ _ _, h.denied_past, h.order_open,
      h.not_written⟩

theorem MailboxState.DeniedInv.step
    {s s' : MailboxState}
    {a : MailboxAct}
    (h : s.DeniedInv)
    (hpast : AnsweredPastWrite s a)
    (hstep : mailboxStep s a = some s') :
    s'.DeniedInv := by
  cases mailboxStep_moves hstep with
  | buffer p text _ =>
      cases p with
      | udp => exact h.order text
      | mqtt =>
          exact h.frame rfl rfl rfl (fun _ => rfl) (fun _ hcmd hloop => ⟨hcmd, hloop⟩) h.order_open
  | arm p hpc => exact h.moved (by simp [hpc]) rfl rfl rfl rfl rfl fun _ hcmd => hcmd
  | place p hpc => exact h.moved (by simp [hpc]) rfl rfl rfl rfl rfl (by simp +contextual)
  | wake p hpc _ => exact h.moved (by simp [hpc]) rfl rfl rfl rfl rfl fun _ hcmd => hcmd
  | timeout p hpc _ => exact h.moved (by simp [hpc]) rfl rfl rfl rfl rfl fun _ hcmd => hcmd
  | answer p hpc =>
      cases p with
      | udp => exact h.answer hpast
      | mqtt =>
          have hbusy : s.producer .mqtt ≠ .idle := by
            rcases hpc with hpc | hpc <;> simp [hpc]
          exact h.moved hbusy rfl rfl rfl rfl rfl fun _ hcmd => hcmd
  | leaveCalibr _ =>
      exact h.frame rfl rfl rfl (fun _ => rfl) (fun _ hcmd hloop => ⟨hcmd, hloop⟩) h.order_open
  | paused _ _ => exact h
  | loopTop hloop _ => exact h.loop_frame rfl rfl rfl rfl rfl (fun _ => by rw [hloop]; rfl) rfl
  | found p hloop _ _ => exact h.loop_frame rfl rfl rfl rfl rfl (fun _ => by rw [hloop]; rfl) rfl
  | nothing hloop _ => exact h.loop_frame rfl rfl rfl rfl rfl (fun _ => by rw [hloop]; rfl) rfl
  | fetched r p hloop hcmd =>
      -- the text of a denied order is what `denied_past` excludes
      refine h.frame rfl rfl rfl (fun _ => rfl) (fun _ _ hbefore => nomatch hbefore) ?_
      intro n hn hmem
      cases p with
      | udp =>
          obtain rfl : s.orders = n := Option.some.inj hn
          have hpassed := h.denied_past hmem hcmd
          rw [hloop] at hpassed
          cases hpassed
      | mqtt => cases hn
  | written r order hloop =>
      have hopen : ¬ ∃ n ∈ order, n ∈ s.denied := by
        rintro ⟨n, rfl, hmem⟩
        exact h.order_open n (by rw [hloop]; rfl) hmem
      have hsame : (s.deniedWritten || decide (∃ n ∈ order, n ∈ s.denied)) = s.deniedWritten := by
        rw [decide_eq_false hopen, Bool.or_false]
      exact h.loop_frame hsame rfl rfl rfl rfl (fun hbefore => nomatch hbefore) rfl
  | writeFailed _ _ _ => exact h.loop_frame rfl rfl rfl rfl rfl (fun hbefore => nomatch hbefore) rfl
  | missing _ _ _ _ => exact h.loop_frame rfl rfl rfl rfl rfl (fun hbefore => nomatch hbefore) rfl
  | reply _ _ _ _ _ _ => exact h.loop_frame rfl rfl rfl rfl rfl (fun hbefore => nomatch hbefore) rfl
  | reply2 _ _ _ _ _ => exact h.loop_frame rfl rfl rfl rfl rfl (fun hbefore => nomatch hbefore) rfl
  | post _ _ _ _ => exact h.loop_frame rfl rfl rfl rfl rfl (fun hbefore => nomatch hbefore) rfl
  | clear inLines _ =>
      refine h.frame rfl rfl rfl (fun _ => rfl) (fun _ hudp => nomatch hudp) ?_
      intro n hn
      cases inLines <;> cases hn
  | skipped _ _ _ => exact h
  | line _ _ _ _ _ _ => exact h.loop_frame rfl rfl rfl rfl rfl (fun hbefore => nomatch hbefore) rfl
  | linesDone hloop => exact h.loop_frame rfl rfl rfl rfl rfl (fun _ => by rw [hloop]; rfl) rfl
  | copy _ _ _ _ _ => exact h.loop_frame rfl rfl rfl rfl rfl (fun hbefore => nomatch hbefore) rfl
  | ready _ _ _ _ => exact h.loop_frame rfl rfl rfl rfl rfl (fun hbefore => nomatch hbefore) rfl

instance (s : MailboxState) : (a : MailboxAct) → Decidable (AnsweredPastWrite s a)
  | .answer .udp => inferInstanceAs (Decidable ((s.curCmd .udp).rc ≠ 0 → (s.curCmd .udp).rc ≠ 1 →
      (s.cmd = some .udp → s.loop.beforeFetch = false) ∧ s.loop.order ≠ some s.orders))
  | .answer .mqtt => isTrue trivial
  | .buffer .. | .arm _ | .place _ | .wake _ | .timeout _ | .leaveCalibr => isTrue trivial
  | .loopTop | .loopPending | .fetch | .write _ | .reply _ | .reply2 _ | .post => isTrue trivial
  | .clear | .line .. | .linesDone | .copy | .ready => isTrue trivial

end Scaled
end MatrixBin
