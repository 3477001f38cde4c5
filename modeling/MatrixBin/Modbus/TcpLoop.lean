import MatrixBin.Library.TransitionRuns
import Mathlib.Data.List.Nodup
import Mathlib.Logic.Function.Basic

/-!
# The connections of the register server (`tcp_thread.c`)

`tcp_loop` accepts a connection, scans `fds` for a free slot with its variable `i`, stores
the descriptor there and creates a thread with the address of `i`.  `proc_connect` reads
the slot number through that address, then the descriptor from the slot; when it ends it
closes the descriptor and frees the slot it has read.

A connection is identified by the number of those accepted before it, and so is its
thread.  Every access to a shared variable is a step, and the steps of the loop and of the
threads are interleaved in any order.  `TcpLaw` is what should hold throughout,
`tcpLaw_iff` says in which runs it does.
-/

namespace MatrixBin
namespace Modbus

open Library

/-- `MAX_CONNECTIONS` -/
def maxConnections : Nat := 4

/-- Where `tcp_loop` is: at `accept`, in the scan of the slots for a connection, before
`pthread_create` for it, or behind the loop. -/
inductive TcpLoopPc
  | accepting
  | scanning (connection : Nat)
  | creating (connection : Nat)
  | ended
deriving DecidableEq

/-- The thread of a connection.  `slot` is the slot that it was created for, `tid` the one
that it has read. -/
inductive ConnectThread
  | absent
  | created (slot : Nat)
  | slotRead (slot tid : Nat)
  | serving (slot tid : Nat) (csfd : Option Nat)
  | closing (slot tid : Nat)
  | finished
deriving DecidableEq

/-- The shared variables, the loop and the threads, the number of connections accepted and
those whose descriptor was closed. -/
structure TcpServer where
  fds : Nat → Option Nat
  i : Nat
  pc : TcpLoopPc
  thread : Nat → ConnectThread
  accepted : Nat
  closed : List Nat

def TcpServer.initial : TcpServer where
  fds := fun _ => none
  i := maxConnections
  pc := .accepting
  thread := fun _ => .absent
  accepted := 0
  closed := []

inductive TcpAct
  | accept
  | acceptFails
  | scan
  | createThread (success : Bool)
  | shutdown
  | readSlot (connection : Nat)
  | readFd (connection : Nat)
  | message (connection : Nat)
  | close (connection : Nat)
  | clear (connection : Nat)

def TcpServer.setThread (s : TcpServer) (k : Nat) (t : ConnectThread) : TcpServer :=
  { s with thread := Function.update s.thread k t }

def tcpStep (s : TcpServer) : TcpAct → Option TcpServer
  | .accept =>
      if s.pc = .accepting then
        some { s with i := 0, pc := .scanning s.accepted, accepted := s.accepted + 1 }
      else none
  | .acceptFails => if s.pc = .accepting then some s else none
  | .scan =>
      match s.pc with
      | .scanning k =>
          -- "Connection refused": the descriptor stays open
          if s.i = maxConnections then some { s with pc := .accepting }
          else
            match s.fds s.i with
            | none => some { s with fds := Function.update s.fds s.i (some k), pc := .creating k }
            | some _ => some { s with i := s.i + 1 }
      | _ => none
  | .createThread success =>
      match s.pc with
      | .creating k =>
          if success then some { s.setThread k (.created s.i) with pc := .accepting }
          else some { s with pc := .accepting }
      | _ => none
  | .shutdown => if s.pc = .accepting then some { s with pc := .ended } else none
  | .readSlot k =>
      match s.thread k with
      | .created slot => some (s.setThread k (.slotRead slot s.i))
      | _ => none
  | .readFd k =>
      match s.thread k with
      -- fds[MAX_CONNECTIONS] is outside the array
      | .slotRead slot tid =>
          if tid < maxConnections then some (s.setThread k (.serving slot tid (s.fds tid)))
          else none
      | _ => none
  | .message k =>
      match s.thread k with
      | .serving _ _ _ => some s
      | _ => none
  | .close k =>
      match s.thread k with
      | .serving slot tid csfd =>
          some { s.setThread k (.closing slot tid) with closed := s.closed ++ csfd.toList }
      | _ => none
  | .clear k =>
      match s.thread k with
      | .closing _ tid =>
          some { s.setThread k .finished with fds := Function.update s.fds tid none }
      | _ => none

/-! ### The law of the connections -/

/-- The slot that a thread was created for, until it has closed its descriptor. -/
def ConnectThread.slot : ConnectThread → Option Nat
  | .created slot => some slot
  | .slotRead slot _ => some slot
  | .serving slot _ _ => some slot
  | _ => none

/-- The slot that a thread was created for and the one that it acts on. -/
def ConnectThread.acts : ConnectThread → Option (Nat × Nat)
  | .slotRead slot tid => some (slot, tid)
  | .serving slot tid _ => some (slot, tid)
  | .closing slot tid => some (slot, tid)
  | _ => none

/-- The descriptor that a thread serves. -/
def ConnectThread.serves : ConnectThread → Option Nat
  | .serving _ _ csfd => csfd
  | _ => none

/-- `tcp_loop` has a connection in hand. -/
def TcpServer.InHand (s : TcpServer) (k : Nat) : Prop :=
  s.pc = .scanning k ∨ s.pc = .creating k

/-- Every accepted connection is in hand, with the thread that serves its own slot, or
closed, and nothing is closed twice; no thread acts on another slot than its own, and no two
threads serve one descriptor. -/
structure TcpLaw (s : TcpServer) : Prop where
  handed : ∀ k, k < s.accepted →
    s.InHand k ∨ (∃ slot, (s.thread k).slot = some slot ∧ s.fds slot = some k) ∨ k ∈ s.closed
  once : s.closed.Nodup
  own : ∀ k slot tid, (s.thread k).acts = some (slot, tid) → tid = slot
  alone : ∀ k k' fd, (s.thread k).serves = some fd → (s.thread k').serves = some fd → k = k'

/-- The condition on a step: a scan finds a free slot, a thread is created, and when it
reads `i`, this is the number of its slot. -/
def SlotPassed (s : TcpServer) : TcpAct → Prop
  | .scan => s.i ≠ maxConnections
  | .createThread success => success = true
  | .readSlot k => ∀ slot, s.thread k = .created slot → s.i = slot
  | _ => True

/-! ### What survives the steps -/

/-- A thread that is in step: its slot holds its connection until it has freed it. -/
def ThreadInv (fds : Nat → Option Nat) (closed : List Nat) (k : Nat) : ConnectThread → Prop
  | .absent => k ∉ closed
  | .created slot => k ∉ closed ∧ slot < maxConnections ∧ fds slot = some k
  | .slotRead slot tid =>
      k ∉ closed ∧ slot < maxConnections ∧ fds slot = some k ∧ tid = slot
  | .serving slot tid csfd => k ∉ closed ∧ fds slot = some k ∧ tid = slot ∧ csfd = some k
  | .closing slot tid => k ∈ closed ∧ fds slot = some k ∧ tid = slot
  | .finished => k ∈ closed

structure TcpInv (s : TcpServer) : Prop where
  threads : ∀ k, ThreadInv s.fds s.closed k (s.thread k)
  once : s.closed.Nodup
  fresh : ∀ k, s.accepted ≤ k → s.thread k = .absent
  started : ∀ k, k < s.accepted → s.thread k = .absent → s.InHand k
  hand : ∀ k, s.InHand k → k < s.accepted ∧ s.thread k = .absent
  scanning : ∀ k, s.pc = .scanning k → s.i ≤ maxConnections
  creating : ∀ k, s.pc = .creating k → s.i < maxConnections ∧ s.fds s.i = some k

section Steps

variable {s e : TcpServer} {k : Nat}

@[simp] theorem setThread_self
    (s : TcpServer)
    (k : Nat)
    (t : ConnectThread) :
    (s.setThread k t).thread k = t := by
  simp [TcpServer.setThread]

theorem setThread_of_ne
    {j : Nat}
    (h : j ≠ k)
    (s : TcpServer)
    (t : ConnectThread) :
    (s.setThread k t).thread j = s.thread j := by
  simp [TcpServer.setThread, h]

theorem ThreadInv.mono
    {fds fds' : Nat → Option Nat}
    {closed closed' : List Nat}
    {t : ConnectThread}
    (h : ThreadInv fds closed k t)
    (hfds : ∀ slot, fds slot = some k → fds' slot = some k)
    (hclosed : k ∈ closed' ↔ k ∈ closed) :
    ThreadInv fds' closed' k t := by
  cases t with
  | absent => exact fun hk => h (hclosed.mp hk)
  | created slot => exact ⟨fun hk => h.1 (hclosed.mp hk), h.2.1, hfds slot h.2.2⟩
  | slotRead slot tid =>
      exact ⟨fun hk => h.1 (hclosed.mp hk), h.2.1, hfds slot h.2.2.1, h.2.2.2⟩
  | serving slot tid csfd =>
      exact ⟨fun hk => h.1 (hclosed.mp hk), hfds slot h.2.1, h.2.2⟩
  | closing slot tid => exact ⟨hclosed.mpr h.1, hfds slot h.2.1, h.2.2⟩
  | finished => exact hclosed.mpr h

theorem TcpInv.law
    (h : TcpInv s) :
    TcpLaw s where
  handed := by
    intro k hk
    have hthread := h.threads k
    cases ht : s.thread k with
    | absent => exact Or.inl (h.started k hk ht)
    | created slot =>
        rw [ht] at hthread
        exact Or.inr (Or.inl ⟨slot, rfl, hthread.2.2⟩)
    | slotRead slot tid =>
        rw [ht] at hthread
        exact Or.inr (Or.inl ⟨slot, rfl, hthread.2.2.1⟩)
    | serving slot tid csfd =>
        rw [ht] at hthread
        exact Or.inr (Or.inl ⟨slot, rfl, hthread.2.1⟩)
    | closing slot tid =>
        rw [ht] at hthread
        exact Or.inr (Or.inr hthread.1)
    | finished =>
        rw [ht] at hthread
        exact Or.inr (Or.inr hthread)
  once := h.once
  own := by
    intro k slot tid hacts
    have hthread := h.threads k
    cases ht : s.thread k with
    | slotRead slot' tid' =>
        rw [ht] at hthread hacts
        obtain ⟨rfl, rfl⟩ := Prod.mk.inj (Option.some.inj hacts)
        exact hthread.2.2.2
    | serving slot' tid' csfd =>
        rw [ht] at hthread hacts
        obtain ⟨rfl, rfl⟩ := Prod.mk.inj (Option.some.inj hacts)
        exact hthread.2.2.1
    | closing slot' tid' =>
        rw [ht] at hthread hacts
        obtain ⟨rfl, rfl⟩ := Prod.mk.inj (Option.some.inj hacts)
        exact hthread.2.2
    | absent => simp [ht, ConnectThread.acts] at hacts
    | created slot' => simp [ht, ConnectThread.acts] at hacts
    | finished => simp [ht, ConnectThread.acts] at hacts
  alone := by
    -- a thread that serves a descriptor serves that of its own connection
    have hown : ∀ k fd, (s.thread k).serves = some fd → fd = k := by
      intro k fd hserves
      have hthread := h.threads k
      cases ht : s.thread k with
      | serving slot tid csfd =>
          rw [ht] at hthread hserves
          have hcsfd : csfd = some fd := hserves
          exact Option.some.inj (hcsfd.symm.trans hthread.2.2.2)
      | absent => simp [ht, ConnectThread.serves] at hserves
      | created slot => simp [ht, ConnectThread.serves] at hserves
      | slotRead slot tid => simp [ht, ConnectThread.serves] at hserves
      | closing slot tid => simp [ht, ConnectThread.serves] at hserves
      | finished => simp [ht, ConnectThread.serves] at hserves
    intro k k' fd hk hk'
    exact (hown k fd hk).symm.trans (hown k' fd hk')

theorem tcpInv_initial : TcpInv .initial where
  threads := fun k => List.not_mem_nil
  once := List.nodup_nil
  fresh := fun _ _ => rfl
  started := fun k hk => absurd hk (Nat.not_lt_zero k)
  hand := by simp [TcpServer.InHand, TcpServer.initial]
  scanning := by simp [TcpServer.initial]
  creating := by simp [TcpServer.initial]

/-- A thread moves on, and changes the slots and the closed connections on its own account
only. -/
theorem TcpInv.move
    (h : TcpInv s)
    {t : ConnectThread}
    {fds : Nat → Option Nat}
    {closed : List Nat}
    (hk : s.thread k ≠ .absent)
    (ht : t ≠ .absent)
    (hthread : ThreadInv fds closed k t)
    (hfds : ∀ j, j ≠ k → ∀ slot, s.fds slot = some j → fds slot = some j)
    (hclosed : ∀ j, j ≠ k → (j ∈ closed ↔ j ∈ s.closed))
    (honce : closed.Nodup) :
    TcpInv { s.setThread k t with fds := fds, closed := closed } where
  threads := by
    intro j
    by_cases hj : j = k
    · subst hj
      simpa using hthread
    · simp only [setThread_of_ne hj]
      exact (h.threads j).mono (hfds j hj) (hclosed j hj)
  once := honce
  fresh := by
    intro j hj
    have hjk : j ≠ k := by
      rintro rfl
      exact hk (h.fresh j hj)
    simp only [setThread_of_ne hjk]
    exact h.fresh j hj
  started := by
    intro j hj habsent
    have hjk : j ≠ k := by
      rintro rfl
      exact ht (by simpa using habsent)
    simp only [setThread_of_ne hjk] at habsent
    exact h.started j hj habsent
  hand := by
    intro j hj
    obtain ⟨hlt, habsent⟩ := h.hand j hj
    have hjk : j ≠ k := by
      rintro rfl
      exact hk habsent
    simp only [setThread_of_ne hjk]
    exact ⟨hlt, habsent⟩
  scanning := h.scanning
  creating := by
    intro j hj
    obtain ⟨hi, hslot⟩ := h.creating j hj
    have hjk : j ≠ k := by
      rintro rfl
      exact hk (h.hand j (Or.inr hj)).2
    exact ⟨hi, hfds j hjk _ hslot⟩

/-- A new connection. -/
theorem TcpInv.take
    (h : TcpInv s)
    (hpc : s.pc = .accepting) :
    TcpInv { s with i := 0, pc := .scanning s.accepted, accepted := s.accepted + 1 } where
  threads := h.threads
  once := h.once
  fresh := fun k hk => h.fresh k (Nat.le_of_succ_le hk)
  started := by
    intro k hk habsent
    rcases Nat.lt_or_eq_of_le (Nat.le_of_lt_succ hk) with hlt | rfl
    · rcases h.started k hlt habsent with hscan | hcreate
      · rw [hpc] at hscan
        cases hscan
      · rw [hpc] at hcreate
        cases hcreate
    · exact Or.inl rfl
  hand := by
    intro k hk
    rcases hk with hscan | hcreate
    · obtain rfl := TcpLoopPc.scanning.inj hscan
      exact ⟨Nat.lt_succ_self _, h.fresh _ (Nat.le_refl _)⟩
    · cases hcreate
  scanning := fun _ _ => Nat.zero_le _
  creating := by
    intro k hk
    cases hk

/-- The descriptor is stored in a free slot. -/
theorem TcpInv.store
    (h : TcpInv s)
    (hpc : s.pc = .scanning k)
    (hi : s.i ≠ maxConnections)
    (hfree : s.fds s.i = none) :
    TcpInv { s with fds := Function.update s.fds s.i (some k), pc := .creating k } where
  threads := by
    intro j
    refine (h.threads j).mono (fun slot hslot => ?_) Iff.rfl
    have hne : slot ≠ s.i := by
      rintro rfl
      rw [hfree] at hslot
      cases hslot
    simpa only [Function.update_of_ne hne] using hslot
  once := h.once
  fresh := h.fresh
  started := by
    intro j hj habsent
    rcases h.started j hj habsent with hscan | hcreate
    · obtain rfl := TcpLoopPc.scanning.inj (hpc.symm.trans hscan)
      exact Or.inr rfl
    · rw [hpc] at hcreate
      cases hcreate
  hand := by
    intro j hj
    rcases hj with hscan | hcreate
    · cases hscan
    · obtain rfl := TcpLoopPc.creating.inj hcreate
      exact h.hand _ (Or.inl hpc)
  scanning := by
    intro j hj
    cases hj
  creating := by
    intro j hj
    obtain rfl := TcpLoopPc.creating.inj hj
    exact ⟨Nat.lt_of_le_of_ne (h.scanning _ hpc) hi, Function.update_self ..⟩

/-- The scan goes on to the next slot. -/
theorem TcpInv.next
    (h : TcpInv s)
    (hpc : s.pc = .scanning k)
    (hi : s.i ≠ maxConnections) :
    TcpInv { s with i := s.i + 1 } where
  threads := h.threads
  once := h.once
  fresh := h.fresh
  started := h.started
  hand := h.hand
  scanning := fun _ _ => Nat.lt_of_le_of_ne (h.scanning _ hpc) hi
  creating := by
    intro j hj
    exact absurd (hpc.symm.trans hj) (by simp)

/-- The thread of the connection is created. -/
theorem TcpInv.create
    (h : TcpInv s)
    (hpc : s.pc = .creating k) :
    TcpInv { s.setThread k (.created s.i) with pc := .accepting } where
  threads := by
    intro j
    by_cases hj : j = k
    · subst hj
      have hthread := h.threads j
      rw [(h.hand j (Or.inr hpc)).2] at hthread
      obtain ⟨hi, hslot⟩ := h.creating j hpc
      simpa using ⟨hthread, hi, hslot⟩
    · simp only [setThread_of_ne hj]
      exact h.threads j
  once := h.once
  fresh := by
    intro j hj
    have hjk : j ≠ k := by
      rintro rfl
      exact absurd (h.hand j (Or.inr hpc)).1 (Nat.not_lt_of_le hj)
    simp only [setThread_of_ne hjk]
    exact h.fresh j hj
  started := by
    intro j hj habsent
    by_cases hjk : j = k
    · subst hjk
      simp at habsent
    · simp only [setThread_of_ne hjk] at habsent
      rcases h.started j hj habsent with hscan | hcreate
      · rw [hpc] at hscan
        cases hscan
      · exact absurd (TcpLoopPc.creating.inj (hcreate.symm.trans hpc)) hjk
  hand := by
    intro j hj
    rcases hj with hscan | hcreate
    · cases hscan
    · cases hcreate
  scanning := by
    intro j hj
    cases hj
  creating := by
    intro j hj
    cases hj

theorem TcpInv.leaveLoop
    (h : TcpInv s)
    (hpc : s.pc = .accepting) :
    TcpInv { s with pc := .ended } where
  threads := h.threads
  once := h.once
  fresh := h.fresh
  started := by
    intro j hj habsent
    rcases h.started j hj habsent with hscan | hcreate
    · rw [hpc] at hscan
      cases hscan
    · rw [hpc] at hcreate
      cases hcreate
  hand := by
    intro j hj
    rcases hj with hscan | hcreate
    · cases hscan
    · cases hcreate
  scanning := by
    intro j hj
    cases hj
  creating := by
    intro j hj
    cases hj

theorem tcpStep_inv
    {a : TcpAct}
    (h : TcpInv s)
    (hpassed : SlotPassed s a)
    (hstep : tcpStep s a = some e) :
    TcpInv e := by
  cases a with
  | accept =>
      simp only [tcpStep] at hstep
      split at hstep
      · rename_i hpc
        obtain rfl := Option.some.inj hstep
        exact h.take hpc
      · cases hstep
  | acceptFails =>
      simp only [tcpStep] at hstep
      split at hstep
      · obtain rfl := Option.some.inj hstep
        exact h
      · cases hstep
  | scan =>
      simp only [tcpStep] at hstep
      split at hstep
      · rename_i k hpc
        rw [if_neg hpassed] at hstep
        split at hstep
        · rename_i hfree
          obtain rfl := Option.some.inj hstep
          exact h.store hpc hpassed hfree
        · obtain rfl := Option.some.inj hstep
          exact h.next hpc hpassed
      · cases hstep
  | createThread success =>
      obtain rfl : success = true := hpassed
      simp only [tcpStep, if_true] at hstep
      split at hstep
      · rename_i k hpc
        obtain rfl := Option.some.inj hstep
        exact h.create hpc
      · cases hstep
  | shutdown =>
      simp only [tcpStep] at hstep
      split at hstep
      · rename_i hpc
        obtain rfl := Option.some.inj hstep
        exact h.leaveLoop hpc
      · cases hstep
  | readSlot k =>
      simp only [tcpStep] at hstep
      split at hstep
      · rename_i slot ht
        obtain rfl := Option.some.inj hstep
        have hthread := h.threads k
        rw [ht] at hthread
        exact h.move (by simp [ht]) (by simp)
          ⟨hthread.1, hthread.2.1, hthread.2.2, hpassed slot ht⟩
          (fun _ _ _ hslot => hslot) (fun _ _ => Iff.rfl) h.once
      · cases hstep
  | readFd k =>
      simp only [tcpStep] at hstep
      split at hstep
      · rename_i slot tid ht
        split at hstep
        · obtain rfl := Option.some.inj hstep
          have hthread := h.threads k
          rw [ht] at hthread
          obtain ⟨hopen, -, hslot, rfl⟩ := hthread
          exact h.move (by simp [ht]) (by simp) ⟨hopen, hslot, rfl, hslot⟩
            (fun _ _ _ hj => hj) (fun _ _ => Iff.rfl) h.once
        · cases hstep
      · cases hstep
  | message k =>
      simp only [tcpStep] at hstep
      split at hstep
      · obtain rfl := Option.some.inj hstep
        exact h
      · cases hstep
  | close k =>
      simp only [tcpStep] at hstep
      split at hstep
      · rename_i slot tid csfd ht
        obtain rfl := Option.some.inj hstep
        have hthread := h.threads k
        rw [ht] at hthread
        obtain ⟨hopen, hslot, rfl, rfl⟩ := hthread
        refine h.move (by simp [ht]) (by simp) ⟨by simp, hslot, rfl⟩
          (fun _ _ _ hj => hj) (fun j hj => by simp [hj]) ?_
        exact List.nodup_append.mpr ⟨h.once, List.nodup_singleton k, by
          rintro a ha b hb rfl
          obtain rfl := List.mem_singleton.mp hb
          exact hopen ha⟩
      · cases hstep
  | clear k =>
      simp only [tcpStep] at hstep
      split at hstep
      · rename_i slot tid ht
        obtain rfl := Option.some.inj hstep
        have hthread := h.threads k
        rw [ht] at hthread
        obtain ⟨hclosed, hslot, rfl⟩ := hthread
        refine h.move (by simp [ht]) (by simp) hclosed ?_ (fun _ _ => Iff.rfl) h.once
        intro j hj slot hjslot
        have hne : slot ≠ tid := by
          rintro rfl
          exact hj (Option.some.inj (hjslot.symm.trans hslot))
        rw [Function.update_of_ne hne]
        exact hjslot
      · cases hstep

/-- A connection whose thread is not created is not closed either. -/
theorem TcpInv.forgotten
    (h : TcpInv s)
    (hk : s.InHand k)
    {fds : Nat → Option Nat} :
    ¬ TcpLaw { s with fds := fds, pc := .accepting } := by
  intro hlaw
  obtain ⟨hlt, habsent⟩ := h.hand k hk
  rcases hlaw.handed k hlt with hhand | ⟨slot, hslot, -⟩ | hclosed
  · rcases hhand with hscan | hcreate
    · cases hscan
    · cases hcreate
  · simp [habsent, ConnectThread.slot] at hslot
  · have hthread := h.threads k
    rw [habsent] at hthread
    exact hthread hclosed

theorem tcpStep_breaks
    {a : TcpAct}
    (h : TcpInv s)
    (hstep : tcpStep s a = some e)
    (hlaw : TcpLaw e) :
    SlotPassed s a := by
  cases a with
  | scan =>
      intro hfull
      simp only [tcpStep] at hstep
      split at hstep
      · rename_i k hpc
        rw [if_pos hfull] at hstep
        obtain rfl := Option.some.inj hstep
        exact h.forgotten (Or.inl hpc) hlaw
      · cases hstep
  | createThread success =>
      cases success with
      | true => exact rfl
      | false =>
          simp only [tcpStep, Bool.false_eq_true, if_false] at hstep
          split at hstep
          · rename_i k hpc
            obtain rfl := Option.some.inj hstep
            exact (h.forgotten (Or.inr hpc) hlaw).elim
          · cases hstep
  | readSlot k =>
      intro slot ht
      simp only [tcpStep, ht] at hstep
      obtain rfl := Option.some.inj hstep
      exact hlaw.own k slot s.i (by simp [ConnectThread.acts])
  | accept => trivial
  | acceptFails => trivial
  | shutdown => trivial
  | readFd k => trivial
  | message k => trivial
  | close k => trivial
  | clear k => trivial

end Steps

/-! ### Runs -/

/-- The law of the connections holds in every state of a run exactly if every step of it
meets the condition. -/
theorem tcpLaw_iff
    (schedule : List TcpAct) :
    HoldsAlong tcpStep TcpLaw .initial schedule ↔
      MeetsAlong tcpStep SlotPassed .initial schedule := by
  have hholds : ∀ s, TcpInv s → TcpLaw s := fun _ h => h.law
  have hstep : ∀ s a e, TcpInv s → SlotPassed s a → tcpStep s a = some e → TcpInv e :=
    fun _ _ _ => tcpStep_inv
  have hexact : ∀ s a e, TcpInv s → tcpStep s a = some e → (TcpLaw e ↔ SlotPassed s a) := by
    intro s a e h he
    exact ⟨tcpStep_breaks h he, fun hpassed => hholds e (hstep s a e h hpassed he)⟩
  exact holdsAlong_iff_meetsAlong hholds hexact hstep tcpInv_initial schedule

/-- Two connections, of which the first thread starts when the loop scans for the second:
both threads serve the second connection. -/
theorem both_serve_the_second :
    ¬ ∀ schedule : List TcpAct, HoldsAlong tcpStep TcpLaw .initial schedule := by
  intro hwanted
  have hrun := hwanted
    [.accept, .scan, .createThread true, .accept, .scan, .readSlot 0, .scan,
      .createThread true, .readSlot 1, .readFd 0, .readFd 1]
  have hlaw := ((((((((((hrun.2 _ rfl).2 _ rfl).2 _ rfl).2 _ rfl).2 _ rfl).2 _ rfl).2 _ rfl).2
    _ rfl).2 _ rfl).2 _ rfl).2 _ rfl
  have hone : 0 = 1 := hlaw.alone 0 1 1 rfl rfl
  exact absurd hone (by decide)

end Modbus
end MatrixBin
