import MatrixBin.Library.HandleTable
import MatrixBin.Library.TransitionRuns
import MatrixBin.Scaled.PacketClients

/-!
# The sockets of `runpacket` (`packet_daemon.c`)

`runpacket` accepts clients in a loop.  After each `accept` it looks at `errno` first, and
goes back to `accept` when it holds `EINVAL` or `EINTR`, whatever `accept` returned; then it
registers the socket in the first free slot of `cli_array` and starts `packet_feed` for it.
A full pool and a `pthread_create` that fails each leave the loop body in a way of their own.

A socket is identified by the number of successful accepts before it.  `SocketsKept` says
that none of them is lost; the pipes of the slots are the matter of the table of clients and
are left out here.
-/

namespace MatrixBin
namespace Scaled

open Library

/-- The values of `errno` that `runpacket` tells apart. -/
inductive Errno
  | einval
  | eintr
  | other
deriving DecidableEq

/-- The test `errno==EINVAL || errno==EINTR`. -/
def Errno.again : Errno → Bool
  | .einval => true
  | .eintr => true
  | .other => false

/-- Where `runpacket` is: at `accept`, in `register_client` with the new socket, before
`pthread_create` for a slot, or behind the loop. -/
inductive AcceptPc
  | accepting
  | registering (socket : Nat)
  | creating (slot : Nat)
  | ended
deriving DecidableEq

/-- Where the thread `packet_feed` of a slot is. -/
inductive ServePc
  | absent
  | serving
  | socketClosed
deriving DecidableEq

/-- The sockets in `cli_array`, the threads, `errno` of the thread of `runpacket`, the number
of sockets accepted so far and the sockets that were closed.  After `exit` the process has
no open socket. -/
structure PacketDaemon where
  sock : Nat → Option Nat
  feed : Nat → ServePc
  pc : AcceptPc
  errno : Errno
  accepted : Nat
  closed : List Nat
  exited : Bool

def PacketDaemon.initial (errno : Errno) : PacketDaemon where
  sock := fun _ => none
  feed := fun _ => .absent
  pc := .accepting
  errno := errno
  accepted := 0
  closed := []
  exited := false

/-- `errno` is what the calls of a step leave in it: a successful `accept` does not change
it, a failed one sets it, the calls of the other steps may leave any value. -/
inductive PacketAct
  | accept
  | acceptFails (errno : Errno)
  | register (pipesOpen : Bool) (errno : Errno)
  | createThread (success : Bool) (errno : Errno)
  | shutdown
  | feedClose (slot : Nat)
  | feedClear (slot : Nat)

/-- The first slot without a socket.  The search is one step: only `runpacket` fills slots, so all
were taken when a search began that finds none. -/
def PacketDaemon.freeSlot (s : PacketDaemon) : Option Nat :=
  (List.range maxClients).find? fun i => (s.sock i).isNone

def packetStep (s : PacketDaemon) : PacketAct → Option PacketDaemon
  | .accept =>
      if s.exited then none
      else if s.pc = .accepting then
        if s.errno.again then some { s with accepted := s.accepted + 1 }
        else some { s with accepted := s.accepted + 1, pc := .registering s.accepted }
      else none
  | .acceptFails errno =>
      if s.exited then none
      else if s.pc = .accepting then
        if errno.again then some { s with errno := errno }
        else some { s with errno := errno, exited := true }
      else none
  | .register pipesOpen errno =>
      if s.exited then none
      else
        match s.pc with
        | .registering socket =>
            match s.freeSlot with
            | none => some { s with pc := .accepting, errno := errno }
            | some i =>
                if pipesOpen then
                  some { s with
                    sock := Function.update s.sock i (some socket)
                    pc := .creating i
                    errno := errno }
                else some { s with exited := true }
        | _ => none
  | .createThread success errno =>
      if s.exited then none
      else
        match s.pc with
        | .creating i =>
            if success then
              some { s with
                feed := Function.update s.feed i .serving
                pc := .accepting
                errno := errno }
            -- clean_client gives the slot up and does not close the socket
            else
              some { s with
                sock := Function.update s.sock i none
                pc := .ended
                errno := errno }
        | _ => none
  | .shutdown =>
      if s.exited then none
      else if s.pc = .accepting then some { s with pc := .ended }
      else none
  | .feedClose i =>
      if s.exited then none
      else
        match s.feed i, s.sock i with
        | .serving, some socket =>
            some { s with
              feed := Function.update s.feed i .socketClosed
              closed := s.closed ++ [socket] }
        | _, _ => none
  | .feedClear i =>
      if s.exited then none
      else if s.feed i = .socketClosed then
        some { s with
          feed := Function.update s.feed i .absent
          sock := Function.update s.sock i none }
      else none

/-! ### The socket law -/

/-- Where an open socket is held: in a slot, until its thread has closed it, or by
`runpacket` itself while it registers it. -/
def PacketDaemon.held (s : PacketDaemon) : Option Nat → Option Nat
  | some i => if s.feed i = .socketClosed then none else s.sock i
  | none =>
      match s.pc with
      | .registering socket => some socket
      | _ => none

/-- Every accepted socket is held in one place or was closed once, and a thread serves the
slot that holds it, or is about to be created. -/
structure SocketsKept (s : PacketDaemon) : Prop where
  kept : HandlesKept s.held s.closed s.accepted
  served : ∀ i socket, s.sock i = some socket → s.feed i ≠ .absent ∨ s.pc = .creating i

/-- The condition on a step: an accepted socket finds `errno` free of `EINVAL` and `EINTR`, a
socket to be registered finds a free slot, and its thread is created. -/
def AcceptsClean (s : PacketDaemon) : PacketAct → Prop
  | .accept => s.errno.again = false
  | .register _ _ => s.freeSlot ≠ none
  | .createThread success _ => success = true
  | _ => True

/-- What else survives the steps that meet the condition: a slot without a socket has no
thread, and the slot before `pthread_create` has a socket and no thread yet. -/
structure PacketInv (s : PacketDaemon) : Prop extends SocketsKept s where
  idle : ∀ i, s.sock i = none → s.feed i = .absent
  creating : ∀ i, s.pc = .creating i → s.feed i = .absent ∧ ∃ socket, s.sock i = some socket

/-! ### One step -/

section Steps

variable {s e : PacketDaemon} {i : Nat}

theorem freeSlot_sock
    (h : s.freeSlot = some i) :
    s.sock i = none := by
  simpa using List.find?_some h

@[simp] theorem held_slot
    (s : PacketDaemon)
    (i : Nat) :
    s.held (some i) = if s.feed i = .socketClosed then none else s.sock i :=
  rfl

@[simp] theorem held_hand
    (s : PacketDaemon) :
    s.held none =
      match s.pc with
      | .registering socket => some socket
      | _ => none :=
  rfl

theorem packetInv_initial
    (errno : Errno) :
    PacketInv (.initial errno) where
  kept := by
    have hheld : (PacketDaemon.initial errno).held = fun _ => none := by
      funext p
      cases p with
      | none => rfl
      | some i => rfl
    rw [hheld]
    exact handlesKept_nil
  served := by simp [PacketDaemon.initial]
  idle := fun _ _ => rfl
  creating := by simp [PacketDaemon.initial]

/-- The new socket is with `runpacket`. -/
theorem PacketInv.take
    (h : PacketInv s)
    (hpc : s.pc = .accepting) :
    PacketInv { s with accepted := s.accepted + 1, pc := .registering s.accepted } where
  kept := by
    have hheld : PacketDaemon.held
        { s with accepted := s.accepted + 1, pc := .registering s.accepted } =
        Function.update s.held none (some s.accepted) := by
      funext p
      cases p with
      | none => rw [Function.update_self]; rfl
      | some i => rw [Function.update_of_ne (by simp)]; rfl
    rw [hheld]
    exact h.kept.create (by rw [held_hand, hpc])
  served := by
    intro i socket hi
    rcases h.served i socket hi with hfeed | hcreating
    · exact Or.inl hfeed
    · rw [hpc] at hcreating
      cases hcreating
  idle := h.idle
  creating := by
    intro i hi
    cases hi

/-- The socket goes from `runpacket` into a free slot. -/
theorem PacketInv.store
    (h : PacketInv s)
    {socket : Nat}
    (hpc : s.pc = .registering socket)
    (hfree : s.sock i = none)
    (errno : Errno) :
    PacketInv { s with
      sock := Function.update s.sock i (some socket), pc := .creating i, errno := errno } where
  kept := by
    refine h.kept.move (p := none) (q := some i) (k := socket) ?_ ?_ ?_ ?_ ?_
    · rw [held_hand, hpc]
    · rfl
    · simp [h.idle i hfree]
    · simp [hfree]
    · intro r hr hri
      cases r with
      | none => exact absurd rfl hr
      | some j =>
          have hji : j ≠ i := fun heq => hri (by rw [heq])
          simp [hji]
  served := by
    intro j k hj
    rcases entry_of_update hj with ⟨hji, -⟩ | ⟨-, hj⟩
    · exact Or.inr (by rw [hji])
    · rcases h.served j k hj with hfeed | hcreating
      · exact Or.inl hfeed
      · rw [hpc] at hcreating
        cases hcreating
  idle := by
    intro j hj
    by_cases hji : j = i
    · simp [hji] at hj
    · simp only [Function.update_of_ne hji] at hj
      exact h.idle j hj
  creating := by
    intro j hj
    obtain rfl := AcceptPc.creating.inj hj
    exact ⟨h.idle _ hfree, socket, by simp⟩

/-- The thread of the slot is there. -/
theorem PacketInv.serve
    (h : PacketInv s)
    (hpc : s.pc = .creating i)
    (errno : Errno) :
    PacketInv { s with
      feed := Function.update s.feed i .serving, pc := .accepting, errno := errno } where
  kept := by
    have hheld : PacketDaemon.held { s with
        feed := Function.update s.feed i .serving, pc := .accepting, errno := errno } =
        s.held := by
      funext p
      cases p with
      | none => simp [hpc]
      | some j =>
          by_cases hji : j = i
          · subst hji
            simp [(h.creating j hpc).1]
          · simp [hji]
    rw [hheld]
    exact h.kept
  served := by
    intro j k hj
    by_cases hji : j = i
    · exact Or.inl (by simp [hji])
    · simp only [Function.update_of_ne hji]
      rcases h.served j k hj with hfeed | hcreating
      · exact Or.inl hfeed
      · exact absurd (AcceptPc.creating.inj (hcreating.symm.trans hpc)) hji
  idle := by
    intro j hj
    by_cases hji : j = i
    · obtain ⟨socket, hsocket⟩ := (h.creating i hpc).2
      rw [hji, hsocket] at hj
      cases hj
    · simp only [Function.update_of_ne hji]
      exact h.idle j hj
  creating := by
    intro j hj
    cases hj

/-- The thread of a slot closes its socket. -/
theorem PacketInv.close
    (h : PacketInv s)
    {socket : Nat}
    (hfeed : s.feed i = .serving)
    (hsock : s.sock i = some socket) :
    PacketInv { s with
      feed := Function.update s.feed i .socketClosed, closed := s.closed ++ [socket] } where
  kept := by
    have hheld : PacketDaemon.held { s with
        feed := Function.update s.feed i .socketClosed, closed := s.closed ++ [socket] } =
        Function.update s.held (some i) none := by
      funext p
      by_cases hp : p = some i
      · subst hp
        simp
      · rw [Function.update_of_ne hp]
        cases p with
        | none => rfl
        | some j =>
            have hji : j ≠ i := fun heq => hp (by rw [heq])
            simp [hji]
    rw [hheld]
    exact h.kept.giveBack (by simp [hfeed, hsock])
  served := by
    intro j k hj
    by_cases hji : j = i
    · exact Or.inl (by simp [hji])
    · simp only [Function.update_of_ne hji]
      exact h.served j k hj
  idle := by
    intro j hj
    have hji : j ≠ i := by
      rintro rfl
      simp [hsock] at hj
    simp only [Function.update_of_ne hji]
    exact h.idle j hj
  creating := by
    intro j hj
    have hji : j ≠ i := by
      rintro rfl
      exact absurd ((h.creating j hj).1.symm.trans hfeed) (by simp)
    simp only [Function.update_of_ne hji]
    exact h.creating j hj

/-- The thread of a slot gives the slot up. -/
theorem PacketInv.clear
    (h : PacketInv s)
    (hfeed : s.feed i = .socketClosed) :
    PacketInv { s with
      feed := Function.update s.feed i .absent, sock := Function.update s.sock i none } where
  kept := by
    have hheld : PacketDaemon.held { s with
        feed := Function.update s.feed i .absent, sock := Function.update s.sock i none } =
        s.held := by
      funext p
      cases p with
      | none => rfl
      | some j =>
          by_cases hji : j = i
          · simp [hji, hfeed]
          · simp [hji]
    rw [hheld]
    exact h.kept
  served := by
    intro j k hj
    have hji : j ≠ i := by
      rintro rfl
      simp at hj
    simp only [Function.update_of_ne hji] at hj ⊢
    exact h.served j k hj
  idle := by
    intro j hj
    by_cases hji : j = i
    · simp [hji]
    · simp only [Function.update_of_ne hji] at hj ⊢
      exact h.idle j hj
  creating := by
    intro j hj
    have hji : j ≠ i := by
      rintro rfl
      exact absurd ((h.creating j hj).1.symm.trans hfeed) (by simp)
    simp only [Function.update_of_ne hji]
    exact h.creating j hj

/-- The loop is left between two clients. -/
theorem PacketInv.leaveLoop
    (h : PacketInv s)
    (hpc : s.pc = .accepting) :
    PacketInv { s with pc := .ended } where
  kept := by
    have hheld : PacketDaemon.held { s with pc := .ended } = s.held := by
      funext p
      cases p with
      | none => simp [hpc]
      | some i => rfl
    rw [hheld]
    exact h.kept
  served := by
    intro i k hi
    rcases h.served i k hi with hfeed | hcreating
    · exact Or.inl hfeed
    · rw [hpc] at hcreating
      cases hcreating
  idle := h.idle
  creating := by
    intro i hi
    cases hi

theorem packetStep_inv
    {a : PacketAct}
    (h : PacketInv s)
    (hclean : AcceptsClean s a)
    (hstep : packetStep s a = some e) :
    PacketInv e := by
  cases a with
  | accept =>
      have herrno : s.errno.again = false := hclean
      simp only [packetStep, herrno, Bool.false_eq_true, if_false] at hstep
      split_ifs at hstep with hexited hpc
      obtain rfl := Option.some.inj hstep
      exact h.take hpc
  | acceptFails errno =>
      simp only [packetStep] at hstep
      split_ifs at hstep
      · obtain rfl := Option.some.inj hstep
        exact ⟨⟨h.kept, h.served⟩, h.idle, h.creating⟩
      · obtain rfl := Option.some.inj hstep
        exact ⟨⟨h.kept, h.served⟩, h.idle, h.creating⟩
  | register pipesOpen errno =>
      simp only [packetStep] at hstep
      split at hstep
      · cases hstep
      · split at hstep
        · rename_i socket hpc
          split at hstep
          · rename_i hfull
            exact absurd hfull hclean
          · rename_i i hfree
            split at hstep
            · obtain rfl := Option.some.inj hstep
              exact h.store hpc (freeSlot_sock hfree) errno
            · obtain rfl := Option.some.inj hstep
              exact ⟨⟨h.kept, h.served⟩, h.idle, h.creating⟩
        · cases hstep
  | createThread success errno =>
      obtain rfl : success = true := hclean
      simp only [packetStep] at hstep
      split at hstep
      · cases hstep
      · split at hstep
        · rename_i i hpc
          obtain rfl := Option.some.inj hstep
          exact h.serve hpc errno
        · cases hstep
  | shutdown =>
      simp only [packetStep] at hstep
      split_ifs at hstep with hexited hpc
      obtain rfl := Option.some.inj hstep
      exact h.leaveLoop hpc
  | feedClose i =>
      simp only [packetStep] at hstep
      split at hstep
      · cases hstep
      · split at hstep
        · rename_i socket hfeed hsock
          obtain rfl := Option.some.inj hstep
          exact h.close hfeed hsock
        · cases hstep
  | feedClear i =>
      simp only [packetStep] at hstep
      split_ifs at hstep with hexited hfeed
      obtain rfl := Option.some.inj hstep
      exact h.clear hfeed

/-- A step against the condition leaves a socket open that nobody serves. -/
theorem packetStep_loses
    {a : PacketAct}
    (h : PacketInv s)
    (hstep : packetStep s a = some e)
    (hkept : SocketsKept e) :
    AcceptsClean s a := by
  cases a with
  | accept =>
      by_contra herrno
      have hagain : s.errno.again = true := by simpa [AcceptsClean] using herrno
      simp only [packetStep, hagain] at hstep
      split_ifs at hstep
      obtain rfl := Option.some.inj hstep
      exact h.kept.not_unrecorded hkept.kept
  | register pipesOpen errno =>
      intro hfull
      simp only [packetStep, hfull] at hstep
      split at hstep
      · cases hstep
      · split at hstep
        · rename_i socket hpc
          obtain rfl := Option.some.inj hstep
          refine h.kept.not_dropped (p := none) (k := socket) ?_ ?_ ?_ hkept.kept
          · rw [held_hand, hpc]
          · rfl
          · intro q hq
            cases q with
            | none => exact absurd rfl hq
            | some i => rfl
        · cases hstep
  | createThread success errno =>
      cases success with
      | true => exact rfl
      | false =>
          simp only [packetStep] at hstep
          split at hstep
          · cases hstep
          · split at hstep
            · rename_i i hpc
              obtain rfl := Option.some.inj hstep
              obtain ⟨hfeed, socket, hsocket⟩ := h.creating i hpc
              refine (h.kept.not_dropped (p := some i) (k := socket) ?_ ?_ ?_ hkept.kept).elim
              · simp [hfeed, hsocket]
              · simp
              · intro q hq
                cases q with
                | none => simp [hpc]
                | some j =>
                    have hji : j ≠ i := fun heq => hq (by rw [heq])
                    simp [hji]
            · cases hstep
  | acceptFails errno => trivial
  | shutdown => trivial
  | feedClose i => trivial
  | feedClear i => trivial

end Steps

/-! ### Runs -/

/-- In a run from any value of `errno` every accepted socket is served or closed, in every
state reached, exactly if every step meets the condition. -/
theorem socketsKept_iff
    (errno : Errno)
    (schedule : List PacketAct) :
    HoldsAlong packetStep SocketsKept (.initial errno) schedule ↔
      MeetsAlong packetStep AcceptsClean (.initial errno) schedule := by
  have hholds : ∀ s, PacketInv s → SocketsKept s := fun _ h => h.toSocketsKept
  have hstep : ∀ s a e, PacketInv s → AcceptsClean s a → packetStep s a = some e →
      PacketInv e := fun _ _ _ => packetStep_inv
  have hexact : ∀ s a e, PacketInv s → packetStep s a = some e →
      (SocketsKept e ↔ AcceptsClean s a) := by
    intro s a e h he
    exact ⟨packetStep_loses h he, fun hclean => hholds e (hstep s a e h hclean he)⟩
  exact holdsAlong_iff_meetsAlong hholds hexact hstep (packetInv_initial errno) schedule

/-- An earlier call has left `EINTR` behind: the first client is accepted and forgotten. -/
theorem accepted_and_forgotten :
    ¬ ∀ (errno : Errno) (schedule : List PacketAct),
      HoldsAlong packetStep SocketsKept (.initial errno) schedule := by
  intro hwanted
  obtain ⟨-, hafter⟩ := hwanted .eintr [.accept]
  have hkept : SocketsKept { PacketDaemon.initial .eintr with accepted := 1 } := hafter _ rfl
  rcases hkept.kept.once 0 (by decide) with ⟨⟨p, hp⟩, -⟩ | ⟨-, hcount⟩
  · cases p with
    | none => cases hp
    | some i => cases hp
  · cases hcount

end Scaled
end MatrixBin
