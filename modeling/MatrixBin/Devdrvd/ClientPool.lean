import MatrixBin.Library.HandleTable
import MatrixBin.Library.OccupancyCount
import MatrixBin.Library.TransitionRuns
import Mathlib.Logic.Function.Basic

/-!
# The client pool of `devdrvd` (`control_daemon.c`, `devdrvd.c`)

`runcontrol` accepts a client, makes it a pipe and calls `register_client`, which looks at one
slot of `client_pool` after the other, takes the first that it finds free, counts it in
`clients_number` and starts `packet_feed` for it; `packet_feed` ends through
`unregister_client`.  When `register_client` returns nonzero, `runcontrol` writes a message and
closes the socket.

A descriptor is identified by a number that is never used again.  A section between a lock
and its unlock is one step, the look at a slot too, and so is a nonzero return together with
what `runcontrol` does then, which touches the new socket only.  The steps of the threads are
interleaved in any order.  `PoolLaw` is what should hold throughout, `poolLaw_iff` says in
which runs it does.
-/

namespace MatrixBin
namespace Devdrvd

open Library

/-- `DEVDRVD_MAX_CLIENTS` -/
def devdrvdMaxClients : Nat := 10

/-- The descriptors of one client: its socket and the two ends of its pipe. -/
structure DevdrvdClient where
  socketFd : Nat
  writeFd : Nat
  readFd : Nat
deriving DecidableEq

/-- Where `runcontrol` is: at `accept`, before `pipe2`, in `register_client` before the lock of a
slot or before `pthread_create` for one, or behind the loop. -/
inductive ControlPc
  | accepting
  | accepted (socketFd : Nat)
  | searching (slot : Nat) (c : DevdrvdClient)
  | creating (slot : Nat) (c : DevdrvdClient)
  | ended
deriving DecidableEq

/-- `client_pool`, where a slot with `socket_fd == -1` is `none`, `clients_number`, the
threads, the descriptors made and closed so far, and the clients for which
`register_client` has returned nonzero. -/
structure ClientPool where
  pool : Nat → Option DevdrvdClient
  clientsNumber : Nat
  feeding : Nat → Bool
  pc : ControlPc
  nextFd : Nat
  closed : List Nat
  refused : List DevdrvdClient

def ClientPool.initial : ClientPool where
  pool := fun _ => none
  clientsNumber := 0
  feeding := fun _ => false
  pc := .accepting
  nextFd := 0
  closed := []
  refused := []

/-- `again` is the test `errno == EINVAL || errno == EINTR`, made behind a successful
`accept` too; `register` is a look at a slot in `register_client`. -/
inductive PoolAct
  | accept (again : Bool)
  | acceptFails
  | makePipe (success : Bool)
  | register
  | createThread (success : Bool)
  | unregister (slot : Nat)
  | dispatch (slot : Nat)

/-- `runcontrol` after a nonzero return. -/
def ClientPool.refuse (s : ClientPool) (c : DevdrvdClient) : ClientPool :=
  { s with
    pc := .accepting
    closed := s.closed ++ [c.socketFd]
    refused := s.refused ++ [c] }

def poolStep (s : ClientPool) : PoolAct → Option ClientPool
  | .accept again =>
      if s.pc = .accepting then
        if again then some { s with nextFd := s.nextFd + 1 }
        else some { s with nextFd := s.nextFd + 1, pc := .accepted s.nextFd }
      else none
  | .acceptFails =>
      if s.pc = .accepting then some { s with pc := .ended } else none
  | .makePipe success =>
      match s.pc with
      | .accepted socketFd =>
          if success then
            some { s with
              nextFd := s.nextFd + 2
              pc := .searching 0 ⟨socketFd, s.nextFd + 1, s.nextFd⟩ }
          else some { s with pc := .ended }
      | _ => none
  | .register =>
      match s.pc with
      | .searching i c =>
          match s.pool i with
          | none =>
              some { s with
                pool := Function.update s.pool i (some c)
                clientsNumber := s.clientsNumber + 1
                pc := .creating i c }
          | some _ =>
              if i + 1 < devdrvdMaxClients then some { s with pc := .searching (i + 1) c }
              else some (s.refuse c)
      | _ => none
  | .createThread success =>
      match s.pc with
      | .creating i c =>
          if success then
            some { s with feeding := Function.update s.feeding i true, pc := .accepting }
          -- EXIT_FAILURE is returned with the slot taken and counted
          else some (s.refuse c)
      | _ => none
  | .unregister i =>
      match s.feeding i, s.pool i with
      | true, some c =>
          some { s with
            feeding := Function.update s.feeding i false
            pool := Function.update s.pool i none
            clientsNumber := s.clientsNumber - 1
            closed := s.closed ++ [c.writeFd, c.readFd, c.socketFd] }
      | _, _ => none
  | .dispatch i =>
      -- the main loop writes to the pipe of a taken slot
      match s.pool i with
      | some _ => some s
      | none => none

/-! ### The law of the pool -/

/-- A slot that is taken. -/
def ClientPool.taken (s : ClientPool) (i : Nat) : Prop := (s.pool i).isSome = true

instance (s : ClientPool) : DecidablePred s.taken := fun _ => inferInstanceAs (Decidable (_ = _))

/-- The counter counts the taken slots within its bound, and nothing is left of a client
that was refused: no slot holds it, and its socket and both ends of its pipe are closed. -/
structure PoolLaw (s : ClientPool) : Prop where
  counted : s.clientsNumber = Nat.count s.taken devdrvdMaxClients
  bounded : s.clientsNumber ≤ devdrvdMaxClients
  restored : ∀ c ∈ s.refused, ∀ i, s.pool i ≠ some c
  released : ∀ c ∈ s.refused,
    c.socketFd ∈ s.closed ∧ c.writeFd ∈ s.closed ∧ c.readFd ∈ s.closed

/-- The condition on a step: a client for which `register_client` has come to the last slot finds
this one free, and the thread of a client is created. -/
def RegistersClean (s : ClientPool) : PoolAct → Prop
  | .register => ∀ i c, s.pc = .searching i c → devdrvdMaxClients ≤ i + 1 → s.pool i = none
  | .createThread success => success = true
  | _ => True

/-! ### What survives the steps -/

/-- Descriptors below this number were made before the ones that `runcontrol` holds. -/
def ClientPool.base (s : ClientPool) : Nat :=
  match s.pc with
  | .accepted socketFd => socketFd
  | .searching _ c => c.socketFd
  | .creating _ c => c.socketFd
  | _ => s.nextFd

def DevdrvdClient.Below (c : DevdrvdClient) (n : Nat) : Prop :=
  c.socketFd < n ∧ c.writeFd < n ∧ c.readFd < n

/-- The descriptors that `runcontrol` holds: the ends of the pipe are younger than the
socket; and the slot that it looks at is one of the pool. -/
def ControlPc.Ordered (nextFd : Nat) : ControlPc → Prop
  | .accepted socketFd => socketFd < nextFd
  | .searching i c => c.Below nextFd ∧ c.socketFd < c.writeFd ∧ i < devdrvdMaxClients
  | .creating _ c => c.Below nextFd ∧ c.socketFd < c.writeFd
  | _ => True

structure PoolInv (s : ClientPool) : Prop where
  counted : s.clientsNumber = Nat.count s.taken devdrvdMaxClients
  none_refused : s.refused = []
  ordered : s.pc.Ordered s.nextFd
  closed_lt : ∀ x ∈ s.closed, x < s.base
  pool_lt : ∀ i c, s.pool i = some c → s.pc = .creating i c ∨ c.Below s.base
  creating : ∀ i c, s.pc = .creating i c → s.pool i = some c ∧ s.feeding i = false
  fed : ∀ i, s.feeding i = true → s.pool i ≠ none
  in_range : ∀ i, s.taken i → i < devdrvdMaxClients

section Steps

variable {s e : ClientPool} {i : Nat} {c : DevdrvdClient}

theorem PoolInv.law
    (h : PoolInv s) :
    PoolLaw s where
  counted := h.counted
  bounded := by
    rw [h.counted]
    exact Nat.count_le _
  restored := by simp [h.none_refused]
  released := by simp [h.none_refused]

theorem DevdrvdClient.Below.mono
    {m n : Nat}
    (h : c.Below m)
    (hmn : m ≤ n) :
    c.Below n :=
  ⟨h.1.trans_le hmn, h.2.1.trans_le hmn, h.2.2.trans_le hmn⟩

theorem PoolInv.base_le
    (h : PoolInv s) :
    s.base ≤ s.nextFd := by
  have hordered := h.ordered
  unfold ClientPool.base
  cases hpc : s.pc with
  | accepting => exact le_rfl
  | ended => exact le_rfl
  | accepted socketFd =>
      rw [hpc] at hordered
      exact Nat.le_of_lt hordered
  | searching i c =>
      rw [hpc] at hordered
      exact Nat.le_of_lt hordered.1.1
  | creating i c =>
      rw [hpc] at hordered
      exact Nat.le_of_lt hordered.1.1

theorem poolInv_initial : PoolInv .initial where
  counted := by
    symm
    refine Nat.count_iff_forall_not.mpr fun i _ => ?_
    simp [ClientPool.taken, ClientPool.initial]
  none_refused := rfl
  ordered := trivial
  closed_lt := by simp [ClientPool.initial]
  pool_lt := by simp [ClientPool.initial]
  creating := by simp [ClientPool.initial]
  fed := by simp [ClientPool.initial]
  in_range := by simp [ClientPool.taken, ClientPool.initial]

/-- A step of `runcontrol` that leaves the pool and the threads alone. -/
theorem PoolInv.advance
    (h : PoolInv s)
    (hnot : ∀ i c, s.pc ≠ .creating i c)
    {pc : ControlPc}
    {nextFd : Nat}
    (hordered : pc.Ordered nextFd)
    (hbase : s.base ≤ { s with pc := pc, nextFd := nextFd }.base)
    (hpc : ∀ i c, pc ≠ .creating i c) :
    PoolInv { s with pc := pc, nextFd := nextFd } where
  counted := h.counted
  none_refused := h.none_refused
  ordered := hordered
  closed_lt := fun x hx => (h.closed_lt x hx).trans_le hbase
  pool_lt := by
    intro i c hi
    rcases h.pool_lt i c hi with hcreating | hbelow
    · exact absurd hcreating (hnot i c)
    · exact Or.inr (hbelow.mono hbase)
  creating := fun i c hcreating => absurd hcreating (hpc i c)
  fed := h.fed
  in_range := h.in_range

/-- A client takes a free slot. -/
theorem PoolInv.take
    (h : PoolInv s)
    (hpc : s.pc = .searching i c)
    (hnone : s.pool i = none) :
    PoolInv { s with
      pool := Function.update s.pool i (some c)
      clientsNumber := s.clientsNumber + 1
      pc := .creating i c } := by
  have hordered := h.ordered
  rw [hpc] at hordered
  obtain ⟨hbelow, hsocket, hi⟩ := hordered
  have hbase : s.base = c.socketFd := by rw [ClientPool.base, hpc]
  constructor
  · rw [h.counted]
    symm
    refine count_enter hi ?_ ?_ ?_
    · simp [ClientPool.taken, hnone]
    · simp [ClientPool.taken]
    · intro j hj
      simp [ClientPool.taken, hj]
  · exact h.none_refused
  · exact ⟨hbelow, hsocket⟩
  · intro x hx
    have hlt := h.closed_lt x hx
    rw [hbase] at hlt
    exact hlt
  · intro j d hj
    rcases entry_of_update hj with ⟨rfl, heq⟩ | ⟨-, hj⟩
    · exact Or.inl (by rw [Option.some.inj heq])
    · rcases h.pool_lt j d hj with hcreating | hbelow
      · rw [hpc] at hcreating
        cases hcreating
      · rw [hbase] at hbelow
        exact Or.inr hbelow
  · intro j d hj
    obtain ⟨rfl, rfl⟩ := ControlPc.creating.inj hj
    refine ⟨Function.update_self .., ?_⟩
    by_contra hfed
    exact h.fed _ (by simpa using hfed) hnone
  · intro j hj
    by_cases hji : j = i
    · simp [hji]
    · simp only [Function.update_of_ne hji]
      exact h.fed j hj
  · intro j hj
    by_cases hji : j = i
    · exact hji ▸ hi
    · exact h.in_range j (by simpa [ClientPool.taken, hji] using hj)

/-- The thread of the slot is created. -/
theorem PoolInv.feed
    (h : PoolInv s)
    (hpc : s.pc = .creating i c) :
    PoolInv { s with feeding := Function.update s.feeding i true, pc := .accepting } := by
  have hordered := h.ordered
  rw [hpc] at hordered
  have hpool := (h.creating i c hpc).1
  constructor
  · exact h.counted
  · exact h.none_refused
  · trivial
  · exact fun x hx => (h.closed_lt x hx).trans_le h.base_le
  · intro j d hj
    rcases h.pool_lt j d hj with hcreating | hbelow
    · obtain ⟨rfl, rfl⟩ := ControlPc.creating.inj (hpc.symm.trans hcreating)
      exact Or.inr hordered.1
    · exact Or.inr (hbelow.mono h.base_le)
  · intro j d hj
    cases hj
  · intro j hj
    by_cases hji : j = i
    · simp [hji, hpool]
    · simp only [Function.update_of_ne hji] at hj
      exact h.fed j hj
  · exact h.in_range

/-- A thread ends and gives its slot up. -/
theorem PoolInv.release
    (h : PoolInv s)
    (hfeeding : s.feeding i = true)
    (hpool : s.pool i = some c) :
    PoolInv { s with
      feeding := Function.update s.feeding i false
      pool := Function.update s.pool i none
      clientsNumber := s.clientsNumber - 1
      closed := s.closed ++ [c.writeFd, c.readFd, c.socketFd] } := by
  have htaken : s.taken i := by simp [ClientPool.taken, hpool]
  have hbelow : c.Below s.base := by
    rcases h.pool_lt i c hpool with hcreating | hbelow
    · rw [(h.creating i c hcreating).2] at hfeeding
      cases hfeeding
    · exact hbelow
  have hother : ∀ j d, s.pc = .creating j d → j ≠ i := by
    rintro j d hj rfl
    rw [(h.creating j d hj).2] at hfeeding
    cases hfeeding
  constructor
  · rw [h.counted]
    refine Nat.sub_eq_of_eq_add (count_leave (h.in_range i htaken) htaken ?_ ?_).symm
    · simp [ClientPool.taken]
    · intro j hj
      simp [ClientPool.taken, hj]
  · exact h.none_refused
  · exact h.ordered
  · intro x hx
    rcases List.mem_append.mp hx with hx | hx
    · exact h.closed_lt x hx
    · simp only [List.mem_cons, List.not_mem_nil, or_false] at hx
      rcases hx with rfl | rfl | rfl
      · exact hbelow.2.1
      · exact hbelow.2.2
      · exact hbelow.1
  · intro j d hj
    rcases entry_of_update hj with ⟨-, heq⟩ | ⟨-, hj⟩
    · cases heq
    · exact h.pool_lt j d hj
  · intro j d hj
    have hji := hother j d hj
    simp only [Function.update_of_ne hji]
    exact h.creating j d hj
  · intro j hj
    by_cases hji : j = i
    · simp [hji] at hj
    · simp only [Function.update_of_ne hji] at hj ⊢
      exact h.fed j hj
  · intro j hj
    have hji : j ≠ i := by
      rintro rfl
      simp [ClientPool.taken] at hj
    exact h.in_range j (by simpa [ClientPool.taken, hji] using hj)

theorem poolStep_inv
    {a : PoolAct}
    (h : PoolInv s)
    (hclean : RegistersClean s a)
    (hstep : poolStep s a = some e) :
    PoolInv e := by
  cases a with
  | accept again =>
      simp only [poolStep] at hstep
      split_ifs at hstep with hpc hagain
      · obtain rfl := Option.some.inj hstep
        have hbase : s.base = s.nextFd := by rw [ClientPool.base, hpc]
        have hordered : s.pc.Ordered (s.nextFd + 1) := by
          rw [hpc]
          trivial
        refine h.advance (by simp [hpc]) hordered ?_ (by simp [hpc])
        rw [hbase]
        simp [ClientPool.base, hpc]
      · obtain rfl := Option.some.inj hstep
        have hbase : s.base = s.nextFd := by rw [ClientPool.base, hpc]
        refine h.advance (by simp [hpc]) (Nat.lt_succ_self _) ?_ (by simp)
        rw [hbase]
        exact le_rfl
  | acceptFails =>
      simp only [poolStep] at hstep
      split_ifs at hstep with hpc
      obtain rfl := Option.some.inj hstep
      exact h.advance (by simp [hpc]) trivial h.base_le (by simp)
  | makePipe success =>
      simp only [poolStep] at hstep
      split at hstep
      · rename_i socketFd hpc
        have hordered := h.ordered
        rw [hpc] at hordered
        have hlt : socketFd < s.nextFd := hordered
        have hbase : s.base = socketFd := by rw [ClientPool.base, hpc]
        split_ifs at hstep
        · obtain rfl := Option.some.inj hstep
          refine h.advance (by simp [hpc]) ⟨⟨?_, ?_, ?_⟩, ?_, by decide⟩ ?_ (by simp)
          · exact hlt.trans (by omega)
          · exact Nat.lt_succ_self _
          · exact Nat.lt_add_of_pos_right (by decide)
          · exact hlt.trans (Nat.lt_succ_self _)
          · rw [hbase]
            exact le_rfl
        · obtain rfl := Option.some.inj hstep
          exact h.advance (by simp [hpc]) trivial h.base_le (by simp)
      · cases hstep
  | register =>
      simp only [poolStep] at hstep
      split at hstep
      · rename_i i c hpc
        have hordered := h.ordered
        rw [hpc] at hordered
        have hbase : s.base = c.socketFd := by rw [ClientPool.base, hpc]
        split at hstep
        · rename_i hnone
          obtain rfl := Option.some.inj hstep
          exact h.take hpc hnone
        · rename_i d hsome
          split_ifs at hstep with hnext
          · obtain rfl := Option.some.inj hstep
            refine h.advance (by simp [hpc]) ⟨hordered.1, hordered.2.1, hnext⟩ ?_ (by simp)
            rw [hbase]
            exact le_rfl
          · have hnone := hclean i c hpc (not_lt.mp hnext)
            rw [hsome] at hnone
            cases hnone
      · cases hstep
  | createThread success =>
      obtain rfl : success = true := hclean
      simp only [poolStep] at hstep
      split at hstep
      · rename_i i c hpc
        obtain rfl := Option.some.inj hstep
        exact h.feed hpc
      · cases hstep
  | unregister i =>
      simp only [poolStep] at hstep
      split at hstep
      · rename_i c hfeeding hpool
        obtain rfl := Option.some.inj hstep
        exact h.release hfeeding hpool
      · cases hstep
  | dispatch i =>
      simp only [poolStep] at hstep
      split at hstep
      · obtain rfl := Option.some.inj hstep
        exact h
      · cases hstep

/-- A refused client leaves an end of its pipe open, or its slot taken. -/
theorem poolStep_breaks
    {a : PoolAct}
    (h : PoolInv s)
    (hstep : poolStep s a = some e)
    (hlaw : PoolLaw e) :
    RegistersClean s a := by
  cases a with
  | register =>
      intro i c hpc hlast
      by_contra hfull
      obtain ⟨d, hsome⟩ := Option.ne_none_iff_exists'.mp hfull
      simp only [poolStep, hpc, hsome, if_neg (not_lt.mpr hlast)] at hstep
      obtain rfl := Option.some.inj hstep
      have hordered := h.ordered
      rw [hpc] at hordered
      have hbase : s.base = c.socketFd := by rw [ClientPool.base, hpc]
      have hwrite : c.writeFd ∈ s.closed ++ [c.socketFd] :=
        (hlaw.released c (by simp [ClientPool.refuse])).2.1
      rcases List.mem_append.mp hwrite with hclosed | hsocket
      · have hlt := h.closed_lt _ hclosed
        rw [hbase] at hlt
        exact absurd hlt (Nat.not_lt_of_lt hordered.2.1)
      · exact absurd (List.mem_singleton.mp hsocket) hordered.2.1.ne'
  | createThread success =>
      cases success with
      | true => exact rfl
      | false =>
          simp only [poolStep] at hstep
          split at hstep
          · rename_i i c hpc
            obtain rfl := Option.some.inj hstep
            have hpool := (h.creating i c hpc).1
            exact absurd hpool (hlaw.restored c (by simp [ClientPool.refuse]) i)
          · cases hstep
  | accept again => trivial
  | acceptFails => trivial
  | makePipe success => trivial
  | unregister i => trivial
  | dispatch i => trivial

end Steps

/-! ### Runs -/

/-- The law of the pool holds in every state of a run exactly if every step of it meets the
condition. -/
theorem poolLaw_iff
    (schedule : List PoolAct) :
    HoldsAlong poolStep PoolLaw .initial schedule ↔
      MeetsAlong poolStep RegistersClean .initial schedule := by
  have hholds : ∀ s, PoolInv s → PoolLaw s := fun _ h => h.law
  have hstep : ∀ s a e, PoolInv s → RegistersClean s a → poolStep s a = some e → PoolInv e :=
    fun _ _ _ => poolStep_inv
  have hexact : ∀ s a e, PoolInv s → poolStep s a = some e →
      (PoolLaw e ↔ RegistersClean s a) := by
    intro s a e h he
    exact ⟨poolStep_breaks h he, fun hclean => hholds e (hstep s a e h hclean he)⟩
  exact holdsAlong_iff_meetsAlong hholds hexact hstep poolInv_initial schedule

/-- The thread of the first client cannot be created: its slot stays taken. -/
theorem refused_keeps_slot :
    ¬ ∀ schedule : List PoolAct, HoldsAlong poolStep PoolLaw .initial schedule := by
  intro hwanted
  have hrun := hwanted [.accept false, .makePipe true, .register, .createThread false]
  have hlaw := (((hrun.2 _ rfl).2 _ rfl).2 _ rfl).2 _ rfl
  exact hlaw.restored ⟨0, 2, 1⟩ List.mem_cons_self 0 rfl

end Devdrvd
end MatrixBin
