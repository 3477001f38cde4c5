import MatrixBin.Library.HandleTable
import MatrixBin.Library.TransitionRuns

/-!
# The table of clients (`packet_daemon.c`, `DISTRIBUTE_WEIGHT`)

`runpacket` registers each accepted client in the first slot without a socket and opens
a pipe for every scale; then it clears `fin`, sets `go` and starts `packet_feed`.  When
that thread quits it closes the read ends, sets `fin` and gives the socket up.  The
scales visit the slots again and again; a scale closes its end of a pipe when it sees
`fin` or when a write fails.

A pipe is identified by a number that is never used again.  The steps of the threads are
interleaved in any order.  `ClientTable.Lawful` is what the ends of the pipes should
satisfy, `lawful_of_released` says in which runs they do.
-/

namespace MatrixBin
namespace Scaled

open Library

/-- `MAX_CLIENTS` -/
def maxClients : Nat := 4

/-- `scale_client_t`; a descriptor that is -1 is `none`. -/
structure ScaleClient where
  sock : Option Nat
  go : Bool
  fin : Bool
  wrfd : Nat → Option Nat
  rdfd : Nat → Option Nat

/-- Where `runpacket` is: at `accept`, before the pipe of the scale `j`, or after the
arming. -/
inductive RunpacketPc
  | accepting
  | registering (slot j : Nat)
  | armed (slot : Nat)
  | ended
deriving DecidableEq

/-- Where the thread `packet_feed` of a slot is. -/
inductive FeedPc
  | absent
  | feeding
  | closedPipes
  | finished
deriving DecidableEq

/-- `cli_array` and the threads; the write ends that were closed, and the pipes to which
a write failed. -/
structure ClientTable where
  client : Nat → ScaleClient
  runpacket : RunpacketPc
  feed : Nat → FeedPc
  position : Nat → Nat
  nextPipe : Nat
  closed : List Nat
  failed : List Nat

/-- `init_clients` -/
def ClientTable.initial : ClientTable where
  client := fun _ => ⟨none, false, false, fun _ => none, fun _ => none⟩
  runpacket := .accepting
  feed := fun _ => .absent
  position := fun _ => 0
  nextPipe := 0
  closed := []
  failed := []

def ClientTable.setClient (s : ClientTable) (i : Nat) (c : ScaleClient) : ClientTable :=
  { s with client := Function.update s.client i c }

inductive ClientAct
  | accept (socket : Nat)
  | openPipe
  | arm
  | createThread (success : Bool)
  | quitPipes (slot : Nat)
  | quitFin (slot : Nat)
  | quitSocket (slot : Nat)
  | visit (scale : Nat) (written : Bool)

section Steps

variable (scaleCnt : Nat)

/-- The first slot without a socket.  The search is one step: only `runpacket` fills slots, so all
were taken when a search began that finds none. -/
def ClientTable.freeSlot (s : ClientTable) : Option Nat :=
  (List.range maxClients).find? fun i => (s.client i).sock.isNone

/-- `register_client`, one pipe. -/
def ClientTable.openPipe (s : ClientTable) (i j : Nat) : ClientTable :=
  let c := s.client i
  { s.setClient i { c with
      rdfd := Function.update c.rdfd j (some s.nextPipe)
      wrfd := Function.update c.wrfd j (some s.nextPipe) } with
    runpacket := .registering i (j + 1)
    nextPipe := s.nextPipe + 1 }

/-- The write ends that `clean_client` closes. -/
def ScaleClient.writeEnds (c : ScaleClient) : List Nat := (List.range scaleCnt).filterMap c.wrfd

/-- `clean_client` -/
def ClientTable.cleanClient (s : ClientTable) (i : Nat) : ClientTable :=
  let c := s.client i
  { s.setClient i { c with
      sock := none
      go := false
      rdfd := fun j => if j < scaleCnt then none else c.rdfd j
      wrfd := fun j => if j < scaleCnt then none else c.wrfd j } with
    closed := s.closed ++ c.writeEnds scaleCnt }

/-- A scale closes its end. -/
def ClientTable.closeEnd (s : ClientTable) (i j k : Nat) : ClientTable :=
  let c := s.client i
  { s.setClient i { c with wrfd := Function.update c.wrfd j none } with
    closed := s.closed ++ [k] }

/-- The scale `j` at the slot `i`, in the loop of `DISTRIBUTE_WEIGHT`. -/
def ClientTable.visitSlot (s : ClientTable) (i j : Nat) (written : Bool) : ClientTable :=
  match (s.client i).wrfd j with
  | none => s
  | some k =>
      if (s.client i).fin then s.closeEnd i j k
      else if written then s
      else { s.closeEnd i j k with failed := s.failed ++ [k] }

def clientStep (s : ClientTable) : ClientAct → Option ClientTable
  | .accept socket =>
      if s.runpacket = .accepting then
        match s.freeSlot with
        | none => some s
        | some i =>
            some { s.setClient i { s.client i with sock := some socket } with
              runpacket := .registering i 0 }
      else none
  | .openPipe =>
      match s.runpacket with
      | .registering i j => if j < scaleCnt then some (s.openPipe i j) else none
      | _ => none
  | .arm =>
      match s.runpacket with
      | .registering i j =>
          if j < scaleCnt then none
          else
            some { s.setClient i { s.client i with fin := false, go := true } with
              runpacket := .armed i }
      | _ => none
  | .createThread success =>
      match s.runpacket with
      | .armed i =>
          if success then
            some { s with
              runpacket := .accepting
              feed := Function.update s.feed i .feeding }
          else some { s.cleanClient scaleCnt i with runpacket := .ended }
      | _ => none
  | .quitPipes i =>
      if s.feed i = .feeding then
        some { s.setClient i { s.client i with
            rdfd := fun j => if j < scaleCnt then none else (s.client i).rdfd j } with
          feed := Function.update s.feed i .closedPipes }
      else none
  | .quitFin i =>
      if s.feed i = .closedPipes then
        some { s.setClient i { s.client i with fin := true } with
          feed := Function.update s.feed i .finished }
      else none
  | .quitSocket i =>
      if s.feed i = .finished then
        some { s.setClient i { s.client i with sock := none } with
          feed := Function.update s.feed i .absent }
      else none
  | .visit j written =>
      if j < scaleCnt then
        some { s.visitSlot (s.position j) j written with
          position := Function.update s.position j ((s.position j + 1) % maxClients) }
      else none

/-- The places where write ends are recorded. -/
def ClientTable.writeEnd (s : ClientTable) (p : Nat × Nat) : Option Nat := (s.client p.1).wrfd p.2

/-- A live client can be reached by every scale to which no write failed, and every write
end is recorded or was closed once. -/
structure ClientTable.Lawful (s : ClientTable) : Prop where
  live : ∀ i j k, (s.client i).go = true → (s.client i).sock ≠ none →
    (s.client i).rdfd j = some k → (s.client i).wrfd j = some k ∨ k ∈ s.failed
  accounted : ∀ k, k < s.nextPipe →
    (∃ p, s.writeEnd p = some k) ∧ s.closed.count k = 0 ∨
      (¬ ∃ p, s.writeEnd p = some k) ∧ s.closed.count k = 1

/-- The scale has released the end where `runpacket` opens the next pipe. -/
def ClientTable.PlaceReleased (s : ClientTable) : RunpacketPc → Prop
  | .registering i j => (s.client i).wrfd j = none
  | _ => True

/-- A pipe is opened only where the scale has released its old end, and no scale releases
an end because of `fin` while the pipe is open for reading. -/
def Released (s : ClientTable) : ClientAct → Prop
  | .openPipe => s.PlaceReleased s.runpacket
  | .visit j _ =>
      (s.client (s.position j)).wrfd j ≠ none → (s.client (s.position j)).fin = true →
        (s.client (s.position j)).rdfd j = none
  | _ => True

instance (s : ClientTable) : (pc : RunpacketPc) → Decidable (s.PlaceReleased pc)
  | .registering i j => inferInstanceAs (Decidable ((s.client i).wrfd j = none))
  | .accepting => inferInstanceAs (Decidable True)
  | .armed _ => inferInstanceAs (Decidable True)
  | .ended => inferInstanceAs (Decidable True)

instance : (s : ClientTable) → (a : ClientAct) → Decidable (Released s a)
  | s, .openPipe => inferInstanceAs (Decidable (s.PlaceReleased s.runpacket))
  | s, .visit j _ =>
      inferInstanceAs (Decidable ((s.client (s.position j)).wrfd j ≠ none →
        (s.client (s.position j)).fin = true → (s.client (s.position j)).rdfd j = none))
  | _, .accept _ => inferInstanceAs (Decidable True)
  | _, .arm => inferInstanceAs (Decidable True)
  | _, .createThread _ => inferInstanceAs (Decidable True)
  | _, .quitPipes _ => inferInstanceAs (Decidable True)
  | _, .quitFin _ => inferInstanceAs (Decidable True)
  | _, .quitSocket _ => inferInstanceAs (Decidable True)

end Steps

/-! ### What the steps preserve -/

section Invariant

variable {scaleCnt : Nat} {s s' : ClientTable} {i j k : Nat} {c : ScaleClient}

@[simp] theorem ClientTable.setClient_self
    (s : ClientTable)
    (i : Nat)
    (c : ScaleClient) :
    (s.setClient i c).client i = c :=
  Function.update_self ..

theorem ClientTable.setClient_of_ne
    {i' : Nat}
    (h : i' ≠ i)
    (s : ClientTable)
    (c : ScaleClient) :
    (s.setClient i c).client i' = s.client i' :=
  Function.update_of_ne h ..

/-- In every slot, an open pipe is known to its scale unless a write to it failed; the
write ends are kept. -/
structure ClientTable.Inv (s : ClientTable) : Prop where
  known : ∀ i j k, (s.client i).rdfd j = some k → (s.client i).wrfd j = some k ∨ k ∈ s.failed
  kept : HandlesKept s.writeEnd s.closed s.nextPipe

theorem ClientTable.Inv.lawful
    (h : s.Inv) :
    s.Lawful where
  live := fun i j k _ _ hread => h.known i j k hread
  accounted := h.kept.once

theorem ClientTable.inv_initial : ClientTable.initial.Inv where
  known := by simp [ClientTable.initial]
  kept := handlesKept_nil

/-- A step that opens no pipe and touches no write end. -/
theorem ClientTable.Inv.frame
    (h : s.Inv)
    (hread : ∀ j k, c.rdfd j = some k → (s.client i).rdfd j = some k)
    (hwrite : c.wrfd = (s.client i).wrfd)
    (hclient : s'.client = (s.setClient i c).client)
    (hpipes : s'.nextPipe = s.nextPipe)
    (hclosed : s'.closed = s.closed)
    (hfailed : s'.failed = s.failed) :
    s'.Inv := by
  have hends : s'.writeEnd = s.writeEnd := by
    funext p
    rw [ClientTable.writeEnd, ClientTable.writeEnd, hclient]
    by_cases hp : p.1 = i
    · rw [hp, ClientTable.setClient_self, hwrite]
    · rw [ClientTable.setClient_of_ne hp]
  constructor
  · intro i' j k hk
    rw [hclient] at hk ⊢
    rw [hfailed]
    by_cases hi : i' = i
    · subst hi
      rw [ClientTable.setClient_self] at hk ⊢
      rw [hwrite]
      exact h.known i' j k (hread j k hk)
    · rw [ClientTable.setClient_of_ne hi] at hk ⊢
      exact h.known i' j k hk
  · rw [hends, hpipes, hclosed]
    exact h.kept

theorem ClientTable.writeEnd_setClient
    (s : ClientTable)
    (i j : Nat)
    (c : ScaleClient)
    (end' : Option Nat)
    (hwrite : c.wrfd = Function.update (s.client i).wrfd j end') :
    (s.setClient i c).writeEnd = Function.update s.writeEnd (i, j) end' := by
  funext p
  obtain ⟨i', j'⟩ := p
  rw [ClientTable.writeEnd]
  by_cases hi : i' = i
  · subst hi
    by_cases hj : j' = j
    · subst hj
      simp [hwrite]
    · simp [hwrite, hj, ClientTable.writeEnd]
  · have hne : (i', j') ≠ (i, j) := fun h => hi (congrArg Prod.fst h)
    simp [ClientTable.setClient_of_ne hi, Function.update_of_ne hne, ClientTable.writeEnd]

theorem ClientTable.Inv.openPipe
    (h : s.Inv)
    (hreleased : (s.client i).wrfd j = none) :
    (s.openPipe i j).Inv := by
  constructor
  · intro i' j' k hk
    rw [ClientTable.openPipe] at hk ⊢
    simp only at hk ⊢
    by_cases hi : i' = i
    · subst hi
      rw [ClientTable.setClient_self] at hk ⊢
      by_cases hj : j' = j
      · subst hj
        simp only [Function.update_self] at hk ⊢
        exact Or.inl hk
      · simp only [Function.update_of_ne hj] at hk ⊢
        exact h.known i' j' k hk
    · rw [ClientTable.setClient_of_ne hi] at hk ⊢
      exact h.known i' j' k hk
  · have hends : (s.openPipe i j).writeEnd = Function.update s.writeEnd (i, j) (some s.nextPipe) :=
      s.writeEnd_setClient i j _ _ rfl
    rw [hends]
    exact h.kept.create hreleased

/-- An end is closed whose pipe is not read any more, or to which a write failed. -/
theorem ClientTable.Inv.closeEnd
    (h : s.Inv)
    {k : Nat}
    (hend : (s.client i).wrfd j = some k)
    {failed : List Nat}
    (hfailed : ∀ l ∈ s.failed, l ∈ failed)
    (hread : (s.client i).rdfd j = none ∨ k ∈ failed) :
    ({ s.closeEnd i j k with failed := failed } : ClientTable).Inv := by
  constructor
  · intro i' j' l hl
    rw [ClientTable.closeEnd] at hl ⊢
    simp only at hl ⊢
    by_cases hi : i' = i
    · subst hi
      rw [ClientTable.setClient_self] at hl ⊢
      by_cases hj : j' = j
      · subst hj
        refine Or.inr ?_
        rcases hread with hread | hread
        · rw [hread] at hl
          cases hl
        · rcases h.known i' j' l hl with hsame | hl'
          · rw [hend, Option.some.injEq] at hsame
            exact hsame ▸ hread
          · exact hfailed l hl'
      · simp only [Function.update_of_ne hj]
        exact (h.known i' j' l hl).imp id (hfailed l)
    · rw [ClientTable.setClient_of_ne hi] at hl ⊢
      exact (h.known i' j' l hl).imp id (hfailed l)
  · have hends : ({ s.closeEnd i j k with failed := failed } : ClientTable).writeEnd =
        Function.update s.writeEnd (i, j) none :=
      s.writeEnd_setClient i j _ _ rfl
    rw [hends]
    exact h.kept.giveBack hend

theorem ClientTable.Inv.cleanClient
    (h : s.Inv)
    (i : Nat) :
    (s.cleanClient scaleCnt i).Inv := by
  constructor
  · intro i' j k hk
    rw [ClientTable.cleanClient] at hk ⊢
    simp only at hk ⊢
    by_cases hi : i' = i
    · subst hi
      rw [ClientTable.setClient_self] at hk ⊢
      by_cases hj : j < scaleCnt
      · simp [hj] at hk
      · simp only [hj, if_false] at hk ⊢
        exact h.known i' j k hk
    · rw [ClientTable.setClient_of_ne hi] at hk ⊢
      exact h.known i' j k hk
  · have hplaces : ((List.range scaleCnt).map fun j => (i, j)).Nodup :=
      List.Nodup.map (fun a b hab => congrArg Prod.snd hab) List.nodup_range
    have hclosed : (s.cleanClient scaleCnt i).closed =
        s.closed ++ ((List.range scaleCnt).map fun j => (i, j)).filterMap s.writeEnd := by
      rw [List.filterMap_map]
      rfl
    rw [hclosed]
    refine h.kept.giveBackAll hplaces ?_ ?_
    · intro p hp
      obtain ⟨j, hj, rfl⟩ := List.mem_map.mp hp
      simp [ClientTable.writeEnd, ClientTable.cleanClient, List.mem_range.mp hj]
    · rintro ⟨i', j⟩ hp
      simp only [List.mem_map, List.mem_range, Prod.mk.injEq, not_exists, not_and] at hp
      rw [ClientTable.writeEnd, ClientTable.writeEnd, ClientTable.cleanClient]
      by_cases hi : i' = i
      · subst hi
        have hj : ¬ j < scaleCnt := fun hlt => hp j hlt rfl rfl
        simp [hj]
      · simp only
        rw [ClientTable.setClient_of_ne hi]

theorem ClientTable.Inv.visitSlot
    (h : s.Inv)
    {written : Bool}
    (hreleased : (s.client i).wrfd j ≠ none → (s.client i).fin = true →
      (s.client i).rdfd j = none) :
    (s.visitSlot i j written).Inv := by
  rw [ClientTable.visitSlot]
  cases hend : (s.client i).wrfd j with
  | none => exact h
  | some k =>
      simp only
      by_cases hfin : (s.client i).fin = true
      · rw [if_pos hfin]
        have hread := hreleased (by rw [hend]; exact Option.some_ne_none k) hfin
        exact h.closeEnd hend (fun l hl => hl) (Or.inl hread)
      · rw [if_neg hfin]
        cases written with
        | true => exact h
        | false =>
            exact h.closeEnd hend (fun l hl => List.mem_append_left _ hl) (Or.inr (by simp))

theorem ClientTable.Inv.step
    {a : ClientAct}
    (h : s.Inv)
    (hreleased : Released s a)
    (hstep : clientStep scaleCnt s a = some s') :
    s'.Inv := by
  cases a with
  | accept socket =>
      rw [clientStep] at hstep
      split at hstep
      · split at hstep
        · exact Option.some.inj hstep ▸ h
        · rename_i i _
          obtain rfl := Option.some.inj hstep
          exact @ClientTable.Inv.frame s _ i { s.client i with sock := some socket } h
            (fun j k hk => hk) rfl rfl rfl rfl rfl
      · cases hstep
  | openPipe =>
      rw [clientStep] at hstep
      split at hstep
      · rename_i i j hpc
        split at hstep
        · obtain rfl := Option.some.inj hstep
          rw [Released, hpc] at hreleased
          exact h.openPipe hreleased
        · cases hstep
      · cases hstep
  | arm =>
      rw [clientStep] at hstep
      split at hstep
      · rename_i i j _
        split at hstep
        · cases hstep
        · obtain rfl := Option.some.inj hstep
          exact @ClientTable.Inv.frame s _ i { s.client i with fin := false, go := true } h
            (fun j k hk => hk) rfl rfl rfl rfl rfl
      · cases hstep
  | createThread success =>
      rw [clientStep] at hstep
      split at hstep
      · rename_i i _
        split at hstep
        · obtain rfl := Option.some.inj hstep
          exact ⟨h.known, h.kept⟩
        · obtain rfl := Option.some.inj hstep
          have hclean := @ClientTable.Inv.cleanClient scaleCnt s h i
          exact ⟨hclean.known, hclean.kept⟩
      · cases hstep
  | quitPipes i =>
      rw [clientStep] at hstep
      split at hstep
      · obtain rfl := Option.some.inj hstep
        refine @ClientTable.Inv.frame s _ i { s.client i with
          rdfd := fun j => if j < scaleCnt then none else (s.client i).rdfd j } h ?_ rfl rfl rfl
            rfl rfl
        intro j k hk
        by_cases hj : j < scaleCnt
        · simp [hj] at hk
        · simpa [hj] using hk
      · cases hstep
  | quitFin i =>
      rw [clientStep] at hstep
      split at hstep
      · obtain rfl := Option.some.inj hstep
        exact @ClientTable.Inv.frame s _ i { s.client i with fin := true } h
          (fun j k hk => hk) rfl rfl rfl rfl rfl
      · cases hstep
  | quitSocket i =>
      rw [clientStep] at hstep
      split at hstep
      · obtain rfl := Option.some.inj hstep
        exact @ClientTable.Inv.frame s _ i { s.client i with sock := none } h
          (fun j k hk => hk) rfl rfl rfl rfl rfl
      · cases hstep
  | visit j written =>
      rw [clientStep] at hstep
      split at hstep
      · obtain rfl := Option.some.inj hstep
        have hvisit := @ClientTable.Inv.visitSlot s (s.position j) j h written hreleased
        exact ⟨hvisit.known, hvisit.kept⟩
      · cases hstep

/-- **The ends of the pipes.**  In a run in which a slot is registered again only after
every scale has released its end, and no scale sees the old `fin` with a new pipe, the
table is lawful in every state. -/
theorem lawful_of_released
    (h : ReachedUnder (clientStep scaleCnt) Released .initial s) :
    s.Lawful :=
  (h.invariant ClientTable.inv_initial fun _ _ _ hinv hreleased hstep =>
    hinv.step hreleased hstep).lawful

end Invariant

/-- A client connects, is served and leaves; one scale. -/
def firstClient : List ClientAct :=
  [.accept 0, .openPipe, .arm, .createThread true, .quitPipes 0, .quitFin 0, .quitSocket 0]

/-- The scale goes once around the table before the next client is registered. -/
def nextClientLater : List ClientAct :=
  firstClient ++ List.replicate 4 (.visit 0 true) ++ [.accept 1, .openPipe, .arm, .visit 0 true]

theorem next_client_later_lawful :
    ∃ s, runSteps (clientStep 1) .initial nextClientLater = some s ∧ s.Lawful := by
  have hrun : runSteps (clientStep 1) .initial nextClientLater = some _ := rfl
  have hguarded : runSteps (guarded (clientStep 1) Released) .initial nextClientLater = some _ :=
    rfl
  exact ⟨_, hrun, lawful_of_released (ReachedUnder.of_runSteps _ .start hguarded)⟩

/-- The next client takes the slot at once: the old end is lost, and the scale closes the
new one when it sees the old `fin`. -/
theorem new_client_loses_pipe :
    ∃ s, runSteps (clientStep 1) .initial
        (firstClient ++ [.accept 1, .openPipe, .visit 0 true, .arm, .createThread true]) =
          some s ∧
      (s.client 0).go = true ∧ (s.client 0).sock = some 1 ∧ (s.client 0).rdfd 0 = some 1 ∧
      (s.client 0).wrfd 0 = none ∧ s.failed = [] ∧ s.nextPipe = 2 ∧ s.closed = [1] ∧
      ¬ s.Lawful := by
  refine ⟨_, rfl, rfl, rfl, rfl, rfl, rfl, rfl, rfl, ?_⟩
  intro h
  rcases h.live 0 0 1 rfl (Option.some_ne_none 1) rfl with hend | hfailed
  · cases hend
  · cases hfailed

end Scaled
end MatrixBin
