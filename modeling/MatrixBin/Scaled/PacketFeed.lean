import MatrixBin.Scaled.PacketClients
import Mathlib.Data.List.Infix

/-!
# What a client receives (`packet_feed`, `DISTRIBUTE_WEIGHT`)

A scale writes each packet to the pipes of the clients, slot after slot; it closes its
end of a pipe when the write fails or the client has quit.  The thread `packet_feed` of a
client waits for its pipes and then empties those that are ready one after the other: it
asks how many bytes are queued and copies so many to the socket, at most 1024 at a time.

The write of a packet to a pipe is atomic, FIONREAD tells the number of queued bytes, and
a write to the socket that does not fail is complete.  Each slot serves one client.

`client_receives_packets` says what arrives at the socket, and that it is the same when
the other clients are not there.
-/

namespace MatrixBin
namespace Scaled

open Library

/-- `sizeof(data)` -/
def feedDataSize : Nat := 1024

abbrev Packet := List UInt8

/-- Where the thread of a client is: at `pselect`, at the scale `i` of the loop with the
pipes that were ready, or with `len` more bytes to copy from the scale `i`. -/
inductive FeederPc
  | absent
  | waiting
  | scanning (i : Nat) (ready : List Nat)
  | draining (i : Nat) (ready : List Nat) (len : Nat)
  | quit
deriving DecidableEq

/-- A client: the write ends of its pipes that are open, the bytes queued in them and the
packets written to them, and the bytes written to its socket. -/
structure FeedClient where
  pc : FeederPc
  fin : Bool
  wrfd : Nat → Bool
  pipe : Nat → List UInt8
  accepted : Nat → List Packet
  socket : List UInt8

/-- A scale: the packet that it is distributing, the slot that comes next, and the packets
up to now. -/
structure FeedScale where
  current : Option Packet
  position : Nat
  distributed : List Packet

structure FeedState where
  client : Nat → FeedClient
  scale : Nat → FeedScale

def FeedState.initial : FeedState where
  client := fun _ => ⟨.absent, false, fun _ => false, fun _ => [], fun _ => [], []⟩
  scale := fun _ => ⟨none, 0, []⟩

inductive FeedAct
  | connect (c : Nat)
  | packet (j : Nat) (p : Packet)
  | visit (j c : Nat) (written : Bool)
  | select (c : Nat)
  | scan (c : Nat)
  | transfer (c n : Nat) (failed : Option Nat)

section Steps

variable (scaleCnt : Nat)

/-- The pipes that `pselect` reports: those with bytes, and those without a writer. -/
def FeedClient.readyPipes (c : FeedClient) : List Nat :=
  (List.range scaleCnt).filter fun i => c.pipe i ≠ [] || !c.wrfd i

/-- A scale at the slot of the client. -/
def FeedClient.offer (c : FeedClient) (j : Nat) (p : Packet) (written : Bool) : FeedClient :=
  if c.wrfd j then
    if c.fin then { c with wrfd := Function.update c.wrfd j false }
    else if written then
      { c with
        pipe := Function.update c.pipe j (c.pipe j ++ p)
        accepted := Function.update c.accepted j (c.accepted j ++ [p]) }
    else { c with wrfd := Function.update c.wrfd j false }
  else c

/-- The end of the thread. -/
def FeedClient.quit (c : FeedClient) : FeedClient := { c with pc := .quit, fin := true }

/-- One turn of the loop over the scales. -/
def FeedClient.scan (c : FeedClient) : Option FeedClient :=
  match c.pc with
  | .scanning i ready =>
      if scaleCnt ≤ i then some { c with pc := .waiting }
      else if i ∈ ready then
        if c.pipe i = [] then some c.quit
        else some { c with pc := .draining i ready (c.pipe i).length }
      else some { c with pc := .scanning (i + 1) ready }
  | .draining i ready 0 => some { c with pc := .scanning (i + 1) ready }
  | _ => none

/-- One turn of `while(len>0)`: `n` bytes are read and written; a write that fails may
have written a part of them. -/
def FeedClient.transfer (c : FeedClient) (n : Nat) (failed : Option Nat) : Option FeedClient :=
  match c.pc with
  | .draining i ready len =>
      if 0 < n ∧ n ≤ min len feedDataSize ∧ n ≤ (c.pipe i).length then
        let data := (c.pipe i).take n
        let c := { c with pipe := Function.update c.pipe i ((c.pipe i).drop n) }
        match failed with
        | none => some { c with pc := .draining i ready (len - n), socket := c.socket ++ data }
        | some written => some ({ c with socket := c.socket ++ data.take written } : FeedClient).quit
      else none
  | _ => none

def FeedState.setClient (s : FeedState) (c : Nat) (x : FeedClient) : FeedState :=
  { s with client := Function.update s.client c x }

def FeedState.setScale (s : FeedState) (j : Nat) (x : FeedScale) : FeedState :=
  { s with scale := Function.update s.scale j x }

/-- The scale goes to the next slot. -/
def FeedScale.advance (x : FeedScale) : FeedScale :=
  { x with
    current := if x.position + 1 < maxClients then x.current else none
    position := x.position + 1 }

def feedStep (s : FeedState) : FeedAct → Option FeedState
  | .connect c =>
      if c < maxClients ∧ (s.client c).pc = .absent then
        some (s.setClient c { s.client c with pc := .waiting, wrfd := fun j => j < scaleCnt })
      else none
  | .packet j p =>
      if (s.scale j).current = none then
        some (s.setScale j ⟨some p, 0, (s.scale j).distributed ++ [p]⟩)
      else none
  | .visit j c written =>
      match (s.scale j).current with
      | some p =>
          if (s.scale j).position = c then
            some ((s.setClient c ((s.client c).offer j p written)).setScale j (s.scale j).advance)
          else none
      | none => none
  | .select c =>
      if (s.client c).pc = .waiting then
        some (s.setClient c { s.client c with
          pc := .scanning 0 ((s.client c).readyPipes scaleCnt) })
      else none
  | .scan c => ((s.client c).scan scaleCnt).map (s.setClient c)
  | .transfer c n failed => ((s.client c).transfer n failed).map (s.setClient c)

end Steps

@[simp] theorem FeedState.setClient_self
    (s : FeedState)
    (c : Nat)
    (x : FeedClient) :
    (s.setClient c x).client c = x :=
  Function.update_self ..

theorem FeedState.setClient_of_ne
    {c c' : Nat}
    (h : c' ≠ c)
    (s : FeedState)
    (x : FeedClient) :
    (s.setClient c x).client c' = s.client c' :=
  Function.update_of_ne h ..

@[simp] theorem FeedState.setScale_self
    (s : FeedState)
    (j : Nat)
    (x : FeedScale) :
    (s.setScale j x).scale j = x :=
  Function.update_self ..

theorem FeedState.setScale_of_ne
    {j j' : Nat}
    (h : j' ≠ j)
    (s : FeedState)
    (x : FeedScale) :
    (s.setScale j x).scale j' = s.scale j' :=
  Function.update_of_ne h ..

@[simp] theorem FeedState.setScale_client
    (s : FeedState)
    (j : Nat)
    (x : FeedScale) :
    (s.setScale j x).client = s.client :=
  rfl

@[simp] theorem FeedState.setClient_scale
    (s : FeedState)
    (c : Nat)
    (x : FeedClient) :
    (s.setClient c x).scale = s.scale :=
  rfl

/-- At an open write end, the visit closes it or hands the packet over. -/
theorem FeedClient.offer_cases
    (x : FeedClient)
    (j : Nat)
    (p : Packet)
    (written : Bool) :
    (x.wrfd j = false ∧ x.offer j p written = x) ∨
      (x.wrfd j = true ∧
        x.offer j p written = { x with wrfd := Function.update x.wrfd j false }) ∨
      x.wrfd j = true ∧ x.offer j p written = { x with
        pipe := Function.update x.pipe j (x.pipe j ++ p)
        accepted := Function.update x.accepted j (x.accepted j ++ [p]) } := by
  rw [FeedClient.offer]
  split
  · rename_i hwrfd
    split
    · exact Or.inr (Or.inl ⟨hwrfd, rfl⟩)
    · split
      · exact Or.inr (Or.inr ⟨hwrfd, rfl⟩)
      · exact Or.inr (Or.inl ⟨hwrfd, rfl⟩)
  · rename_i hwrfd
    exact Or.inl ⟨(Bool.not_eq_true _).mp hwrfd, rfl⟩

theorem FeedClient.offer_pc
    (x : FeedClient)
    (j : Nat)
    (p : Packet)
    (written : Bool) :
    (x.offer j p written).pc = x.pc := by
  rcases x.offer_cases j p written with ⟨-, hoffer⟩ | ⟨-, hoffer⟩ | ⟨-, hoffer⟩
  all_goals rw [hoffer]

theorem FeedClient.offer_of_ne
    {j k : Nat}
    (hne : j ≠ k)
    (x : FeedClient)
    (p : Packet)
    (written : Bool) :
    (x.offer k p written).accepted j = x.accepted j ∧ (x.offer k p written).wrfd j = x.wrfd j := by
  rcases x.offer_cases k p written with ⟨-, hoffer⟩ | ⟨-, hoffer⟩ | ⟨-, hoffer⟩
  · rw [hoffer]
    exact ⟨rfl, rfl⟩
  · rw [hoffer]
    exact ⟨rfl, Function.update_of_ne hne ..⟩
  · rw [hoffer]
    exact ⟨Function.update_of_ne hne .., rfl⟩

/-! ### Whole packets -/

section WholePackets

/-- The packets of one scale among those that were sent. -/
def sentBy (j : Nat) (sent : List (Nat × Packet)) : List Packet :=
  (sent.filter fun x => x.1 = j).map Prod.snd

theorem sentBy_append
    (j : Nat)
    (sent more : List (Nat × Packet)) :
    sentBy j (sent ++ more) = sentBy j sent ++ sentBy j more := by
  simp [sentBy]

theorem sentBy_map
    (j i : Nat)
    (packets : List Packet) :
    sentBy j (packets.map fun p => (i, p)) = if j = i then packets else [] := by
  by_cases h : j = i
  · simp [sentBy, List.filter_map, Function.comp_def, h]
  · simp [sentBy, List.filter_map, Function.comp_def, h, Ne.symm h]

/-- The thread is not copying. -/
def FeederPc.Idle : FeederPc → Prop
  | .absent => True
  | .waiting => True
  | .scanning _ _ => True
  | .draining _ _ _ => False
  | .quit => False

/-- How the bytes of a client are made up of packets: `sent` is complete; the packets `cur`
of the scale `i` are being copied, up to `cut`; the others are queued. -/
structure FeedClient.Feeds (c : FeedClient) (sent : List (Nat × Packet)) (i : Nat)
    (cur : List Packet) (cut rest : List UInt8) (queued : Nat → List Packet) : Prop where
  socket_eq : c.socket = sent.flatMap Prod.snd ++ cut
  cur_eq : cut ++ rest = cur.flatten
  accepted_eq : ∀ j, c.accepted j = sentBy j sent ++ (if j = i then cur else []) ++ queued j
  pipe_eq : c.pc ≠ .quit → ∀ j, c.pipe j = (if j = i then rest else []) ++ (queued j).flatten
  draining : ∀ i' ready len, c.pc = .draining i' ready len → i' = i ∧ len = rest.length
  idle : c.pc.Idle → cur = []

/-- The bytes of the client are packets and one part of a packet at most. -/
def FeedClient.Whole (c : FeedClient) : Prop :=
  ∃ sent i cur cut rest queued, c.Feeds sent i cur cut rest queued

variable {c c' : FeedClient} {sent : List (Nat × Packet)} {i : Nat} {cur : List Packet}
variable {cut rest : List UInt8} {queued : Nat → List Packet}

theorem FeedClient.Feeds.nothing_cut
    (h : c.Feeds sent i cur cut rest queued)
    (hidle : c.pc.Idle) :
    cut = [] ∧ rest = [] := by
  have hcur := h.cur_eq
  rw [h.idle hidle, List.flatten_nil] at hcur
  exact List.append_eq_nil_iff.mp hcur

/-- The thread moves on without touching a byte. -/
theorem FeedClient.Feeds.move
    (h : c.Feeds sent i cur cut rest queued)
    (hidle : c.pc.Idle)
    (pc : FeederPc)
    (hpc : pc.Idle ∨ pc = .quit)
    (wrfd : Nat → Bool)
    (fin : Bool) :
    ({ c with pc := pc, wrfd := wrfd, fin := fin } : FeedClient).Feeds sent i cur cut rest
      queued where
  socket_eq := h.socket_eq
  cur_eq := h.cur_eq
  accepted_eq := h.accepted_eq
  pipe_eq := by
    intro _
    refine h.pipe_eq ?_
    intro hquit
    rw [hquit] at hidle
    exact hidle
  draining := by
    intro i' ready len hdrain
    simp only at hdrain
    subst hdrain
    rcases hpc with hpc | hpc
    · exact hpc.elim
    · cases hpc
  idle := fun _ => h.idle hidle

theorem FeedClient.Feeds.setWrfd
    (h : c.Feeds sent i cur cut rest queued)
    (wrfd : Nat → Bool) :
    ({ c with wrfd := wrfd } : FeedClient).Feeds sent i cur cut rest queued :=
  ⟨h.socket_eq, h.cur_eq, h.accepted_eq, h.pipe_eq, h.draining, h.idle⟩

theorem FeedClient.Whole.offer
    (h : c.Whole)
    (j : Nat)
    (p : Packet)
    (written : Bool) :
    (c.offer j p written).Whole := by
  obtain ⟨sent, i, cur, cut, rest, queued, h⟩ := h
  rcases c.offer_cases j p written with ⟨-, hoffer⟩ | ⟨-, hoffer⟩ | ⟨-, hoffer⟩
  · rw [hoffer]
    exact ⟨sent, i, cur, cut, rest, queued, h⟩
  · rw [hoffer]
    exact ⟨sent, i, cur, cut, rest, queued, h.setWrfd _⟩
  · rw [hoffer]
    refine ⟨sent, i, cur, cut, rest, Function.update queued j (queued j ++ [p]),
      h.socket_eq, h.cur_eq, ?_, ?_, h.draining, h.idle⟩
    · intro k
      by_cases hk : k = j
      · subst hk
        simp [h.accepted_eq]
      · simp [hk, h.accepted_eq]
    · intro hquit k
      by_cases hk : k = j
      · subst hk
        simp [h.pipe_eq hquit]
      · simp [hk, h.pipe_eq hquit]

/-- All that is queued in a pipe is going to be copied. -/
theorem FeedClient.Feeds.begin
    (h : c.Feeds sent i cur cut rest queued)
    (hidle : c.pc.Idle)
    (k : Nat)
    (ready : List Nat) :
    ({ c with pc := .draining k ready (c.pipe k).length } : FeedClient).Feeds sent k (queued k) []
      (c.pipe k) (Function.update queued k []) := by
  have hcur := h.idle hidle
  have hrest := (h.nothing_cut hidle).2
  have hnot : c.pc ≠ .quit := by
    intro hquit
    rw [hquit] at hidle
    exact hidle
  have hpipe (j : Nat) : c.pipe j = (queued j).flatten := by
    rw [h.pipe_eq hnot, hrest]
    simp
  refine ⟨?_, ?_, ?_, ?_, ?_, ?_⟩
  · rw [h.socket_eq, (h.nothing_cut hidle).1]
  · rw [hpipe, List.nil_append]
  · intro j
    by_cases hj : j = k
    · subst hj
      simp [h.accepted_eq, hcur]
    · simp [hj, h.accepted_eq, hcur]
  · intro _ j
    by_cases hj : j = k
    · subst hj
      simp
    · simp [hj, hpipe]
  · intro i' ready' len hdrain
    cases hdrain
    exact ⟨rfl, rfl⟩
  · exact fun hidle' => hidle'.elim

/-- The packets of a drain are complete. -/
theorem FeedClient.Feeds.complete
    (h : c.Feeds sent i cur cut [] queued)
    (hnot : c.pc ≠ .quit)
    (k : Nat)
    (ready : List Nat) :
    ({ c with pc := .scanning k ready } : FeedClient).Feeds
      (sent ++ cur.map fun p => (i, p)) i [] [] [] queued where
  socket_eq := by
    have hcur := h.cur_eq
    rw [List.append_nil] at hcur
    rw [List.flatMap_append, List.append_nil, h.socket_eq, hcur, List.flatMap_map]
    simp [List.flatMap_def]
  cur_eq := rfl
  accepted_eq := by
    intro j
    rw [sentBy_append, sentBy_map, h.accepted_eq]
    simp
  pipe_eq := by
    intro _ j
    rw [h.pipe_eq hnot]
  draining := fun _ _ _ hdrain => by cases hdrain
  idle := fun _ => rfl

theorem FeedClient.Whole.scan
    (h : c.Whole)
    {scaleCnt : Nat}
    (hscan : c.scan scaleCnt = some c') :
    c'.Whole := by
  obtain ⟨sent, i, cur, cut, rest, queued, h⟩ := h
  rw [FeedClient.scan] at hscan
  split at hscan
  · rename_i k ready hpc
    have hidle : c.pc.Idle := by
      rw [hpc]
      exact trivial
    split at hscan
    · obtain rfl := Option.some.inj hscan
      exact ⟨sent, i, cur, cut, rest, queued, h.move hidle .waiting (Or.inl trivial) _ _⟩
    · split at hscan
      · split at hscan
        · obtain rfl := Option.some.inj hscan
          exact ⟨sent, i, cur, cut, rest, queued, h.move hidle .quit (Or.inr rfl) _ _⟩
        · obtain rfl := Option.some.inj hscan
          exact ⟨sent, k, _, [], _, _, h.begin hidle k ready⟩
      · obtain rfl := Option.some.inj hscan
        exact ⟨sent, i, cur, cut, rest, queued,
          h.move hidle (.scanning (k + 1) ready) (Or.inl trivial) _ _⟩
  · rename_i k ready hpc
    obtain rfl := Option.some.inj hscan
    have hrest : rest = [] := by
      have := (h.draining k ready 0 hpc).2
      exact List.length_eq_zero_iff.mp this.symm
    subst hrest
    refine ⟨_, i, [], [], [], queued, h.complete ?_ (k + 1) ready⟩
    rw [hpc]
    exact FeederPc.noConfusion
  · cases hscan

theorem FeedClient.Whole.transfer
    (h : c.Whole)
    {n : Nat}
    {failed : Option Nat}
    (htransfer : c.transfer n failed = some c') :
    c'.Whole := by
  obtain ⟨sent, i, cur, cut, rest, queued, h⟩ := h
  rw [FeedClient.transfer] at htransfer
  split at htransfer
  · rename_i k ready len hpc
    split at htransfer
    · rename_i hn
      obtain ⟨rfl, hlen⟩ := h.draining k ready len hpc
      have hnot : c.pc ≠ .quit := by
        rw [hpc]
        exact FeederPc.noConfusion
      have hpipe := h.pipe_eq hnot k
      rw [if_pos rfl] at hpipe
      have hdata : (c.pipe k).take n = rest.take n := by
        rw [hpipe, List.take_append_of_le_length (by omega)]
      have hleft : (c.pipe k).drop n = rest.drop n ++ (queued k).flatten := by
        rw [hpipe, List.drop_append_of_le_length (by omega)]
      cases failed with
      | none =>
          obtain rfl := Option.some.inj htransfer
          refine ⟨sent, k, cur, cut ++ rest.take n, rest.drop n, queued, ?_, ?_, h.accepted_eq, ?_,
            ?_, ?_⟩
          · simp only
            rw [hdata, h.socket_eq, List.append_assoc]
          · rw [List.append_assoc, List.take_append_drop, h.cur_eq]
          · intro _ j
            by_cases hj : j = k
            · subst hj
              simp [hleft]
            · simp only [Function.update_of_ne hj, hj, if_false]
              rw [h.pipe_eq hnot]
              simp [hj]
          · intro i' ready' len' hdrain
            cases hdrain
            exact ⟨rfl, by rw [List.length_drop, hlen]⟩
          · exact fun hidle => hidle.elim
      | some written =>
          obtain rfl := Option.some.inj htransfer
          refine ⟨sent, k, cur, cut ++ (rest.take n).take written,
            (rest.take n).drop written ++ rest.drop n, queued, ?_, ?_, h.accepted_eq, ?_, ?_, ?_⟩
          · simp only [FeedClient.quit]
            rw [hdata, h.socket_eq, List.append_assoc]
          · rw [List.append_assoc, ← List.append_assoc _ _ (rest.drop n), List.take_append_drop,
              List.take_append_drop, h.cur_eq]
          · exact fun hquit => absurd rfl hquit
          · exact fun _ _ _ hdrain => by cases hdrain
          · exact fun hidle => hidle.elim
    · cases htransfer
  · cases htransfer

end WholePackets

/-! ### A contiguous run of the packets of a scale -/

section Contiguous

/-- The packets that the scale has already brought to the slot. -/
def FeedScale.passed (x : FeedScale) (c : Nat) : List Packet :=
  if x.current ≠ none ∧ x.position ≤ c then x.distributed.dropLast else x.distributed

/-- What was written to a pipe is a run of what the scale distributed, up to now as long
as the pipe is open. -/
structure FeedState.Contiguous (s : FeedState) (c j : Nat) : Prop where
  run : (s.client c).accepted j <:+: (s.scale j).distributed
  up_to_now : (s.client c).wrfd j = true → (s.client c).accepted j <:+ (s.scale j).passed c
  absent : (s.client c).pc = .absent →
    (s.client c).wrfd j = false ∧ (s.client c).accepted j = []
  in_table : (s.client c).pc ≠ .absent → c < maxClients
  current : ∀ p, (s.scale j).current = some p → ∃ before, (s.scale j).distributed = before ++ [p]

variable {s s' : FeedState} {c j : Nat}

/-- A step that keeps the write ends and what was written to them. -/
theorem FeedState.Contiguous.frame
    (h : s.Contiguous c j)
    (hscale : s'.scale j = s.scale j)
    (haccepted : (s'.client c).accepted j = (s.client c).accepted j)
    (hwrfd : (s'.client c).wrfd j = (s.client c).wrfd j)
    (habsent : (s'.client c).pc = .absent ↔ (s.client c).pc = .absent) :
    s'.Contiguous c j where
  run := by
    rw [hscale, haccepted]
    exact h.run
  up_to_now := by
    rw [hscale, haccepted, hwrfd]
    exact h.up_to_now
  absent := by
    rw [haccepted, hwrfd, habsent]
    exact h.absent
  in_table := by
    rw [ne_eq, habsent]
    exact h.in_table
  current := by
    rw [hscale]
    exact h.current

theorem FeedState.Contiguous.packet
    (h : s.Contiguous c j)
    (hnone : (s.scale j).current = none)
    (p : Packet) :
    (s.setScale j ⟨some p, 0, (s.scale j).distributed ++ [p]⟩).Contiguous c j where
  run := by
    rw [FeedState.setScale_self]
    exact h.run.trans (List.prefix_append _ _).isInfix
  up_to_now := by
    intro hopen
    have := h.up_to_now hopen
    rw [FeedScale.passed, if_neg (by simp [hnone])] at this
    rw [FeedState.setScale_self, FeedScale.passed, if_pos ⟨by simp, Nat.zero_le c⟩,
      List.dropLast_concat]
    exact this
  absent := h.absent
  in_table := h.in_table
  current := by
    intro q hq
    rw [FeedState.setScale_self] at hq ⊢
    exact ⟨(s.scale j).distributed, by rw [Option.some.inj hq]⟩

/-- The scale at the slot of the client. -/
theorem FeedState.Contiguous.visit
    (h : s.Contiguous c j)
    {p : Packet}
    (hcurrent : (s.scale j).current = some p)
    (hposition : (s.scale j).position = c)
    (written : Bool) :
    ((s.setClient c ((s.client c).offer j p written)).setScale j
      (s.scale j).advance).Contiguous c j := by
  obtain ⟨before, hbefore⟩ := h.current p hcurrent
  have hpassed : (s.scale j).passed c = before := by
    rw [FeedScale.passed, if_pos ⟨by simp [hcurrent], Nat.le_of_eq hposition⟩, hbefore,
      List.dropLast_concat]
  have hpassed' : (s.scale j).advance.passed c = before ++ [p] := by
    rw [FeedScale.passed, if_neg, ← hbefore]
    · rfl
    · rw [FeedScale.advance]
      simp only
      omega
  have haccepted : ((s.client c).offer j p written).wrfd j = true →
      ((s.client c).offer j p written).accepted j <:+ before ++ [p] := by
    intro hopen
    rcases (s.client c).offer_cases j p written with
      ⟨hwrfd, hoffer⟩ | ⟨-, hoffer⟩ | ⟨hwrfd, hoffer⟩
    · rw [hoffer, hwrfd] at hopen
      cases hopen
    · rw [hoffer] at hopen
      simp at hopen
    · have hsuffix := h.up_to_now hwrfd
      rw [hpassed] at hsuffix
      rw [hoffer]
      simp only [Function.update_self]
      obtain ⟨start, hstart⟩ := hsuffix
      exact ⟨start, by rw [← List.append_assoc, hstart]⟩
  have hclosed : ((s.client c).offer j p written).accepted j = (s.client c).accepted j ∨
      ((s.client c).offer j p written).wrfd j = true := by
    rcases (s.client c).offer_cases j p written with ⟨-, hoffer⟩ | ⟨-, hoffer⟩ | ⟨hwrfd, hoffer⟩
    · exact Or.inl (by rw [hoffer])
    · exact Or.inl (by rw [hoffer])
    · exact Or.inr (by rw [hoffer]; exact hwrfd)
  refine ⟨?_, ?_, ?_, ?_, ?_⟩
  · rw [FeedState.setScale_client, FeedState.setClient_self, FeedState.setScale_self]
    rcases hclosed with hsame | hopen
    · rw [hsame]
      exact h.run
    · have := (haccepted hopen).isInfix
      rw [← hbefore] at this
      exact this
  · rw [FeedState.setScale_client, FeedState.setClient_self, FeedState.setScale_self, hpassed']
    exact haccepted
  · rw [FeedState.setScale_client, FeedState.setClient_self, FeedClient.offer_pc]
    intro habsent
    obtain ⟨hwrfd, hnil⟩ := h.absent habsent
    rw [FeedClient.offer, if_neg (by simp [hwrfd])]
    exact ⟨hwrfd, hnil⟩
  · rw [FeedState.setScale_client, FeedState.setClient_self, FeedClient.offer_pc]
    exact h.in_table
  · intro q hq
    rw [FeedState.setScale_self, FeedScale.advance] at hq
    rw [FeedState.setScale_self, FeedScale.advance]
    simp only at hq
    split at hq
    · exact h.current q hq
    · cases hq

/-- The scale at the slot of another client. -/
theorem FeedState.Contiguous.visit_other
    (h : s.Contiguous c j)
    {d : Nat}
    {p : Packet}
    (hcurrent : (s.scale j).current = some p)
    (hposition : (s.scale j).position = d)
    (hne : d ≠ c)
    (x : FeedClient) :
    ((s.setClient d x).setScale j (s.scale j).advance).Contiguous c j := by
  have hclient : ((s.setClient d x).setScale j (s.scale j).advance).client c = s.client c := by
    rw [FeedState.setScale_client, FeedState.setClient_of_ne hne.symm]
  refine ⟨?_, ?_, ?_, ?_, ?_⟩
  · rw [hclient, FeedState.setScale_self]
    exact h.run
  · rw [hclient, FeedState.setScale_self]
    intro hopen
    have hin := h.in_table fun habsent => by
      rw [(h.absent habsent).1] at hopen
      cases hopen
    have hsuffix := h.up_to_now hopen
    rw [FeedScale.passed, hcurrent] at hsuffix
    rw [FeedScale.passed, FeedScale.advance]
    simp only [hcurrent]
    by_cases hle : d < c
    · rw [if_pos ⟨Option.some_ne_none p, by omega⟩] at hsuffix
      rw [if_pos (by omega : (s.scale j).position + 1 < maxClients),
        if_pos ⟨Option.some_ne_none p, by omega⟩]
      exact hsuffix
    · rw [if_neg (by omega)] at hsuffix
      rw [if_neg (by omega)]
      exact hsuffix
  · rw [hclient]
    exact h.absent
  · rw [hclient]
    exact h.in_table
  · intro q hq
    rw [FeedState.setScale_self, FeedScale.advance] at hq
    rw [FeedState.setScale_self, FeedScale.advance]
    simp only at hq
    split at hq
    · exact h.current q hq
    · cases hq

/-- Another scale at a slot. -/
theorem FeedState.Contiguous.visit_of_other
    (h : s.Contiguous c j)
    {k : Nat}
    (hne : j ≠ k)
    (d : Nat)
    (p : Packet)
    (written : Bool)
    (x : FeedScale) :
    ((s.setClient d ((s.client d).offer k p written)).setScale k x).Contiguous c j := by
  have hscale := FeedState.setScale_of_ne hne (s.setClient d ((s.client d).offer k p written)) x
  by_cases hc : c = d
  · subst hc
    obtain ⟨haccepted, hwrfd⟩ := FeedClient.offer_of_ne hne (s.client c) p written
    refine h.frame hscale ?_ ?_ ?_
    · rw [FeedState.setScale_client, FeedState.setClient_self, haccepted]
    · rw [FeedState.setScale_client, FeedState.setClient_self, hwrfd]
    · rw [FeedState.setScale_client, FeedState.setClient_self, FeedClient.offer_pc]
  · have hclient := FeedState.setClient_of_ne hc s ((s.client d).offer k p written)
    refine h.frame hscale ?_ ?_ ?_
    · rw [FeedState.setScale_client, hclient]
    · rw [FeedState.setScale_client, hclient]
    · rw [FeedState.setScale_client, hclient]

/-- A step of the client's own thread. -/
theorem FeedState.Contiguous.setClient
    (h : s.Contiguous c j)
    {d : Nat}
    {x : FeedClient}
    (haccepted : x.accepted = (s.client d).accepted)
    (hwrfd : x.wrfd = (s.client d).wrfd)
    (hbefore : (s.client d).pc ≠ .absent)
    (hafter : x.pc ≠ .absent) :
    (s.setClient d x).Contiguous c j := by
  by_cases hc : c = d
  · subst hc
    refine h.frame rfl ?_ ?_ ?_
    · rw [FeedState.setClient_self, haccepted]
    · rw [FeedState.setClient_self, hwrfd]
    · rw [FeedState.setClient_self]
      exact iff_of_false hafter hbefore
  · have hclient := FeedState.setClient_of_ne hc s x
    refine h.frame rfl ?_ ?_ ?_
    · rw [hclient]
    · rw [hclient]
    · rw [hclient]

theorem FeedState.Contiguous.connect
    (h : s.Contiguous c j)
    {d : Nat}
    (hd : d < maxClients)
    (habsent : (s.client d).pc = .absent)
    (wrfd : Nat → Bool) :
    (s.setClient d { s.client d with pc := .waiting, wrfd := wrfd }).Contiguous c j := by
  by_cases hc : c = d
  · subst hc
    have hnil := (h.absent habsent).2
    refine ⟨?_, ?_, ?_, fun _ => hd, h.current⟩
    · rw [FeedState.setClient_self, hnil]
      exact List.nil_infix
    · rw [FeedState.setClient_self, hnil]
      exact fun _ => List.nil_suffix
    · rw [FeedState.setClient_self]
      exact fun hcontra => by cases hcontra
  · have hclient := FeedState.setClient_of_ne hc s
      { s.client d with pc := .waiting, wrfd := wrfd }
    refine h.frame rfl ?_ ?_ ?_
    · rw [hclient]
    · rw [hclient]
    · rw [hclient]

theorem FeedClient.scan_frame
    {scaleCnt : Nat}
    {x y : FeedClient}
    (h : x.scan scaleCnt = some y) :
    y.accepted = x.accepted ∧ y.wrfd = x.wrfd ∧ x.pc ≠ .absent ∧ y.pc ≠ .absent := by
  rw [FeedClient.scan] at h
  split at h
  · rename_i i ready hpc
    have hx : x.pc ≠ .absent := by
      rw [hpc]
      exact FeederPc.noConfusion
    split at h
    · obtain rfl := Option.some.inj h
      exact ⟨rfl, rfl, hx, FeederPc.noConfusion⟩
    · split at h
      · split at h
        · obtain rfl := Option.some.inj h
          exact ⟨rfl, rfl, hx, FeederPc.noConfusion⟩
        · obtain rfl := Option.some.inj h
          exact ⟨rfl, rfl, hx, FeederPc.noConfusion⟩
      · obtain rfl := Option.some.inj h
        exact ⟨rfl, rfl, hx, FeederPc.noConfusion⟩
  · rename_i i ready hpc
    obtain rfl := Option.some.inj h
    exact ⟨rfl, rfl, by rw [hpc]; exact FeederPc.noConfusion, FeederPc.noConfusion⟩
  · cases h

theorem FeedClient.transfer_frame
    {n : Nat}
    {failed : Option Nat}
    {x y : FeedClient}
    (h : x.transfer n failed = some y) :
    y.accepted = x.accepted ∧ y.wrfd = x.wrfd ∧ x.pc ≠ .absent ∧ y.pc ≠ .absent := by
  rw [FeedClient.transfer] at h
  split at h
  · rename_i i ready len hpc
    have hx : x.pc ≠ .absent := by
      rw [hpc]
      exact FeederPc.noConfusion
    split at h
    · cases failed with
      | none =>
          obtain rfl := Option.some.inj h
          exact ⟨rfl, rfl, hx, FeederPc.noConfusion⟩
      | some written =>
          obtain rfl := Option.some.inj h
          exact ⟨rfl, rfl, hx, FeederPc.noConfusion⟩
    · cases h
  · cases h

/-- What every step preserves, of all clients. -/
structure FeedState.Inv (s : FeedState) : Prop where
  whole : ∀ c, (s.client c).Whole
  contiguous : ∀ c j, s.Contiguous c j

theorem FeedState.inv_initial : FeedState.initial.Inv where
  whole := fun _ =>
    ⟨[], 0, [], [], [], fun _ => [], rfl, rfl, by simp [FeedState.initial, sentBy],
      by simp [FeedState.initial], by simp [FeedState.initial], fun _ => rfl⟩
  contiguous := fun _ _ =>
    ⟨List.nil_infix, fun _ => List.nil_suffix, fun _ => ⟨rfl, rfl⟩, fun h => absurd rfl h,
      by simp [FeedState.initial]⟩

theorem FeedState.whole_setClient
    (h : ∀ c, (s.client c).Whole)
    {d : Nat}
    {x : FeedClient}
    (hx : x.Whole)
    (c : Nat) :
    ((s.setClient d x).client c).Whole := by
  by_cases hc : c = d
  · subst hc
    rw [FeedState.setClient_self]
    exact hx
  · rw [FeedState.setClient_of_ne hc]
    exact h c

theorem FeedState.Inv.step
    {scaleCnt : Nat}
    {a : FeedAct}
    (h : s.Inv)
    (hstep : feedStep scaleCnt s a = some s') :
    s'.Inv := by
  cases a with
  | connect d =>
      rw [feedStep] at hstep
      split at hstep
      · rename_i hcond
        obtain rfl := Option.some.inj hstep
        have hidle : (s.client d).pc.Idle := by
          rw [hcond.2]
          exact trivial
        obtain ⟨sent, i, cur, cut, rest, queued, hfeeds⟩ := h.whole d
        have hmoved := hfeeds.move hidle .waiting (Or.inl trivial) (fun j => j < scaleCnt)
          (s.client d).fin
        exact ⟨FeedState.whole_setClient h.whole ⟨sent, i, cur, cut, rest, queued, hmoved⟩,
          fun c j => (h.contiguous c j).connect hcond.1 hcond.2 _⟩
      · cases hstep
  | packet j p =>
      rw [feedStep] at hstep
      split at hstep
      · rename_i hnone
        obtain rfl := Option.some.inj hstep
        refine ⟨h.whole, fun c j' => ?_⟩
        by_cases hj : j' = j
        · subst hj
          exact (h.contiguous c j').packet hnone p
        · exact (h.contiguous c j').frame (FeedState.setScale_of_ne hj s _) rfl rfl Iff.rfl
      · cases hstep
  | visit j d written =>
      rw [feedStep] at hstep
      split at hstep
      · rename_i p hcurrent
        split at hstep
        · rename_i hposition
          obtain rfl := Option.some.inj hstep
          refine ⟨fun c => ?_, fun c j' => ?_⟩
          · rw [FeedState.setScale_client]
            exact FeedState.whole_setClient h.whole ((h.whole d).offer j p written) c
          · by_cases hj : j' = j
            · subst hj
              by_cases hc : c = d
              · subst hc
                exact (h.contiguous c j').visit hcurrent hposition written
              · exact (h.contiguous c j').visit_other hcurrent hposition (Ne.symm hc) _
            · exact (h.contiguous c j').visit_of_other hj d p written _
        · cases hstep
      · cases hstep
  | select d =>
      rw [feedStep] at hstep
      split at hstep
      · rename_i hpc
        obtain rfl := Option.some.inj hstep
        have hidle : (s.client d).pc.Idle := by
          rw [hpc]
          exact trivial
        have hbefore : (s.client d).pc ≠ .absent := by
          rw [hpc]
          exact FeederPc.noConfusion
        obtain ⟨sent, i, cur, cut, rest, queued, hfeeds⟩ := h.whole d
        have hmoved := hfeeds.move hidle (.scanning 0 ((s.client d).readyPipes scaleCnt))
          (Or.inl trivial) (s.client d).wrfd (s.client d).fin
        exact ⟨FeedState.whole_setClient h.whole ⟨sent, i, cur, cut, rest, queued, hmoved⟩,
          fun c j => (h.contiguous c j).setClient rfl rfl hbefore FeederPc.noConfusion⟩
      · cases hstep
  | scan d =>
      obtain ⟨x, hx, rfl⟩ := Option.map_eq_some_iff.mp hstep
      obtain ⟨haccepted, hwrfd, hbefore, hafter⟩ := FeedClient.scan_frame hx
      exact ⟨FeedState.whole_setClient h.whole ((h.whole d).scan hx),
        fun c j => (h.contiguous c j).setClient haccepted hwrfd hbefore hafter⟩
  | transfer d n failed =>
      obtain ⟨x, hx, rfl⟩ := Option.map_eq_some_iff.mp hstep
      obtain ⟨haccepted, hwrfd, hbefore, hafter⟩ := FeedClient.transfer_frame hx
      exact ⟨FeedState.whole_setClient h.whole ((h.whole d).transfer hx),
        fun c j => (h.contiguous c j).setClient haccepted hwrfd hbefore hafter⟩

end Contiguous

/-! ### Independence of the other clients -/

section Alone

variable {scaleCnt c : Nat} {s s' t : FeedState} {a a' : FeedAct}

/-- The step of a run in which the client is alone: the other clients do not connect, and
what their writes would do is forgotten. -/
def FeedAct.alone (c : Nat) : FeedAct → Option FeedAct
  | .connect d => if d = c then some (.connect d) else none
  | .packet j p => some (.packet j p)
  | .visit j d written => some (.visit j d (if d = c then written else true))
  | .select d => if d = c then some (.select d) else none
  | .scan d => if d = c then some (.scan d) else none
  | .transfer d n failed => if d = c then some (.transfer d n failed) else none

/-- The client and the scales are in the same state. -/
structure SameFor (c : Nat) (s s' : FeedState) : Prop where
  client_eq : s'.client c = s.client c
  scale_eq : s'.scale = s.scale

theorem SameFor.setClient
    (h : SameFor c s s')
    (x : FeedClient) :
    SameFor c (s.setClient c x) (s'.setClient c x) where
  client_eq := by rw [FeedState.setClient_self, FeedState.setClient_self]
  scale_eq := h.scale_eq

theorem SameFor.setClient_other
    (h : SameFor c s s')
    {d : Nat}
    (hd : d ≠ c)
    (x : FeedClient) :
    SameFor c (s.setClient d x) s' where
  client_eq := by
    rw [FeedState.setClient_of_ne hd.symm]
    exact h.client_eq
  scale_eq := h.scale_eq

theorem SameFor.setClient_both
    (h : SameFor c s s')
    {d : Nat}
    (hd : d ≠ c)
    (x y : FeedClient) :
    SameFor c (s.setClient d x) (s'.setClient d y) where
  client_eq := by
    rw [FeedState.setClient_of_ne hd.symm, FeedState.setClient_of_ne hd.symm]
    exact h.client_eq
  scale_eq := h.scale_eq

theorem SameFor.setScale
    (h : SameFor c s s')
    (j : Nat)
    (x : FeedScale) :
    SameFor c (s.setScale j x) (s'.setScale j x) where
  client_eq := h.client_eq
  scale_eq := by rw [FeedState.setScale, FeedState.setScale, h.scale_eq]

/-- A step of another client. -/
theorem SameFor.other
    (h : SameFor c s s')
    (hstep : feedStep scaleCnt s a = some t)
    (halone : a.alone c = none) :
    SameFor c t s' := by
  have hother {d : Nat} {b : FeedAct} (hd : (if d = c then some b else none) = none) : d ≠ c := by
    rintro rfl
    simp at hd
  cases a with
  | connect d =>
      rw [feedStep] at hstep
      split at hstep
      · obtain rfl := Option.some.inj hstep
        exact h.setClient_other (hother halone) _
      · cases hstep
  | packet j p => cases halone
  | visit j d written => cases halone
  | select d =>
      rw [feedStep] at hstep
      split at hstep
      · obtain rfl := Option.some.inj hstep
        exact h.setClient_other (hother halone) _
      · cases hstep
  | scan d =>
      obtain ⟨x, -, rfl⟩ := Option.map_eq_some_iff.mp hstep
      exact h.setClient_other (hother halone) x
  | transfer d n failed =>
      obtain ⟨x, -, rfl⟩ := Option.map_eq_some_iff.mp hstep
      exact h.setClient_other (hother halone) x

/-- A step of the client or of a scale. -/
theorem SameFor.step
    (h : SameFor c s s')
    (hstep : feedStep scaleCnt s a = some t)
    (halone : a.alone c = some a') :
    ∃ t', feedStep scaleCnt s' a' = some t' ∧ SameFor c t t' := by
  have hown {d : Nat} {b : FeedAct} (hd : (if d = c then some b else none) = some a') :
      d = c ∧ a' = b := by
    split at hd
    · rename_i hdc
      exact ⟨hdc, (Option.some.inj hd).symm⟩
    · cases hd
  cases a with
  | connect d =>
      obtain ⟨rfl, rfl⟩ := hown halone
      rw [feedStep] at hstep ⊢
      rw [h.client_eq]
      split at hstep
      · rename_i hcond
        obtain rfl := Option.some.inj hstep
        exact ⟨_, if_pos hcond, h.setClient _⟩
      · cases hstep
  | packet j p =>
      obtain rfl := Option.some.inj halone
      rw [feedStep] at hstep ⊢
      rw [h.scale_eq]
      split at hstep
      · rename_i hcond
        obtain rfl := Option.some.inj hstep
        exact ⟨_, if_pos hcond, h.setScale j _⟩
      · cases hstep
  | visit j d written =>
      obtain rfl := Option.some.inj halone
      rw [feedStep] at hstep ⊢
      rw [h.scale_eq]
      split at hstep
      · split at hstep
        · rename_i p _ hposition
          obtain rfl := Option.some.inj hstep
          refine ⟨_, if_pos hposition, ?_⟩
          by_cases hd : d = c
          · subst hd
            rw [if_pos rfl, h.client_eq]
            exact (h.setClient _).setScale j _
          · exact (h.setClient_both hd _ _).setScale j _
        · cases hstep
      · cases hstep
  | select d =>
      obtain ⟨rfl, rfl⟩ := hown halone
      rw [feedStep] at hstep ⊢
      rw [h.client_eq]
      split at hstep
      · rename_i hcond
        obtain rfl := Option.some.inj hstep
        exact ⟨_, if_pos hcond, h.setClient _⟩
      · cases hstep
  | scan d =>
      obtain ⟨rfl, rfl⟩ := hown halone
      obtain ⟨x, hx, rfl⟩ := Option.map_eq_some_iff.mp hstep
      refine ⟨s'.setClient d x, ?_, h.setClient x⟩
      rw [feedStep, h.client_eq, hx]
      rfl
  | transfer d n failed =>
      obtain ⟨rfl, rfl⟩ := hown halone
      obtain ⟨x, hx, rfl⟩ := Option.map_eq_some_iff.mp hstep
      refine ⟨s'.setClient d x, ?_, h.setClient x⟩
      rw [feedStep, h.client_eq, hx]
      rfl

/-- The client alone goes through the same states. -/
theorem SameFor.run
    {acts : List FeedAct}
    (h : SameFor c s s')
    (hrun : runSteps (feedStep scaleCnt) s acts = some t) :
    ∃ t', runSteps (feedStep scaleCnt) s' (acts.filterMap (FeedAct.alone c)) = some t' ∧
      SameFor c t t' := by
  induction acts generalizing s s' with
  | nil =>
      obtain rfl := Option.some.inj hrun
      exact ⟨s', rfl, h⟩
  | cons a rest ih =>
      rw [runSteps] at hrun
      cases hstep : feedStep scaleCnt s a with
      | none => simp [hstep] at hrun
      | some s₁ =>
          rw [hstep] at hrun
          cases halone : a.alone c with
          | none =>
              rw [List.filterMap_cons_none halone]
              exact ih (h.other hstep halone) hrun
          | some a' =>
              obtain ⟨s₁', hstep', hsame⟩ := h.step hstep halone
              obtain ⟨t', hrun', hend⟩ := ih hsame hrun
              refine ⟨t', ?_, hend⟩
              rw [List.filterMap_cons_some halone, runSteps, hstep']
              exact hrun'

end Alone

/-! ### The stream of a client -/

section Stream

/-- A part of a concatenation is some of the words and a part of the next. -/
theorem exists_of_prefix_flatten
    {packets : List Packet}
    {cut : List UInt8}
    (h : cut <+: packets.flatten) :
    ∃ whole more part, packets = whole ++ more ∧ cut = whole.flatten ++ part ∧
      (part = [] ∨ ∃ p rest, more = p :: rest ∧ part <+: p) := by
  induction packets generalizing cut with
  | nil =>
      obtain rfl : cut = [] := List.prefix_nil.mp h
      exact ⟨[], [], [], rfl, rfl, Or.inl rfl⟩
  | cons p packets ih =>
      obtain ⟨tail, heq⟩ := h
      rw [List.flatten_cons, List.append_eq_append_iff] at heq
      rcases heq with ⟨tail', hp, -⟩ | ⟨cut', hcut, hrest⟩
      · exact ⟨[], p :: packets, cut, rfl, rfl, Or.inr ⟨p, packets, rfl, tail', hp.symm⟩⟩
      · obtain ⟨whole, more, part, rfl, rfl, hpart⟩ := ih ⟨tail, hrest.symm⟩
        exact ⟨p :: whole, more, part, rfl, by simp [hcut], hpart⟩

/-- The socket has complete packets and a part of one packet at most; those of each scale
are the first that were written to its pipe. -/
theorem FeedClient.Whole.packets
    {c : FeedClient}
    (h : c.Whole) :
    ∃ (sent : List (Nat × Packet)) (part : List UInt8),
      c.socket = sent.flatMap Prod.snd ++ part ∧
      (∀ j, sentBy j sent <+: c.accepted j) ∧
      (part = [] ∨ ∃ i p, part <+: p ∧ sentBy i sent ++ [p] <+: c.accepted i) ∧
      (c.pc.Idle → part = []) := by
  obtain ⟨sent, i, cur, cut, rest, queued, h⟩ := h
  obtain ⟨whole, more, part, rfl, rfl, hpart⟩ := exists_of_prefix_flatten ⟨rest, h.cur_eq⟩
  refine ⟨sent ++ whole.map fun p => (i, p), part, ?_, ?_, ?_, ?_⟩
  · rw [h.socket_eq, List.flatMap_append, List.flatMap_map, List.append_assoc]
    simp [List.flatMap_def]
  · intro j
    rw [h.accepted_eq, sentBy_append, sentBy_map]
    by_cases hj : j = i
    · rw [if_pos hj, if_pos hj]
      exact ⟨more ++ queued j, by simp⟩
    · rw [if_neg hj, if_neg hj]
      exact ⟨queued j, by simp⟩
  · rcases hpart with hnil | ⟨p, tail, rfl, hp⟩
    · exact Or.inl hnil
    · refine Or.inr ⟨i, p, hp, ?_⟩
      rw [h.accepted_eq, sentBy_append, sentBy_map, if_pos rfl, if_pos rfl]
      exact ⟨tail ++ queued i, by simp⟩
  · intro hidle
    exact (List.append_eq_nil_iff.mp (h.nothing_cut hidle).1).2

/-- **The stream of a client.**  It consists of whole packets, and of a part of one more
while that packet is being copied or if the copying failed; from each scale come, in order
and once each, the first packets of those written to its pipe, which are a contiguous run
of the packets of the scale.  The client alone would have received the same. -/
theorem client_receives_packets
    {scaleCnt : Nat}
    {acts : List FeedAct}
    {s : FeedState}
    (hrun : runSteps (feedStep scaleCnt) .initial acts = some s)
    (c : Nat) :
    (∃ (sent : List (Nat × Packet)) (part : List UInt8),
      (s.client c).socket = sent.flatMap Prod.snd ++ part ∧
      (∀ j, sentBy j sent <+: (s.client c).accepted j) ∧
      (part = [] ∨ ∃ i p, part <+: p ∧ sentBy i sent ++ [p] <+: (s.client c).accepted i) ∧
      ((s.client c).pc.Idle → part = [])) ∧
    (∀ j, (s.client c).accepted j <:+: (s.scale j).distributed ∧
      ((s.client c).wrfd j = true → (s.client c).accepted j <:+ (s.scale j).passed c)) ∧
    ∃ s', runSteps (feedStep scaleCnt) .initial (acts.filterMap (FeedAct.alone c)) = some s' ∧
      s'.client c = s.client c := by
  have hinv : s.Inv :=
    runSteps_keeps FeedState.inv_initial (fun _ _ _ h hstep => h.step hstep) hrun
  obtain ⟨s', hrun', hsame⟩ := SameFor.run (SameFor.mk rfl rfl) hrun
  refine ⟨(hinv.whole c).packets, ?_, s', hrun', hsame.client_eq⟩
  intro j
  exact ⟨(hinv.contiguous c j).run, (hinv.contiguous c j).up_to_now⟩

/-- Two scales and two clients; the packets of the scales are interleaved, and the second
client's pipe is full. -/
def twoScalesTwoClients : List FeedAct :=
  [.connect 0, .connect 1, .packet 0 [1, 2], .visit 0 0 true, .packet 1 [3], .visit 1 0 true,
    .visit 0 1 false, .visit 1 1 true, .select 0, .scan 0, .transfer 0 1 none, .visit 0 2 true,
    .visit 0 3 true, .packet 0 [4], .visit 0 0 true, .transfer 0 1 none, .scan 0, .scan 0,
    .transfer 0 1 none]

theorem two_scales_two_clients :
    ∃ s, runSteps (feedStep 2) .initial twoScalesTwoClients = some s ∧
      (s.client 0).socket = [1, 2, 3] ∧
      ∃ s', runSteps (feedStep 2) .initial (twoScalesTwoClients.filterMap (FeedAct.alone 0)) =
        some s' ∧ s'.client 0 = s.client 0 := by
  have hrun : runSteps (feedStep 2) .initial twoScalesTwoClients = some _ := rfl
  exact ⟨_, hrun, rfl, (client_receives_packets hrun 0).2.2⟩

end Stream

end Scaled
end MatrixBin
