import MatrixBin.Devdrvd.ClientPool
import MatrixBin.Library.BoundedQueue
import MatrixBin.Library.FrameMerge
import MatrixBin.Library.HandleTable

/-!
# Dispatching server data to the clients (`devdrvd.c`, `control_daemon.c`)

The main loop waits for a data server to become readable, reads what is there in pieces of at
most 1024 bytes and writes each piece to the pipe of every registered client.  `packet_feed`,
one thread for each client, copies the pipe to the socket of the client, again at most 1024
bytes at a time, and answers whatever the client sends with a message.  Pipes and sockets are
bounded queues that are written without blocking.

A section under the lock of a slot is one step, and so is one `read` or `write`; the steps of
the threads are interleaved in any order.  How much of a stream is there at `FIONREAD`, and
what a write reports, are inputs.  A server is a connection: one that is made anew after a
crash is another server.
-/

namespace MatrixBin
namespace Devdrvd

open Library

/-- `sizeof(data)` -/
def dataSize : Nat := 1024

/-- `"Unknown command recieved.\n"` -/
def msgError : List UInt8 := "Unknown command recieved.\n".toUTF8.toList

/-- Where the main loop is: at `pselect`, in the loop that reads `len` more bytes of a server,
or before slot `i` with a piece to write. -/
inductive MainPc (ι : Type)
  | selecting
  | serving (server : ι) (len : Nat)
  | dispatching (server : ι) (len : Nat) (piece : List UInt8) (i : Nat)
deriving DecidableEq

/-- A registered client: its pipe, the bytes `packet_feed` has read from it and not written
yet, its socket, the bytes taken from there, those it sent, and the number of pieces read
before its registration. -/
structure Feed (pipeSize socketSize : Nat) where
  pipe : BoundedQueue UInt8 pipeSize
  data : List UInt8
  socket : BoundedQueue UInt8 socketSize
  taken : List UInt8
  input : List UInt8
  since : Nat

/-- What the servers have yet to send, the pieces read so far, the pool, the clients that were
disconnected, and the main loop. -/
structure Hub (ι : Type) (pipeSize socketSize : Nat) where
  unread : ι → List UInt8
  log : List (ι × List UInt8)
  pool : Nat → Option (Feed pipeSize socketSize)
  gone : List (Feed pipeSize socketSize)
  main : MainPc ι

/-- `lost` is a connection to a server that breaks; `quit` ends a thread because its client has
closed the connection or because `pselect` failed. -/
inductive HubAct (ι : Type)
  | select (server : ι) (len : Nat)
  | lost (server : ι)
  | read
  | write (result : WriteResult)
  | register (i : Nat)
  | feedRead (i len : Nat)
  | feedWrite (i : Nat) (result : WriteResult)
  | answer (i : Nat) (result : WriteResult)
  | quit (i : Nat)
  | clientSends (i : Nat) (bytes : List UInt8)
  | clientTakes (i n : Nat)

section Hubs

variable {ι : Type} {pipeSize socketSize : Nat}

/-- The bytes that the socket has accepted. -/
def Feed.sent (c : Feed pipeSize socketSize) : List UInt8 := c.taken ++ c.socket.content

/-- The bytes on their way, oldest first. -/
def Feed.flow (c : Feed pipeSize socketSize) : List UInt8 := c.sent ++ c.data ++ c.pipe.content

def Feed.registered (since : Nat) : Feed pipeSize socketSize where
  pipe := .empty
  data := []
  socket := .empty
  taken := []
  input := []
  since := since

/-- Every server sends a stream of frames. -/
def Hub.initial (frames : ι → List (List UInt8)) : Hub ι pipeSize socketSize where
  unread := fun server => (frames server).flatten
  log := []
  pool := fun _ => none
  gone := []
  main := .selecting

/-- The piece that the main loop has yet to write to the pipe of slot `i`. -/
def Hub.owed (s : Hub ι pipeSize socketSize) (i : Nat) : List (ι × List UInt8) :=
  match s.main with
  | .dispatching server _ piece j => if j ≤ i then [(server, piece)] else []
  | _ => []

/-- The pieces that a client registered now in slot `i` does not get. -/
def Hub.missed (s : Hub ι pipeSize socketSize) (i : Nat) : Nat := s.log.length - (s.owed i).length

/-- Where the main loop is after slot `i`. -/
def MainPc.afterSlot (server : ι) (len : Nat) (piece : List UInt8) (i : Nat) : MainPc ι :=
  if i + 1 < devdrvdMaxClients then .dispatching server len piece (i + 1)
  else if len = 0 then .selecting
  else .serving server len

def Hub.setFeed (s : Hub ι pipeSize socketSize) (i : Nat) (c : Feed pipeSize socketSize) :
    Hub ι pipeSize socketSize :=
  { s with pool := Function.update s.pool i (some c) }

/-- `unregister_client` -/
def Hub.unregister (s : Hub ι pipeSize socketSize) (i : Nat) (c : Feed pipeSize socketSize) :
    Hub ι pipeSize socketSize :=
  { s with pool := Function.update s.pool i none, gone := s.gone ++ [c] }

/-- The `write` of `packet_feed`; a negative result ends the thread. -/
def Hub.writeSocket (s : Hub ι pipeSize socketSize) (i : Nat) (c : Feed pipeSize socketSize)
    (text : List UInt8) : WriteResult → Option (Hub ι pipeSize socketSize)
  | .wouldBlock => some (s.unregister i c)
  | .wrote n => (c.socket.write text (.wrote n)).map fun socket => s.setFeed i { c with socket }

def hubStep [DecidableEq ι] (s : Hub ι pipeSize socketSize) :
    HubAct ι → Option (Hub ι pipeSize socketSize)
  | .select server len =>
      if s.main = .selecting ∧ 0 < len ∧ len ≤ (s.unread server).length then
        some { s with main := .serving server len }
      else none
  | .lost server =>
      match s.main with
      | .selecting => some { s with unread := Function.update s.unread server [] }
      | .serving server' _ =>
          if server' = server then
            some { s with unread := Function.update s.unread server [], main := .selecting }
          else none
      | .dispatching .. => none
  | .read =>
      match s.main with
      | .serving server len =>
          let readen := min len dataSize
          let piece := (s.unread server).take readen
          some { s with
            unread := Function.update s.unread server ((s.unread server).drop readen)
            log := s.log ++ [(server, piece)]
            main := .dispatching server (len - readen) piece 0 }
      | _ => none
  | .write result =>
      match s.main with
      | .dispatching server len piece i =>
          match s.pool i with
          | none => some { s with main := .afterSlot server len piece i }
          -- what the pipe did not take is not written again
          | some c => (c.pipe.write piece result).map fun pipe =>
              { s.setFeed i { c with pipe } with main := .afterSlot server len piece i }
      | _ => none
  | .register i =>
      if i < devdrvdMaxClients ∧ (s.pool i).isNone then
        some (s.setFeed i (.registered (s.missed i)))
      else none
  | .feedRead i len =>
      match s.pool i with
      | some c =>
          if c.data = [] ∧ 0 < len ∧ len ≤ c.pipe.content.length then
            let readen := min len dataSize
            some (s.setFeed i
              { c with data := c.pipe.content.take readen, pipe := c.pipe.drop readen })
          else none
      | none => none
  | .feedWrite i result =>
      match s.pool i with
      | some c =>
          -- what the socket did not take is not written again
          if c.data = [] then none else s.writeSocket i { c with data := [] } c.data result
      | none => none
  | .answer i result =>
      match s.pool i with
      | some c =>
          -- a longer input overruns the array
          if c.data = [] ∧ c.input ≠ [] ∧ c.input.length ≤ dataSize then
            s.writeSocket i { c with input := [] } msgError result
          else none
      | none => none
  | .quit i =>
      match s.pool i with
      | some c => if c.data = [] then some (s.unregister i c) else none
      | none => none
  | .clientSends i bytes =>
      match s.pool i with
      | some c => some (s.setFeed i { c with input := c.input ++ bytes })
      | none => none
  | .clientTakes i n =>
      match s.pool i with
      | some c =>
          some (s.setFeed i
            { c with
              taken := c.taken ++ c.socket.content.take n
              socket := c.socket.drop n })
      | none => none

/-- A client that is or was registered. -/
def Hub.Has (s : Hub ι pipeSize socketSize) (c : Feed pipeSize socketSize) : Prop :=
  (∃ i, s.pool i = some c) ∨ c ∈ s.gone

/-! ### Bytes in order -/

/-- The piece to be written next, and the slot. -/
def MainPc.pending : MainPc ι → Option (List UInt8 × Nat)
  | .dispatching _ _ piece i => some (piece, i)
  | _ => none

/-- The write of the main loop takes the whole piece, if there is a client. -/
def Hub.PipeTakes (s : Hub ι pipeSize socketSize) (result : WriteResult) : Prop :=
  ∀ w ∈ s.main.pending, ∀ c ∈ s.pool w.2, result = .wrote w.1.length

instance (s : Hub ι pipeSize socketSize) (result : WriteResult) :
    Decidable (s.PipeTakes result) :=
  inferInstanceAs (Decidable (∀ w ∈ s.main.pending, ∀ c ∈ s.pool w.2, result = .wrote w.1.length))

/-- The condition on a step: a write to a pipe takes all, a write to a socket takes all or
fails, and clients send nothing. -/
def WritesWhole (s : Hub ι pipeSize socketSize) : HubAct ι → Prop
  | .write result => s.PipeTakes result
  | .feedWrite i result => ∀ c ∈ s.pool i, result = .wouldBlock ∨ result = .wrote c.data.length
  | .clientSends .. => False
  | _ => True

instance (s : Hub ι pipeSize socketSize) : (a : HubAct ι) → Decidable (WritesWhole s a)
  | .write result => inferInstanceAs (Decidable (s.PipeTakes result))
  | .feedWrite i result =>
      inferInstanceAs
        (Decidable (∀ c ∈ s.pool i, result = .wouldBlock ∨ result = .wrote c.data.length))
  | .clientSends .. => isFalse id
  | .select .. | .lost .. | .read | .register .. | .feedRead .. | .answer .. | .quit ..
  | .clientTakes .. => isTrue trivial

/-- A client received a first part of the bytes read since its registration. -/
structure Received (log : List (ι × List UInt8)) (c : Feed pipeSize socketSize) : Prop where
  since_le : c.since ≤ log.length
  sent : c.sent <+: joined (log.drop c.since)

/-- What a client has been given and what it is owed are the bytes read since its
registration, in order. -/
structure InFlow (log owed : List (ι × List UInt8)) (i : Nat)
    (c : Feed pipeSize socketSize) : Prop where
  in_range : i < devdrvdMaxClients
  quiet : c.input = []
  since_le : c.since ≤ log.length
  flow : c.flow ++ joined owed = joined (log.drop c.since)

structure Fed (s : Hub ι pipeSize socketSize) : Prop where
  owed : ∀ i, i < devdrvdMaxClients → s.owed i <:+ s.log
  pool : ∀ i c, s.pool i = some c → InFlow s.log (s.owed i) i c
  gone : ∀ c ∈ s.gone, Received s.log c

section Steps

variable {s e : Hub ι pipeSize socketSize} {i : Nat} {c c' : Feed pipeSize socketSize}

theorem InFlow.received
    {log owed : List (ι × List UInt8)}
    (h : InFlow log owed i c) :
    Received log c where
  since_le := h.since_le
  sent := by
    have hflow := h.flow
    rw [Feed.flow, List.append_assoc, List.append_assoc] at hflow
    exact ⟨_, hflow⟩

/-- Pieces read later change nothing. -/
theorem Received.append
    {log : List (ι × List UInt8)}
    (h : Received log c)
    (later : List (ι × List UInt8)) :
    Received (log ++ later) c where
  since_le := by
    rw [List.length_append]
    exact h.since_le.trans (Nat.le_add_right _ _)
  sent := by
    rw [List.drop_append_of_le_length h.since_le, joined_append]
    exact h.sent.trans (List.prefix_append _ _)

theorem owed_of_main
    {server : ι}
    {len j : Nat}
    {piece : List UInt8}
    (h : s.main = .dispatching server len piece j) :
    s.owed i = if j ≤ i then [(server, piece)] else [] := by
  simp [Hub.owed, h]

theorem owed_eq_nil
    (h : ∀ server len piece j, s.main ≠ .dispatching server len piece j) :
    s.owed i = [] := by
  unfold Hub.owed
  split
  · rename_i server len piece j hmain
    exact absurd hmain (h server len piece j)
  · rfl

/-- Behind a slot the piece is owed to the later slots only. -/
theorem owed_afterSlot
    {server : ι}
    {len j : Nat}
    {piece : List UInt8}
    (hmain : s.main = .dispatching server len piece j)
    (hi : i < devdrvdMaxClients)
    (he : e.main = .afterSlot server len piece j) :
    e.owed i = if i = j then [] else s.owed i := by
  rw [owed_of_main hmain]
  unfold MainPc.afterSlot at he
  split_ifs at he with hnext hlen
  · rw [owed_of_main he]
    split_ifs <;> first | rfl | omega
  · rw [owed_eq_nil (by simp [he])]
    split_ifs <;> first | rfl | omega
  · rw [owed_eq_nil (by simp [he])]
    split_ifs <;> first | rfl | omega

/-- What a step of one client or of its thread does: bytes move along in order if the step
meets the condition, or the client leaves. -/
inductive FeedStep (s : Hub ι pipeSize socketSize) (i : Nat) (whole : Prop) :
    Hub ι pipeSize socketSize → Prop
  | moves {c c' : Feed pipeSize socketSize}
      (hc : s.pool i = some c)
      (hsince : c'.since = c.since)
      (hflow : whole → c.input = [] → c'.input = [] ∧ c'.flow = c.flow) :
      FeedStep s i whole (s.setFeed i c')
  | leaves {c c' : Feed pipeSize socketSize}
      (hc : s.pool i = some c)
      (hsince : c'.since = c.since)
      (hsent : c'.sent = c.sent) :
      FeedStep s i whole (s.unregister i c')

/-- The slot of a step of one client. -/
def HubAct.client : HubAct ι → Option Nat
  | .feedRead i _ | .feedWrite i _ | .answer i _ | .quit i | .clientSends i _
  | .clientTakes i _ => some i
  | _ => none

theorem feedStep_of_writeSocket
    (hc : s.pool i = some c)
    {text : List UInt8}
    {result : WriteResult}
    (hstep : s.writeSocket i c' text result = some e)
    (hsince : c'.since = c.since)
    (hsent : c'.sent = c.sent)
    {whole : Prop}
    (hflow : whole → c.input = [] → c'.input = [] ∧
      (result = .wouldBlock ∨ result = .wrote text.length) ∧
        c'.sent ++ text ++ c'.data ++ c'.pipe.content = c.flow) :
    FeedStep s i whole e := by
  cases result with
  | wouldBlock =>
      obtain rfl := Option.some.inj hstep
      exact .leaves hc hsince hsent
  | wrote n =>
      obtain ⟨socket, hsocket, rfl⟩ := Option.map_eq_some_iff.mp hstep
      refine .moves hc hsince fun hwhole hinput => ?_
      obtain ⟨hinput', hresult, hbytes⟩ := hflow hwhole hinput
      obtain rfl : n = text.length := by simpa using hresult
      have hcontent := BoundedQueue.content_of_wrote_all hsocket
      refine ⟨hinput', ?_⟩
      rw [← hbytes]
      simp [Feed.flow, Feed.sent, hcontent]

/-- A client takes its steps while it is registered. -/
theorem pool_of_hubStep
    [DecidableEq ι]
    {a : HubAct ι}
    (ha : a.client = some i)
    (hstep : hubStep s a = some e) :
    ∃ c, s.pool i = some c := by
  rw [← Option.ne_none_iff_exists']
  intro hnone
  cases a <;> cases ha <;> simp [hubStep, hnone] at hstep

theorem feedStep_of_hubStep
    [DecidableEq ι]
    {a : HubAct ι}
    (ha : a.client = some i)
    (hstep : hubStep s a = some e) :
    FeedStep s i (WritesWhole s a) e := by
  obtain ⟨c, hc⟩ := pool_of_hubStep ha hstep
  cases a with
  | feedRead j len =>
      obtain rfl := Option.some.inj ha
      simp only [hubStep, hc] at hstep
      split_ifs at hstep with hready
      obtain rfl := Option.some.inj hstep
      exact .moves hc rfl fun _ hinput => ⟨hinput, by simp [Feed.flow, Feed.sent, hready.1]⟩
  | feedWrite j result =>
      obtain rfl := Option.some.inj ha
      simp only [hubStep, hc] at hstep
      split_ifs at hstep
      refine feedStep_of_writeSocket hc hstep rfl rfl fun hwhole hinput => ?_
      exact ⟨hinput, hwhole c hc, by simp [Feed.flow, Feed.sent]⟩
  | answer j result =>
      obtain rfl := Option.some.inj ha
      simp only [hubStep, hc] at hstep
      split_ifs at hstep with hready
      exact feedStep_of_writeSocket hc hstep rfl rfl fun _ hinput => absurd hinput hready.2.1
  | quit j =>
      obtain rfl := Option.some.inj ha
      simp only [hubStep, hc] at hstep
      split_ifs at hstep
      obtain rfl := Option.some.inj hstep
      exact .leaves hc rfl rfl
  | clientSends j bytes =>
      obtain rfl := Option.some.inj ha
      simp only [hubStep, hc] at hstep
      obtain rfl := Option.some.inj hstep
      exact .moves hc rfl fun hwhole _ => absurd hwhole id
  | clientTakes j n =>
      obtain rfl := Option.some.inj ha
      simp only [hubStep, hc] at hstep
      obtain rfl := Option.some.inj hstep
      exact .moves hc rfl fun _ hinput => ⟨hinput, by simp [Feed.flow, Feed.sent]⟩
  | _ => cases ha

theorem fed_initial
    (frames : ι → List (List UInt8)) :
    Fed (Hub.initial frames : Hub ι pipeSize socketSize) where
  owed := fun _ _ => List.nil_suffix
  pool := by simp [Hub.initial]
  gone := by simp [Hub.initial]

/-- The main loop owes nothing before and after the step. -/
theorem Fed.idle
    (h : Fed s)
    (hlog : e.log = s.log)
    (hpool : e.pool = s.pool)
    (hgone : e.gone = s.gone)
    (hs : ∀ i, s.owed i = [])
    (he : ∀ i, e.owed i = []) :
    Fed e where
  owed := fun i _ => by simp [he i]
  pool := by
    intro i c hc
    rw [hlog, he i, ← hs i]
    exact h.pool i c (by rw [← hpool, hc])
  gone := by
    rw [hlog, hgone]
    exact h.gone

/-- A step of one client that moves its bytes along. -/
theorem Fed.setFeed
    (h : Fed s)
    (hc : s.pool i = some c)
    (hsince : c'.since = c.since)
    (hinput : c'.input = [])
    (hflow : c'.flow = c.flow) :
    Fed (s.setFeed i c') where
  owed := h.owed
  pool := by
    intro j d hd
    rcases entry_of_update hd with ⟨rfl, heq⟩ | ⟨-, hd⟩
    · obtain rfl := Option.some.inj heq
      have hc := h.pool j c hc
      exact ⟨hc.in_range, hinput, hsince ▸ hc.since_le, by rw [hsince, hflow]; exact hc.flow⟩
    · exact h.pool j d hd
  gone := h.gone

/-- A client leaves, whatever was on its way to the socket. -/
theorem Fed.unregister
    (h : Fed s)
    (hc : s.pool i = some c)
    (hsince : c'.since = c.since)
    (hsent : c'.sent = c.sent) :
    Fed (s.unregister i c') where
  owed := h.owed
  pool := by
    intro j d hd
    rcases entry_of_update hd with ⟨-, heq⟩ | ⟨-, hd⟩
    · cases heq
    · exact h.pool j d hd
  gone := by
    intro d hd
    rcases List.mem_append.mp hd with hd | hd
    · exact h.gone d hd
    · obtain rfl := List.mem_singleton.mp hd
      have hc := (h.pool i c hc).received
      exact ⟨hsince ▸ hc.since_le, by rw [hsent, hsince]; exact hc.sent⟩

/-- What a client registered now gets of the pieces read so far. -/
theorem Fed.drop_missed
    (h : Fed s)
    (hi : i < devdrvdMaxClients) :
    s.log.drop (s.missed i) = s.owed i := by
  obtain ⟨past, hpast⟩ := h.owed i hi
  have hlength : s.missed i = past.length := by
    rw [Hub.missed, ← hpast, List.length_append, Nat.add_sub_cancel]
  rw [hlength, ← hpast, List.drop_left]

/-- A new client is owed what the main loop has yet to write to its slot. -/
theorem Fed.register
    (h : Fed s)
    (hi : i < devdrvdMaxClients) :
    Fed (s.setFeed i (.registered (s.missed i))) where
  owed := h.owed
  pool := by
    intro j d hd
    rcases entry_of_update hd with ⟨rfl, heq⟩ | ⟨-, hd⟩
    · obtain rfl := Option.some.inj heq
      refine ⟨hi, rfl, Nat.sub_le _ _, ?_⟩
      have hnone : (Feed.registered (s.missed j) : Feed pipeSize socketSize).flow = [] := by
        rfl
      rw [hnone]
      exact congrArg joined (h.drop_missed hi).symm
    · exact h.pool j d hd
  gone := h.gone

/-- A piece is read: it is owed to every slot. -/
theorem Fed.read
    (h : Fed s)
    {server : ι}
    {len len' : Nat}
    {piece : List UInt8}
    (hmain : s.main = .serving server len)
    (hlog : e.log = s.log ++ [(server, piece)])
    (hpool : e.pool = s.pool)
    (hgone : e.gone = s.gone)
    (he : e.main = .dispatching server len' piece 0) :
    Fed e := by
  have howed : ∀ i, e.owed i = [(server, piece)] := by
    intro i
    rw [owed_of_main he, if_pos (Nat.zero_le i)]
  have hnone : ∀ i, s.owed i = [] := fun i => owed_eq_nil (by simp [hmain])
  constructor
  · intro i _
    rw [howed, hlog]
    exact List.suffix_append _ _
  · intro i c hc
    have hc := h.pool i c (by rw [← hpool, hc])
    have hflow := hc.flow
    rw [hnone, joined_nil, List.append_nil] at hflow
    refine ⟨hc.in_range, hc.quiet, ?_, ?_⟩
    · rw [hlog, List.length_append]
      exact hc.since_le.trans (Nat.le_add_right _ _)
    · rw [howed, hlog, List.drop_append_of_le_length hc.since_le, joined_append, hflow]
  · intro c hc
    rw [hlog]
    exact (h.gone c (by rw [← hgone]; exact hc)).append _

/-- The main loop passes a slot: a client there gets the piece. -/
theorem Fed.passSlot
    (h : Fed s)
    {server : ι}
    {len j : Nat}
    {piece : List UInt8}
    (hmain : s.main = .dispatching server len piece j)
    (hlog : e.log = s.log)
    (hgone : e.gone = s.gone)
    (he : e.main = .afterSlot server len piece j)
    (hother : ∀ i, i ≠ j → e.pool i = s.pool i)
    (hown : ∀ c', e.pool j = some c' → ∃ c, s.pool j = some c ∧ c'.since = c.since ∧
      c'.input = c.input ∧ c'.flow = c.flow ++ piece) :
    Fed e := by
  constructor
  · intro i hi
    rw [owed_afterSlot hmain hi he, hlog]
    split
    · exact List.nil_suffix
    · exact h.owed i hi
  · intro i c hc
    by_cases hij : i = j
    · subst hij
      obtain ⟨d, hd, hsince, hinput, hflow⟩ := hown c hc
      have hd := h.pool i d hd
      refine ⟨hd.in_range, hinput ▸ hd.quiet, ?_, ?_⟩
      · rw [hlog, hsince]
        exact hd.since_le
      · have howed : s.owed i = [(server, piece)] := by rw [owed_of_main hmain, if_pos le_rfl]
        have hall := hd.flow
        rw [howed, joined_singleton] at hall
        rw [owed_afterSlot hmain hd.in_range he, if_pos rfl, hlog, hsince, hflow, joined_nil,
          List.append_nil]
        exact hall
    · have hc := h.pool i c (by rw [← hother i hij, hc])
      rw [owed_afterSlot hmain hc.in_range he, if_neg hij, hlog]
      exact hc
  · rw [hlog, hgone]
    exact h.gone

theorem Fed.feedStep
    (h : Fed s)
    {whole : Prop}
    (hwhole : whole)
    (hstep : FeedStep s i whole e) :
    Fed e := by
  cases hstep with
  | moves hc hsince hflow =>
      obtain ⟨hinput, hflow⟩ := hflow hwhole (h.pool i _ hc).quiet
      exact h.setFeed hc hsince hinput hflow
  | leaves hc hsince hsent => exact h.unregister hc hsince hsent

variable [DecidableEq ι]

theorem hubStep_fed
    (h : Fed s)
    {a : HubAct ι}
    (hwhole : WritesWhole s a)
    (hstep : hubStep s a = some e) :
    Fed e := by
  cases a with
  | select server len =>
      simp only [hubStep] at hstep
      split_ifs at hstep with hselect
      obtain rfl := Option.some.inj hstep
      exact h.idle rfl rfl rfl (fun i => owed_eq_nil (by simp [hselect.1]))
        (fun i => owed_eq_nil (by simp))
  | lost server =>
      simp only [hubStep] at hstep
      split at hstep
      · rename_i hmain
        obtain rfl := Option.some.inj hstep
        exact h.idle rfl rfl rfl (fun i => owed_eq_nil (by simp [hmain]))
          (fun i => owed_eq_nil (by simp [hmain]))
      · rename_i server' len hmain
        split_ifs at hstep
        obtain rfl := Option.some.inj hstep
        exact h.idle rfl rfl rfl (fun i => owed_eq_nil (by simp [hmain]))
          (fun i => owed_eq_nil (by simp))
      · cases hstep
  | read =>
      simp only [hubStep] at hstep
      split at hstep
      · rename_i server len hmain
        obtain rfl := Option.some.inj hstep
        exact h.read hmain rfl rfl rfl rfl
      · cases hstep
  | write result =>
      simp only [hubStep] at hstep
      split at hstep
      · rename_i server len piece i hmain
        split at hstep
        · rename_i hfree
          obtain rfl := Option.some.inj hstep
          refine h.passSlot hmain rfl rfl rfl (fun _ _ => rfl) fun c' hc' => ?_
          rw [hfree] at hc'
          cases hc'
        · rename_i c hc
          obtain ⟨pipe, hpipe, rfl⟩ := Option.map_eq_some_iff.mp hstep
          obtain rfl : result = .wrote piece.length :=
            hwhole (piece, i) (by rw [hmain]; rfl) c hc
          have hcontent := BoundedQueue.content_of_wrote_all hpipe
          refine h.passSlot hmain rfl rfl rfl (fun j hj => Function.update_of_ne hj _ _) ?_
          intro c' hc'
          obtain rfl : { c with pipe } = c' := by simpa [Hub.setFeed] using hc'
          exact ⟨c, hc, rfl, rfl, by simp [Feed.flow, Feed.sent, hcontent]⟩
      · cases hstep
  | register i =>
      simp only [hubStep] at hstep
      split_ifs at hstep with hfree
      obtain rfl := Option.some.inj hstep
      exact h.register hfree.1
  | feedRead i len => exact h.feedStep hwhole (feedStep_of_hubStep rfl hstep)
  | feedWrite i result => exact h.feedStep hwhole (feedStep_of_hubStep rfl hstep)
  | answer i result => exact h.feedStep hwhole (feedStep_of_hubStep rfl hstep)
  | quit i => exact h.feedStep hwhole (feedStep_of_hubStep rfl hstep)
  | clientSends i bytes => exact h.feedStep hwhole (feedStep_of_hubStep rfl hstep)
  | clientTakes i n => exact h.feedStep hwhole (feedStep_of_hubStep rfl hstep)

/-- In a run whose writes are whole, the bytes that a client received are a contiguous run of
the bytes read from the servers. -/
theorem sent_contiguous
    {frames : ι → List (List UInt8)}
    (hs : ReachedUnder hubStep WritesWhole (Hub.initial frames) s)
    {c : Feed pipeSize socketSize}
    (hc : s.Has c) :
    c.sent <:+: joined s.log := by
  have hfed : Fed s := hs.invariant (fed_initial frames) fun _ _ _ h => hubStep_fed h
  have hreceived : Received s.log c := by
    rcases hc with ⟨i, hi⟩ | hgone
    · exact (hfed.pool i c hi).received
    · exact hfed.gone c hgone
  have hsuffix : joined (s.log.drop c.since) <:+ joined s.log := by
    refine ⟨joined (s.log.take c.since), ?_⟩
    rw [← joined_append, List.take_append_drop]
  exact hreceived.sent.isInfix.trans hsuffix.isInfix

end Steps

end Hubs

/-- One piece is read and offered to the client in slot 0; the other slots are free. -/
def onePiece {ι : Type} (server : ι) (len : Nat) (result : WriteResult) : List (HubAct ι) :=
  .select server len :: .read :: .write result ::
    List.replicate (devdrvdMaxClients - 1) (.write .wouldBlock)

/-- Two pieces reach the client, then the write to its socket fails. -/
def socketFails : List (HubAct Unit) :=
  onePiece () 1 (.wrote 1) ++ .register 0 :: onePiece () 3 (.wrote 3) ++
    .feedRead 0 3 :: .feedWrite 0 (.wrote 3) :: onePiece () 2 (.wrote 2) ++
    [.clientTakes 0 2, .feedRead 0 2, .feedWrite 0 .wouldBlock]

theorem sent_contiguous_socketFails :
    ∃ (s : Hub Unit 4 4) (c : Feed 4 4), c ∈ s.gone ∧ c.sent = [2, 3, 4] ∧
      joined s.log = [1, 2, 3, 4, 5, 6] ∧ c.sent <:+: joined s.log := by
  have hrun :
      (runSteps (guarded hubStep WritesWhole)
          (Hub.initial fun _ => [[1, 2, 3, 4], [5, 6]] : Hub Unit 4 4) socketFails).map
        (fun s => (s.gone.map Feed.sent, joined s.log)) =
      some ([[2, 3, 4]], [1, 2, 3, 4, 5, 6]) := by
    decide +kernel
  obtain ⟨s, hs, hobs⟩ := Option.map_eq_some_iff.mp hrun
  obtain ⟨hgone, hlog⟩ := Prod.mk.inj hobs
  obtain ⟨c, hc, hsent⟩ := List.mem_map.mp (hgone ▸ List.mem_singleton.mpr rfl)
  exact ⟨s, c, hc, hsent, hlog,
    sent_contiguous (ReachedUnder.of_runSteps socketFails .start hs) (Or.inr hc)⟩

/-- The pipe is full when the second of three pieces is offered. -/
def pipeFull : List (HubAct Unit) :=
  .register 0 :: onePiece () 4 (.wrote 4) ++ onePiece () 2 .wouldBlock ++
    .feedRead 0 4 :: .feedWrite 0 (.wrote 4) :: onePiece () 1 (.wrote 1) ++
    [.feedRead 0 1, .feedWrite 0 (.wrote 1)]

theorem piece_lost :
    ¬ ∀ s : Hub Unit 4 8,
      ReachedUnder hubStep (fun _ _ => True) (Hub.initial fun _ => [[1, 2, 3, 4], [5, 6], [7]]) s →
        ∀ c, s.Has c → c.sent <:+: joined s.log := by
  intro hall
  have hrun :
      (runSteps (guarded hubStep fun _ _ => True)
          (Hub.initial fun _ => [[1, 2, 3, 4], [5, 6], [7]] : Hub Unit 4 8) pipeFull).map
        (fun s => ((s.pool 0).map Feed.sent, joined s.log)) =
      some (some [1, 2, 3, 4, 7], [1, 2, 3, 4, 5, 6, 7]) := by
    decide +kernel
  obtain ⟨s, hs, hobs⟩ := Option.map_eq_some_iff.mp hrun
  obtain ⟨hpool, hlog⟩ := Prod.mk.inj hobs
  obtain ⟨c, hc, hsent⟩ := Option.map_eq_some_iff.mp hpool
  have hgap := hall s (ReachedUnder.of_runSteps pipeFull .start hs) c (Or.inl ⟨0, hc⟩)
  rw [hsent, hlog] at hgap
  revert hgap
  decide

end Devdrvd
end MatrixBin
