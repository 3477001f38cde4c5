import MatrixBin.Library.PairedLists
import MatrixBin.Scaled.LduReader
import MatrixBin.Scaled.PacketFeed
import MatrixBin.Scaled.WeightPacket

/-!
# From the port to the socket (`ldu_loop.c`, `packet_daemon.c`)

The threads of the scales read their ports and make a packet of every line that is not too short;
the slots of the clients are visited with it before the thread reads on.  The threads of the
clients copy their pipes to their sockets.  All these steps are interleaved in any order, and the
program at the other end takes the bytes of the socket in any pieces and gives them to
`parse_buffer`.

`client_receives_weights` says that what this program unpacks are the numbers of lines of the
ports: of each scale a contiguous run of those that it distributed, in order, when they are
regular.  `client_misses_nothing` says that the
run reaches up to the last line when the thread of the client is idle and its pipe is empty.
-/

namespace MatrixBin
namespace Scaled

open Library Libpack

/-- What `gettimeofday` gives. -/
abbrev ClockTime := {ts : Timeval // ts.InRange}

/-- What `sweight` and the memory behind it hold. -/
abbrev StackBytes := {bytes : List UInt8 // sweightSize ≤ bytes.length}

/-- The ports with their threads, and the clients. -/
structure WeightPath where
  reader : Nat → LduReader
  feed : FeedState

def WeightPath.initial : WeightPath := ⟨fun _ => .initial, .initial⟩

inductive PathAct
  | arrive (j : Nat) (bytes : List UInt8)
  | thread (j : Nat) (a : ReaderAct) (ts : ClockTime) (stack : StackBytes)
  | serve (a : FeedAct)

def WeightPath.setReader (s : WeightPath) (j : Nat) (r : LduReader) : WeightPath :=
  { s with reader := Function.update s.reader j r }

/-- A step of the thread of a scale; it begins with the packet of a line that it handed out. -/
def WeightPath.threadStep (scaleCnt : Nat) (k : LineSettings) (s : WeightPath) (j : Nat)
    (a : ReaderAct) (ts : ClockTime) (stack : StackBytes) : Option WeightPath :=
  (readerStep (s.reader j) a).bind fun r =>
    match r.distributed[(s.reader j).distributed.length]? with
    | none => some (s.setReader j r)
    | some wtmsg =>
        (k.packet j ts wtmsg stack).bind fun p =>
          (feedStep scaleCnt s.feed (.packet j p)).map fun feed =>
            { s.setReader j r with feed := feed }

/-- The packets come from the threads only. -/
def FeedAct.isPacket : FeedAct → Bool
  | .packet _ _ => true
  | _ => false

/-- Bytes arrive at any time.  A thread reads on when it is not visiting the slots.  The other
steps are the visits and those of the clients. -/
def pathStep (scaleCnt : Nat) (k : LineSettings) (s : WeightPath) : PathAct → Option WeightPath
  | .arrive j bytes => (readerStep (s.reader j) (.arrive bytes)).map (s.setReader j)
  | .thread j a ts stack =>
      if (s.feed.scale j).current = none then s.threadStep scaleCnt k j a ts stack else none
  | .serve a =>
      if a.isPacket then none
      else (feedStep scaleCnt s.feed a).map fun feed => { s with feed := feed }

/-- The bytes that arrive at a port in a run. -/
def portBytes (j : Nat) (acts : List PathAct) : List UInt8 :=
  acts.flatMap fun
    | .arrive i bytes => if i = j then bytes else []
    | .thread i a _ _ => if i = j then arrivals [a] else []
    | .serve _ => []

@[simp] theorem WeightPath.setReader_self
    (s : WeightPath)
    (j : Nat)
    (r : LduReader) :
    (s.setReader j r).reader j = r :=
  Function.update_self ..

theorem WeightPath.setReader_of_ne
    {j j' : Nat}
    (h : j' ≠ j)
    (s : WeightPath)
    (r : LduReader) :
    (s.setReader j r).reader j' = s.reader j' :=
  Function.update_of_ne h ..

theorem portBytes_append
    (j : Nat)
    (acts more : List PathAct) :
    portBytes j (acts ++ more) = portBytes j acts ++ portBytes j more :=
  List.flatMap_append

/-! ### The port -/

/-- The thread has read a part of the bytes, and has distributed lines of them. -/
structure LduReader.Reads (r : LduReader) (bytes : List UInt8) : Prop where
  splits : ∃ data, r.Splits data
  bytes_eq : r.consumed ++ r.port = bytes
  lines : r.distributed.Sublist (r.messages.map fun m => m.1.dropLast)

theorem LduReader.reads_initial : LduReader.initial.Reads [] := by
  refine ⟨⟨[], ⟨?_, rfl, by simp [LduReader.initial]⟩⟩, rfl, .slnil⟩
  exact ⟨initLocbuf_has, fun _ => rfl, fun _ => rfl, fun _ => List.not_mem_nil⟩

/-- A step hands out one line at most. -/
theorem LduReader.Reads.step
    {r r' : LduReader} {bytes : List UInt8} {a : ReaderAct}
    (h : r.Reads bytes)
    (hstep : readerStep r a = some r') :
    r'.Reads (bytes ++ arrivals [a]) ∧
      (r'.distributed = r.distributed ∨ ∃ line, r'.distributed = r.distributed ++ [line]) := by
  obtain ⟨⟨data, hsplits⟩, hbytes, hlines⟩ := h
  obtain ⟨data', hsplits', hport⟩ := hsplits.step hstep
  obtain ⟨_, -, hmove⟩ := readerStep_moves hsplits.holding hstep
  rw [hbytes] at hport
  suffices hmoved : r'.distributed.Sublist (r'.messages.map fun m => m.1.dropLast) ∧
      (r'.distributed = r.distributed ∨ ∃ line, r'.distributed = r.distributed ++ [line]) from
    ⟨⟨⟨data', hsplits'⟩, hport, hmoved.1⟩, hmoved.2⟩
  cases hmove with
  | arrive _ hr => subst hr; exact ⟨hlines, .inl rfl⟩
  | skip _ _ hr _ => subst hr; exact ⟨hlines, .inl rfl⟩
  | read _ _ _ hr => subst hr; exact ⟨hlines, .inl rfl⟩
  | drained _ _ _ hr => subst hr; exact ⟨hlines, .inl rfl⟩
  | line _ _ _ _ hr =>
      subst hr
      simp only [List.map_append, List.map_cons, List.map_nil, List.dropLast_concat]
      split_ifs
      · rw [List.append_nil]
        exact ⟨hlines.trans (List.sublist_append_left _ _), .inl rfl⟩
      · exact ⟨hlines.append (.refl _), .inr ⟨_, rfl⟩⟩

/-- What is distributed are lines of the bytes, in order. -/
theorem LduReader.Reads.sublist
    {r : LduReader} {bytes : List UInt8}
    (h : r.Reads bytes) :
    r.distributed.Sublist ((splitLines 0x0d bytes).1.map List.dropLast) := by
  obtain ⟨⟨data, hsplits⟩, hbytes, hlines⟩ := h
  refine hlines.trans ?_
  rw [← hbytes, splitLines_append, hsplits.lines, List.append_assoc, List.map_append, List.map_map]
  exact List.sublist_append_left _ _

/-! ### The invariant -/

/-- The packet is one of the line. -/
def LineSettings.Carries (k : LineSettings) (j : Nat) (wtmsg : List UInt8) (p : Packet) : Prop :=
  ∃ (ts : ClockTime) (stack : StackBytes), k.packet j ts wtmsg stack = some p

structure WeightPath.Inv (k : LineSettings) (past : List PathAct) (s : WeightPath) : Prop where
  feed : s.feed.Inv
  reads : ∀ j, (s.reader j).Reads (portBytes j past)
  carries : ∀ j, List.Forall₂ (k.Carries j) (s.reader j).distributed (s.feed.scale j).distributed

section Steps

variable {scaleCnt : Nat} {k : LineSettings} {past : List PathAct} {s s' : WeightPath}

/-- Only a new packet changes what a scale has distributed. -/
theorem feedStep_distributed
    {f f' : FeedState} {a : FeedAct}
    (hstep : feedStep scaleCnt f a = some f')
    (ha : a.isPacket = false)
    (j : Nat) :
    (f'.scale j).distributed = (f.scale j).distributed := by
  cases a with
  | connect d =>
      rw [feedStep] at hstep
      split at hstep
      · obtain rfl := Option.some.inj hstep
        rfl
      · cases hstep
  | packet i p => cases ha
  | visit i d written =>
      rw [feedStep] at hstep
      split at hstep
      · split at hstep
        · obtain rfl := Option.some.inj hstep
          by_cases hi : j = i
          · subst hi
            rw [FeedState.setScale_self]
            rfl
          · rw [FeedState.setScale_of_ne hi, FeedState.setClient_scale]
        · cases hstep
      · cases hstep
  | select d =>
      rw [feedStep] at hstep
      split at hstep
      · obtain rfl := Option.some.inj hstep
        rfl
      · cases hstep
  | scan d =>
      obtain ⟨x, -, rfl⟩ := Option.map_eq_some_iff.mp hstep
      rfl
  | transfer d n failed =>
      obtain ⟨x, -, rfl⟩ := Option.map_eq_some_iff.mp hstep
      rfl

theorem feedStep_packet
    {f f' : FeedState} {i : Nat} {p : Packet}
    (hstep : feedStep scaleCnt f (.packet i p) = some f')
    (j : Nat) :
    (f'.scale j).distributed = (f.scale j).distributed ++ if j = i then [p] else [] := by
  rw [feedStep] at hstep
  split at hstep
  · obtain rfl := Option.some.inj hstep
    by_cases hj : j = i
    · subst hj
      rw [FeedState.setScale_self, if_pos rfl]
    · rw [FeedState.setScale_of_ne hj, if_neg hj, List.append_nil]
  · cases hstep

/-- A reader that handed out no line. -/
theorem WeightPath.Inv.setReader
    (h : s.Inv k past)
    {a : PathAct} {i : Nat} {r : LduReader}
    (hreads : r.Reads (portBytes i (past ++ [a])))
    (hothers : ∀ j, j ≠ i → portBytes j [a] = [])
    (hsame : r.distributed = (s.reader i).distributed) :
    (s.setReader i r).Inv k (past ++ [a]) := by
  refine ⟨h.feed, fun j => ?_, fun j => ?_⟩
  · by_cases hj : j = i
    · subst hj
      rw [setReader_self]
      exact hreads
    · rw [setReader_of_ne hj, portBytes_append, hothers j hj, List.append_nil]
      exact h.reads j
  · by_cases hj : j = i
    · subst hj
      rw [setReader_self, hsame]
      exact h.carries j
    · rw [setReader_of_ne hj]
      exact h.carries j

/-- A reader that handed out a line, with the packet of the line. -/
theorem WeightPath.Inv.line
    (h : s.Inv k past)
    {a : PathAct} {i : Nat} {r : LduReader} {wtmsg : List UInt8} {p : Packet} {f : FeedState}
    (hreads : r.Reads (portBytes i (past ++ [a])))
    (hothers : ∀ j, j ≠ i → portBytes j [a] = [])
    (hline : r.distributed = (s.reader i).distributed ++ [wtmsg])
    (hcarries : k.Carries i wtmsg p)
    (hfeed : feedStep scaleCnt s.feed (.packet i p) = some f) :
    ({ s.setReader i r with feed := f } : WeightPath).Inv k (past ++ [a]) := by
  refine ⟨h.feed.step hfeed, fun j => ?_, fun j => ?_⟩
  · by_cases hj : j = i
    · subst hj
      simp only [setReader_self]
      exact hreads
    · simp only [setReader_of_ne hj]
      rw [portBytes_append, hothers j hj, List.append_nil]
      exact h.reads j
  · simp only [feedStep_packet hfeed]
    by_cases hj : j = i
    · subst hj
      rw [setReader_self, hline, if_pos rfl]
      exact forall₂_concat (h.carries j) hcarries
    · rw [setReader_of_ne hj, if_neg hj, List.append_nil]
      exact h.carries j

theorem WeightPath.Inv.step
    {a : PathAct}
    (h : s.Inv k past)
    (hstep : pathStep scaleCnt k s a = some s') :
    s'.Inv k (past ++ [a]) := by
  cases a with
  | arrive i bytes =>
      rw [pathStep] at hstep
      obtain ⟨r, hr, rfl⟩ := Option.map_eq_some_iff.mp hstep
      obtain ⟨hreads, -⟩ := (h.reads i).step hr
      refine h.setReader ?_ ?_ ?_
      · simpa [portBytes, arrivals] using hreads
      · intro j hj
        simp [portBytes, Ne.symm hj]
      · obtain rfl := Option.some.inj hr
        rfl
  | thread i a ts stack =>
      rw [pathStep] at hstep
      obtain ⟨r, hr, hrest⟩ := Option.bind_eq_some_iff.mp (Option.ite_none_right_eq_some.mp hstep).2
      obtain ⟨hreads, hdistributed⟩ := (h.reads i).step hr
      have hbytes : portBytes i past ++ arrivals [a] =
          portBytes i (past ++ [.thread i a ts stack]) := by
        simp [portBytes]
      have hothers : ∀ j, j ≠ i → portBytes j [.thread i a ts stack] = [] := fun j hj => by
        simp [portBytes, Ne.symm hj]
      rw [hbytes] at hreads
      rcases hdistributed with hsame | ⟨wtmsg, hline⟩
      · rw [hsame, List.getElem?_eq_none le_rfl] at hrest
        obtain rfl := Option.some.inj hrest
        exact h.setReader hreads hothers hsame
      · rw [hline, List.getElem?_concat_length] at hrest
        obtain ⟨p, hp, hrest⟩ := Option.bind_eq_some_iff.mp hrest
        obtain ⟨f, hf, rfl⟩ := Option.map_eq_some_iff.mp hrest
        exact h.line hreads hothers hline ⟨ts, stack, hp⟩ hf
  | serve a =>
      rw [pathStep] at hstep
      obtain ⟨hne, hserve⟩ := Option.ite_none_left_eq_some.mp hstep
      obtain ⟨f, hf, rfl⟩ := Option.map_eq_some_iff.mp hserve
      refine ⟨h.feed.step hf, fun j => ?_, fun j => ?_⟩
      · rw [portBytes_append]
        exact (List.append_nil (portBytes j past)).symm ▸ h.reads j
      · rw [feedStep_distributed hf (by simpa using hne)]
        exact h.carries j

theorem WeightPath.inv_initial : WeightPath.initial.Inv k [] where
  feed := FeedState.inv_initial
  reads := fun _ => LduReader.reads_initial
  carries := fun _ => .nil

theorem WeightPath.inv_run
    {acts : List PathAct}
    (hrun : runSteps (pathStep scaleCnt k) .initial acts = some s) :
    s.Inv k acts := by
  let keeps (past : List PathAct) (u : WeightPath) : Prop := u.Inv k past
  have hkeeps : keeps acts s :=
    runSteps_invariant WeightPath.inv_initial (fun _ _ _ _ hu hstep => hu.step hstep) hrun
  exact hkeeps

end Steps

/-! ### The socket -/

section Socket

theorem sentBy_eq_tagged :
    sentBy = tagged :=
  rfl

variable {c : FeedClient} {read : List UInt8}

/-- What was taken from the socket are packets, and a part of one more. -/
theorem FeedClient.Whole.taken
    (h : c.Whole)
    (hread : read <+: c.socket) :
    ∃ (sent : List (Nat × Packet)) (part : List UInt8),
      read = (sent.map Prod.snd).flatten ++ part ∧
      (∀ j, tagged j sent <+: c.accepted j) ∧
      (part = [] ∨ ∃ i, ∃ p ∈ c.accepted i, part <+: p ∧ part ≠ p) := by
  obtain ⟨all, hsocket, haccepted⟩ : ∃ all : List (Nat × Packet),
      c.socket <+: (all.map Prod.snd).flatten ∧ ∀ j, tagged j all <+: c.accepted j := by
    obtain ⟨sent, part, hsocket, haccepted, hpart, -⟩ := h.packets
    rw [List.flatMap_def] at hsocket
    rw [sentBy_eq_tagged] at haccepted hpart
    rcases hpart with rfl | ⟨i, p, hp, hnext⟩
    · exact ⟨sent, by rw [hsocket, List.append_nil], haccepted⟩
    · refine ⟨sent ++ [(i, p)], ?_, fun j => ?_⟩
      · rw [hsocket, List.map_append, List.flatten_append]
        exact (List.prefix_append_right_inj _).mpr (by simpa using hp)
      · rw [tagged_append, tagged_cons]
        by_cases hj : i = j
        · subst hj
          simpa using hnext
        · simpa [hj] using haccepted j
  obtain ⟨whole, more, part, hsplit, rfl, hpart⟩ :=
    exists_of_prefix_flatten (hread.trans hsocket)
  obtain ⟨sent, behind, rfl, rfl, rfl⟩ := List.map_eq_append_iff.mp hsplit
  have hsent : ∀ j, tagged j sent <+: c.accepted j := fun j =>
    (tagged_mono (List.prefix_append sent behind) j).trans (haccepted j)
  rcases hpart with rfl | ⟨p, rest, hmore, hp⟩
  · exact ⟨sent, [], rfl, hsent, .inl rfl⟩
  obtain ⟨x, behind, rfl, rfl, rfl⟩ := List.map_eq_cons_iff.mp hmore
  by_cases hwhole : part = x.2
  · subst hwhole
    refine ⟨sent ++ [x], [], by simp, fun j => ?_, .inl rfl⟩
    have hone : sent ++ [x] <+: sent ++ x :: behind := ⟨behind, by simp⟩
    exact (tagged_mono hone j).trans (haccepted j)
  · refine ⟨sent, part, rfl, hsent, .inr ⟨x.1, x.2, ?_, hp, hwhole⟩⟩
    exact (haccepted x.1).subset (mem_tagged (by simp))

/-- An idle thread has copied whole packets, and from an empty pipe all that were written. -/
theorem FeedClient.Whole.drained
    (h : c.Whole)
    (hidle : c.pc.Idle) :
    ∃ sent : List (Nat × Packet), c.socket = (sent.map Prod.snd).flatten ∧
      (∀ j, tagged j sent <+: c.accepted j) ∧
      ∀ j, c.pipe j = [] → (∀ p ∈ c.accepted j, p ≠ []) → tagged j sent = c.accepted j := by
  obtain ⟨sent, i, cur, cut, rest, queued, h⟩ := h
  obtain ⟨hcut, hrest⟩ := h.nothing_cut hidle
  have haccepted : ∀ j, c.accepted j = tagged j sent ++ queued j := fun j => by
    have := h.accepted_eq j
    rw [h.idle hidle, ite_self, List.append_nil] at this
    exact this
  refine ⟨sent, ?_, fun j => ⟨queued j, (haccepted j).symm⟩, fun j hpipe hne => ?_⟩
  · rw [h.socket_eq, hcut, List.append_nil, List.flatMap_def]
  have hnot : c.pc ≠ .quit := by
    intro hquit
    rw [hquit] at hidle
    exact hidle
  have hqueued := h.pipe_eq hnot j
  rw [hpipe, hrest, ite_self, List.nil_append] at hqueued
  rw [haccepted j]
  cases hj : queued j with
  | nil => rw [List.append_nil]
  | cons p more =>
      rw [hj, List.flatten_cons] at hqueued
      refine absurd (List.append_eq_nil_iff.mp hqueued.symm).1 (hne p ?_)
      rw [haccepted j, hj]
      simp

end Socket

/-! ### The other end -/

section OtherEnd

variable {k : LineSettings} {j : Nat} {wtmsg : List UInt8} {p : Packet}

/-- A frame that unpacks to a record. -/
structure Unpacks (p : Packet) (w : WeightStruct) : Prop where
  unpack : unpackWeight p = some w
  frame : IsFrame startCharacter stopCharacter p
  length_le : p.length ≤ recbufSize

theorem LineSettings.Carries.unpacks
    (h : k.Carries j wtmsg p)
    (hregular : k.Regular j wtmsg) :
    ∃ w, k.Shows j wtmsg w ∧ Unpacks p w := by
  obtain ⟨⟨ts, hts⟩, stack, hp⟩ := h
  obtain ⟨w, text, htext, hpack, hrange, hshows⟩ := hregular.packet stack.1 hts
  obtain rfl := Option.some.inj (hp.symm.trans htext)
  obtain ⟨text, htext, hframe, hlen, hunpack⟩ := packWeight_frame hrange
  obtain rfl := Option.some.inj (hpack.symm.trans htext)
  exact ⟨w, hshows, hunpack, hframe, hlen⟩

/-- The deframer finds the packets, whatever the pieces. -/
theorem parseCalls_taken
    {sent : List (Nat × Packet)} {part : List UInt8} {chunks : List (List UInt8)}
    (hsent : ∀ x ∈ sent, ∃ w, Unpacks x.2 w)
    (hpart : part = [] ∨ ∃ p w, Unpacks p w ∧ part <+: p ∧ part ≠ p)
    (hchunks : chunks.flatten = (sent.map Prod.snd).flatten ++ part) :
    ∃ (st : ParserState) (items : List PcktItem) (weights : List (Nat × WeightStruct)),
      parseCalls .initial chunks = some (st, items) ∧
      List.Forall₂ (fun item w => unpackWeight item.pcktPtr = some w.2) items weights ∧
      List.Forall₂ (fun x w => x.1 = w.1 ∧ Unpacks x.2 w.2) sent weights := by
  have hframes : ∀ frame ∈ sent.map Prod.snd,
      IsFrame startCharacter stopCharacter frame ∧ frame.length ≤ recbufSize := by
    intro frame hframe
    obtain ⟨x, hx, rfl⟩ := List.mem_map.mp hframe
    obtain ⟨w, hw⟩ := hsent x hx
    exact ⟨hw.frame, hw.length_le⟩
  have htail : IsTail startCharacter stopCharacter recbufSize part := by
    rcases hpart with rfl | ⟨p, w, hw, ⟨more, rfl⟩, hne⟩
    · exact isTail_nil recbufSize
    · refine isTail_of_proper_part startCharacter_ne_stopCharacter hw.frame ?_ hw.length_le
      rintro rfl
      exact hne (List.append_nil part).symm
  obtain ⟨st, hwhole, hidle⟩ := parseBuffer_frames initial_idle hframes
  obtain ⟨st', hrest, -⟩ := parseBuffer_tail hidle htail
  obtain ⟨weights, hweights⟩ : ∃ weights : List (Nat × WeightStruct),
      List.Forall₂ (fun x w => x.1 = w.1 ∧ Unpacks x.2 w.2) sent weights := by
    refine exists_forall₂ fun x hx => ?_
    obtain ⟨w, hw⟩ := hsent x hx
    exact ⟨(x.1, w), rfl, hw⟩
  refine ⟨st', (sent.map Prod.snd).map PcktItem.ofFrame, weights, ?_, ?_, hweights⟩
  · rw [parseCalls_eq, hchunks, parseBuffer_append, hwhole, Option.bind_some, hrest,
      Option.map_some, List.append_nil]
  · rw [List.map_map, List.forall₂_map_left_iff]
    exact hweights.imp fun x w hw => hw.2.unpack

end OtherEnd

/-! ### One line -/

section OneLine

theorem runSteps_serve
    {scaleCnt : Nat} {k : LineSettings} {acts : List FeedAct} {s : WeightPath} {f : FeedState}
    (hacts : ∀ a ∈ acts, a.isPacket = false)
    (hrun : runSteps (feedStep scaleCnt) s.feed acts = some f) :
    runSteps (pathStep scaleCnt k) s (acts.map .serve) = some { s with feed := f } := by
  induction acts generalizing s with
  | nil =>
      obtain rfl := Option.some.inj hrun
      rfl
  | cons a acts ih =>
      rw [runSteps] at hrun
      rw [List.map_cons, runSteps, pathStep, hacts a List.mem_cons_self]
      cases hstep : feedStep scaleCnt s.feed a with
      | none => simp [hstep] at hrun
      | some f₁ =>
          rw [hstep] at hrun
          exact ih (fun b hb => hacts b (List.mem_cons_of_mem a hb)) hrun

/-- One scale in the raw mode. -/
def oneRawScale : LineSettings := ⟨⟨0, 0, 0, 0⟩, statusSection, fun _ => .lduRaw, fun _ => 3⟩

/-- The line `N  12.5 `. -/
def rawLine : List UInt8 := [0x4e, 0x20, 0x20, 0x31, 0x32, 0x2e, 0x35, 0x20]

def midnight : ClockTime := ⟨⟨0, 0⟩, by norm_num, by norm_num, by norm_num, by norm_num⟩

def emptyStack : StackBytes := ⟨List.replicate 8 0, by decide⟩

/-- A client connects, and the line arrives and is read. -/
def rawLineArrives : List PathAct :=
  [.serve (.connect 0), .arrive 0 (rawLine ++ [0x0d]), .thread 0 (.fionread 9) midnight emptyStack,
    .thread 0 (.getFromfd 9) midnight emptyStack, .thread 0 (.nextBySym 9) midnight emptyStack]

/-- Its packet of `n` bytes goes to the client. -/
def rawLineServed (n : Nat) : List FeedAct :=
  [.visit 0 0 true, .select 0, .scan 0, .transfer 0 n none, .scan 0]

/-- The client and the scale when the packet is there. -/
def packetReady (text : Packet) : FeedState :=
  ((feedStep 1 .initial (.connect 0)).getD .initial).setScale 0 ⟨some text, 0, [text]⟩

theorem rawLine_regular : oneRawScale.Regular 0 rawLine :=
  .raw rfl (by decide) (by decide +kernel) (by decide +kernel) (by decide +kernel) (by decide)

/-- The packet is copied to the socket. -/
theorem packetReady_served
    {text : Packet}
    (hne : text ≠ [])
    (hroom : text.length ≤ feedDataSize) :
    ∃ f, runSteps (feedStep 1) (packetReady text) (rawLineServed text.length) = some f ∧
      (f.client 0).socket = text ∧ (f.client 0).pc.Idle ∧ (f.client 0).pipe 0 = [] ∧
      (f.client 0).wrfd 0 = true := by
  obtain ⟨f, hf, hclient⟩ : ∃ f,
      runSteps (feedStep 1) (packetReady text) [.visit 0 0 true, .select 0, .scan 0] = some f ∧
      f.client 0 = ⟨.draining 0 [0] text.length, false, fun j => j < 1,
        Function.update (fun _ => []) 0 text, Function.update (fun _ => []) 0 [text], []⟩ := by
    obtain ⟨b, body, rfl⟩ := List.exists_cons_of_ne_nil hne
    exact ⟨_, rfl, rfl⟩
  obtain ⟨x, hx, hpc, hsocket, hpipe, hwrfd⟩ : ∃ x : FeedClient,
      (f.client 0).transfer text.length none = some x ∧ x.pc = .draining 0 [0] 0 ∧
      x.socket = text ∧ x.pipe 0 = [] ∧ x.wrfd 0 = true := by
    rw [hclient]
    refine ⟨_, if_pos ⟨List.length_pos_of_ne_nil hne, le_min le_rfl hroom, le_rfl⟩, ?_, ?_, ?_, rfl⟩
    · simp
    · simp
    · simp
  have htransfer : feedStep 1 f (.transfer 0 text.length none) = some (f.setClient 0 x) := by
    rw [feedStep, hx]
    rfl
  have hscan : feedStep 1 (f.setClient 0 x) (.scan 0) =
      some ((f.setClient 0 x).setClient 0 { x with pc := .scanning 1 [0] }) := by
    rw [feedStep, FeedState.setClient_self, FeedClient.scan, hpc]
    rfl
  refine ⟨(f.setClient 0 x).setClient 0 { x with pc := .scanning 1 [0] }, ?_, ?_, ?_, ?_, ?_⟩
  · have hserved := runSteps_append (feedStep 1) (packetReady text)
      [.visit 0 0 true, .select 0, .scan 0] [.transfer 0 text.length none, .scan 0]
    rw [hf, Option.bind_some] at hserved
    refine hserved.trans ?_
    simp only [runSteps, htransfer, hscan]
  · simpa using hsocket
  · simp [FeederPc.Idle]
  · simpa using hpipe
  · simpa using hwrfd

/-- The line goes from the port to the socket. -/
theorem rawLine_run :
    ∃ n s, runSteps (pathStep 1 oneRawScale) .initial
        (rawLineArrives ++ (rawLineServed n).map .serve) = some s ∧
      (s.feed.client 0).pc.Idle ∧ (s.feed.client 0).pipe 0 = [] ∧
      (s.feed.client 0).wrfd 0 = true ∧
      ∀ j, ∀ wtmsg ∈ (s.reader j).distributed, oneRawScale.Regular j wtmsg := by
  obtain ⟨w, text, hpacket, hpack, hrange, -⟩ := rawLine_regular.packet emptyStack.1 midnight.2
  obtain ⟨text', hpack', ⟨body, hbody, -⟩, hlen, -⟩ := packWeight_frame hrange
  obtain rfl := Option.some.inj (hpack.symm.trans hpack')
  obtain ⟨s, hrun, hfeed, hdistributed, hstep⟩ : ∃ s,
      runSteps (pathStep 1 oneRawScale) .initial rawLineArrives.dropLast = some s ∧
      s.feed = (feedStep 1 .initial (.connect 0)).getD .initial ∧ (s.reader 0).distributed = [] ∧
      (readerStep (s.reader 0) (.nextBySym 9)).map LduReader.distributed = some [rawLine] :=
    ⟨_, rfl, rfl, rfl, rfl⟩
  obtain ⟨r, hr, hline⟩ := Option.map_eq_some_iff.mp hstep
  have hready : feedStep 1 s.feed (.packet 0 text) = some (packetReady text) := by
    rw [hfeed]
    rfl
  have hthread : pathStep 1 oneRawScale s (.thread 0 (.nextBySym 9) midnight emptyStack) =
      some { s.setReader 0 r with feed := packetReady text } := by
    have hnone : (s.feed.scale 0).current = none := by
      rw [hfeed]
      rfl
    simp [pathStep, WeightPath.threadStep, hnone, hr, hline, hdistributed, hpacket, hready]
  obtain ⟨f, hf, -, hidle, hpipe, hwrfd⟩ :=
    packetReady_served (by rw [hbody]; exact List.cons_ne_nil _ _) (hlen.trans (by decide))
  have hserved : ∀ a ∈ rawLineServed text.length, a.isPacket = false := by
    simp [rawLineServed, FeedAct.isPacket]
  have hwhole : runSteps (pathStep 1 oneRawScale) .initial
      (rawLineArrives ++ (rawLineServed text.length).map .serve) =
        some { s.setReader 0 r with feed := f } := by
    have harrives := runSteps_append_singleton (pathStep 1 oneRawScale) .initial
      rawLineArrives.dropLast (.thread 0 (.nextBySym 9) midnight emptyStack)
    rw [hrun, Option.bind_some, hthread] at harrives
    rw [runSteps_append]
    refine (congrArg (Option.bind · _) harrives).trans ?_
    exact runSteps_serve hserved hf
  refine ⟨text.length, _, hwhole, hidle, hpipe, hwrfd, fun j wtmsg hmem => ?_⟩
  -- only the first port has a line
  have hport := ((WeightPath.inv_run hwhole).reads j).sublist.subset hmem
  by_cases hj : j = 0
  · subst hj
    have hbytes : portBytes 0 (rawLineArrives ++ (rawLineServed text.length).map .serve) =
        rawLine ++ [0x0d] := by
      simp [portBytes, rawLineArrives, rawLineServed, arrivals]
    rw [hbytes, splitLines_line (by decide)] at hport
    have hmem : wtmsg = rawLine := by simpa using hport
    rw [hmem]
    exact rawLine_regular
  · have hnone : portBytes j (rawLineArrives ++ (rawLineServed text.length).map .serve) = [] := by
      simp [portBytes, rawLineArrives, rawLineServed, arrivals, Ne.symm hj]
    rw [hnone] at hport
    exact absurd hport (by simp)

end OneLine

/-! ### The whole path -/

section Path

variable {scaleCnt : Nat} {k : LineSettings} {acts : List PathAct} {s : WeightPath}

/-- The lines that the scale has brought to the slot. -/
def WeightPath.passed (s : WeightPath) (c j : Nat) : List (List UInt8) :=
  if (s.feed.scale j).current ≠ none ∧ (s.feed.scale j).position ≤ c then
    (s.reader j).distributed.dropLast
  else (s.reader j).distributed

theorem WeightPath.Inv.unpacks
    (h : s.Inv k acts)
    (hregular : ∀ j, ∀ wtmsg ∈ (s.reader j).distributed, k.Regular j wtmsg)
    (j : Nat) :
    List.Forall₂ (fun wtmsg p => ∃ w, k.Shows j wtmsg w ∧ Unpacks p w) (s.reader j).distributed
      (s.feed.scale j).distributed :=
  (forall₂_of_forall_mem (h.carries j) (hregular j)).imp fun _ _ hboth =>
    hboth.2.unpacks hboth.1

theorem exists_unpacks_of_mem
    {lines : List (List UInt8)} {packets : List Packet} {j : Nat} {p : Packet}
    (h : List.Forall₂ (fun wtmsg p => ∃ w, k.Shows j wtmsg w ∧ Unpacks p w) lines packets)
    (hp : p ∈ packets) :
    ∃ w, Unpacks p w := by
  induction h with
  | nil => cases hp
  | cons hfirst _ ih =>
      rcases List.mem_cons.mp hp with rfl | hp
      · obtain ⟨w, -, hw⟩ := hfirst
        exact ⟨w, hw⟩
      · exact ih hp

/-- Lines and weights that belong to the same packets. -/
theorem shows_of_unpacks
    {lines : List (List UInt8)} {packets : List Packet} {weights : List WeightStruct} {j : Nat}
    (hlines : List.Forall₂ (fun wtmsg p => ∃ w, k.Shows j wtmsg w ∧ Unpacks p w) lines packets)
    (hweights : List.Forall₂ Unpacks packets weights) :
    List.Forall₂ (k.Shows j) lines weights := by
  refine (forall₂_comp hlines hweights).imp ?_
  rintro wtmsg w ⟨p, ⟨w', hshows, hp⟩, hp'⟩
  obtain rfl := Option.some.inj (hp.unpack.symm.trans hp'.unpack)
  exact hshows

/-- **What a client receives.**  In every reachable state in which the distributed lines are
regular, the bytes taken from the socket of a client, in any pieces, are deframed and unpacked to
weights, each of them from a scale; those of a scale are the numbers of a contiguous run of its
distributed lines, in order, and these are lines of its port. -/
theorem client_receives_weights
    (hrun : runSteps (pathStep scaleCnt k) .initial acts = some s)
    (hregular : ∀ j, ∀ wtmsg ∈ (s.reader j).distributed, k.Regular j wtmsg)
    (c : Nat)
    (chunks : List (List UInt8))
    (hchunks : chunks.flatten <+: (s.feed.client c).socket) :
    ∃ (st : ParserState) (items : List PcktItem) (weights : List (Nat × WeightStruct)),
      parseCalls .initial chunks = some (st, items) ∧
      List.Forall₂ (fun item w => unpackWeight item.pcktPtr = some w.2) items weights ∧
      ∀ j, ∃ lines, lines <:+: (s.reader j).distributed ∧
        List.Forall₂ (k.Shows j) lines (tagged j weights) ∧
        (s.reader j).distributed.Sublist
          ((splitLines 0x0d (portBytes j acts)).1.map List.dropLast) := by
  have hinv := WeightPath.inv_run hrun
  have hpairs := hinv.unpacks hregular
  obtain ⟨sent, part, htaken, haccepted, hpart⟩ := (hinv.feed.whole c).taken hchunks
  have hrunOf : ∀ j, (s.feed.client c).accepted j <:+: (s.feed.scale j).distributed := fun j =>
    (hinv.feed.contiguous c j).run
  have hsent : ∀ x ∈ sent, ∃ w, Unpacks x.2 w := fun x hx =>
    exists_unpacks_of_mem (hpairs x.1)
      ((hrunOf x.1).subset ((haccepted x.1).subset (mem_tagged hx)))
  have hpartUnpacks : part = [] ∨ ∃ p w, Unpacks p w ∧ part <+: p ∧ part ≠ p := by
    rcases hpart with hnil | ⟨i, p, hp, hpart⟩
    · exact .inl hnil
    · obtain ⟨w, hw⟩ := exists_unpacks_of_mem (hpairs i) ((hrunOf i).subset hp)
      exact .inr ⟨p, w, hw, hpart⟩
  obtain ⟨st, items, weights, hparse, hitems, hweights⟩ :=
    parseCalls_taken hsent hpartUnpacks htaken
  refine ⟨st, items, weights, hparse, hitems, fun j => ?_⟩
  obtain ⟨lines, hlines, hpaired⟩ :=
    exists_infix_of_forall₂ (hpairs j) ((haccepted j).isInfix.trans (hrunOf j))
  exact ⟨lines, hlines, shows_of_unpacks hpaired (tagged_forall₂ hweights j),
    (hinv.reads j).sublist⟩

/-- The weight 12.5 of one line. -/
theorem client_receives_weights_rawLine :
    ∃ n s, runSteps (pathStep 1 oneRawScale) .initial
        (rawLineArrives ++ (rawLineServed n).map .serve) = some s ∧
      ∃ (st : ParserState) (items : List PcktItem) (weights : List (Nat × WeightStruct)),
        parseCalls .initial [(s.feed.client 0).socket] = some (st, items) ∧
        List.Forall₂ (fun item w => unpackWeight item.pcktPtr = some w.2) items weights ∧
        ∀ j, ∃ lines, lines <:+: (s.reader j).distributed ∧
          List.Forall₂ (oneRawScale.Shows j) lines (tagged j weights) ∧
          (s.reader j).distributed.Sublist ((splitLines 0x0d
            (portBytes j (rawLineArrives ++ (rawLineServed n).map .serve))).1.map
              List.dropLast) := by
  obtain ⟨n, s, hrun, -, -, -, hregular⟩ := rawLine_run
  exact ⟨n, s, hrun, client_receives_weights hrun hregular 0 [(s.feed.client 0).socket]
    (by simp)⟩

end Path

end Scaled
end MatrixBin
