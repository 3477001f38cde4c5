import MatrixBin.Library.Deframer
import Mathlib.Data.Vector.Basic

/-!
# The packet deframer `parse_buffer` (`devdrvd_communication.c`)

The static parser state keeps two counters: `pckt_cur_pos`, where the next byte
goes in `rec_buf`, and `pckt_cur_len`, the length that the packet will get.  They
are advanced in different branches.  Allocation succeeds; a store or a `memcpy`
outside `rec_buf` is undefined, which is `none` here.

The reference is `Library.deframe` with the start and stop characters.
`parseBuffer_deframes_iff` says on which streams the two agree, under any cut of
the stream into calls.
-/

namespace MatrixBin
namespace Libpack

open Library

def startCharacter : UInt8 := 0x02
def stopCharacter : UInt8 := 0x0d
def recbufSize : Nat := 512

inductive Pterm
  | noPacket
  | packet
deriving DecidableEq, Repr

/-- `pckt_item_t`, the list link left out. -/
structure PcktItem where
  pcktPtr : List UInt8
  pcktSize : Nat
deriving DecidableEq, Repr

/-- The static variables of the parser and its counters. -/
structure ParserState where
  recBuf : Vector UInt8 recbufSize
  pcktCurPos : Nat
  pcktCurLen : Nat
  term : Pterm
  avrgPckts : Nat
  goodPckts : Nat
  badPckts : Nat

def ParserState.initial : ParserState where
  recBuf := Vector.replicate recbufSize 0
  pcktCurPos := 0
  pcktCurLen := 0
  term := .noPacket
  avrgPckts := 0
  goodPckts := 0
  badPckts := 0

/-- `rec_buf[pos] = b` -/
def storeByte (buf : Vector UInt8 recbufSize) (pos : Nat) (b : UInt8) :
    Option (Vector UInt8 recbufSize) :=
  if h : pos < recbufSize then some (buf.set pos b h) else none

/-- The branch of `START_CHARACTER`: inside a packet the position and the length
start over, and the length does not count the start character again. -/
def ParserState.startBranch (b : UInt8) (st : ParserState) : Option ParserState :=
  match st.term with
  | .packet =>
      (storeByte st.recBuf 0 b).map fun buf =>
        { st with recBuf := buf, badPckts := st.badPckts + 1, pcktCurPos := 1, pcktCurLen := 0 }
  | .noPacket =>
      some { st with
        term := .packet, avrgPckts := st.avrgPckts + 1, pcktCurPos := st.pcktCurPos + 1 }

/-- The branch of `STOP_CHARACTER`: copy `pckt_cur_len` bytes out of `rec_buf`,
whether or not a packet is open. -/
def ParserState.stopBranch (st : ParserState) : Option (ParserState × PcktItem) :=
  if st.pcktCurLen ≤ recbufSize then
    some
      ({ st with
          term := .noPacket, goodPckts := st.goodPckts + 1, pcktCurPos := 0, pcktCurLen := 0 },
        ⟨st.recBuf.toList.take st.pcktCurLen, st.pcktCurLen⟩)
  else none

/-- Any other byte: outside a packet the position stays. -/
def ParserState.defaultBranch (st : ParserState) : ParserState :=
  match st.term with
  | .noPacket => st
  | .packet => { st with pcktCurPos := st.pcktCurPos + 1 }

/-- The body of the loop of `parse_buffer`. -/
def parseByte (st : ParserState) (b : UInt8) : Option (ParserState × Option PcktItem) :=
  (storeByte st.recBuf st.pcktCurPos b).bind fun buf =>
    let st' := { st with recBuf := buf, pcktCurLen := st.pcktCurLen + 1 }
    if b = startCharacter then (st'.startBranch b).map (·, none)
    else if b = stopCharacter then st'.stopBranch.map fun r => (r.1, some r.2)
    else some (st'.defaultBranch, none)

/-- `parse_buffer`: the parser state after the call and the returned items. -/
def parseBuffer : ParserState → List UInt8 → Option (ParserState × List PcktItem)
  | st, [] => some (st, [])
  | st, b :: rest =>
      (parseByte st b).bind fun r =>
        (parseBuffer r.1 rest).map fun t => (t.1, r.2.toList ++ t.2)

/-- Successive calls of `parse_buffer`. -/
def parseCalls : ParserState → List (List UInt8) → Option (ParserState × List PcktItem)
  | st, [] => some (st, [])
  | st, chunk :: rest =>
      (parseBuffer st chunk).bind fun r =>
        (parseCalls r.1 rest).map fun t => (t.1, r.2 ++ t.2)

/-! ### Calls and their concatenation -/

theorem parseBuffer_append
    (st : ParserState)
    (a b : List UInt8) :
    parseBuffer st (a ++ b) =
      (parseBuffer st a).bind fun r =>
        (parseBuffer r.1 b).map fun t => (t.1, r.2 ++ t.2) := by
  induction a generalizing st with
  | nil => simp [parseBuffer]
  | cons x a ih =>
      simp only [List.cons_append, parseBuffer]
      cases parseByte st x with
      | none => rfl
      | some r =>
          simp only [Option.bind_some, ih]
          cases parseBuffer r.1 a with
          | none => rfl
          | some t => simp [Function.comp_def]

/-- The cut of a stream into calls does not matter. -/
theorem parseCalls_eq
    (st : ParserState)
    (chunks : List (List UInt8)) :
    parseCalls st chunks = parseBuffer st chunks.flatten := by
  induction chunks generalizing st with
  | nil => rfl
  | cons chunk rest ih =>
      rw [List.flatten_cons, parseBuffer_append, parseCalls]
      simp only [ih]

/-- Two cuts of a stream into calls, with empty or one-byte chunks among them, leave the
same parser state and the same counters, and return the same packets in the same order; a
stream that leaves `rec_buf` does so under both. -/
theorem parseCalls_cut_irrelevant
    (st : ParserState)
    {chunks chunks' : List (List UInt8)}
    (h : chunks.flatten = chunks'.flatten) :
    parseCalls st chunks = parseCalls st chunks' := by
  rw [parseCalls_eq, parseCalls_eq, h]

/-- The cut in two calls, an empty call and single bytes. -/
theorem parseCalls_cut_irrelevant_frame :
    parseCalls .initial [[0x02, 0x41] ++ [0x42, 0x0d]] =
        parseCalls .initial [[0x02, 0x41], [0x42, 0x0d]] ∧
      parseCalls .initial [[0x02, 0x41], [0x42, 0x0d]] =
        parseCalls .initial [[0x02], [], [0x41], [0x42], [0x0d]] :=
  ⟨parseCalls_cut_irrelevant .initial rfl, parseCalls_cut_irrelevant .initial rfl⟩

/-! ### One byte -/

/-- The state between frames when nothing is out of step. -/
structure ParserState.Idle (st : ParserState) : Prop where
  term_eq : st.term = .noPacket
  pos_eq : st.pcktCurPos = 0
  len_eq : st.pcktCurLen = 0

/-- The state inside the frame that begins with `bytes` when nothing is out of step. -/
structure ParserState.Open (st : ParserState) (bytes : List UInt8) : Prop where
  term_eq : st.term = .packet
  pos_eq : st.pcktCurPos = bytes.length
  len_eq : st.pcktCurLen = bytes.length
  fits : bytes.length ≤ recbufSize
  stored : st.recBuf.toList.take bytes.length = bytes

theorem initial_idle : ParserState.initial.Idle := ⟨rfl, rfl, rfl⟩

theorem storeByte_take
    {buf buf' : Vector UInt8 recbufSize}
    {pos : Nat}
    {b : UInt8}
    (h : storeByte buf pos b = some buf') :
    pos < recbufSize ∧ buf'.toList.take (pos + 1) = buf.toList.take pos ++ [b] := by
  unfold storeByte at h
  split at h
  · rename_i hpos
    obtain rfl := Option.some.inj h
    refine ⟨hpos, ?_⟩
    have hlen : pos < buf.toList.length := by simpa using hpos
    rw [Vector.toList_set, List.take_add_one, List.getElem?_set_self hlen,
      List.take_set_of_le (Nat.le_refl pos)]
    rfl
  · exact absurd h (by simp)

theorem storeByte_of_lt
    (buf : Vector UInt8 recbufSize)
    {pos : Nat}
    (b : UInt8)
    (h : pos < recbufSize) :
    ∃ buf', storeByte buf pos b = some buf' :=
  ⟨_, dif_pos h⟩

theorem startCharacter_ne_stopCharacter : startCharacter ≠ stopCharacter := by decide

/-- A start character between frames opens a frame. -/
theorem parseByte_start_idle
    {st : ParserState}
    (h : st.Idle) :
    ∃ st', parseByte st startCharacter = some (st', none) ∧ st'.Open [startCharacter] := by
  obtain ⟨hterm, hpos, hlen⟩ := h
  obtain ⟨buf, hbuf⟩ :=
    storeByte_of_lt st.recBuf startCharacter (show st.pcktCurPos < recbufSize by
      rw [hpos]; decide)
  refine ⟨_, by simp [parseByte, hbuf, ParserState.startBranch, hterm]; rfl, ?_⟩
  constructor
  · rfl
  · simp [hpos]
  · simp [hlen]
  · decide
  · simpa [hpos] using (storeByte_take hbuf).2

/-- A byte of the body is stored behind the bytes before it. -/
theorem parseByte_body_open
    {st : ParserState}
    {bytes : List UInt8}
    (h : st.Open bytes)
    {b : UInt8}
    (hstart : b ≠ startCharacter)
    (hstop : b ≠ stopCharacter)
    (hlt : bytes.length < recbufSize) :
    ∃ st', parseByte st b = some (st', none) ∧ st'.Open (bytes ++ [b]) := by
  obtain ⟨hterm, hpos, hlen, -, hstored⟩ := h
  obtain ⟨buf, hbuf⟩ := storeByte_of_lt st.recBuf b (hpos ▸ hlt)
  refine ⟨_, by
    simp [parseByte, hbuf, hstart, hstop, ParserState.defaultBranch, hterm]; rfl, ?_⟩
  constructor
  · rfl
  · simp [hpos]
  · simp [hlen]
  · rw [List.length_append, List.length_singleton]
    omega
  · have htake := (storeByte_take hbuf).2
    rw [hpos, hstored] at htake
    simpa using htake

/-- A stop character closes the open frame and returns it. -/
theorem parseByte_stop_open
    {st : ParserState}
    {bytes : List UInt8}
    (h : st.Open bytes)
    (hlt : bytes.length < recbufSize) :
    ∃ st',
      parseByte st stopCharacter =
        some (st', some ⟨bytes ++ [stopCharacter], (bytes ++ [stopCharacter]).length⟩) ∧
      st'.Idle := by
  obtain ⟨hterm, hpos, hlen, -, hstored⟩ := h
  obtain ⟨buf, hbuf⟩ := storeByte_of_lt st.recBuf stopCharacter (hpos ▸ hlt)
  have htake := (storeByte_take hbuf).2
  rw [hpos, hstored] at htake
  refine ⟨_, by
    simp [parseByte, hbuf, startCharacter_ne_stopCharacter.symm, ParserState.stopBranch,
      hlen, Nat.succ_le_of_lt hlt, htake]; rfl, ?_⟩
  exact ⟨rfl, rfl, rfl⟩

/-- A frame that does not fit is stored past the end of `rec_buf`. -/
theorem parseByte_full
    {st : ParserState}
    (b : UInt8)
    (hfull : recbufSize ≤ st.pcktCurPos) :
    parseByte st b = none := by
  simp [parseByte, storeByte, not_lt.mpr hfull]

/-! ### Frames back to back -/

/-- Every frame of the reference, as an item. -/
def PcktItem.ofFrame (frame : List UInt8) : PcktItem :=
  ⟨frame, frame.length⟩

theorem parseBuffer_body
    {st : ParserState}
    {bytes body : List UInt8}
    (h : st.Open bytes)
    (hstart : startCharacter ∉ body)
    (hstop : stopCharacter ∉ body)
    (hlen : bytes.length + body.length ≤ recbufSize) :
    ∃ st', parseBuffer st body = some (st', []) ∧ st'.Open (bytes ++ body) := by
  induction body generalizing st bytes with
  | nil => exact ⟨st, rfl, by simpa using h⟩
  | cons b body ih =>
      simp only [List.mem_cons, not_or] at hstart hstop
      rw [List.length_cons] at hlen
      obtain ⟨st₁, hstep, hopen⟩ :=
        parseByte_body_open h (Ne.symm hstart.1) (Ne.symm hstop.1) (by omega)
      obtain ⟨st₂, hrun, hopen₂⟩ := ih hopen hstart.2 hstop.2 (by simp; omega)
      exact ⟨st₂, by simp [parseBuffer, hstep, hrun], by simpa using hopen₂⟩

theorem parseBuffer_frame
    {st : ParserState}
    {frame : List UInt8}
    (h : st.Idle)
    (hframe : IsFrame startCharacter stopCharacter frame)
    (hlen : frame.length ≤ recbufSize) :
    ∃ st', parseBuffer st frame = some (st', [PcktItem.ofFrame frame]) ∧ st'.Idle := by
  obtain ⟨body, rfl, hstart, hstop⟩ := hframe
  simp only [List.length_cons, List.length_append, List.length_nil] at hlen
  obtain ⟨st₁, hstep, hopen⟩ := parseByte_start_idle h
  obtain ⟨st₂, hbody, hopen₂⟩ :=
    parseBuffer_body hopen hstart hstop (by simp only [List.length_singleton]; omega)
  obtain ⟨st₃, hclose, hidle⟩ :=
    parseByte_stop_open hopen₂ (by
      simp only [List.length_append, List.length_singleton]; omega)
  refine ⟨st₃, ?_, hidle⟩
  simp [parseBuffer, hstep, parseBuffer_append, hbody, hclose, PcktItem.ofFrame]

/-- From the idle state, frames that follow each other are returned one by one. -/
theorem parseBuffer_frames
    {st : ParserState}
    {frames : List (List UInt8)}
    (h : st.Idle)
    (hframes : ∀ frame ∈ frames,
      IsFrame startCharacter stopCharacter frame ∧ frame.length ≤ recbufSize) :
    ∃ st', parseBuffer st frames.flatten = some (st', frames.map PcktItem.ofFrame) ∧
      st'.Idle := by
  induction frames generalizing st with
  | nil => exact ⟨st, rfl, h⟩
  | cons frame frames ih =>
      obtain ⟨hframe, hlen⟩ := hframes frame (by simp)
      obtain ⟨st₁, hfirst, hidle⟩ := parseBuffer_frame h hframe hlen
      obtain ⟨st₂, hrest, hidle₂⟩ := ih hidle (fun f hf => hframes f (List.mem_cons_of_mem _ hf))
      exact ⟨st₂, by simp [parseBuffer_append, hfirst, hrest], hidle₂⟩

/-- Outside a packet the position stays at 0, whatever the length counter says. -/
structure ParserState.Outside (st : ParserState) : Prop where
  term_eq : st.term = .noPacket
  pos_eq : st.pcktCurPos = 0

theorem parseByte_outside
    {st : ParserState}
    (h : st.Outside)
    {b : UInt8}
    (hstart : b ≠ startCharacter)
    (hstop : b ≠ stopCharacter) :
    ∃ st', parseByte st b = some (st', none) ∧ st'.Outside ∧
      st'.pcktCurLen = st.pcktCurLen + 1 := by
  obtain ⟨hterm, hpos⟩ := h
  obtain ⟨buf, hbuf⟩ := storeByte_of_lt st.recBuf b (show st.pcktCurPos < recbufSize by
    rw [hpos]; decide)
  exact ⟨{ st with recBuf := buf, pcktCurLen := st.pcktCurLen + 1 },
    by simp [parseByte, hbuf, hstart, hstop, ParserState.defaultBranch, hterm],
    ⟨hterm, hpos⟩, rfl⟩

theorem parseBuffer_outside
    {st : ParserState}
    (h : st.Outside)
    {noise : List UInt8}
    (hstart : startCharacter ∉ noise)
    (hstop : stopCharacter ∉ noise) :
    ∃ st', parseBuffer st noise = some (st', []) ∧ st'.Outside := by
  induction noise generalizing st with
  | nil => exact ⟨st, rfl, h⟩
  | cons b noise ih =>
      simp only [List.mem_cons, not_or] at hstart hstop
      obtain ⟨st₁, hstep, hout, -⟩ :=
        parseByte_outside h (Ne.symm hstart.1) (Ne.symm hstop.1)
      obtain ⟨st₂, hrun, hout₂⟩ := ih hout hstart.2 hstop.2
      exact ⟨st₂, by simp [parseBuffer, hstep, hrun], hout₂⟩

/-- Inside a packet the length counter equals the write position. -/
def ParserState.InStep (st : ParserState) : Prop :=
  st.term = .packet → st.pcktCurLen = st.pcktCurPos

theorem parseBuffer_tail
    {st : ParserState}
    (h : st.Idle)
    {tail : List UInt8}
    (htail : IsTail startCharacter stopCharacter recbufSize tail) :
    ∃ st', parseBuffer st tail = some (st', []) ∧ st'.InStep := by
  by_cases hmem : startCharacter ∈ tail
  · cases tail with
    | nil => simp at hmem
    | cons b body =>
        have hstart : startCharacter ∉ body := htail.no_inner_start
        have hb : startCharacter = b := (List.mem_cons.mp hmem).resolve_right hstart
        subst hb
        have hstop : stopCharacter ∉ body := fun h => htail.no_stop (List.mem_cons_of_mem _ h)
        have hfits := htail.fits hmem
        rw [List.length_cons] at hfits
        obtain ⟨st₁, hstep, hopen⟩ := parseByte_start_idle h
        obtain ⟨st₂, hrun, hopen₂⟩ :=
          parseBuffer_body hopen hstart hstop (by simp only [List.length_singleton]; omega)
        refine ⟨st₂, by simp [parseBuffer, hstep, hrun], ?_⟩
        intro _
        rw [hopen₂.len_eq, hopen₂.pos_eq]
  · obtain ⟨st', hrun, hout⟩ :=
      parseBuffer_outside ⟨h.term_eq, h.pos_eq⟩ hmem htail.no_stop
    refine ⟨st', hrun, ?_⟩
    intro hterm
    rw [hout.term_eq] at hterm
    exact absurd hterm (by decide)

/-- On back-to-back frames the parser returns the frames and stays in step. -/
theorem parseBuffer_backToBack
    {stream : List UInt8}
    (h : BackToBack startCharacter stopCharacter recbufSize stream) :
    ∃ st,
      parseBuffer .initial stream =
        some (st, (deframe startCharacter stopCharacter stream).map PcktItem.ofFrame) ∧
      st.InStep := by
  obtain ⟨frames, tail, rfl, hframes, htail⟩ := h
  rw [deframe_flatten startCharacter_ne_stopCharacter (fun f hf => (hframes f hf).1)
    htail.no_stop]
  obtain ⟨st₁, hfirst, hidle⟩ := parseBuffer_frames initial_idle hframes
  obtain ⟨st₂, hrest, hstep⟩ := parseBuffer_tail hidle htail
  exact ⟨st₂, by simp [parseBuffer_append, hfirst, hrest], hstep⟩

/-! ### What agreement with the reference forces -/

/-- Each stop character returns one item, and nothing else does. -/
theorem parseByte_items
    {st : ParserState}
    {b : UInt8}
    {r : ParserState × Option PcktItem}
    (h : parseByte st b = some r) :
    r.2.toList.length = if b = stopCharacter then 1 else 0 := by
  obtain ⟨buf, -, h⟩ := Option.bind_eq_some_iff.mp h
  by_cases hstart : b = startCharacter
  · subst hstart
    simp only [if_true] at h
    obtain ⟨st', -, rfl⟩ := Option.map_eq_some_iff.mp h
    rw [if_neg startCharacter_ne_stopCharacter]
    rfl
  · by_cases hstop : b = stopCharacter
    · simp only [if_neg hstart, if_pos hstop] at h
      obtain ⟨q, -, rfl⟩ := Option.map_eq_some_iff.mp h
      rw [if_pos hstop]
      rfl
    · simp only [if_neg hstart, if_neg hstop, Option.some.injEq] at h
      rw [if_neg hstop, ← h]
      rfl

theorem parseBuffer_items
    {st : ParserState}
    {stream : List UInt8}
    {r : ParserState × List PcktItem}
    (h : parseBuffer st stream = some r) :
    r.2.length = stream.count stopCharacter := by
  induction stream generalizing st r with
  | nil =>
      obtain rfl := Option.some.inj h
      rfl
  | cons b rest ih =>
      obtain ⟨q, hq, h⟩ := Option.bind_eq_some_iff.mp h
      obtain ⟨t, ht, rfl⟩ := Option.map_eq_some_iff.mp h
      rw [List.length_append, parseByte_items hq, ih ht, List.count_cons, Nat.add_comm]
      simp

/-- What remains of the agreement once the items are only counted: the parser never
leaves `rec_buf`, every stop character closes a frame, and in every state the
length counter is in step. -/
structure Agrees (st : ParserState) (o : Option (List UInt8)) (stream : List UInt8) : Prop where
  defined : parseBuffer st stream ≠ none
  closing :
    (deframeFrom startCharacter stopCharacter o stream).length = stream.count stopCharacter
  inStep : ∀ fed rest, stream = fed ++ rest →
    ∀ r, parseBuffer st fed = some r → r.1.InStep

theorem Agrees.step
    {st : ParserState}
    {o : Option (List UInt8)}
    {b : UInt8}
    {rest : List UInt8}
    (h : Agrees st o (b :: rest))
    {r : ParserState × Option PcktItem}
    (hr : parseByte st b = some r)
    (o' : Option (List UInt8))
    (hclosing :
      (deframeFrom startCharacter stopCharacter o' rest).length = rest.count stopCharacter) :
    r.1.InStep ∧ Agrees r.1 o' rest := by
  have hcons : ∀ w, parseBuffer st (b :: w) =
      (parseBuffer r.1 w).map fun t => (t.1, r.2.toList ++ t.2) := by
    intro w
    simp [parseBuffer, hr]
  refine ⟨h.inStep [b] rest rfl _ (hcons []), ?_, hclosing, ?_⟩
  · intro hnone
    exact h.defined (by rw [hcons, hnone]; rfl)
  · intro fed rest' heq t ht
    exact h.inStep (b :: fed) rest' (by rw [heq]; rfl) (t.1, r.2.toList ++ t.2)
      (by rw [hcons, ht]; rfl)

/-- A stop character with no open frame returns an item that the reference lacks. -/
theorem Agrees.no_stray_stop
    {st : ParserState}
    {rest : List UInt8}
    (h : Agrees st none (stopCharacter :: rest)) :
    False := by
  have hclosing := h.closing
  rw [deframeFrom_cons, if_neg startCharacter_ne_stopCharacter.symm, if_pos rfl,
    List.count_cons_self] at hclosing
  have hle : (deframeFrom startCharacter stopCharacter none rest).length ≤
      rest.count stopCharacter :=
    length_deframeFrom_le none rest
  simp only at hclosing
  omega

/-- The open frame of the reference after a byte that is no delimiter. -/
theorem Agrees.closing_body
    {st : ParserState}
    {o : Option (List UInt8)}
    {b : UInt8}
    {rest : List UInt8}
    (h : Agrees st o (b :: rest))
    (hstart : b ≠ startCharacter)
    (hstop : b ≠ stopCharacter) :
    (deframeFrom startCharacter stopCharacter (o.map (· ++ [b])) rest).length =
      rest.count stopCharacter := by
  have hclosing := h.closing
  rwa [deframeFrom_cons, if_neg hstart, if_neg hstop, List.count_cons_of_ne hstop] at hclosing

/-- Once a byte outside a frame has advanced the length counter, no delimiter may follow. -/
theorem Agrees.noise
    {st : ParserState}
    {stream : List UInt8}
    (hout : st.Outside)
    (hlen : 0 < st.pcktCurLen)
    (h : Agrees st none stream) :
    startCharacter ∉ stream ∧ stopCharacter ∉ stream := by
  induction stream generalizing st with
  | nil => simp
  | cons b rest ih =>
      by_cases hstop : b = stopCharacter
      · subst hstop
        exact h.no_stray_stop.elim
      · by_cases hstart : b = startCharacter
        · -- the frame opens at position 1 with a length counter of 2 or more
          subst hstart
          obtain ⟨buf, hbuf⟩ :=
            storeByte_of_lt st.recBuf startCharacter (show st.pcktCurPos < recbufSize by
              rw [hout.pos_eq]; decide)
          have hr : parseByte st startCharacter =
              some ({ st with
                recBuf := buf
                pcktCurLen := st.pcktCurLen + 1
                term := .packet
                avrgPckts := st.avrgPckts + 1
                pcktCurPos := st.pcktCurPos + 1 }, none) := by
            simp [parseByte, hbuf, ParserState.startBranch, hout.term_eq]
          have hpos := hout.pos_eq
          have hin := h.inStep [startCharacter] rest rfl _ (by simp [parseBuffer, hr]; rfl) rfl
          simp only at hin
          omega
        · obtain ⟨st', hr, hout', hlen'⟩ := parseByte_outside hout hstart hstop
          have hnext := (h.step hr none (h.closing_body hstart hstop)).2
          obtain ⟨h1, h2⟩ := ih hout' (by omega) hnext
          simp [h1, h2, Ne.symm hstart, Ne.symm hstop]

/-- Agreement inside an open frame: the rest of the stream completes the frame
without restarting it, or ends before it does. -/
theorem Agrees.open_backToBack
    (stream : List UInt8)
    (hidle : ∀ rest, rest.length < stream.length →
      ∀ st : ParserState, st.Idle → Agrees st none rest →
        BackToBack startCharacter stopCharacter recbufSize rest)
    {st : ParserState}
    {body : List UInt8}
    (hstart : startCharacter ∉ body)
    (hstop : stopCharacter ∉ body)
    (hopen : st.Open (startCharacter :: body))
    (h : Agrees st (some (startCharacter :: body)) stream) :
    BackToBack startCharacter stopCharacter recbufSize
      (startCharacter :: (body ++ stream)) := by
  induction stream generalizing st body with
  | nil =>
      rw [List.append_nil]
      exact (isTail_open startCharacter_ne_stopCharacter hstart hstop hopen.fits).backToBack
  | cons b rest ih =>
      have hroom : (startCharacter :: body).length < recbufSize := by
        by_contra hfull
        refine h.defined ?_
        rw [parseBuffer, parseByte_full b (by rw [hopen.pos_eq]; exact not_lt.mp hfull)]
        rfl
      by_cases hbstart : b = startCharacter
      · -- a second start character: position 1, length counter 0
        subst hbstart
        obtain ⟨buf, hbuf⟩ := storeByte_of_lt st.recBuf startCharacter (hopen.pos_eq ▸ hroom)
        obtain ⟨buf', hbuf'⟩ :=
          storeByte_of_lt buf startCharacter (show 0 < recbufSize by decide)
        have hr : parseByte st startCharacter =
            some ({ st with
              recBuf := buf'
              badPckts := st.badPckts + 1
              pcktCurPos := 1
              pcktCurLen := 0 }, none) := by
          simp [parseByte, hbuf, ParserState.startBranch, hopen.term_eq, hbuf']
        have hin := h.inStep [startCharacter] rest rfl _ (by simp [parseBuffer, hr]; rfl)
          hopen.term_eq
        simp at hin
      · by_cases hbstop : b = stopCharacter
        · subst hbstop
          obtain ⟨st', hr, hidle'⟩ := parseByte_stop_open hopen hroom
          have hclosing := h.closing
          rw [deframeFrom_cons, if_neg hbstart, if_pos rfl, List.count_cons_self] at hclosing
          have hnext := (h.step hr none (by simpa using hclosing)).2
          have hrest := hidle rest (by simp) st' hidle' hnext
          have hframe : IsFrame startCharacter stopCharacter
              (startCharacter :: (body ++ [stopCharacter])) := ⟨body, rfl, hstart, hstop⟩
          have hlen : (startCharacter :: (body ++ [stopCharacter])).length ≤ recbufSize := by
            simp only [List.length_cons, List.length_append, List.length_nil] at hroom ⊢
            omega
          simpa using BackToBack.frame_append hframe hlen hrest
        · obtain ⟨st', hr, hopen'⟩ := parseByte_body_open hopen hbstart hbstop hroom
          have hnext := (h.step hr _ (h.closing_body hbstart hbstop)).2
          have hb1 : startCharacter ∉ body ++ [b] := by simp [hstart, Ne.symm hbstart]
          have hb2 : stopCharacter ∉ body ++ [b] := by simp [hstop, Ne.symm hbstop]
          have := ih (fun w hw => hidle w (by simp only [List.length_cons]; omega))
            hb1 hb2 hopen' hnext
          simpa using this

/-- Agreement from the idle state forces frames back to back. -/
theorem Agrees.backToBack
    {st : ParserState}
    {stream : List UInt8}
    (hidle : st.Idle)
    (h : Agrees st none stream) :
    BackToBack startCharacter stopCharacter recbufSize stream := by
  induction hn : stream.length using Nat.strong_induction_on generalizing st stream with
  | _ n ih =>
      cases stream with
      | nil => exact (isTail_nil _).backToBack
      | cons b rest =>
          by_cases hstop : b = stopCharacter
          · subst hstop
            exact h.no_stray_stop.elim
          · by_cases hstart : b = startCharacter
            · subst hstart
              obtain ⟨st', hr, hopen⟩ := parseByte_start_idle hidle
              have hclosing := h.closing
              rw [deframeFrom_cons, if_pos rfl, List.count_cons_of_ne hstop] at hclosing
              have hnext := (h.step hr _ hclosing).2
              refine Agrees.open_backToBack rest ?_ (by simp) (by simp) hopen hnext
              intro w hw st'' hidle'' hagrees
              exact ih w.length (by rw [← hn, List.length_cons]; omega) hidle'' hagrees rfl
            · obtain ⟨st', hr, hout, hlen⟩ :=
                parseByte_outside ⟨hidle.term_eq, hidle.pos_eq⟩ hstart hstop
              have hnext := (h.step hr none (h.closing_body hstart hstop)).2
              obtain ⟨h1, h2⟩ := hnext.noise hout (by omega)
              refine IsTail.backToBack ⟨?_, h1, ?_⟩
              · simp [h2, Ne.symm hstop]
              · intro hmem
                simp [h1, Ne.symm hstart] at hmem

/-! ### The deframer against the reference -/

/-- `parse_buffer`, called on the chunks of a stream from its initial state, returns
the frames of the reference with their sizes, and is in step after every byte. -/
def DeframesExactly (chunks : List (List UInt8)) : Prop :=
  (∃ st, parseCalls .initial chunks =
    some (st, (deframe startCharacter stopCharacter chunks.flatten).map PcktItem.ofFrame)) ∧
  ∀ fed rest, chunks.flatten = fed ++ rest →
    ∀ r, parseBuffer .initial fed = some r → r.1.InStep

/-- **`parse_buffer` against the reference deframer.**  They agree exactly on the
streams whose frames follow each other immediately and fit `rec_buf`, however the
stream is cut into calls. -/
theorem parseBuffer_deframes_iff
    (chunks : List (List UInt8)) :
    DeframesExactly chunks ↔
      BackToBack startCharacter stopCharacter recbufSize chunks.flatten := by
  constructor
  · rintro ⟨⟨st, hrun⟩, hstep⟩
    rw [parseCalls_eq] at hrun
    refine Agrees.backToBack initial_idle ⟨by simp [hrun], ?_, hstep⟩
    have hitems := parseBuffer_items hrun
    rw [List.length_map] at hitems
    exact hitems
  · intro h
    obtain ⟨st, hrun, -⟩ := parseBuffer_backToBack h
    refine ⟨⟨st, by rw [parseCalls_eq, hrun]⟩, ?_⟩
    intro fed rest heq r hr
    rw [heq] at h
    obtain ⟨st', hrun', hin⟩ :=
      parseBuffer_backToBack (h.of_append startCharacter_ne_stopCharacter)
    rw [hrun'] at hr
    exact Option.some.inj hr ▸ hin

/-- A line feed between two frames makes the second packet one byte too long. -/
theorem parseBuffer_line_feed :
    (parseBuffer .initial [0x02, 0x41, 0x0d, 0x0a, 0x02, 0x42, 0x0d]).map Prod.snd =
      some [⟨[0x02, 0x41, 0x0d], 3⟩, ⟨[0x02, 0x42, 0x0d, 0x00], 4⟩] ∧
    deframe startCharacter stopCharacter [0x02, 0x41, 0x0d, 0x0a, 0x02, 0x42, 0x0d] =
      [[0x02, 0x41, 0x0d], [0x02, 0x42, 0x0d]] ∧
    ¬ DeframesExactly [[0x02, 0x41, 0x0d, 0x0a, 0x02, 0x42, 0x0d]] := by
  have hrun : (parseBuffer .initial [0x02, 0x41, 0x0d, 0x0a, 0x02, 0x42, 0x0d]).map Prod.snd =
      some [⟨[0x02, 0x41, 0x0d], 3⟩, ⟨[0x02, 0x42, 0x0d, 0x00], 4⟩] := by decide +kernel
  have href : deframe startCharacter stopCharacter
      [0x02, 0x41, 0x0d, 0x0a, 0x02, 0x42, 0x0d] =
      [[0x02, 0x41, 0x0d], [0x02, 0x42, 0x0d]] := by decide +kernel
  refine ⟨hrun, href, ?_⟩
  rintro ⟨⟨st, hcalls⟩, -⟩
  rw [parseCalls_eq] at hcalls
  simp only [List.flatten_cons, List.flatten_nil, List.append_nil] at hcalls
  rw [hcalls, href] at hrun
  simp [PcktItem.ofFrame] at hrun

end Libpack
end MatrixBin
