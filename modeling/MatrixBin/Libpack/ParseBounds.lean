import MatrixBin.Library.LineSplitter
import MatrixBin.Libpack.ParseBuffer
import Mathlib.Data.List.Induction

/-!
# The bounds of `rec_buf` (`parse_buffer` in `devdrvd_communication.c`)

Neither counter of the parser is compared with `RECBUF_SIZE`.  Both are functions of what
was received: `ParserState.Tracks` says which, in terms of the bytes behind the last stop
character and behind the last start character, and `parseByte_tracks` keeps it over every
byte, whatever the stream.

From it come the streams on which every store and every `memcpy` stays inside `rec_buf`.
-/

namespace MatrixBin
namespace Libpack

open Library

/-- The bytes behind the last stop character. -/
def sinceStop (past : List UInt8) : List UInt8 := (splitLines stopCharacter past).2

/-- The bytes behind the last start character. -/
def sinceStart (past : List UInt8) : List UInt8 := (splitLines startCharacter past).2

/-! ### What the counters count -/

/-- The counters after the bytes `past`.  A second start character in a frame takes both
back to the start of the frame; the first one leaves the length as it is. -/
structure ParserState.Tracks (st : ParserState) (past : List UInt8) : Prop where
  term_eq : st.term = if startCharacter ∈ sinceStop past then .packet else .noPacket
  pos_eq : st.pcktCurPos =
    if startCharacter ∈ sinceStop past then (sinceStart past).length + 1 else 0
  len_eq : st.pcktCurLen =
    if (sinceStop past).count startCharacter ≤ 1 then (sinceStop past).length
    else (sinceStart past).length

theorem initial_tracks : ParserState.initial.Tracks [] := ⟨rfl, rfl, rfl⟩

section OneByte

variable {st : ParserState} {past : List UInt8} {b : UInt8}

theorem ParserState.Tracks.start
    (h : st.Tracks past)
    {r : ParserState × Option PcktItem}
    (hstep : parseByte st startCharacter = some r) :
    r.1.Tracks (past ++ [startCharacter]) := by
  obtain ⟨hterm, hpos, hlen⟩ := h
  have hstop : sinceStop (past ++ [startCharacter]) = sinceStop past ++ [startCharacter] :=
    tail_concat_ne past startCharacter_ne_stopCharacter
  have hstart : sinceStart (past ++ [startCharacter]) = [] := tail_concat_self past
  have hcount : (sinceStop past ++ [startCharacter]).count startCharacter =
      (sinceStop past).count startCharacter + 1 := by simp
  obtain ⟨buf, -, hbranch⟩ := Option.bind_eq_some_iff.mp hstep
  rw [if_pos rfl, Option.map_eq_some_iff] at hbranch
  obtain ⟨st', hst', rfl⟩ := hbranch
  by_cases hopen : startCharacter ∈ sinceStop past
  · -- a frame is open: the counters start over
    rw [if_pos hopen] at hterm
    simp only [ParserState.startBranch, hterm, Option.map_eq_some_iff] at hst'
    obtain ⟨buf', -, rfl⟩ := hst'
    have hone : 0 < (sinceStop past).count startCharacter := List.count_pos_iff.mpr hopen
    refine ⟨?_, ?_, ?_⟩
    · simp [hstop]
    · simp [hstop, hstart]
    · rw [hstop, hcount, if_neg (by omega), hstart]
      rfl
  · rw [if_neg hopen] at hterm hpos
    have hzero : (sinceStop past).count startCharacter = 0 := List.count_eq_zero.mpr hopen
    rw [hzero, if_pos (by omega)] at hlen
    simp only [ParserState.startBranch, hterm, Option.some.injEq] at hst'
    subst hst'
    refine ⟨?_, ?_, ?_⟩
    · simp [hstop]
    · simp [hstop, hstart, hpos]
    · rw [hstop, hcount, hzero, if_pos (by omega), List.length_append, hlen]
      rfl

theorem ParserState.Tracks.stop
    {r : ParserState × Option PcktItem}
    (hstep : parseByte st stopCharacter = some r) :
    r.1.Tracks (past ++ [stopCharacter]) := by
  have hstop : sinceStop (past ++ [stopCharacter]) = [] := tail_concat_self past
  obtain ⟨buf, -, hbranch⟩ := Option.bind_eq_some_iff.mp hstep
  rw [if_neg startCharacter_ne_stopCharacter.symm, if_pos rfl, Option.map_eq_some_iff] at hbranch
  obtain ⟨r', hr', rfl⟩ := hbranch
  rw [ParserState.stopBranch, Option.ite_none_right_eq_some] at hr'
  obtain rfl := Option.some.inj hr'.2
  refine ⟨?_, ?_, ?_⟩
  · simp [hstop]
  · simp [hstop]
  · simp [hstop]

theorem ParserState.Tracks.other
    (h : st.Tracks past)
    (hne : b ≠ startCharacter)
    (hne' : b ≠ stopCharacter)
    {r : ParserState × Option PcktItem}
    (hstep : parseByte st b = some r) :
    r.1.Tracks (past ++ [b]) := by
  obtain ⟨hterm, hpos, hlen⟩ := h
  have hstop : sinceStop (past ++ [b]) = sinceStop past ++ [b] := tail_concat_ne past hne'
  have hstart : sinceStart (past ++ [b]) = sinceStart past ++ [b] := tail_concat_ne past hne
  have hmem : startCharacter ∈ sinceStop past ++ [b] ↔ startCharacter ∈ sinceStop past := by
    simp [Ne.symm hne]
  have hcount : (sinceStop past ++ [b]).count startCharacter =
      (sinceStop past).count startCharacter := by
    simp [hne]
  obtain ⟨buf, -, hbranch⟩ := Option.bind_eq_some_iff.mp hstep
  rw [if_neg hne, if_neg hne', Option.some.injEq] at hbranch
  subst hbranch
  have hnewlen : st.pcktCurLen + 1 =
      if (sinceStop (past ++ [b])).count startCharacter ≤ 1 then
        (sinceStop (past ++ [b])).length
      else (sinceStart (past ++ [b])).length := by
    rw [hstop, hstart, hcount, hlen]
    split <;> simp
  by_cases hopen : startCharacter ∈ sinceStop past
  · rw [if_pos hopen] at hterm hpos
    simp only [ParserState.defaultBranch, hterm]
    refine ⟨?_, ?_, hnewlen⟩
    · simp [hstop, hopen]
    · simp [hstop, hstart, hopen, hpos]
  · rw [if_neg hopen] at hterm hpos
    simp only [ParserState.defaultBranch, hterm]
    refine ⟨?_, ?_, hnewlen⟩
    · simp only [hstop, hmem, if_neg hopen]
    · simp only [hstop, hmem, if_neg hopen, hpos]

/-- **One byte.**  The counters go on counting what was received. -/
theorem parseByte_tracks
    (h : st.Tracks past)
    {r : ParserState × Option PcktItem}
    (hstep : parseByte st b = some r) :
    r.1.Tracks (past ++ [b]) := by
  by_cases hstart : b = startCharacter
  · subst hstart
    exact h.start hstep
  · by_cases hstop : b = stopCharacter
    · subst hstop
      exact ParserState.Tracks.stop hstep
    · exact h.other hstart hstop hstep

/-- The byte is taken exactly when its store and, behind a frame, the copy stay inside
`rec_buf`. -/
theorem parseByte_isSome_iff :
    (parseByte st b).isSome ↔
      st.pcktCurPos < recbufSize ∧ (b = stopCharacter → st.pcktCurLen + 1 ≤ recbufSize) := by
  by_cases hpos : st.pcktCurPos < recbufSize
  · obtain ⟨buf, hbuf⟩ := storeByte_of_lt st.recBuf b hpos
    by_cases hstart : b = startCharacter
    · subst hstart
      have hzero : 0 < recbufSize := by decide
      cases hterm : st.term <;>
        simp [parseByte, ParserState.startBranch, hterm, hpos, storeByte, hzero,
          startCharacter_ne_stopCharacter]
    · by_cases hstop : b = stopCharacter
      · subst hstop
        by_cases hlen : st.pcktCurLen + 1 ≤ recbufSize
        · simp [parseByte, hbuf, hstart, ParserState.stopBranch, hlen, hpos]
        · simp [parseByte, hbuf, hstart, ParserState.stopBranch, hlen]
      · simp [parseByte, hbuf, hstart, hstop, hpos]
  · simp [parseByte, storeByte, hpos]

end OneByte

/-! ### Whole streams -/

theorem parseBuffer_concat
    (st : ParserState)
    (past : List UInt8)
    (b : UInt8) :
    parseBuffer st (past ++ [b]) =
      (parseBuffer st past).bind fun r =>
        (parseByte r.1 b).map fun t => (t.1, r.2 ++ t.2.toList) := by
  rw [parseBuffer_append]
  cases parseBuffer st past with
  | none => rfl
  | some r =>
      simp only [Option.bind_some, parseBuffer]
      cases parseByte r.1 b with
      | none => rfl
      | some t => simp

/-- The counters count what was received, in any number of calls. -/
theorem parseBuffer_tracks
    {past : List UInt8}
    {r : ParserState × List PcktItem}
    (hrun : parseBuffer .initial past = some r) :
    r.1.Tracks past := by
  induction past using List.reverseRecOn generalizing r with
  | nil =>
      obtain rfl := Option.some.inj hrun
      exact initial_tracks
  | append_singleton past b ih =>
      rw [parseBuffer_concat, Option.bind_eq_some_iff] at hrun
      obtain ⟨r', hr', hmap⟩ := hrun
      obtain ⟨t, ht, rfl⟩ := Option.map_eq_some_iff.mp hmap
      exact parseByte_tracks (ih hr') ht

/-- In every call, each byte is stored inside `rec_buf`, and a stop character copies no
more than is there. -/
def StaysInRecBuf (chunks : List (List UInt8)) : Prop :=
  ∀ before past b rest after, chunks = before ++ (past ++ b :: rest) :: after →
    ∀ st items, parseCalls .initial (before ++ [past]) = some (st, items) →
      st.pcktCurPos < recbufSize ∧ (b = stopCharacter → st.pcktCurLen + 1 ≤ recbufSize)

/-- A byte inside an open frame has fewer than `RECBUF_SIZE` bytes of it before it, counted
from its last start character; a stop character has fewer than `RECBUF_SIZE` bytes between it
and the stop character before it, unless two start characters are among them. -/
def FitsRecBuf (stream : List UInt8) : Prop :=
  ∀ past b rest, stream = past ++ b :: rest →
    (startCharacter ∈ sinceStop past → (sinceStart past).length + 1 < recbufSize) ∧
    (b = stopCharacter → (sinceStop past).count startCharacter ≤ 1 →
      (sinceStop past).length < recbufSize)

/-- A byte of the stream is a byte of one of the calls. -/
theorem exists_chunk_of_flatten
    {chunks : List (List UInt8)}
    {past rest : List UInt8}
    {b : UInt8}
    (h : chunks.flatten = past ++ b :: rest) :
    ∃ before inner rest' after,
      chunks = before ++ (inner ++ b :: rest') :: after ∧ past = before.flatten ++ inner := by
  induction chunks generalizing past with
  | nil => simp at h
  | cons chunk chunks ih =>
      rw [List.flatten_cons, List.append_eq_append_iff] at h
      rcases h with ⟨more, rfl, hrest⟩ | ⟨more, rfl, hrest⟩
      · obtain ⟨before, inner, rest', after, rfl, rfl⟩ := ih hrest
        exact ⟨chunk :: before, inner, rest', after, rfl, by simp⟩
      · cases more with
        | nil =>
            have hflat : chunks.flatten = [] ++ b :: rest := hrest.symm
            obtain ⟨before, inner, rest', after, rfl, hpast⟩ := ih hflat
            refine ⟨past :: before, inner, rest', after, by simp, ?_⟩
            rw [List.flatten_cons, List.append_assoc, ← hpast, List.append_nil]
        | cons b' more =>
            rw [List.cons_append, List.cons.injEq] at hrest
            obtain ⟨rfl, -⟩ := hrest
            exact ⟨[], past, more, chunks, rfl, rfl⟩

/-- No byte of a stream that stays in `rec_buf` is refused. -/
theorem StaysInRecBuf.runs
    {chunks : List (List UInt8)}
    (h : StaysInRecBuf chunks)
    {past rest : List UInt8}
    (hstream : chunks.flatten = past ++ rest) :
    (parseBuffer .initial past).isSome := by
  induction past using List.reverseRecOn generalizing rest with
  | nil => rfl
  | append_singleton past b ih =>
      rw [List.append_assoc, List.singleton_append] at hstream
      obtain ⟨⟨st, items⟩, hrun⟩ := Option.isSome_iff_exists.mp (ih hstream)
      obtain ⟨before, inner, rest', after, hchunks, rfl⟩ := exists_chunk_of_flatten hstream
      have hcalls : parseCalls .initial (before ++ [inner]) = some (st, items) := by
        rw [parseCalls_eq, List.flatten_append, List.flatten_singleton, hrun]
      have hbounds := h before inner b rest' after hchunks st items hcalls
      obtain ⟨t, ht⟩ := Option.isSome_iff_exists.mp (parseByte_isSome_iff.mpr hbounds)
      rw [parseBuffer_concat, hrun, Option.bind_some, ht]
      rfl

/-- **The bounds of `rec_buf`.**  Whatever the cut into calls, the parser stays inside its
buffer exactly on the streams whose frames, and whose bytes in front of a stop character,
fit. -/
theorem staysInRecBuf_iff
    (chunks : List (List UInt8)) :
    StaysInRecBuf chunks ↔ FitsRecBuf chunks.flatten := by
  constructor
  · intro h past b rest hstream
    obtain ⟨⟨st, items⟩, hrun⟩ := Option.isSome_iff_exists.mp (h.runs hstream)
    obtain ⟨before, inner, rest', after, hchunks, rfl⟩ := exists_chunk_of_flatten hstream
    have hcalls : parseCalls .initial (before ++ [inner]) = some (st, items) := by
      rw [parseCalls_eq, List.flatten_append, List.flatten_singleton, hrun]
    obtain ⟨hpos, hlen⟩ := h before inner b rest' after hchunks st items hcalls
    have htracks := parseBuffer_tracks hrun
    constructor
    · intro hopen
      rwa [htracks.pos_eq, if_pos hopen] at hpos
    · intro hstop hone
      have hle := hlen hstop
      rw [htracks.len_eq, if_pos hone] at hle
      omega
  · rintro h before past b rest after rfl st items hcalls
    rw [parseCalls_eq, List.flatten_append, List.flatten_singleton] at hcalls
    have htracks := parseBuffer_tracks hcalls
    obtain ⟨hopen, hstop⟩ := h (before.flatten ++ past) b (rest ++ after.flatten) (by simp)
    constructor
    · rw [htracks.pos_eq]
      split
      · rename_i hmem
        exact hopen hmem
      · decide
    · intro hb
      rw [htracks.len_eq]
      split
      · rename_i hone
        exact hstop hb hone
      · -- two start characters: the frame is open, and the length is that of its last part
        rename_i hmany
        have hmem : startCharacter ∈ sinceStop (before.flatten ++ past) :=
          List.count_pos_iff.mp (by omega)
        have := hopen hmem
        omega

/-- A frame fills `rec_buf` and has not ended: the next byte is stored behind the array. -/
theorem full_frame_leaves_recBuf
    {body : List UInt8}
    (hstart : startCharacter ∉ body)
    (hstop : stopCharacter ∉ body)
    (hfull : body.length + 1 = recbufSize)
    (b : UInt8) :
    ¬ StaysInRecBuf [startCharacter :: body ++ [b]] := by
  intro h
  obtain ⟨st₁, hstep, hopen⟩ := parseByte_start_idle initial_idle
  obtain ⟨st, hbody, hopen'⟩ := parseBuffer_body hopen hstart hstop
    (by rw [List.length_singleton]; omega)
  have hcalls : parseCalls .initial ([] ++ [startCharacter :: body]) = some (st, []) := by
    rw [parseCalls_eq, List.nil_append, List.flatten_singleton, parseBuffer, hstep,
      Option.bind_some, hbody]
    rfl
  have hpos := (h [] (startCharacter :: body) b [] [] rfl st [] hcalls).1
  rw [hopen'.pos_eq, List.length_append, List.length_singleton] at hpos
  omega

theorem endless_frame_leaves_recBuf :
    ¬ StaysInRecBuf [startCharacter :: List.replicate 511 0x41 ++ [0x41]] := by
  have hmem (c : UInt8) (hc : c ≠ 0x41) : c ∉ List.replicate 511 (0x41 : UInt8) :=
    fun hin => hc (List.eq_of_mem_replicate hin)
  refine full_frame_leaves_recBuf (hmem startCharacter (by decide))
    (hmem stopCharacter (by decide)) ?_ 0x41
  rw [List.length_replicate]
  rfl

end Libpack
end MatrixBin
