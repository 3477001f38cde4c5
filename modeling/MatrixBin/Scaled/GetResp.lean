import MatrixBin.Scaled.LocbufDrain

/-!
# Waiting for a response (`get_resp` in `ldu_util.c`)

The function waits in `pselect`, asks FIONREAD how many bytes there are, and calls
`get_fromfd` and `last_by_sym` until those bytes are used up or `last_by_sym` finds that a
line has just ended.  The pointer `p` has no value before the first call of `last_by_sym`; an
execution that would test it is `undefined`, as is one that leaves `spc`.

`GetResp.Law` says what has been returned and what is in the buffer, in terms of the chunks
that the reads delivered; `get_resp_returns_last_line` holds it in every reached state.
-/

namespace MatrixBin
namespace Scaled

open Library

/-- Waiting in `pselect`, in the inner loop with the bytes still announced, or done. -/
inductive RespPhase
  | waiting
  | reading (bytes : ℤ)
  | returned (p : Option ℤ) (size : ℤ)
  | undefined
deriving DecidableEq

/-- An execution of `get_resp`: `assigned` tells whether `p` has a value, `chunks` are the
bytes that the reads delivered. -/
structure GetResp where
  phase : RespPhase
  lb : Locbuf
  assigned : Bool
  chunks : List (List UInt8)

def GetResp.start (lb : Locbuf) : GetResp := ⟨.waiting, lb, false, []⟩

/-- What `pselect`, FIONREAD and `read` answer. -/
inductive RespAct
  | interrupted
  | timeout
  | ready (bytes : ℤ)
  | read (result : ReadResult)

def ReadResult.data : ReadResult → List UInt8
  | .failed => []
  | .bytes data => data

/-- One turn of the inner loop. -/
def GetResp.turn (r : GetResp) (bytes : ℤ) (result : ReadResult) : GetResp :=
  match r.lb.fill bytes result with
  | none => { r with phase := .undefined }
  | some (n, lb) =>
      if 0 < n then
        match lb.lastBySym 0x0d with
        | none => { r with phase := .undefined }
        | some ((p, m), lb) =>
            { phase := if p.isSome then .returned p m else .reading (bytes - n)
              lb := lb
              assigned := true
              chunks := r.chunks ++ [result.data.take n.toNat] }
      else if r.assigned then { r with phase := .waiting, lb := lb }
      else { r with phase := .undefined }

def respStep (r : GetResp) : RespAct → Option GetResp
  | .interrupted => if r.phase = .waiting then some r else none
  | .timeout =>
      if r.phase = .waiting then some { r with phase := .returned none (-1) } else none
  | .ready bytes =>
      if r.phase = .waiting then
        some { r with phase := if bytes ≤ 0 then .returned none (-2) else .reading bytes }
      else none
  | .read result =>
      match r.phase with
      | .reading bytes => some (r.turn bytes result)
      | _ => none

/-- In the inner loop, `get_fromfd` will make a read. -/
def GetResp.asks (r : GetResp) : Bool :=
  match r.phase with
  | .reading bytes => (r.lb.request bytes).isSome
  | _ => false

/-- The read fails or delivers nothing. -/
def RespAct.fails : RespAct → Bool
  | .read result => result.data.isEmpty
  | _ => false

/-- A read that is made delivers bytes. -/
def ReadsSucceed (r : GetResp) (a : RespAct) : Prop := r.asks = true → a.fails = false

instance (r : GetResp) (a : RespAct) : Decidable (ReadsSucceed r a) :=
  inferInstanceAs (Decidable (_ → _))

/-! ### The law of the responses -/

/-- Everything that was received, after the bytes in the buffer at the call. -/
def GetResp.past (r : GetResp) (tail : List UInt8) : List UInt8 := tail ++ r.chunks.flatten

/-- The last byte of the chunk ends a line. -/
def EndsLine (chunk : List UInt8) : Prop := chunk.getLast? = some 0x0d

/-- What `get_resp` returns: a pointer to the last line and its size, with the buffer
empty. -/
structure GetResp.ReturnsLine (r : GetResp) (tail : List UInt8) (p size : ℤ) : Prop where
  first : ∃ earlier last, r.chunks = earlier ++ [last] ∧ EndsLine last ∧
    ∀ chunk ∈ earlier, ¬ EndsLine chunk
  line : ∃ line, (splitLines 0x0d (r.past tail)).1.getLast? = some line ∧
    size = line.length ∧ 0 ≤ p ∧ p + line.length ≤ locbufSize ∧ r.lb.spc.Holds p.toNat line
  empty : r.lb.Has [] ∧ r.lb.head = 0

/-- A line is returned at the first chunk whose last byte is a terminator; until then the
buffer holds the bytes behind the last terminator received. -/
structure GetResp.Law (r : GetResp) (tail : List UInt8) : Prop where
  defined : r.phase ≠ .undefined
  running : (∀ p size, r.phase ≠ .returned (some p) size) →
    (∀ chunk ∈ r.chunks, ¬ EndsLine chunk) ∧ r.lb.Unfinished (r.past tail)
  returned : ∀ p size, r.phase = .returned (some p) size → r.ReturnsLine tail p size

/-- The law, and that the inner loop cannot end before `p` has a value. -/
structure GetResp.Inv (r : GetResp) (tail : List UInt8) : Prop where
  law : r.Law tail
  fresh : r.assigned = false → r.chunks = []
  announced : ∀ bytes, r.phase = .reading bytes → r.assigned = false → 0 < bytes

section Responses

variable {r r' : GetResp} {tail : List UInt8}

theorem GetResp.Inv.start
    {lb : Locbuf}
    (hlb : lb.Has tail)
    (hhead : lb.head = 0)
    (htail : 0x0d ∉ tail) :
    (GetResp.start lb).Inv tail where
  law := by
    refine ⟨RespPhase.noConfusion, fun _ => ⟨by simp [GetResp.start], ?_, hhead⟩,
      fun p size h => RespPhase.noConfusion h⟩
    rw [GetResp.past, GetResp.start, List.flatten_nil, List.append_nil,
      splitLines_of_not_mem htail]
    exact hlb
  fresh := fun _ => rfl
  announced := fun bytes h => RespPhase.noConfusion h

/-- Waiting, giving up or beginning to read leaves the buffer and the chunks alone. -/
theorem GetResp.Inv.move
    (h : r.Inv tail)
    (hphase : r.phase = .waiting)
    {phase : RespPhase}
    (hdefined : phase ≠ .undefined)
    (hline : ∀ p size, phase ≠ .returned (some p) size)
    (hbytes : ∀ bytes, phase = .reading bytes → 0 < bytes) :
    ({ r with phase := phase } : GetResp).Inv tail := by
  have hrunning := h.law.running (by
    rw [hphase]
    exact fun p size => RespPhase.noConfusion)
  exact ⟨⟨hdefined, fun _ => hrunning, fun p size heq => absurd heq (hline p size)⟩,
    h.fresh, fun bytes heq _ => hbytes bytes heq⟩

/-- A read that is not made ends the inner loop. -/
theorem GetResp.Inv.turn_none
    (h : r.Inv tail)
    (htail : r.assigned = false → tail.length < locbufSize)
    (hopen : 0x0d ∉ tail)
    {bytes : ℤ}
    (hphase : r.phase = .reading bytes)
    (hrequest : r.lb.request bytes = none)
    (result : ReadResult) :
    (r.turn bytes result).Inv tail := by
  have hrunning := h.law.running (by
    rw [hphase]
    exact fun p size => RespPhase.noConfusion)
  rw [GetResp.turn, r.lb.fill_of_request_none hrequest result]
  simp only [if_neg (show ¬ (0 : ℤ) < -1 by omega)]
  cases hassigned : r.assigned with
  | true =>
      rw [if_pos rfl]
      exact ⟨⟨RespPhase.noConfusion, fun _ => hrunning,
          fun p size heq => RespPhase.noConfusion heq⟩,
        fun hfalse => Bool.noConfusion hfalse,
        fun bytes heq => RespPhase.noConfusion heq⟩
  | false =>
      -- nothing was read yet, and there is room for a byte
      have hpast : r.past tail = tail := by
        rw [GetResp.past, h.fresh hassigned, List.flatten_nil, List.append_nil]
      have hhas := hrunning.2.has
      rw [hpast, splitLines_of_not_mem hopen] at hhas
      rw [hhas.request_eq, if_pos ⟨htail hassigned, h.announced bytes hphase hassigned⟩] at hrequest
      exact absurd hrequest (by simp)

/-- A read that delivers bytes. -/
theorem GetResp.Inv.turn_some
    (h : r.Inv tail)
    {bytes : ℤ}
    {len : Nat}
    (hphase : r.phase = .reading bytes)
    (hrequest : r.lb.request bytes = some len)
    {result : ReadResult}
    (hdata : result.data ≠ []) :
    (r.turn bytes result).Inv tail := by
  obtain ⟨hchunks, hun⟩ := h.law.running (by
    rw [hphase]
    exact fun p size => RespPhase.noConfusion)
  obtain ⟨data, rfl⟩ : ∃ data, result = .bytes data := by
    cases result with
    | failed => exact absurd rfl hdata
    | bytes data => exact ⟨data, rfl⟩
  simp only [ReadResult.data] at hdata
  have hlen : 0 < len := by
    have heq := hun.has.request_eq bytes
    rw [hrequest] at heq
    split at heq
    · rw [Option.some.injEq] at heq
      omega
    · exact absurd heq (by simp)
  -- the chunk that the read delivers
  obtain ⟨chunk, hchunk⟩ : ∃ chunk, chunk = data.take len := ⟨_, rfl⟩
  have hne : chunk ≠ [] := by
    rw [hchunk]
    simp [hdata, Nat.ne_of_gt hlen]
  have htake : data.take chunk.length = chunk := by
    rw [hchunk, List.length_take, List.take_eq_take_iff]
    omega
  obtain ⟨lb, hget, hhas, hhead⟩ := hun.getFromfd hrequest (show chunk.length ≤ len by
    rw [hchunk, List.length_take]
    omega)
  have hfill : r.lb.fill bytes (.bytes data) = some ((chunk.length : ℤ), lb) := by
    rw [Locbuf.fill, hrequest, Option.getD_some, ReadResult.upTo, ← hchunk, hget]
  have hpos : (0 : ℤ) < chunk.length := by
    have := List.length_pos_iff.mpr hne
    omega
  obtain ⟨front, c, rfl⟩ := (List.eq_nil_or_concat' chunk).resolve_left hne
  rw [← List.append_assoc] at hhas
  have hpast : (r.past tail ++ front) ++ [c] = tail ++ (r.chunks ++ [front ++ [c]]).flatten := by
    simp [GetResp.past]
  have hbody : (splitLines 0x0d ((splitLines 0x0d (r.past tail)).2 ++ front)).2 =
      (splitLines 0x0d (r.past tail ++ front)).2 := by
    rw [splitLines_append (r.past tail) front]
  rw [GetResp.turn, hfill]
  simp only [if_pos hpos, ReadResult.data, Int.toNat_natCast, htake]
  by_cases hc : c = 0x0d
  · subst hc
    obtain ⟨p, hlast, hholds, hle⟩ := hhas.lastBySym_line hhead
    rw [hbody] at hlast hholds hle
    simp only [hlast, Option.isSome_some, if_true]
    refine ⟨⟨RespPhase.noConfusion, fun hno => absurd rfl (hno _ _), ?_⟩,
      fun hfalse => Bool.noConfusion hfalse, fun _ heq => RespPhase.noConfusion heq⟩
    intro p' size heq
    rw [RespPhase.returned.injEq, Option.some.injEq] at heq
    obtain ⟨rfl, rfl⟩ := heq
    refine ⟨⟨r.chunks, front ++ [0x0d], rfl, by simp [EndsLine], hchunks⟩, ?_,
      ⟨le_refl 0, rfl, by simp, rfl, Bytes.holds_nil⟩, rfl⟩
    refine ⟨(splitLines 0x0d (r.past tail ++ front)).2 ++ [0x0d], ?_, rfl,
      Int.natCast_nonneg p, by exact_mod_cast hle, by simpa using hholds⟩
    rw [GetResp.past, ← hpast, lines_concat_self, List.getLast?_concat]
  · obtain ⟨lb', hlast, hhas', hhead'⟩ := hhas.lastBySym_unfinished hhead hc
    rw [hbody] at hlast hhas'
    simp only [hlast, Option.isSome_none, Bool.false_eq_true, if_false]
    refine ⟨⟨RespPhase.noConfusion, fun _ => ⟨?_, ?_, hhead'⟩,
      fun p size heq => RespPhase.noConfusion heq⟩,
      fun hfalse => Bool.noConfusion hfalse, fun _ _ hfalse => Bool.noConfusion hfalse⟩
    · intro chunk hmem
      rcases List.mem_append.mp hmem with hmem | hmem
      · exact hchunks chunk hmem
      · obtain rfl := List.mem_singleton.mp hmem
        simpa [EndsLine] using hc
    · rw [GetResp.past, ← hpast, tail_concat_ne _ hc]
      exact hhas'

/-- **One step.**  A full buffer has no room for the first read. -/
theorem respStep_inv
    (h : r.Inv tail)
    (hopen : 0x0d ∉ tail)
    {a : RespAct}
    (htail : ∀ result, a = .read result → r.assigned = false → tail.length < locbufSize)
    (hreads : ReadsSucceed r a)
    (hstep : respStep r a = some r') :
    r'.Inv tail := by
  cases a with
  | interrupted =>
      rw [respStep, Option.ite_none_right_eq_some] at hstep
      obtain rfl := Option.some.inj hstep.2
      exact h
  | timeout =>
      rw [respStep, Option.ite_none_right_eq_some] at hstep
      obtain rfl := Option.some.inj hstep.2
      exact h.move hstep.1 RespPhase.noConfusion (by simp) (by simp)
  | ready bytes =>
      rw [respStep, Option.ite_none_right_eq_some] at hstep
      obtain rfl := Option.some.inj hstep.2
      split
      · exact h.move hstep.1 RespPhase.noConfusion (by simp) (by simp)
      · rename_i hpos
        refine h.move hstep.1 RespPhase.noConfusion (by simp) ?_
        intro bytes' heq
        rw [RespPhase.reading.injEq] at heq
        omega
  | read result =>
      rw [respStep] at hstep
      split at hstep
      · rename_i bytes hphase
        obtain rfl := Option.some.inj hstep
        cases hrequest : r.lb.request bytes with
        | none => exact h.turn_none (htail result rfl) hopen hphase hrequest result
        | some len =>
            refine h.turn_some hphase hrequest ?_
            have hasks : r.asks = true := by
              rw [GetResp.asks, hphase]
              simp only [hrequest, Option.isSome_some]
            simpa [RespAct.fails] using hreads hasks
      · exact absurd hstep (by simp)

end Responses

end Scaled
end MatrixBin
