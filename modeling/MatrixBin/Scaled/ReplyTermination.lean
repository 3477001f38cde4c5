import MatrixBin.Scaled.CatchReply
import MatrixBin.Scaled.GetResp

/-!
# Whether the wait for a reply ends (`get_cmd_reply2` and `catch_cmd_reply` in `ldu_util.c`)

`catch_cmd_reply` reads behind the lines that are no reply, so that `buf` is full after 64 bytes.
`get_cmd_reply2` moves `p` only while there are fewer than three bytes, and writes every later
line over the one before.

The bytes in front of `p` are a function of what the reads deliver (`keptBefore`), and so are
the reads in a row that have delivered nothing (`silentBefore`).
-/

namespace MatrixBin
namespace Scaled

open Library

/-- A call returns after finitely many reads. -/
def ReturnsAlong
    (step : ReplyCall → ReadResult → Option ReplyCall)
    (initial : ReplyCall)
    (reads : Nat → ReadResult) : Prop :=
  ∃ n reply, runAlong step initial reads n = some (.returned reply)

/-! ### What the reads deliver -/

/-- What a read delivers behind the bytes that were kept. -/
def heard (kept : List UInt8) (result : ReadResult) : List UInt8 :=
  result.data.take (replySize - kept.length)

/-- Fewer than three bytes are kept. -/
def keptWith (kept : List UInt8) (result : ReadResult) : List UInt8 :=
  if (kept ++ heard kept result).length < 3 then kept ++ heard kept result else kept

/-- The bytes that are kept in front of `p`, before a read. -/
def keptBefore (reads : Nat → ReadResult) : Nat → List UInt8
  | 0 => []
  | n + 1 => keptWith (keptBefore reads n) (reads n)

def silentWith (silent : Nat) (result : ReadResult) : Nat :=
  if result.data = [] then silent + 1 else 0

/-- How many reads in a row have delivered nothing, before a read. -/
def silentBefore (reads : Nat → ReadResult) : Nat → Nat
  | 0 => 0
  | n + 1 => silentWith (silentBefore reads n) (reads n)

/-- The bytes in front of the first CR of a read. -/
def lineFront (kept : List UInt8) (result : ReadResult) : List UInt8 :=
  kept ++ (heard kept result).take ((heard kept result).idxOf 0x0d)

/-- The letters in front of the first CR lie in `buf`, as far as they are looked at. -/
def LettersInside (kept : List UInt8) (result : ReadResult) : Prop :=
  3 ≤ (kept ++ heard kept result).length → 0x0d ∈ heard kept result →
    2 ≤ (lineFront kept result).length ∨
      ∃ c, lineFront kept result = [c] ∧ c ≠ 0x4b ∧ c ≠ 0x52

/-- There are three bytes, and the read has no CR, or the letters of a reply in front of the
first one. -/
def Settles (kept : List UInt8) (result : ReadResult) : Prop :=
  3 ≤ (kept ++ heard kept result).length ∧
    (0x0d ∈ heard kept result → replyAtEnd (lineFront kept result ++ [0x0d]) ≠ .missing)

section Letters

variable {m : Bytes} {front : List UInt8}

/-- The letters in front of a CR, at the beginning of `buf`. -/
theorem replyLetters_front
    (hholds : m.Holds 0 front)
    (hle : front.length ≤ replySize)
    (hinside : 2 ≤ front.length ∨ ∃ c, front = [c] ∧ c ≠ 0x4b ∧ c ≠ 0x52) :
    replyLetters m ((front.length : ℤ) - 1) = some (replyAtEnd (front ++ [0x0d])) := by
  rw [replyAtEnd_cr]
  rcases hinside with htwo | ⟨c, rfl, hk, hr⟩
  · obtain ⟨v, d, rfl⟩ := (List.eq_nil_or_concat' front).resolve_left (by
      rintro rfl
      simp at htwo)
    obtain ⟨v, c, rfl⟩ := (List.eq_nil_or_concat' v).resolve_left (by
      rintro rfl
      simp at htwo)
    obtain ⟨hfront, hd⟩ := Bytes.holds_append.mp hholds
    obtain ⟨-, hc⟩ := Bytes.holds_append.mp hfront
    have hassoc : v ++ [c] ++ [d] = v ++ [c, d] := by simp
    rw [Nat.zero_add] at hc hd
    have hcbyte : m v.length = c := (Bytes.Holds.head hc).1
    have hdbyte : m (v ++ [c]).length = d := (Bytes.Holds.head hd).1
    rw [List.length_append, List.length_singleton] at hdbyte
    have hlen : ((v ++ [c] ++ [d]).length : ℤ) - 1 = (v.length : ℤ) + 1 := by
      simp only [List.length_append, List.length_singleton]
      push_cast
      ring
    simp only [List.length_append, List.length_singleton] at hle
    have hlast : ((v.length : ℤ) + 1).toNat = v.length + 1 := by omega
    have hbefore : ((v.length : ℤ) + 1 - 1).toNat = v.length := by omega
    rw [hlen, replyLetters_eq (by omega) (by omega), hlast, hbefore, hcbyte, hdbyte, hassoc]
    simp only [pair_suffix_iff]
  · have hbyte : m 0 = c := (Bytes.Holds.head hholds).1
    have hshort (x y : UInt8) : ¬ [x, y] <:+ [c] := fun h => by simpa using h.length_le
    have hat : (([c] : List UInt8).length : ℤ) - 1 = 0 := rfl
    rw [hat, replyLetters_of_ne (le_refl 0) (by decide) (by rwa [Int.toNat_zero, hbyte])
      (by rwa [Int.toNat_zero, hbyte]), if_neg (hshort _ _), if_neg (hshort _ _)]

theorem replyLetters_outside
    (hholds : m.Holds 0 front)
    (hle : front.length ≤ replySize)
    (houtside : ¬ (2 ≤ front.length ∨ ∃ c, front = [c] ∧ c ≠ 0x4b ∧ c ≠ 0x52)) :
    replyLetters m ((front.length : ℤ) - 1) = none := by
  rw [← Option.not_isSome_iff_eq_none, replyLetters_isSome_iff (by omega)]
  rintro (htwo | ⟨hone, hk, hr⟩)
  · exact houtside (Or.inl (by omega))
  · obtain ⟨c, rfl⟩ := List.length_eq_one_iff.mp (show front.length = 1 by omega)
    have hbyte : m 0 = c := (Bytes.Holds.head hholds).1
    rw [hbyte] at hk hr
    exact houtside (Or.inr ⟨c, rfl, hk, hr⟩)

end Letters

section Iteration

variable {b b' : ReplyBuf} {kept : List UInt8} {silent : Nat} {result : ReadResult}

/-- A call of `get_cmd_reply2` about to read. -/
structure ReplyBuf.Keeps (b : ReplyBuf) (kept : List UInt8) (silent : Nat) : Prop where
  p_eq : b.p = kept.length
  free_eq : b.freeSize = replySize - kept.length
  few : kept.length < 3
  holds : b.buf.Holds 0 kept
  retries_eq : b.retries = silent

theorem heard_eq_nil_iff
    (hfew : kept.length < 3) :
    heard kept result = [] ↔ result.data = [] := by
  have hroom : replySize - kept.length ≠ 0 := by
    rw [replySize]
    omega
  rw [heard, List.take_eq_nil_iff]
  exact or_iff_right hroom

/-- The read, cut to what was asked for. -/
theorem ReplyBuf.Keeps.getStep_eq
    (h : b.Keeps kept silent)
    (result : ReadResult) :
    getStep (.reading b) result =
      if heard kept result = [] then some b.retry
      else b.getCmdReply2 (.bytes (heard kept result)) := by
  have hfree : b.freeSize.toNat = replySize - kept.length := by
    have := h.free_eq
    omega
  rw [getStep, ReplyCall.step, hfree]
  cases result with
  | failed =>
      rw [if_pos (by rw [heard, ReadResult.data, List.take_nil])]
      rfl
  | bytes data =>
      rw [ReadResult.upTo, heard, ReadResult.data]
      split
      · rename_i hnil
        rw [hnil]
        rfl
      · rfl

theorem ReplyBuf.Keeps.loopTop_eq
    (h : b.Keeps kept silent) :
    b.loopTop = .reading b := by
  have hfree := h.free_eq
  have hfew := h.few
  rw [replySize] at hfree
  exact if_neg (by omega)

theorem ReplyBuf.Keeps.heard_fits
    (h : b.Keeps kept silent) :
    b.p + (heard kept result).length ≤ replySize := by
  have hp := h.p_eq
  have hfew := h.few
  rw [heard, List.length_take, replySize]
  omega

/-- What stands in `buf` after the read. -/
theorem ReplyBuf.Keeps.write
    (h : b.Keeps kept silent)
    (data : List UInt8) :
    (b.buf.write b.p data).Holds 0 (kept ++ data) := by
  rw [Bytes.holds_append]
  constructor
  · exact h.holds.write (Or.inr (by rw [h.p_eq, Nat.zero_add]))
  · rw [Nat.zero_add, ← h.p_eq]
    exact Bytes.holds_write

/-- Too few bytes for a reply. -/
theorem ReplyBuf.Keeps.advance
    (h : b.Keeps kept silent)
    {data : List UInt8}
    (hshort : (kept ++ data).length < 3) :
    ∃ b' : ReplyBuf, b'.Keeps (kept ++ data) 0 ∧
      ({ b with buf := b.buf.write b.p data, retries := 0 } : ReplyBuf).advance data.length =
        .reading b' := by
  have hp := h.p_eq
  have hfree := h.free_eq
  have hkeeps : ReplyBuf.Keeps ⟨b.buf.write b.p data, b.p + data.length,
      b.freeSize - data.length, 0⟩ (kept ++ data) 0 := by
    refine ⟨?_, ?_, hshort, h.write data, rfl⟩
    · rw [List.length_append]
      simp only
      omega
    · rw [List.length_append]
      push_cast
      omega
  exact ⟨_, hkeeps, hkeeps.loopTop_eq⟩

/-- A line that is no reply leaves the bytes in front of `p` alone. -/
theorem ReplyBuf.Keeps.again
    (h : b.Keeps kept silent)
    (data : List UInt8) :
    ∃ b' : ReplyBuf, b'.Keeps kept 0 ∧
      ({ b with buf := b.buf.write b.p data, retries := 0 } : ReplyBuf).loopTop =
        .reading b' := by
  have hkeeps : ReplyBuf.Keeps ⟨b.buf.write b.p data, b.p, b.freeSize, 0⟩ kept 0 :=
    ⟨h.p_eq, h.free_eq, h.few, (Bytes.holds_append.mp (h.write data)).1, rfl⟩
  exact ⟨_, hkeeps, hkeeps.loopTop_eq⟩

/-- What stands in front of the first CR. -/
theorem ReplyBuf.Keeps.front
    (h : b.Keeps kept silent)
    (hcr : 0x0d ∈ heard kept result) :
    (b.buf.write b.p (heard kept result)).Holds 0 (lineFront kept result) ∧
      (lineFront kept result).length = b.p + (heard kept result).idxOf 0x0d ∧
      (lineFront kept result).length ≤ replySize := by
  have hidx : (heard kept result).idxOf 0x0d < (heard kept result).length :=
    List.idxOf_lt_length_of_mem hcr
  have hfits : b.p + (heard kept result).length ≤ replySize := h.heard_fits
  have hlen : (lineFront kept result).length = b.p + (heard kept result).idxOf 0x0d := by
    rw [lineFront, List.length_append, List.length_take, h.p_eq]
    omega
  refine ⟨?_, hlen, by omega⟩
  have hall := h.write (heard kept result)
  rw [← List.take_append_drop ((heard kept result).idxOf 0x0d) (heard kept result),
    ← List.append_assoc] at hall
  have hbegin := (Bytes.holds_append.mp hall).1
  rwa [List.take_append_drop] at hbegin

/-- Nothing was read. -/
theorem ReplyBuf.Keeps.retry
    (h : b.Keeps kept silent) :
    (5 ≤ silent + 1 ∧ b.retry = .returned .missing) ∨
      silent + 1 < 5 ∧ ∃ b' : ReplyBuf, b'.Keeps kept (silent + 1) ∧ b.retry = .reading b' := by
  rw [ReplyBuf.retry, h.retries_eq]
  by_cases hlast : 5 ≤ silent + 1
  · rw [if_pos hlast]
    exact Or.inl ⟨hlast, rfl⟩
  · rw [if_neg hlast]
    have hkeeps : ReplyBuf.Keeps { b with retries := silent + 1 } kept (silent + 1) :=
      ⟨h.p_eq, h.free_eq, h.few, h.holds, rfl⟩
    exact Or.inr ⟨by omega, _, hkeeps, hkeeps.loopTop_eq⟩

/-- The outcomes of an iteration: it looks outside `buf`, it returns, or it reads on. -/
inductive GetOutcome (kept : List UInt8) (silent : Nat) (result : ReadResult) :
    Option ReplyCall → Prop
  | outside (hletters : ¬ LettersInside kept result) : GetOutcome kept silent result none
  | returned (reply : CmdReply) (hletters : LettersInside kept result)
      (hends : 5 ≤ silentWith silent result ∨ Settles kept result) :
      GetOutcome kept silent result (some (.returned reply))
  | reading (b' : ReplyBuf) (hletters : LettersInside kept result)
      (hgoes : ¬ (5 ≤ silentWith silent result ∨ Settles kept result))
      (hkeeps : b'.Keeps (keptWith kept result) (silentWith silent result)) :
      GetOutcome kept silent result (some (.reading b'))

theorem ReplyBuf.Keeps.outcome_nothing
    (h : b.Keeps kept silent)
    (hnothing : heard kept result = []) :
    GetOutcome kept silent result (some b.retry) := by
  have hfew := h.few
  have hsilent : silentWith silent result = silent + 1 :=
    if_pos ((heard_eq_nil_iff hfew).mp hnothing)
  have hshort : (kept ++ heard kept result).length < 3 := by
    rwa [hnothing, List.append_nil]
  have hletters : LettersInside kept result := fun hmany => absurd hmany (by omega)
  have hkept : keptWith kept result = kept := by
    rw [keptWith, if_pos hshort, hnothing, List.append_nil]
  rcases h.retry with ⟨hlast, hretry⟩ | ⟨hmore, b', hkeeps, hretry⟩
  · rw [hretry]
    exact .returned _ hletters (Or.inl (by omega))
  · rw [hretry]
    refine .reading b' hletters ?_ (by rwa [hkept, hsilent])
    rintro (hfive | ⟨hmany, -⟩)
    · omega
    · omega

/-- **One iteration of `get_cmd_reply2`.** -/
theorem ReplyBuf.Keeps.outcome
    (h : b.Keeps kept silent)
    (result : ReadResult) :
    GetOutcome kept silent result (getStep (.reading b) result) := by
  have hfew := h.few
  rw [h.getStep_eq]
  by_cases hnothing : heard kept result = []
  · rw [if_pos hnothing]
    exact h.outcome_nothing hnothing
  · have hsilent : silentWith silent result = 0 :=
      if_neg fun hdata => hnothing ((heard_eq_nil_iff hfew).mpr hdata)
    have hlen : (kept ++ heard kept result).length = b.p + (heard kept result).length := by
      rw [List.length_append, h.p_eq]
    rw [if_neg hnothing, ReplyBuf.getCmdReply2_bytes hnothing h.heard_fits, ← hlen]
    by_cases hshort : (kept ++ heard kept result).length < 3
    · rw [if_pos hshort]
      obtain ⟨b', hkeeps, hadvance⟩ := h.advance hshort
      rw [hadvance]
      refine .reading b' (fun hmany => absurd hmany (by omega)) ?_ ?_
      · rintro (hfive | ⟨hmany, -⟩)
        · omega
        · omega
      · rwa [keptWith, if_pos hshort, hsilent]
    · rw [if_neg hshort]
      by_cases hcr : 0x0d ∈ heard kept result
      · rw [if_pos hcr]
        obtain ⟨hholds, hfront, hle⟩ := h.front hcr
        have hat : (b.p : ℤ) + (heard kept result).idxOf 0x0d - 1 =
            ((lineFront kept result).length : ℤ) - 1 := by
          rw [hfront]
          push_cast
          ring
        rw [hat]
        by_cases hinside : 2 ≤ (lineFront kept result).length ∨
            ∃ c, lineFront kept result = [c] ∧ c ≠ 0x4b ∧ c ≠ 0x52
        · rw [replyLetters_front hholds hle hinside, Option.map_some]
          have hletters : LettersInside kept result := fun _ _ => hinside
          cases hreply : replyAtEnd (lineFront kept result ++ [0x0d]) with
          | ok | err =>
              refine .returned _ hletters (Or.inr ⟨by omega, fun _ => ?_⟩)
              rw [hreply]
              decide
          | missing =>
              obtain ⟨b', hkeeps, hagain⟩ := h.again (heard kept result)
              simp only [hagain]
              refine .reading b' hletters ?_ ?_
              · rintro (hfive | ⟨-, hsettles⟩)
                · omega
                · exact hsettles hcr hreply
              · rwa [keptWith, if_neg hshort, hsilent]
        · rw [replyLetters_outside hholds hle hinside]
          exact .outside fun hletters => hinside (hletters (by omega) hcr)
      · rw [if_neg hcr]
        exact .returned _ (fun _ hmem => absurd hmem hcr)
          (Or.inr ⟨by omega, fun hmem => absurd hmem hcr⟩)

end Iteration

/-! ### Along the reads -/

section Run

variable {reads : Nat → ReadResult} {b : ReplyBuf} {n : Nat}

/-- A read after which `get_cmd_reply2` is at an end. -/
def EndsAt (reads : Nat → ReadResult) (n : Nat) : Prop :=
  5 ≤ silentBefore reads (n + 1) ∨ Settles (keptBefore reads n) (reads n)

/-- The letters that a read lets `get_cmd_reply2` look at lie in `buf`. -/
def LettersInsideAt (reads : Nat → ReadResult) (n : Nat) : Prop :=
  LettersInside (keptBefore reads n) (reads n)

theorem getInitial_keeps :
    ∃ b : ReplyBuf, getInitial true = .reading b ∧ b.Keeps [] 0 :=
  ⟨_, rfl, rfl, rfl, by decide, Bytes.holds_nil, rfl⟩

/-- The state of a call that reads on is a function of the reads. -/
theorem reading_keeps
    (h : runAlong getStep (getInitial true) reads n = some (.reading b)) :
    b.Keeps (keptBefore reads n) (silentBefore reads n) ∧ ∀ i < n, LettersInsideAt reads i := by
  induction n generalizing b with
  | zero =>
      obtain ⟨b', hinit, hkeeps⟩ := getInitial_keeps
      rw [runAlong_zero, hinit, Option.some.injEq, ReplyCall.reading.injEq] at h
      subst h
      exact ⟨hkeeps, fun i hi => absurd hi (Nat.not_lt_zero i)⟩
  | succ n ih =>
      rw [runAlong_succ] at h
      obtain ⟨call, hcall, hstep⟩ := Option.bind_eq_some_iff.mp h
      cases call with
      | returned reply => exact absurd hstep (by simp [getStep, ReplyCall.step])
      | reading b' =>
          obtain ⟨hkeeps, hinside⟩ := ih hcall
          have houtcome := hkeeps.outcome (reads n)
          rw [hstep] at houtcome
          cases houtcome with
          | reading _ hletters hgoes hkeeps' =>
              refine ⟨hkeeps', fun i hi => ?_⟩
              rcases Nat.lt_succ_iff_lt_or_eq.mp hi with hlt | rfl
              · exact hinside i hlt
              · exact hletters

/-- The next read of a call that reads on. -/
theorem next_outcome
    (hb : runAlong getStep (getInitial true) reads n = some (.reading b)) :
    GetOutcome (keptBefore reads n) (silentBefore reads n) (reads n)
      (runAlong getStep (getInitial true) reads (n + 1)) := by
  rw [runAlong_succ, hb, Option.bind_some]
  exact (reading_keeps hb).1.outcome (reads n)

/-- A call that returns has come to an end. -/
theorem ends_of_returned
    {reply : CmdReply}
    (h : runAlong getStep (getInitial true) reads n = some (.returned reply)) :
    ∃ k, (∀ i ≤ k, LettersInsideAt reads i) ∧ EndsAt reads k := by
  induction n with
  | zero =>
      rw [runAlong_zero] at h
      exact absurd h (by simp [getInitial])
  | succ n ih =>
      rw [runAlong_succ] at h
      obtain ⟨call, hcall, hstep⟩ := Option.bind_eq_some_iff.mp h
      cases call with
      | returned reply' =>
          obtain rfl : reply' = reply := by simpa [getStep, ReplyCall.step] using hstep
          exact ih hcall
      | reading b =>
          obtain ⟨hkeeps, hinside⟩ := reading_keeps hcall
          have houtcome := hkeeps.outcome (reads n)
          rw [hstep] at houtcome
          cases houtcome with
          | returned _ hletters hends =>
              refine ⟨n, fun i hi => ?_, hends⟩
              rcases Nat.lt_or_eq_of_le hi with hlt | rfl
              · exact hinside i hlt
              · exact hletters

/-- As long as the letters lie in `buf`, a call reads on or has returned. -/
theorem reads_on_or_returned
    (hinside : ∀ i < n, LettersInsideAt reads i) :
    ReturnsAlong getStep (getInitial true) reads ∨
      ∃ b, runAlong getStep (getInitial true) reads n = some (.reading b) := by
  induction n with
  | zero =>
      obtain ⟨b, hinit, -⟩ := getInitial_keeps
      exact Or.inr ⟨b, by rw [runAlong_zero, hinit]⟩
  | succ n ih =>
      rcases ih (fun i hi => hinside i (Nat.lt_succ_of_lt hi)) with hreturns | ⟨b, hb⟩
      · exact Or.inl hreturns
      · have houtcome := next_outcome hb
        generalize hrun : runAlong getStep (getInitial true) reads (n + 1) = call at houtcome
        cases houtcome with
        | outside hletters => exact absurd (hinside n (Nat.lt_succ_self n)) hletters
        | returned reply _ _ => exact Or.inl ⟨n + 1, reply, hrun⟩
        | reading b' _ _ _ => exact Or.inr ⟨b', rfl⟩

theorem returned_of_ends
    (hinside : ∀ i ≤ n, LettersInsideAt reads i)
    (hends : EndsAt reads n) :
    ReturnsAlong getStep (getInitial true) reads := by
  rcases reads_on_or_returned fun i hi => hinside i (Nat.le_of_lt hi) with hreturns | ⟨b, hb⟩
  · exact hreturns
  · have houtcome := next_outcome hb
    generalize hrun : runAlong getStep (getInitial true) reads (n + 1) = call at houtcome
    cases houtcome with
    | outside hletters => exact absurd (hinside n (Nat.le_refl n)) hletters
    | returned reply _ _ => exact ⟨n + 1, reply, hrun⟩
    | reading b' _ hgoes _ => exact absurd hends hgoes

end Run

/-! ### `catch_cmd_reply` -/

section Catch

variable {b : ReplyBuf}

/-- Five reads for each byte that is still free. -/
def ReplyCall.readsLeft : ReplyCall → Nat
  | .reading b => 5 * b.freeSize.toNat - b.retries
  | .returned _ => 0

/-- A call about to read, which has not given up. -/
def ReplyCall.Trying : ReplyCall → Prop
  | .reading b => 0 < b.freeSize ∧ b.retries < 5
  | .returned _ => False

theorem ReplyCall.Trying.readsLeft_pos
    {call : ReplyCall}
    (h : call.Trying) :
    0 < call.readsLeft := by
  cases call with
  | returned reply => exact h.elim
  | reading b =>
      obtain ⟨hfree, hfew⟩ := h
      rw [ReplyCall.readsLeft]
      omega

/-- A call that goes on with more retries or less room has fewer reads left. -/
theorem ReplyBuf.loopTop_readsLeft
    {b' : ReplyBuf}
    (htrying : 0 < b.freeSize ∧ b.retries < 5)
    (hfew : b'.retries < 5)
    (hless : b'.freeSize = b.freeSize ∧ b.retries < b'.retries ∨ b'.freeSize < b.freeSize) :
    (∃ reply, b'.loopTop = .returned reply) ∨
      b'.loopTop.Trying ∧ b'.loopTop.readsLeft < (ReplyCall.reading b).readsLeft := by
  obtain ⟨hfree, hretries⟩ := htrying
  rw [ReplyBuf.loopTop]
  split
  · exact Or.inl ⟨_, rfl⟩
  · rename_i hroom
    refine Or.inr ⟨⟨by omega, hfew⟩, ?_⟩
    simp only [ReplyCall.readsLeft]
    omega

/-- **One iteration of `catch_cmd_reply`.** -/
theorem catchStep_readsLeft
    {call call' : ReplyCall}
    {result : ReadResult}
    (h : call.Trying)
    (hstep : catchStep call result = some call') :
    (∃ reply, call' = .returned reply) ∨ call'.Trying ∧ call'.readsLeft < call.readsLeft := by
  cases call with
  | returned reply => exact h.elim
  | reading b =>
      rw [catchStep, ReplyCall.step] at hstep
      have hretry (hcall : some b.retry = some call') :
          (∃ reply, call' = .returned reply) ∨
            call'.Trying ∧ call'.readsLeft < (ReplyCall.reading b).readsLeft := by
        obtain rfl := Option.some.inj hcall
        rw [ReplyBuf.retry]
        split
        · exact Or.inl ⟨_, rfl⟩
        · rename_i hmore
          refine ReplyBuf.loopTop_readsLeft h ?_ (Or.inl ⟨rfl, ?_⟩)
          · simp only
            omega
          · exact Nat.lt_succ_self _
      cases result with
      | failed => exact hretry hstep
      | bytes all =>
          rw [ReadResult.upTo] at hstep
          rcases List.eq_nil_or_concat' (all.take b.freeSize.toNat) with hnil | ⟨front, c, hdata⟩
          · rw [hnil] at hstep
            exact hretry hstep
          · rw [hdata] at hstep
            have hadvance (buf : Bytes) :
                let after := ({ b with buf := buf } : ReplyBuf).advance (front ++ [c]).length
                (∃ reply, after = .returned reply) ∨
                  after.Trying ∧ after.readsLeft < (ReplyCall.reading b).readsLeft := by
              refine ReplyBuf.loopTop_readsLeft h (by decide : 0 < 5) (Or.inr ?_)
              rw [List.length_append, List.length_singleton]
              push_cast
              omega
            by_cases hinside : b.p + (front ++ [c]).length ≤ replySize
            · rw [ReplyBuf.catchCmdReply_bytes hinside] at hstep
              split at hstep
              · obtain ⟨reply, -, hreply⟩ := Option.map_eq_some_iff.mp hstep
                cases reply with
                | missing =>
                    rw [← hreply]
                    exact hadvance _
                | ok | err =>
                    rw [← hreply]
                    exact Or.inl ⟨_, rfl⟩
              · obtain rfl := Option.some.inj hstep
                exact hadvance _
            · rw [ReplyBuf.catchCmdReply_outside hinside (by simp)] at hstep
              exact absurd hstep (by simp)

/-- `catch_cmd_reply` makes no more than five reads for each byte of `buf`. -/
theorem catch_ends
    (reads : Nat → ReadResult) :
    ∃ n ≤ 5 * replySize, runAlong catchStep catchInitial reads n = none ∨
      ∃ reply, runAlong catchStep catchInitial reads n = some (.returned reply) := by
  have hinit : catchInitial.Trying := ⟨by decide, by decide⟩
  have hpos : ∀ call : ReplyCall, call.Trying → 0 < call.readsLeft := fun _ h => h.readsLeft_pos
  obtain ⟨n, hle, hended⟩ := runAlong_ends hpos
    (fun _ _ _ h hstep => catchStep_readsLeft h hstep) hinit reads
  refine ⟨n, hle, hended.imp id ?_⟩
  rintro ⟨call, hcall, reply, rfl⟩
  exact ⟨reply, hcall⟩

end Catch

section Termination

/-- **The end of the wait.**  `get_cmd_reply2` returns after finitely many reads exactly if it
comes to five reads in a row that deliver nothing, or to one with three bytes in `buf` and
either no CR or the letters of a reply in front of its first CR.  `catch_cmd_reply` ends
whatever it reads. -/
theorem reply_calls_end_iff
    (written : Bool)
    (reads : Nat → ReadResult) :
    (ReturnsAlong getStep (getInitial written) reads ↔
      written = false ∨ ∃ n, (∀ i ≤ n, LettersInsideAt reads i) ∧ EndsAt reads n) ∧
    ∃ n ≤ 5 * replySize, runAlong catchStep catchInitial reads n = none ∨
      ∃ reply, runAlong catchStep catchInitial reads n = some (.returned reply) := by
  refine ⟨?_, catch_ends reads⟩
  cases written with
  | false => exact iff_of_true ⟨0, .missing, rfl⟩ (Or.inl rfl)
  | true =>
      constructor
      · rintro ⟨n, reply, hrun⟩
        exact Or.inr (ends_of_returned hrun)
      · rintro (hfalse | ⟨n, hinside, hends⟩)
        · exact Bool.noConfusion hfalse
        · exact returned_of_ends hinside hends

/-- Weight messages without end: each is a complete line, and none is a reply. -/
theorem weight_messages_hold_get_cmd_reply2 :
    ¬ ∀ reads : Nat → ReadResult, ReturnsAlong getStep (getInitial true) reads := by
  intro h
  let reads (_ : Nat) : ReadResult := .bytes [0x57, 0x2b, 0x30, 0x0d]
  obtain ⟨n, reply, hrun⟩ := h reads
  obtain ⟨k, -, hends⟩ := ends_of_returned hrun
  have hkept : ∀ n, keptBefore reads n = [] ∧ silentBefore reads n = 0 := by
    intro n
    induction n with
    | zero => exact ⟨rfl, rfl⟩
    | succ n ih =>
        refine ⟨?_, rfl⟩
        rw [keptBefore, ih.1]
        decide
  rcases hends with hfive | hsettles
  · rw [(hkept (k + 1)).2] at hfive
    exact absurd hfive (by decide)
  · rw [(hkept k).1] at hsettles
    exact hsettles.2 (by decide) (by decide)

end Termination

end Scaled
end MatrixBin
