import MatrixBin.Scaled.ReplyBuffer

/-!
# The answer of `catch_cmd_reply` (`ldu_util.c`)

The LDU sends weight messages all the time, and its reply between two of them.
`catch_cmd_reply` compares only the last letters of each read, so that it sees a reply only if
a read ends right behind it (`catch_cmd_reply_iff`).
-/

namespace MatrixBin
namespace Scaled

open Library

def okLine : List UInt8 := [0x4f, 0x4b, 0x0d]

def errLine : List UInt8 := [0x45, 0x52, 0x52, 0x0d]

/-- The answer that belongs to some bytes: that of a complete line. -/
def replyIn (w : List UInt8) : CmdReply :=
  if okLine ∈ (splitLines 0x0d w).1 then .ok
  else if errLine ∈ (splitLines 0x0d w).1 then .err
  else .missing

/-- A weight message does not end in the letters of a reply. -/
def IsWeightLine (line : List UInt8) : Prop :=
  ¬ [0x4f, 0x4b, 0x0d] <:+ line ∧ ¬ [0x52, 0x52, 0x0d] <:+ line

/-- What the LDU sends after a command: weight messages, and `OK` or `ERR` but not both; the
last line may be unfinished. -/
structure IsReplyStream (w : List UInt8) : Prop where
  line : ∀ line ∈ (splitLines 0x0d w).1, line = okLine ∨ line = errLine ∨ IsWeightLine line
  one_reply : okLine ∉ (splitLines 0x0d w).1 ∨ errLine ∉ (splitLines 0x0d w).1

/-- The bytes end right behind this line. -/
def EndsBehind (line w : List UInt8) : Prop :=
  (splitLines 0x0d w).1.getLast? = some line ∧ (splitLines 0x0d w).2 = []

/-- A read ends right behind a reply, within the bytes that fit behind `buf[0]`. -/
def ReadEndsBehindReply (past : List UInt8) (pieces : List (List UInt8)) : Prop :=
  ∃ before after, pieces = before ++ after ∧ (past ++ before.flatten).length < replySize ∧
    (EndsBehind okLine (past ++ before.flatten) ∨ EndsBehind errLine (past ++ before.flatten))

/-- The reads that deliver bytes, until five in a row have delivered none. -/
def piecesHeard : Nat → List ReadResult → List (List UInt8)
  | _, [] => []
  | _, .bytes (b :: data) :: rest => (b :: data) :: piecesHeard 0 rest
  | retries, .bytes [] :: rest =>
      if 5 ≤ retries + 1 then [] else piecesHeard (retries + 1) rest
  | retries, .failed :: rest =>
      if 5 ≤ retries + 1 then [] else piecesHeard (retries + 1) rest

def ReplyCall.reply : ReplyCall → Option CmdReply
  | .reading _ => none
  | .returned reply => some reply

/-- What `catch_cmd_reply` returns, if nothing comes after these reads. -/
def catchReply (results : List ReadResult) : Option CmdReply :=
  (catchAfter (results ++ List.replicate 5 (.bytes []))).bind ReplyCall.reply

/-! ### What the calls compute -/

/-- The comparisons at the end of the bytes. -/
def replyAtEnd (w : List UInt8) : CmdReply :=
  if [0x4f, 0x4b, 0x0d] <:+ w then .ok
  else if [0x52, 0x52, 0x0d] <:+ w then .err
  else .missing

/-- The first read that ends in the letters of a reply decides; the 64th byte leaves `buf`. -/
def outcome : List UInt8 → List (List UInt8) → Option CmdReply
  | _, [] => some .missing
  | past, piece :: rest =>
      if (past ++ piece).length < replySize then
        match replyAtEnd (past ++ piece) with
        | .missing => outcome (past ++ piece) rest
        | reply => some reply
      else none

section Letters

variable {m : Bytes} {v : List UInt8} {x y c d : UInt8}

theorem pair_suffix_iff :
    [x, y] <:+ v ++ [c, d] ↔ c = x ∧ d = y := by
  constructor
  · rintro ⟨front, heq⟩
    have hpair := List.append_inj_right' heq rfl
    simp only [List.cons.injEq, and_true] at hpair
    exact ⟨hpair.1.symm, hpair.2.symm⟩
  · rintro ⟨rfl, rfl⟩
    exact List.suffix_append v _

theorem triple_suffix_iff
    {z : UInt8} :
    [x, y, z] <:+ v ++ [c] ↔ c = z ∧ [x, y] <:+ v := by
  constructor
  · rintro ⟨front, heq⟩
    have hassoc : (front ++ [x, y]) ++ [z] = v ++ [c] := by
      rw [← heq]
      simp
    obtain ⟨hfront, hlast⟩ := List.append_inj' hassoc rfl
    exact ⟨(List.cons.inj hlast).1.symm, front, hfront⟩
  · rintro ⟨rfl, front, rfl⟩
    exact ⟨front, by simp⟩

/-- Bytes that do not end a line answer nothing. -/
theorem replyAtEnd_of_ne
    (v : List UInt8)
    (hc : c ≠ 0x0d) :
    replyAtEnd (v ++ [c]) = .missing := by
  rw [replyAtEnd, if_neg (fun h => hc (triple_suffix_iff.mp h).1),
    if_neg (fun h => hc (triple_suffix_iff.mp h).1)]

theorem replyAtEnd_cr
    (v : List UInt8) :
    replyAtEnd (v ++ [0x0d]) =
      if [0x4f, 0x4b] <:+ v then .ok else if [0x52, 0x52] <:+ v then .err else .missing := by
  simp only [replyAtEnd, triple_suffix_iff, true_and]

/-- The letters in front of a CR, behind the zero at `buf[0]`. -/
theorem replyLetters_holds
    (hholds : m.Holds 0 (0 :: v))
    (hlt : v.length < replySize) :
    replyLetters m v.length = some (replyAtEnd (v ++ [0x0d])) := by
  obtain ⟨hzero, hv⟩ := Bytes.Holds.head hholds
  rw [Nat.zero_add] at hv
  rw [replyAtEnd_cr]
  rcases List.eq_nil_or_concat' v with rfl | ⟨v, d, rfl⟩
  · have hfirst : m (0 : ℤ).toNat = 0 := hzero
    rw [List.length_nil, Nat.cast_zero,
      replyLetters_of_ne (le_refl 0) (by decide) (by rw [hfirst]; decide) (by rw [hfirst]; decide)]
    decide
  · rw [List.length_append, List.length_singleton] at hlt ⊢
    obtain ⟨hv, hlast⟩ := Bytes.holds_append.mp hv
    have hd : m (v.length + 1) = d := by
      have := (Bytes.Holds.head hlast).1
      rwa [Nat.add_comm] at this
    have hbefore : (((v.length + 1 : ℕ) : ℤ) - 1).toNat = v.length := by omega
    rw [replyLetters_eq (by omega) (by exact_mod_cast hlt), hbefore, Int.toNat_natCast, hd]
    rcases List.eq_nil_or_concat' v with rfl | ⟨v, c, rfl⟩
    · have hshort (x y : UInt8) : ¬ [x, y] <:+ [] ++ [d] := fun h => by simpa using h.length_le
      rw [List.length_nil, hzero, if_neg (by simp), if_neg (by simp), if_neg (hshort _ _),
        if_neg (hshort _ _)]
    · have hc : m (v ++ [c]).length = c := by
        have := (Bytes.Holds.head (Bytes.holds_append.mp hv).2).1
        rw [List.length_append, List.length_singleton]
        rwa [Nat.add_comm] at this
      have hassoc : v ++ [c] ++ [d] = v ++ [c, d] := by simp
      rw [hc, hassoc]
      simp only [pair_suffix_iff]

end Letters

/-! ### The run -/

section Run

variable {b : ReplyBuf} {past piece : List UInt8}

/-- The bytes that were read since the call began, behind the zero at `buf[0]`. -/
structure ReplyBuf.HasRead (b : ReplyBuf) (past : List UInt8) : Prop where
  p_eq : b.p = past.length + 1
  free_eq : b.freeSize = replySize - past.length
  fits : past.length < replySize
  holds : b.buf.Holds 0 (0 :: past)

theorem ReplyBuf.HasRead.loopTop_eq
    (h : b.HasRead past) :
    b.loopTop = .reading b := by
  have hfree := h.free_eq
  have hfits := h.fits
  exact if_neg (by omega)

/-- A read stores its bytes behind those before. -/
theorem ReplyBuf.HasRead.write
    (h : b.HasRead past)
    (piece : List UInt8) :
    (b.buf.write b.p piece).Holds 0 (0 :: (past ++ piece)) := by
  rw [← List.cons_append, Bytes.holds_append]
  constructor
  · exact h.holds.write (Or.inr (by rw [h.p_eq, List.length_cons]; omega))
  · rw [List.length_cons, Nat.zero_add, ← h.p_eq]
    exact Bytes.holds_write

/-- After a read the cursor stands behind the bytes. -/
theorem ReplyBuf.HasRead.advance
    (h : b.HasRead past)
    (hfits : (past ++ piece).length < replySize) :
    ∃ b' : ReplyBuf, b'.HasRead (past ++ piece) ∧ b'.retries = 0 ∧
      ({ b with buf := b.buf.write b.p piece } : ReplyBuf).advance piece.length = .reading b' := by
  have hp := h.p_eq
  have hfree := h.free_eq
  have hread : ReplyBuf.HasRead ⟨b.buf.write b.p piece, b.p + piece.length,
      b.freeSize - piece.length, 0⟩ (past ++ piece) := by
    refine ⟨?_, ?_, hfits, h.write piece⟩
    · rw [List.length_append]
      simp only
      omega
    · rw [List.length_append]
      push_cast
      omega
  exact ⟨_, hread, rfl, hread.loopTop_eq⟩

/-- One read of some bytes. -/
theorem ReplyBuf.HasRead.catchCmdReply
    (h : b.HasRead past)
    (hne : piece ≠ [])
    (hfits : (past ++ piece).length < replySize) :
    ∃ b' : ReplyBuf, b'.HasRead (past ++ piece) ∧ b'.retries = 0 ∧
      b.catchCmdReply (.bytes piece) = some (match replyAtEnd (past ++ piece) with
        | .missing => .reading b'
        | reply => .returned reply) := by
  obtain ⟨b', hread, hretries, hadvance⟩ := h.advance hfits
  refine ⟨b', hread, hretries, ?_⟩
  obtain ⟨front, c, rfl⟩ := (List.eq_nil_or_concat' piece).resolve_left hne
  have hp := h.p_eq
  have hlen := hfits
  simp only [List.length_append, List.length_singleton] at hlen
  rw [ReplyBuf.catchCmdReply_bytes (by rw [List.length_append, List.length_singleton]; omega),
    hadvance, ← List.append_assoc]
  by_cases hcr : c = 0x0d
  · subst hcr
    have hat : (b.p : ℤ) + front.length - 1 = ((past ++ front).length : ℕ) := by
      rw [hp, List.length_append]
      push_cast
      ring
    have hholds : (b.buf.write b.p (front ++ [0x0d])).Holds 0 (0 :: (past ++ front)) := by
      have hall := h.write (front ++ [0x0d])
      rw [← List.append_assoc, ← List.cons_append] at hall
      exact (Bytes.holds_append.mp hall).1
    rw [if_pos rfl, hat, replyLetters_holds hholds (by rw [List.length_append]; omega)]
    cases replyAtEnd (past ++ front ++ [0x0d]) <;> rfl
  · rw [if_neg hcr, replyAtEnd_of_ne _ hcr]

theorem ReplyBuf.HasRead.catchCmdReply_full
    (h : b.HasRead past)
    (hfull : replySize ≤ (past ++ piece).length) :
    catchStep (.reading b) (.bytes piece) = none := by
  have hp := h.p_eq
  have hfree := h.free_eq
  have hfits := h.fits
  rw [List.length_append] at hfull
  have hlen : (piece.take b.freeSize.toNat).length = b.freeSize.toNat := by
    rw [List.length_take]
    omega
  refine ReplyBuf.catchCmdReply_outside (by omega) ?_
  intro hnil
  rw [hnil, List.length_nil] at hlen
  omega

theorem catchStep_returned
    (reply : CmdReply)
    (results : List ReadResult) :
    runSteps catchStep (.returned reply) results = some (.returned reply) := by
  induction results with
  | nil => rfl
  | cons result results ih => exact ih

/-- Reads that deliver nothing, until the call gives up. -/
theorem ReplyBuf.HasRead.gives_up
    (h : b.HasRead past)
    {k : Nat}
    (hk : 5 ≤ b.retries + k)
    (hfew : b.retries < 5) :
    runSteps catchStep (.reading b) (List.replicate k (.bytes [])) =
      some (.returned .missing) := by
  induction k generalizing b with
  | zero => omega
  | succ k ih =>
      have hstep : catchStep (.reading b) (.bytes []) = some b.retry := by
        simp [catchStep, ReplyCall.step, ReadResult.upTo, ReplyBuf.catchCmdReply]
      rw [List.replicate_succ, runSteps, hstep, ReplyBuf.retry]
      by_cases hlast : 5 ≤ b.retries + 1
      · rw [if_pos hlast]
        exact catchStep_returned _ _
      · have hread : ReplyBuf.HasRead { b with retries := b.retries + 1 } past :=
          ⟨h.p_eq, h.free_eq, h.fits, h.holds⟩
        rw [if_neg hlast, hread.loopTop_eq]
        exact ih hread (by simp only; omega) (by simp only; omega)

/-- The answer of a call depends on the pieces that it hears. -/
theorem ReplyBuf.HasRead.run
    (h : b.HasRead past)
    (hfew : b.retries < 5)
    (results : List ReadResult) :
    (runSteps catchStep (.reading b) (results ++ List.replicate 5 (.bytes []))).bind
        ReplyCall.reply = outcome past (piecesHeard b.retries results) := by
  induction results generalizing b past with
  | nil =>
      rw [List.nil_append, h.gives_up (by omega) hfew]
      rfl
  | cons result results ih =>
      -- a read that delivers nothing
      have hnothing (hstep : catchStep (.reading b) result = some b.retry)
          (hheard : piecesHeard b.retries (result :: results) =
            if 5 ≤ b.retries + 1 then [] else piecesHeard (b.retries + 1) results) :
          (runSteps catchStep (.reading b) (result :: results ++ List.replicate 5 (.bytes []))).bind
            ReplyCall.reply = outcome past (piecesHeard b.retries (result :: results)) := by
        rw [List.cons_append, runSteps, hstep, hheard, ReplyBuf.retry]
        by_cases hlast : 5 ≤ b.retries + 1
        · rw [if_pos hlast, if_pos hlast]
          simp only [catchStep_returned]
          rfl
        · have hread : ReplyBuf.HasRead { b with retries := b.retries + 1 } past :=
            ⟨h.p_eq, h.free_eq, h.fits, h.holds⟩
          rw [if_neg hlast, if_neg hlast, hread.loopTop_eq]
          exact ih hread (by simp only; omega)
      cases result with
      | failed => exact hnothing rfl rfl
      | bytes data =>
          cases data with
          | nil =>
              have hstep : catchStep (.reading b) (.bytes []) = some b.retry := by
                simp [catchStep, ReplyCall.step, ReadResult.upTo, ReplyBuf.catchCmdReply]
              exact hnothing hstep rfl
          | cons c data =>
              rw [List.cons_append, runSteps, piecesHeard, outcome]
              by_cases hfits : (past ++ c :: data).length < replySize
              · have hall : (c :: data).take b.freeSize.toNat = c :: data := by
                  have hfree := h.free_eq
                  rw [List.length_append] at hfits
                  exact List.take_of_length_le (by omega)
                obtain ⟨b', hread, hretries, hcatch⟩ :=
                  h.catchCmdReply (List.cons_ne_nil c data) hfits
                rw [if_pos hfits, catchStep, ReplyCall.step, ReadResult.upTo, hall, hcatch]
                cases replyAtEnd (past ++ c :: data) with
                | missing =>
                    have hrest := ih hread (by omega)
                    rwa [hretries] at hrest
                | ok | err =>
                    change (runSteps catchStep _ _).bind _ = _
                    rw [catchStep_returned]
                    rfl
              · rw [if_neg hfits, h.catchCmdReply_full (by omega)]
                rfl

theorem catchReply_eq
    (results : List ReadResult) :
    catchReply results = outcome [] (piecesHeard 0 results) := by
  have hread : ReplyBuf.HasRead ⟨fun _ => 0, 1, replySize, 0⟩ [] := by
    refine ⟨rfl, by simp, by decide, ?_⟩
    intro i hi
    obtain rfl := Nat.lt_one_iff.mp hi
    rfl
  exact hread.run (by decide) results

end Run

/-! ### Replies and weight messages -/

section Stream

variable {w v rest line past : List UInt8}

/-- What was received before is a stream of the same kind. -/
theorem IsReplyStream.of_append
    (h : IsReplyStream (w ++ rest)) :
    IsReplyStream w := by
  have hlines : ∀ line ∈ (splitLines 0x0d w).1, line ∈ (splitLines 0x0d (w ++ rest)).1 := by
    intro line hline
    rw [splitLines_append]
    exact List.mem_append_left _ hline
  refine ⟨fun line hline => h.line line (hlines line hline), ?_⟩
  exact h.one_reply.imp (fun hok hmem => hok (hlines _ hmem)) fun herr hmem => herr (hlines _ hmem)

theorem endsBehind_nil : ¬ EndsBehind line [] := by
  rintro ⟨hlast, -⟩
  simp at hlast

theorem endsBehind_of_ne
    {c : UInt8}
    (hc : c ≠ 0x0d) :
    ¬ EndsBehind line (v ++ [c]) := by
  rintro ⟨-, htail⟩
  rw [tail_concat_ne v hc] at htail
  exact absurd htail (by simp)

theorem endsBehind_cr :
    EndsBehind line (v ++ [0x0d]) ↔ (splitLines 0x0d v).2 ++ [0x0d] = line := by
  rw [EndsBehind, lines_concat_self, tail_concat_self, List.getLast?_concat, Option.some.injEq]
  exact and_iff_left rfl

/-- The last two letters lie in the unfinished line. -/
theorem pair_suffix_tail_iff
    {x y : UInt8}
    (hx : x ≠ 0x0d)
    (hy : y ≠ 0x0d) :
    [x, y] <:+ (splitLines 0x0d v).2 ↔ [x, y] <:+ v := by
  constructor
  · intro h
    have hflat : (splitLines 0x0d v).1.flatten ++ (splitLines 0x0d v).2 = v := flatten_splitLines v
    rw [← hflat]
    exact h.trans (List.suffix_append _ _)
  · rintro ⟨front, rfl⟩
    have hassoc : front ++ [x, y] = front ++ [x] ++ [y] := by simp
    rw [hassoc, tail_concat_ne _ hy, tail_concat_ne _ hx]
    exact ⟨(splitLines 0x0d front).2, by simp⟩

/-- The letters at the end are those of the last line. -/
theorem replyAtEnd_tail
    (v : List UInt8) :
    replyAtEnd ((splitLines 0x0d v).2 ++ [0x0d]) = replyAtEnd (v ++ [0x0d]) := by
  simp only [replyAtEnd_cr, pair_suffix_tail_iff (v := v) (x := 0x4f) (y := 0x4b) (by decide)
    (by decide), pair_suffix_tail_iff (v := v) (x := 0x52) (y := 0x52) (by decide) (by decide)]

theorem IsWeightLine.replyAtEnd_eq
    (h : IsWeightLine line) :
    replyAtEnd line = .missing := by
  rw [replyAtEnd, if_neg h.1, if_neg h.2]

/-- In a stream of the LDU the letters at the end of a read are those of a reply exactly if
the read ends behind a reply. -/
theorem IsReplyStream.replyAtEnd_iff
    (h : IsReplyStream w) :
    (replyAtEnd w = .ok ↔ EndsBehind okLine w) ∧ (replyAtEnd w = .err ↔ EndsBehind errLine w) := by
  rcases List.eq_nil_or_concat' w with rfl | ⟨v, c, rfl⟩
  · exact ⟨iff_of_false (by decide) endsBehind_nil, iff_of_false (by decide) endsBehind_nil⟩
  · by_cases hc : c = 0x0d
    · subst hc
      have hmem : (splitLines 0x0d v).2 ++ [0x0d] ∈ (splitLines 0x0d (v ++ [0x0d])).1 := by
        rw [lines_concat_self]
        exact List.mem_append_right _ (List.mem_singleton_self _)
      rw [← replyAtEnd_tail, endsBehind_cr, endsBehind_cr]
      rcases h.line _ hmem with hok | herr | hweight
      · rw [hok]
        decide
      · rw [herr]
        decide
      · have hmissing := hweight.replyAtEnd_eq
        constructor
        · refine iff_of_false (by rw [hmissing]; decide) fun heq => ?_
          rw [heq] at hmissing
          exact absurd hmissing (by decide)
        · refine iff_of_false (by rw [hmissing]; decide) fun heq => ?_
          rw [heq] at hmissing
          exact absurd hmissing (by decide)
    · rw [replyAtEnd_of_ne v hc]
      exact ⟨iff_of_false (by decide) (endsBehind_of_ne hc),
        iff_of_false (by decide) (endsBehind_of_ne hc)⟩

theorem EndsBehind.mem
    (h : EndsBehind line w) :
    line ∈ (splitLines 0x0d (w ++ rest)).1 := by
  rw [splitLines_append]
  exact List.mem_append_left _ (List.mem_of_getLast? h.1)

/-- The answer of a stream whose beginning ends behind a reply. -/
theorem IsReplyStream.replyIn_eq
    (h : IsReplyStream (w ++ rest)) :
    (EndsBehind okLine w → replyIn (w ++ rest) = .ok) ∧
      (EndsBehind errLine w → replyIn (w ++ rest) = .err) := by
  constructor
  · intro hok
    exact if_pos hok.mem
  · intro herr
    have hnot : okLine ∉ (splitLines 0x0d (w ++ rest)).1 :=
      h.one_reply.resolve_right (not_not.mpr herr.mem)
    rw [replyIn, if_neg hnot, if_pos herr.mem]

end Stream

section Answer

variable {past piece : List UInt8} {pieces : List (List UInt8)}

/-- The first read counts, or one of those after it. -/
theorem readEndsBehindReply_cons
    (hopen : ¬ EndsBehind okLine past ∧ ¬ EndsBehind errLine past) :
    ReadEndsBehindReply past (piece :: pieces) ↔ ReadEndsBehindReply (past ++ piece) pieces := by
  constructor
  · rintro ⟨before, after, hpieces, hlen, hends⟩
    cases before with
    | nil =>
        rw [List.flatten_nil, List.append_nil] at hends
        exact absurd hends (not_or.mpr hopen)
    | cons first before =>
        obtain ⟨rfl, rfl⟩ := List.cons.inj hpieces
        rw [List.flatten_cons, ← List.append_assoc] at hlen hends
        exact ⟨before, after, rfl, hlen, hends⟩
  · rintro ⟨before, after, rfl, hlen, hends⟩
    refine ⟨piece :: before, after, rfl, ?_, ?_⟩
    · rwa [List.flatten_cons, ← List.append_assoc]
    · rwa [List.flatten_cons, ← List.append_assoc]

/-- Reads that fill `buf` end behind no reply inside. -/
theorem not_readEndsBehindReply
    (hopen : ¬ EndsBehind okLine past ∧ ¬ EndsBehind errLine past)
    (hfull : replySize ≤ (past ++ piece).length) :
    ¬ ReadEndsBehindReply past (piece :: pieces) := by
  rintro ⟨before, after, hpieces, hlen, hends⟩
  cases before with
  | nil =>
      rw [List.flatten_nil, List.append_nil] at hends
      exact absurd hends (not_or.mpr hopen)
  | cons first before =>
      obtain ⟨rfl, rfl⟩ := List.cons.inj hpieces
      rw [List.flatten_cons, ← List.append_assoc, List.length_append] at hlen
      omega

/-- The pieces that are still to come lead to the answer of the first 63 bytes exactly if one
of them ends behind the reply, or there is no reply and `buf` does not overflow. -/
theorem outcome_iff
    (hstream : IsReplyStream (past ++ pieces.flatten))
    (hopen : ¬ EndsBehind okLine past ∧ ¬ EndsBehind errLine past)
    (hpast : past.length < replySize) :
    outcome past pieces = some (replyIn ((past ++ pieces.flatten).take (replySize - 1))) ↔
      if replyIn ((past ++ pieces.flatten).take (replySize - 1)) = .missing then
        (past ++ pieces.flatten).length < replySize
      else ReadEndsBehindReply past pieces := by
  induction pieces generalizing past with
  | nil =>
      rw [List.flatten_nil, List.append_nil, List.take_of_length_le (by omega), outcome,
        Option.some.injEq]
      by_cases hmissing : replyIn past = .missing
      · rw [if_pos hmissing]
        exact iff_of_true hmissing.symm hpast
      · rw [if_neg hmissing]
        refine iff_of_false (fun heq => hmissing heq.symm) ?_
        rintro ⟨before, after, hpieces, -, hends⟩
        obtain ⟨rfl, -⟩ := List.append_eq_nil_iff.mp hpieces.symm
        rw [List.flatten_nil, List.append_nil] at hends
        exact absurd hends (not_or.mpr hopen)
  | cons piece pieces ih =>
      rw [List.flatten_cons, ← List.append_assoc] at hstream ⊢
      rw [outcome]
      by_cases hfits : (past ++ piece).length < replySize
      · rw [if_pos hfits, readEndsBehindReply_cons hopen]
        have htake : (past ++ piece ++ pieces.flatten).take (replySize - 1) =
            past ++ piece ++ pieces.flatten.take (replySize - 1 - (past ++ piece).length) := by
          rw [List.take_append, List.take_of_length_le (by omega)]
        have hfirst : IsReplyStream
            (past ++ piece ++ pieces.flatten.take (replySize - 1 - (past ++ piece).length)) := by
          rw [← htake]
          rw [← List.take_append_drop (replySize - 1) (past ++ piece ++ pieces.flatten)] at hstream
          exact hstream.of_append
        obtain ⟨hok, herr⟩ := hstream.of_append.replyAtEnd_iff
        have hhere
            (hends : EndsBehind okLine (past ++ piece) ∨ EndsBehind errLine (past ++ piece)) :
            ReadEndsBehindReply (past ++ piece) pieces :=
          ⟨[], pieces, rfl, by simpa using hfits, by simpa using hends⟩
        cases hletters : replyAtEnd (past ++ piece) with
        | ok =>
            have hends := hok.mp hletters
            have hanswer := hfirst.replyIn_eq.1 hends
            rw [htake, hanswer, if_neg (by decide)]
            exact iff_of_true rfl (hhere (Or.inl hends))
        | err =>
            have hends := herr.mp hletters
            have hanswer := hfirst.replyIn_eq.2 hends
            rw [htake, hanswer, if_neg (by decide)]
            exact iff_of_true rfl (hhere (Or.inr hends))
        | missing =>
            rw [hletters] at hok herr
            exact ih hstream ⟨fun h => absurd (hok.mpr h) (by decide),
              fun h => absurd (herr.mpr h) (by decide)⟩ hfits
      · rw [if_neg hfits]
        refine iff_of_false (by simp) ?_
        split
        · rw [List.length_append]
          omega
        · exact not_readEndsBehindReply hopen (by omega)

/-- **`catch_cmd_reply`.**  Its answer is that of the first 63 bytes which it hears exactly if
a read ends right behind the reply, or there is no reply and the bytes fit behind `buf[0]`. -/
theorem catch_cmd_reply_iff
    {results : List ReadResult}
    (hstream : IsReplyStream (piecesHeard 0 results).flatten) :
    catchReply results = some (replyIn ((piecesHeard 0 results).flatten.take (replySize - 1))) ↔
      if replyIn ((piecesHeard 0 results).flatten.take (replySize - 1)) = .missing then
        (piecesHeard 0 results).flatten.length < replySize
      else ReadEndsBehindReply [] (piecesHeard 0 results) := by
  rw [catchReply_eq]
  exact outcome_iff hstream ⟨endsBehind_nil, endsBehind_nil⟩ (by decide)

/-- A weight message and the reply, each in two pieces. -/
def replyInPieces : List ReadResult :=
  [.bytes [0x57, 0x2b, 0x30], .failed, .bytes [0x31, 0x0d, 0x4f], .bytes [], .bytes [0x4b, 0x0d],
    .bytes [0x57, 0x2b]]

theorem isReplyStream_replyInPieces :
    IsReplyStream (piecesHeard 0 replyInPieces).flatten := by
  refine ⟨?_, by decide⟩
  intro line hline
  have hlines : (splitLines 0x0d (piecesHeard 0 replyInPieces).flatten).1 =
      [[0x57, 0x2b, 0x30, 0x31, 0x0d], okLine] := by decide
  rw [hlines, List.mem_cons, List.mem_singleton] at hline
  rcases hline with rfl | rfl
  · exact Or.inr (Or.inr ⟨by decide, by decide⟩)
  · exact Or.inl rfl

theorem reply_in_pieces_caught :
    catchReply replyInPieces =
      some (replyIn ((piecesHeard 0 replyInPieces).flatten.take (replySize - 1))) := by
  refine (catch_cmd_reply_iff isReplyStream_replyInPieces).mpr ?_
  rw [if_neg (by decide)]
  exact ⟨[[0x57, 0x2b, 0x30], [0x31, 0x0d, 0x4f], [0x4b, 0x0d]], [[0x57, 0x2b]], rfl, by decide,
    Or.inl ⟨by decide, by decide⟩⟩

/-- A weight message begins in the read that ends the reply: the reply is missed.  The same
bytes in two reads are answered. -/
theorem reply_before_weight_missed :
    IsReplyStream [0x4f, 0x4b, 0x0d, 0x57] ∧
      catchReply [.bytes [0x4f, 0x4b, 0x0d, 0x57]] = some .missing ∧
      catchReply [.bytes [0x4f, 0x4b, 0x0d], .bytes [0x57]] = some .ok ∧
      replyIn [0x4f, 0x4b, 0x0d, 0x57] = .ok := by
  refine ⟨⟨?_, by decide⟩, by decide +kernel, by decide +kernel, by decide⟩
  intro line hline
  have hlines : (splitLines 0x0d [(0x4f : UInt8), 0x4b, 0x0d, 0x57]).1 = [okLine] := by decide
  rw [hlines, List.mem_singleton] at hline
  exact Or.inl hline

end Answer

end Scaled
end MatrixBin
