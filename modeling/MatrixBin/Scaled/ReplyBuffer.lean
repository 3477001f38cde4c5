import MatrixBin.Scaled.CommandMailbox
import MatrixBin.Scaled.LocbufCalls

/-!
# Waiting for the reply to a command (`catch_cmd_reply` and `get_cmd_reply2` in `ldu_util.c`)

Both functions collect what they read in `buf`, behind `p`, and compare the letters before a
CR with those of `OK` and `ERR`.  The first one begins at `buf[1]` and looks at the last bytes
of each read, the second at the letters before the first CR of the read.

Each iteration has a result of `read`, which is cut to what was asked for; an iteration is
`none` when it leaves `buf`.  `reply_reads_inside_iff` says for both functions when that
happens.
-/

namespace MatrixBin
namespace Scaled

open Library

/-- `sizeof buf` -/
def replySize : Nat := 64

structure ReplyBuf where
  buf : Bytes
  p : Nat
  freeSize : ℤ
  retries : Nat

/-- A call is about to read, or has returned. -/
inductive ReplyCall
  | reading (b : ReplyBuf)
  | returned (reply : CmdReply)

/-- A byte of `buf`, whose position is computed backwards. -/
def lookBack (m : Bytes) (i : ℤ) : Option UInt8 :=
  if 0 ≤ i ∧ i < replySize then some (m i.toNat) else none

/-- Whether two letters end at a position; the first one is not looked at if the second is
another. -/
def twoLetters (m : Bytes) (i : ℤ) (first second : UInt8) : Option Bool :=
  (lookBack m i).bind fun b =>
    if b = second then (lookBack m (i - 1)).map fun c => decide (c = first) else some false

/-- The two comparisons with the letters that end at a position. -/
def replyLetters (m : Bytes) (i : ℤ) : Option CmdReply :=
  (twoLetters m i 0x4f 0x4b).bind fun ok =>
    if ok then some .ok
    else (twoLetters m i 0x52 0x52).map fun err => if err then .err else .missing

/-- The beginning of an iteration. -/
def ReplyBuf.loopTop (b : ReplyBuf) : ReplyCall :=
  if b.freeSize ≤ 0 then .returned .missing else .reading b

/-- Nothing was read. -/
def ReplyBuf.retry (b : ReplyBuf) : ReplyCall :=
  if 5 ≤ b.retries + 1 then .returned .missing
  else ({ b with retries := b.retries + 1 } : ReplyBuf).loopTop

def ReplyBuf.advance (b : ReplyBuf) (len : Nat) : ReplyCall :=
  ({ b with p := b.p + len, freeSize := b.freeSize - len, retries := 0 } : ReplyBuf).loopTop

/-- One iteration of `catch_cmd_reply`, after `read`. -/
def ReplyBuf.catchCmdReply (b : ReplyBuf) : ReadResult → Option ReplyCall
  | .failed => some b.retry
  | .bytes [] => some b.retry
  | .bytes data =>
      (store replySize b.buf b.p data).bind fun buf =>
        let b := { b with buf := buf }
        (lookBack buf (b.p + data.length - 1)).bind fun last =>
          if last ≠ 0x0d then some (b.advance data.length)
          else
            (replyLetters buf (b.p + data.length - 2)).map fun
              | .missing => b.advance data.length
              | reply => .returned reply

/-- One iteration of `get_cmd_reply2`, after `read`.  A line that is no reply is overwritten
by the next read. -/
def ReplyBuf.getCmdReply2 (b : ReplyBuf) : ReadResult → Option ReplyCall
  | .failed => some b.retry
  | .bytes [] => some b.retry
  | .bytes data =>
      (store replySize b.buf b.p data).bind fun buf =>
        let b := { b with buf := buf, retries := 0 }
        if b.p + data.length < 3 then some (b.advance data.length)
        else if data.idxOf 0x0d = data.length then some (.returned .missing)
        else
          (replyLetters buf (b.p + data.idxOf 0x0d - 1)).map fun
            | .missing => b.loopTop
            | reply => .returned reply

/-- The next iteration of a call, if it has not returned. -/
def ReplyCall.step (iteration : ReplyBuf → ReadResult → Option ReplyCall) :
    ReplyCall → ReadResult → Option ReplyCall
  | .reading b, result => iteration b (result.upTo b.freeSize.toNat)
  | .returned reply, _ => some (.returned reply)

def catchStep : ReplyCall → ReadResult → Option ReplyCall :=
  ReplyCall.step ReplyBuf.catchCmdReply

def getStep : ReplyCall → ReadResult → Option ReplyCall :=
  ReplyCall.step ReplyBuf.getCmdReply2

def catchInitial : ReplyCall := .reading ⟨fun _ => 0, 1, replySize, 0⟩

/-- `get_cmd_reply2` writes a command of its own before it reads. -/
def getInitial (written : Bool) : ReplyCall :=
  if written then .reading ⟨fun _ => 0, 0, replySize, 0⟩ else .returned .missing

/-! ### The invariant -/

/-- A call that is about to read: what it asks for ends at `buf + limit`, and in front of
`base` nothing has been stored. -/
structure ReplyBuf.Within (base limit : Nat) (b : ReplyBuf) : Prop where
  range_ends : (b.p : ℤ) + b.freeSize = limit
  free_pos : 0 < b.freeSize
  base_le : base ≤ b.p
  zero_before : ∀ i, i < base → b.buf i = 0

def ReplyCall.Within (base limit : Nat) : ReplyCall → Prop
  | .reading b => b.Within base limit
  | .returned _ => True

/-- The bytes of the read lie in `buf`. -/
def ReplyBuf.StoresInside (b : ReplyBuf) : ReadResult → Prop
  | .failed => True
  | .bytes data => b.p + data.length ≤ replySize

/-- The letters before the first CR of the read lie in `buf`, as far as they are looked at. -/
def ReplyBuf.LooksBackInside (b : ReplyBuf) : ReadResult → Prop
  | .failed => True
  | .bytes data =>
      3 ≤ b.p + data.length → 0x0d ∈ data →
        2 ≤ b.p + data.idxOf 0x0d ∨
          b.p + data.idxOf 0x0d = 1 ∧ b.buf.write b.p data 0 ≠ 0x4b ∧
            b.buf.write b.p data 0 ≠ 0x52

/-- A condition on the reads that a call makes. -/
def ReplyCall.Meets (C : ReplyBuf → ReadResult → Prop) : ReplyCall → ReadResult → Prop
  | .reading b, result => C b (result.upTo b.freeSize.toNat)
  | .returned _, _ => True

section Iteration

variable {m : Bytes} {i : ℤ} {b : ReplyBuf} {base limit : Nat}

theorem lookBack_eq
    (hpos : 0 ≤ i)
    (hlt : i < replySize) :
    lookBack m i = some (m i.toNat) :=
  if_pos ⟨hpos, hlt⟩

theorem lookBack_before
    (hneg : i < 0) :
    lookBack m i = none :=
  if_neg (by omega)

/-- Both letters are looked at only if there are two. -/
theorem twoLetters_eq
    {first second : UInt8}
    (hone : 1 ≤ i)
    (hlt : i < replySize) :
    twoLetters m i first second =
      some (decide (m (i - 1).toNat = first ∧ m i.toNat = second)) := by
  rw [twoLetters, lookBack_eq (by omega) hlt, Option.bind_some]
  by_cases hsecond : m i.toNat = second
  · rw [if_pos hsecond, lookBack_eq (by omega) (by omega)]
    simp [hsecond]
  · simp [hsecond]

theorem twoLetters_of_ne
    {first second : UInt8}
    (hpos : 0 ≤ i)
    (hlt : i < replySize)
    (hne : m i.toNat ≠ second) :
    twoLetters m i first second = some false := by
  rw [twoLetters, lookBack_eq hpos hlt, Option.bind_some, if_neg hne]

theorem twoLetters_first
    (first : UInt8) :
    twoLetters m 0 first (m 0) = none := by
  rw [twoLetters, lookBack_eq (le_refl 0) (by decide), Option.bind_some, Int.toNat_zero,
    if_pos rfl, lookBack_before (by decide)]
  rfl

/-- What the letters say. -/
theorem replyLetters_eq
    (hone : 1 ≤ i)
    (hlt : i < replySize) :
    replyLetters m i =
      some (if m (i - 1).toNat = 0x4f ∧ m i.toNat = 0x4b then .ok
        else if m (i - 1).toNat = 0x52 ∧ m i.toNat = 0x52 then .err else .missing) := by
  rw [replyLetters, twoLetters_eq hone hlt, Option.bind_some, twoLetters_eq hone hlt,
    Option.map_some]
  by_cases hok : m (i - 1).toNat = 0x4f ∧ m i.toNat = 0x4b
  · rw [if_pos (decide_eq_true hok), if_pos hok]
  · rw [if_neg (by simpa using hok), if_neg hok]
    simp

theorem replyLetters_of_ne
    (hpos : 0 ≤ i)
    (hlt : i < replySize)
    (hk : m i.toNat ≠ 0x4b)
    (hr : m i.toNat ≠ 0x52) :
    replyLetters m i = some .missing := by
  rw [replyLetters, twoLetters_of_ne hpos hlt hk, Option.bind_some, twoLetters_of_ne hpos hlt hr]
  rfl

theorem replyLetters_isSome_iff
    (hlt : i < replySize) :
    (replyLetters m i).isSome ↔ 1 ≤ i ∨ i = 0 ∧ m 0 ≠ 0x4b ∧ m 0 ≠ 0x52 := by
  rcases lt_trichotomy i 0 with hneg | rfl | hpos
  · rw [replyLetters, twoLetters, lookBack_before hneg]
    simp
    omega
  · by_cases hk : m 0 = 0x4b
    · rw [replyLetters, ← hk, twoLetters_first]
      simp
    · by_cases hr : m 0 = 0x52
      · rw [replyLetters, twoLetters_of_ne (le_refl 0) hlt hk, Option.bind_some, if_neg (by simp),
          ← hr, twoLetters_first]
        simp
      · rw [replyLetters_of_ne (le_refl 0) hlt hk hr]
        simp [hk, hr]
  · have hone : 1 ≤ i := by omega
    rw [replyLetters_eq hone hlt]
    simp [hone]

theorem ReplyBuf.loopTop_within
    (hends : (b.p : ℤ) + b.freeSize = limit)
    (hbase : base ≤ b.p)
    (hzero : ∀ i, i < base → b.buf i = 0) :
    b.loopTop.Within base limit := by
  rw [ReplyBuf.loopTop]
  split
  · trivial
  · rename_i hfree
    exact ⟨hends, by omega, hbase, hzero⟩

theorem ReplyBuf.Within.retry
    (h : b.Within base limit) :
    b.retry.Within base limit := by
  rw [ReplyBuf.retry]
  split
  · trivial
  · exact ReplyBuf.loopTop_within h.range_ends h.base_le h.zero_before

/-- Bytes that were stored at `p` leave those before it alone. -/
theorem ReplyBuf.Within.write_zero
    (h : b.Within base limit)
    (data : List UInt8) :
    ∀ i, i < base → b.buf.write b.p data i = 0 := by
  intro i hi
  have hbase := h.base_le
  rw [Bytes.write_outside (Or.inl (by omega))]
  exact h.zero_before i hi

theorem ReplyBuf.Within.advance
    (h : b.Within base limit)
    (data : List UInt8)
    (retries : Nat) :
    (({ b with buf := b.buf.write b.p data, retries := retries } : ReplyBuf).advance
      data.length).Within base limit := by
  have hends := h.range_ends
  have hbase := h.base_le
  refine ReplyBuf.loopTop_within ?_ ?_ (h.write_zero data)
  · simp only
    push_cast
    omega
  · simp only
    omega

/-! ### One iteration -/

/-- What `catch_cmd_reply` makes of the bytes that it reads. -/
theorem ReplyBuf.catchCmdReply_bytes
    {front : List UInt8}
    {c : UInt8}
    (hinside : b.p + (front ++ [c]).length ≤ replySize) :
    b.catchCmdReply (.bytes (front ++ [c])) =
      if c = 0x0d then
        (replyLetters (b.buf.write b.p (front ++ [c])) ((b.p : ℤ) + front.length - 1)).map fun
          | .missing => ({ b with buf := b.buf.write b.p (front ++ [c]) } : ReplyBuf).advance
              (front ++ [c]).length
          | reply => .returned reply
      else
        some (({ b with buf := b.buf.write b.p (front ++ [c]) } : ReplyBuf).advance
          (front ++ [c]).length) := by
  have hbyte : b.buf.write b.p (front ++ [c]) (b.p + front.length) = c := by
    simp [Bytes.write_apply]
  have hlast : ((b.p : ℤ) + (front ++ [c]).length - 1).toNat = b.p + front.length := by
    rw [List.length_append, List.length_singleton]
    omega
  have hletters : (b.p : ℤ) + (front ++ [c]).length - 2 = (b.p : ℤ) + front.length - 1 := by
    rw [List.length_append, List.length_singleton]
    push_cast
    ring
  obtain ⟨d, rest, hdata⟩ : ∃ d rest, front ++ [c] = d :: rest :=
    List.exists_cons_of_ne_nil (by simp)
  rw [hdata] at hbyte hlast hletters hinside ⊢
  rw [ReplyBuf.catchCmdReply, store_eq hinside, Option.bind_some]
  · simp only
    rw [lookBack_eq (by simp only [List.length_cons]; omega) (by omega), Option.bind_some, hlast,
      hbyte, hletters]
    by_cases hcr : c = 0x0d
    · rw [if_neg (not_not.mpr hcr), if_pos hcr]
    · rw [if_pos hcr, if_neg hcr]
  · exact List.cons_ne_nil d rest

theorem ReplyBuf.catchCmdReply_outside
    {data : List UInt8}
    (houtside : ¬ b.p + data.length ≤ replySize)
    (hne : data ≠ []) :
    b.catchCmdReply (.bytes data) = none := by
  obtain ⟨d, rest, rfl⟩ := List.exists_cons_of_ne_nil hne
  have hstore : store replySize b.buf b.p (d :: rest) = none := if_neg houtside
  rw [ReplyBuf.catchCmdReply, hstore, Option.bind_none]
  exact List.cons_ne_nil d rest

/-- What `get_cmd_reply2` makes of the bytes that it reads. -/
theorem ReplyBuf.getCmdReply2_bytes
    {data : List UInt8}
    (hne : data ≠ [])
    (hinside : b.p + data.length ≤ replySize) :
    b.getCmdReply2 (.bytes data) =
      if b.p + data.length < 3 then
        some (({ b with buf := b.buf.write b.p data, retries := 0 } : ReplyBuf).advance data.length)
      else if 0x0d ∈ data then
        (replyLetters (b.buf.write b.p data) ((b.p : ℤ) + data.idxOf 0x0d - 1)).map fun
          | .missing => ({ b with buf := b.buf.write b.p data, retries := 0 } : ReplyBuf).loopTop
          | reply => .returned reply
      else some (.returned .missing) := by
  obtain ⟨d, rest, rfl⟩ := List.exists_cons_of_ne_nil hne
  rw [ReplyBuf.getCmdReply2, store_eq hinside, Option.bind_some]
  · simp only [List.idxOf_eq_length_iff, ite_not]
  · exact List.cons_ne_nil d rest

/-- The iteration of `catch_cmd_reply` stays in `buf` if what it stores does: `buf[0]` is
never a letter. -/
theorem ReplyBuf.Within.catchCmdReply_isSome_iff
    (h : b.Within 1 (replySize + 1))
    (result : ReadResult) :
    (b.catchCmdReply result).isSome ↔ b.StoresInside result := by
  have hends := h.range_ends
  have hfree := h.free_pos
  have hbase := h.base_le
  cases result with
  | failed => exact iff_of_true rfl trivial
  | bytes data =>
      rcases List.eq_nil_or_concat' data with rfl | ⟨front, c, rfl⟩
      · refine iff_of_true rfl ?_
        rw [ReplyBuf.StoresInside, List.length_nil]
        omega
      · rw [ReplyBuf.StoresInside]
        by_cases hinside : b.p + (front ++ [c]).length ≤ replySize
        · refine iff_of_true ?_ hinside
          rw [ReplyBuf.catchCmdReply_bytes hinside]
          split
          · rw [Option.isSome_map]
            rw [List.length_append, List.length_singleton] at hinside
            refine (replyLetters_isSome_iff (by omega)).mpr ?_
            by_cases hfirst : b.p = 1 ∧ front.length = 0
            · have hzero := h.write_zero (front ++ [c]) 0 Nat.zero_lt_one
              refine Or.inr ⟨by omega, ?_, ?_⟩
              · rw [hzero]
                decide
              · rw [hzero]
                decide
            · exact Or.inl (by omega)
          · rfl
        · rw [ReplyBuf.catchCmdReply_outside hinside (by simp)]
          exact iff_of_false (by simp) hinside

/-- The iteration of `get_cmd_reply2` stays in `buf` if it looks back far enough. -/
theorem ReplyBuf.Within.getCmdReply2_isSome_iff
    (h : b.Within 0 replySize)
    {result : ReadResult}
    (hfits : ∀ data, result = .bytes data → (data.length : ℤ) ≤ b.freeSize) :
    (b.getCmdReply2 result).isSome ↔ b.LooksBackInside result := by
  have hends := h.range_ends
  cases result with
  | failed => exact iff_of_true rfl trivial
  | bytes data =>
      by_cases hne : data = []
      · subst hne
        refine iff_of_true rfl ?_
        intro _ hmem
        exact absurd hmem List.not_mem_nil
      · have hroom := hfits data rfl
        have hinside : b.p + data.length ≤ replySize := by omega
        rw [ReplyBuf.getCmdReply2_bytes hne hinside, ReplyBuf.LooksBackInside]
        by_cases hfew : b.p + data.length < 3
        · rw [if_pos hfew]
          exact iff_of_true rfl fun hmany => absurd hmany (by omega)
        · rw [if_neg hfew]
          by_cases hcr : 0x0d ∈ data
          · have hidx : data.idxOf 0x0d < data.length := List.idxOf_lt_length_of_mem hcr
            rw [if_pos hcr, Option.isSome_map, replyLetters_isSome_iff (by omega)]
            have hmany : 3 ≤ b.p + data.length := by omega
            simp only [hcr, hmany, true_implies]
            have htwo : 1 ≤ (b.p : ℤ) + data.idxOf 0x0d - 1 ↔ 2 ≤ b.p + data.idxOf 0x0d := by
              omega
            have hone : (b.p : ℤ) + data.idxOf 0x0d - 1 = 0 ↔ b.p + data.idxOf 0x0d = 1 := by
              omega
            rw [htwo, hone]
          · rw [if_neg hcr]
            exact iff_of_true rfl fun _ hmem => absurd hmem hcr

theorem ReplyBuf.Within.catchCmdReply
    (h : b.Within base limit)
    {result : ReadResult}
    {call : ReplyCall}
    (hstep : b.catchCmdReply result = some call) :
    call.Within base limit := by
  cases result with
  | failed =>
      obtain rfl := Option.some.inj hstep
      exact h.retry
  | bytes data =>
      rcases List.eq_nil_or_concat' data with rfl | ⟨front, c, rfl⟩
      · obtain rfl := Option.some.inj hstep
        exact h.retry
      · by_cases hinside : b.p + (front ++ [c]).length ≤ replySize
        · rw [ReplyBuf.catchCmdReply_bytes hinside] at hstep
          split at hstep
          · obtain ⟨reply, -, hreply⟩ := Option.map_eq_some_iff.mp hstep
            cases reply with
            | missing =>
                rw [← hreply]
                exact h.advance _ b.retries
            | ok | err =>
                rw [← hreply]
                trivial
          · obtain rfl := Option.some.inj hstep
            exact h.advance _ b.retries
        · rw [ReplyBuf.catchCmdReply_outside hinside (by simp)] at hstep
          exact absurd hstep (by simp)

theorem ReplyBuf.Within.getCmdReply2
    (h : b.Within base limit)
    {result : ReadResult}
    {call : ReplyCall}
    (hstep : b.getCmdReply2 result = some call) :
    call.Within base limit := by
  cases result with
  | failed =>
      obtain rfl := Option.some.inj hstep
      exact h.retry
  | bytes data =>
      cases data with
      | nil =>
          obtain rfl := Option.some.inj hstep
          exact h.retry
      | cons d rest =>
          by_cases hinside : b.p + (d :: rest).length ≤ replySize
          · rw [ReplyBuf.getCmdReply2_bytes (List.cons_ne_nil d rest) hinside] at hstep
            split at hstep
            · obtain rfl := Option.some.inj hstep
              exact h.advance _ 0
            · split at hstep
              · obtain ⟨reply, -, hreply⟩ := Option.map_eq_some_iff.mp hstep
                cases reply with
                | missing =>
                    rw [← hreply]
                    exact ReplyBuf.loopTop_within h.range_ends h.base_le (h.write_zero _)
                | ok | err =>
                    rw [← hreply]
                    trivial
              · obtain rfl := Option.some.inj hstep
                trivial
          · have hstore : store replySize b.buf b.p (d :: rest) = none := if_neg hinside
            rw [ReplyBuf.getCmdReply2, hstore, Option.bind_none] at hstep
            · exact absurd hstep (by simp)
            · exact List.cons_ne_nil d rest

/-- Whatever an iteration keeps, the call keeps. -/
theorem ReplyCall.Within.step
    {iteration : ReplyBuf → ReadResult → Option ReplyCall}
    (hkeeps : ∀ b result call, b.Within base limit → iteration b result = some call →
      call.Within base limit)
    {call call' : ReplyCall}
    {result : ReadResult}
    (h : call.Within base limit)
    (hstep : call.step iteration result = some call') :
    call'.Within base limit := by
  cases call with
  | returned reply =>
      obtain rfl := Option.some.inj hstep
      trivial
  | reading b => exact hkeeps b _ call' h hstep

end Iteration

/-! ### Calls -/

section Calls

variable {results : List ReadResult}

/-- A call of `catch_cmd_reply`, with what its reads deliver. -/
def catchAfter (results : List ReadResult) : Option ReplyCall :=
  runSteps catchStep catchInitial results

/-- A call of `get_cmd_reply2`, with what its reads deliver. -/
def getAfter (written : Bool) (results : List ReadResult) : Option ReplyCall :=
  runSteps getStep (getInitial written) results

/-- Every read is handed a range that lies in `buf`. -/
def RangesInside (after : List ReadResult → Option ReplyCall) (results : List ReadResult) :
    Prop :=
  ∀ before rest b, results = before ++ rest → after before = some (.reading b) →
    (b.p : ℤ) + b.freeSize ≤ replySize

theorem catchInitial_within : catchInitial.Within 1 (replySize + 1) :=
  ⟨by decide, by decide, le_refl 1, fun _ _ => rfl⟩

theorem getInitial_within
    (written : Bool) :
    (getInitial written).Within 0 replySize := by
  cases written with
  | false => trivial
  | true => exact ⟨by decide, by decide, le_refl 0, fun _ _ => rfl⟩

theorem catchAfter_isSome_iff :
    (catchAfter results).isSome ↔
      MeetsAll catchStep (ReplyCall.Meets ReplyBuf.StoresInside) catchInitial results := by
  let inv (call : ReplyCall) : Prop := call.Within 1 (replySize + 1)
  have hinit : inv catchInitial := catchInitial_within
  refine runSteps_isSome_iff ?_ ?_ hinit results
  · intro call result h
    cases call with
    | returned reply => exact iff_of_true rfl trivial
    | reading b => exact ReplyBuf.Within.catchCmdReply_isSome_iff h _
  · intro call result call' h hstep
    exact ReplyCall.Within.step (fun _ _ _ hb => hb.catchCmdReply) h hstep

theorem getAfter_isSome_iff
    (written : Bool) :
    (getAfter written results).isSome ↔
      MeetsAll getStep (ReplyCall.Meets ReplyBuf.LooksBackInside) (getInitial written)
        results := by
  let inv (call : ReplyCall) : Prop := call.Within 0 replySize
  have hinit : inv (getInitial written) := getInitial_within written
  refine runSteps_isSome_iff ?_ ?_ hinit results
  · intro call result h
    cases call with
    | returned reply => exact iff_of_true rfl trivial
    | reading b =>
        refine ReplyBuf.Within.getCmdReply2_isSome_iff h ?_
        intro data hdata
        have hpos := ReplyBuf.Within.free_pos h
        cases result with
        | failed => exact absurd hdata (by simp [ReadResult.upTo])
        | bytes all =>
            rw [ReadResult.upTo, ReadResult.bytes.injEq] at hdata
            rw [← hdata, List.length_take]
            omega
  · intro call result call' h hstep
    exact ReplyCall.Within.step (fun _ _ _ hb => hb.getCmdReply2) h hstep

/-- Every range that `get_cmd_reply2` hands to `read` ends at the end of `buf`. -/
theorem getAfter_ranges
    (written : Bool) :
    RangesInside (getAfter written) results := by
  intro before rest b _ hrun
  have hwithin : (ReplyCall.reading b).Within 0 replySize := by
    refine runSteps_keeps (getInitial_within written) ?_ hrun
    intro call result call' h hstep
    exact ReplyCall.Within.step (fun _ _ _ hb => hb.getCmdReply2) h hstep
  exact le_of_eq (ReplyBuf.Within.range_ends hwithin)

/-- Those of `catch_cmd_reply` end one byte behind it, from the first one on. -/
theorem catchAfter_ranges
    {b : ReplyBuf}
    (hrun : catchAfter results = some (.reading b)) :
    (b.p : ℤ) + b.freeSize = replySize + 1 := by
  have hwithin : (ReplyCall.reading b).Within 1 (replySize + 1) := by
    refine runSteps_keeps catchInitial_within ?_ hrun
    intro call result call' h hstep
    exact ReplyCall.Within.step (fun _ _ _ hb => hb.catchCmdReply) h hstep
  exact_mod_cast ReplyBuf.Within.range_ends hwithin

/-- **The bounds of `buf`.**  The ranges that `catch_cmd_reply` hands to `read` are never
inside; what it stores is, unless a read delivers the 64th byte.  `get_cmd_reply2` stays
inside exactly if the CR that it finds stands behind two bytes, or behind one that is none of
the letters. -/
theorem reply_reads_inside_iff
    (results : List ReadResult)
    (written : Bool) :
    ¬ RangesInside catchAfter results ∧
      ((catchAfter results).isSome ↔
        MeetsAll catchStep (ReplyCall.Meets ReplyBuf.StoresInside) catchInitial results) ∧
      (RangesInside (getAfter written) results ∧ (getAfter written results).isSome ↔
        MeetsAll getStep (ReplyCall.Meets ReplyBuf.LooksBackInside) (getInitial written)
          results) := by
  refine ⟨?_, catchAfter_isSome_iff, ?_⟩
  · intro h
    have hfirst := h [] results _ rfl rfl
    have hends := @catchAfter_ranges [] _ rfl
    omega
  · rw [← getAfter_isSome_iff]
    exact and_iff_right (getAfter_ranges written)

/-- 64 bytes in one read: the last one is stored at `buf[64]`.  And a CR that comes first:
`get_cmd_reply2` looks at `buf[-1]`. -/
theorem reply_reads_leave_buf :
    catchAfter [.bytes (List.replicate 64 0x57)] = none ∧
      getAfter true [.bytes [0x0d, 0x57, 0x2b]] = none := by
  decide +kernel

end Calls

end Scaled
end MatrixBin
