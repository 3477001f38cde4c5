import MatrixBin.Scaled.LocbufCalls

/-!
# Draining the local buffer (`ldu_loop.c` and `get_resp` in `ldu_util.c`)

After each read `ldu_loop` calls `next_by_sym` until NULL and `get_resp` calls
`last_by_sym` once.  Either way the buffer then holds, at its beginning, the bytes behind
the last terminator of everything that was read (`Locbuf.Unfinished`).

So the buffer is full, and `get_fromfd` makes no read any more, as soon as LOCBUF_SIZE bytes
have come without a terminator (`progresses_iff`).
-/

namespace MatrixBin
namespace Scaled

open Library

/-! ### The two drains -/

section Drains

variable {b : Locbuf} {data : List UInt8} {sym : UInt8}

/-- The loop over `next_by_sym` leaves the unfinished line, at the beginning of `spc`. -/
theorem Locbuf.Has.drainSym
    (h : b.Has data)
    (hempty : data = [] → b.head = 0)
    {k : Nat}
    (hk : data.length < k) :
    ∃ b', b.drainSym sym k = some b' ∧ b'.Has (splitLines sym data).2 ∧ b'.head = 0 := by
  induction k generalizing b data with
  | zero => omega
  | succ k ih =>
      rw [Locbuf.drainSym]
      by_cases hsym : sym ∈ data
      · obtain ⟨body, rest, rfl, hbody⟩ := List.eq_append_cons_of_mem hsym
        obtain ⟨b', hnext, hrest, -, -, -, hreset, -⟩ := h.nextBySym_line hbody
        rw [List.length_append, List.length_cons] at hk
        rw [hnext, Option.bind_some, splitLines_line hbody]
        exact ih hrest hreset (by omega)
      · obtain ⟨b', hnext, hhas, hhead⟩ := h.nextBySym_none hsym hempty
        rw [hnext, Option.bind_some, splitLines_of_not_mem hsym]
        exact ⟨b', rfl, hhas, hhead⟩

theorem Locbuf.Has.drain
    (h : b.Has data)
    (hempty : data = [] → b.head = 0) :
    ∃ b', b.drain sym = some b' ∧ b'.Has (splitLines sym data).2 ∧ b'.head = 0 := by
  refine h.drainSym hempty ?_
  have := h.count_eq
  omega

/-- The search backwards over the bytes at the beginning of `spc`. -/
theorem Locbuf.scanBack_front
    (b : Locbuf)
    (sym : UInt8)
    {front : List UInt8}
    (hholds : b.spc.Holds 0 front)
    (hle : front.length ≤ locbufSize) :
    b.scanBack sym front.length ((front.length : ℤ) - 1) =
      some ((front.length : ℤ) - (splitLines sym front).2.length - 1) := by
  induction front using List.reverseRecOn with
  | nil => rfl
  | append_singleton front c ih =>
      obtain ⟨hfront, hc⟩ := Bytes.holds_append.mp hholds
      have hbyte : b.spc front.length = c := by
        simpa using (hc 0 (by simp)).symm
      rw [List.length_append, List.length_singleton] at hle
      have hlast : ((front.length + 1 : ℕ) : ℤ) - 1 = front.length := by
        push_cast
        ring
      rw [List.length_append, List.length_singleton, Locbuf.scanBack, hlast, if_pos (by omega),
        Int.toNat_natCast, hbyte]
      by_cases hsym : c = sym
      · subst hsym
        rw [if_pos rfl, tail_concat_self, List.length_nil]
        push_cast
        congr 1
        ring
      · rw [if_neg hsym, ih hfront (by omega), tail_concat_ne front hsym, List.length_append,
          List.length_singleton]
        push_cast
        congr 1
        ring

/-- What the search leads to: the last line begins behind `before`, and ends at the end of the
bytes. -/
theorem Locbuf.Has.lastBySym_eq
    {front : List UInt8}
    {c : UInt8}
    (h : b.Has (front ++ [c]))
    (hhead : b.head = 0) :
    ∃ before : List UInt8,
      b.spc.Holds 0 (before ++ ((splitLines sym front).2 ++ [c])) ∧
      before.length + ((splitLines sym front).2 ++ [c]).length ≤ locbufSize ∧
      b.lastBySym sym =
        if c = sym then
          some ((some (before.length : ℤ), (((splitLines sym front).2 ++ [c]).length : ℤ)),
            { b with count := 0, head := 0, tail := 0 })
        else if 0 < before.length then
          (load locbufSize b.spc before.length ((splitLines sym front).2 ++ [c]).length).bind
            fun data => (store locbufSize b.spc 0 data).map fun spc =>
              ((none, (((splitLines sym front).2 ++ [c]).length : ℤ)),
                ⟨((splitLines sym front).2 ++ [c]).length, 0,
                  ((splitLines sym front).2 ++ [c]).length, spc⟩)
        else
          some ((none, (((splitLines sym front).2 ++ [c]).length : ℤ)),
            { b with count := ((splitLines sym front).2 ++ [c]).length, head := 0,
                     tail := ((splitLines sym front).2 ++ [c]).length }) := by
  have hlen := h.length_le
  have hcount := h.count_eq
  have hholds := h.holds
  rw [hhead, Int.toNat_zero] at hholds
  obtain ⟨hfront, hlast⟩ := Bytes.holds_append.mp hholds
  rw [List.length_append, List.length_singleton] at hlen hcount
  have hsplit : (splitLines sym front).1.flatten ++ (splitLines sym front).2 = front :=
    flatten_splitLines front
  have hscan := b.scanBack_front sym hfront (by omega)
  generalize (splitLines sym front).2 = body at hsplit hscan ⊢
  generalize (splitLines sym front).1.flatten = before at hsplit
  have hbyte : b.spc front.length = c := by
    simpa using (hlast 0 (by simp)).symm
  have hfrontlen : front.length = before.length + body.length := by
    rw [← hsplit, List.length_append]
  have hsize : (body ++ [c]).length = body.length + 1 := by
    rw [List.length_append, List.length_singleton]
  have hq : b.count - 1 = front.length := by
    rw [hcount]
    push_cast
    ring
  have hp : (front.length : ℤ) - body.length - 1 + 1 = before.length := by
    rw [hfrontlen]
    push_cast
    ring
  have hline : (front.length : ℤ) - before.length + 1 = ((body ++ [c]).length : ℕ) := by
    rw [hfrontlen, hsize]
    push_cast
    ring
  refine ⟨before, by rwa [← List.append_assoc, hsplit], by omega, ?_⟩
  rw [Locbuf.lastBySym, if_neg (by omega)]
  simp only [hq, hhead, sub_zero, Int.toNat_natCast, hscan, Option.bind_some, hp, hline, hbyte,
    Int.natCast_pos]
  rw [if_pos (by omega)]

/-- The symbol comes last: the last line is handed out where it lies, and the buffer is
empty. -/
theorem Locbuf.Has.lastBySym_line
    {front : List UInt8}
    (h : b.Has (front ++ [sym]))
    (hhead : b.head = 0) :
    ∃ p : Nat, b.lastBySym sym =
        some ((some (p : ℤ), (((splitLines sym front).2 ++ [sym]).length : ℤ)),
          { b with count := 0, head := 0, tail := 0 }) ∧
      b.spc.Holds p ((splitLines sym front).2 ++ [sym]) ∧
      p + ((splitLines sym front).2 ++ [sym]).length ≤ locbufSize := by
  obtain ⟨before, hholds, hfits, hlast⟩ := h.lastBySym_eq hhead
  rw [Bytes.holds_append, Nat.zero_add] at hholds
  refine ⟨before.length, ?_, hholds.2, hfits⟩
  rw [hlast, if_pos rfl]

/-- Another symbol comes last: the unfinished line is moved to the beginning. -/
theorem Locbuf.Has.lastBySym_unfinished
    {front : List UInt8}
    {c : UInt8}
    (h : b.Has (front ++ [c]))
    (hhead : b.head = 0)
    (hc : c ≠ sym) :
    ∃ b', b.lastBySym sym =
        some ((none, (((splitLines sym front).2 ++ [c]).length : ℤ)), b') ∧
      b'.Has ((splitLines sym front).2 ++ [c]) ∧ b'.head = 0 := by
  obtain ⟨before, hholds, hfits, hlast⟩ := h.lastBySym_eq hhead
  generalize (splitLines sym front).2 ++ [c] = line at hholds hfits hlast ⊢
  rw [Bytes.holds_append, Nat.zero_add] at hholds
  rw [hlast, if_neg hc]
  by_cases hbefore : 0 < before.length
  · have hwritten : (b.spc.write 0 line).Holds (0 : ℤ).toNat line := Bytes.holds_write
    rw [if_pos hbefore, load_eq hholds.2 hfits, Option.bind_some, store_eq (by omega)]
    refine ⟨_, rfl, ⟨le_refl 0, by simp, ?_, rfl, hwritten⟩, rfl⟩
    simp only
    omega
  · obtain rfl : before = [] := List.length_eq_zero_iff.mp (by omega)
    rw [if_neg hbefore]
    refine ⟨_, rfl, ⟨le_refl 0, by simp, ?_, rfl, hholds.2⟩, rfl⟩
    simp only
    omega

end Drains

/-! ### Reading and draining -/

/-- The two loops that read the terminal into the buffer. -/
inductive Drainer
  | lduLoop
  | getResp
deriving DecidableEq

/-- How the loop drains the buffer behind a read. -/
def Locbuf.drainBy (b : Locbuf) : Drainer → Option Locbuf
  | .lduLoop => b.drain 0x0d
  | .getResp => (b.lastBySym 0x0d).map Prod.snd

/-- One call of `get_fromfd` with the bytes that FIONREAD announced, the bytes that the read
delivers, and the drain. -/
structure Serve where
  drainer : Drainer
  bytes : ℤ
  data : List UInt8

/-- A read that is made and delivers bytes, then the drain. -/
def serveStep (b : Locbuf) (a : Serve) : Option Locbuf :=
  if ∃ len ∈ b.request a.bytes, a.data ≠ [] ∧ a.data.length ≤ len then
    (b.getFromfd a.bytes (.bytes a.data)).bind fun (_, b') => b'.drainBy a.drainer
  else none

/-- The bytes that were read, in the order of the reads. -/
def served (schedule : List Serve) : List UInt8 := schedule.flatMap Serve.data

/-- The buffer is not full: `get_fromfd` with pending bytes accepts at least one. -/
def Progresses (b : Locbuf) : Prop :=
  b.count < locbufSize ∧ ∀ bytes, 0 < bytes → ∃ len, b.request bytes = some len ∧ 0 < len

/-- The buffer holds the unfinished line of what was read, at the beginning of `spc`. -/
structure Locbuf.Unfinished (b : Locbuf) (past : List UInt8) : Prop where
  has : b.Has (splitLines 0x0d past).2
  head_eq : b.head = 0

section Serving

variable {b b' : Locbuf} {past data : List UInt8}

theorem Locbuf.Unfinished.progresses_iff_tail
    (h : b.Unfinished past) :
    Progresses b ↔ (splitLines 0x0d past).2.length < locbufSize := by
  have hcount := h.has.count_eq
  constructor
  · rintro ⟨hlt, -⟩
    omega
  · intro hlt
    refine ⟨by omega, fun bytes hbytes => ?_⟩
    rw [h.has.request_eq, if_pos ⟨hlt, hbytes⟩]
    exact ⟨_, rfl, by omega⟩

/-- When the buffer is full, `get_fromfd` makes no read and changes nothing. -/
theorem full_makes_no_read
    (hfull : (locbufSize : ℤ) ≤ b.count)
    (bytes : ℤ)
    (result : ReadResult) :
    b.getFromfd bytes result = some (-1, b) := by
  rw [Locbuf.getFromfd, Locbuf.request, if_pos (Or.inl (by omega))]

/-- Either drain leaves the unfinished line. -/
theorem Locbuf.Has.drainBy
    (h : b.Has data)
    (hhead : b.head = 0)
    (hne : data ≠ [])
    (drainer : Drainer) :
    ∃ b', b.drainBy drainer = some b' ∧ b'.Has (splitLines 0x0d data).2 ∧ b'.head = 0 := by
  cases drainer with
  | lduLoop => exact h.drain (fun _ => hhead)
  | getResp =>
      obtain ⟨front, c, rfl⟩ := (List.eq_nil_or_concat' data).resolve_left hne
      rw [Locbuf.drainBy]
      by_cases hc : c = 0x0d
      · subst hc
        obtain ⟨p, hlast, -⟩ := h.lastBySym_line hhead
        rw [hlast, tail_concat_self]
        exact ⟨_, rfl, ⟨le_refl 0, rfl, by simp, rfl, Bytes.holds_nil⟩, rfl⟩
      · obtain ⟨b', hlast, hhas, hhead'⟩ := h.lastBySym_unfinished hhead hc
        rw [hlast, tail_concat_ne front hc]
        exact ⟨b', rfl, hhas, hhead'⟩

/-- `get_fromfd` puts what it reads behind the unfinished line. -/
theorem Locbuf.Unfinished.getFromfd
    (h : b.Unfinished past)
    {bytes : ℤ}
    {len : Nat}
    (hrequest : b.request bytes = some len)
    (hlen : data.length ≤ len) :
    ∃ b', b.getFromfd bytes (.bytes data) = some ((data.length : ℤ), b') ∧
      b'.Has ((splitLines 0x0d past).2 ++ data) ∧ b'.head = 0 := by
  have heq := h.has.request_eq bytes
  rw [hrequest] at heq
  split at heq
  · rename_i hroom
    rw [Option.some.injEq] at heq
    obtain ⟨b', happend, hhas, hhead⟩ := h.has.append h.head_eq
      (show (splitLines 0x0d past).2.length + data.length ≤ locbufSize by omega)
    refine ⟨b', ?_, hhas, hhead⟩
    simp only [Locbuf.getFromfd, hrequest]
    rw [if_pos hlen, happend]
    rfl
  · exact absurd heq (by simp)

/-- **One read and its drain.**  Nothing but a read that cannot be made is refused, and the
buffer again holds the unfinished line. -/
theorem Locbuf.Unfinished.serve
    (h : b.Unfinished past)
    {a : Serve}
    {len : Nat}
    (hrequest : b.request a.bytes = some len)
    (hne : a.data ≠ [])
    (hlen : a.data.length ≤ len) :
    ∃ b', serveStep b a = some b' ∧ b'.Unfinished (past ++ a.data) := by
  obtain ⟨b₁, hget, hhas, hhead⟩ := h.getFromfd hrequest hlen
  obtain ⟨b₂, hdrain, hhas₂, hhead₂⟩ := hhas.drainBy hhead (by simp [hne]) a.drainer
  refine ⟨b₂, ?_, ?_, hhead₂⟩
  · rw [serveStep, if_pos ⟨len, hrequest, hne, hlen⟩, hget, Option.bind_some]
    exact hdrain
  · rw [splitLines_append]
    exact hhas₂

theorem serveStep_unfinished
    (h : b.Unfinished past)
    {a : Serve}
    (hstep : serveStep b a = some b') :
    b'.Unfinished (past ++ a.data) := by
  by_cases hread : ∃ len ∈ b.request a.bytes, a.data ≠ [] ∧ a.data.length ≤ len
  · obtain ⟨len, hrequest, hne, hlen⟩ := hread
    obtain ⟨b₁, hb₁, hun⟩ := h.serve hrequest hne hlen
    rw [hstep, Option.some.injEq] at hb₁
    exact hb₁ ▸ hun
  · rw [serveStep, if_neg hread] at hstep
    exact absurd hstep (by simp)

end Serving

/-- Nowhere in the stream have `cap` symbols come since the last terminator. -/
def UnfinishedWithin (cap : Nat) (stream : List UInt8) : Prop :=
  ∀ past rest, stream = past ++ rest → (splitLines 0x0d past).2.length < cap

/-- A run from a buffer that holds an unfinished line. -/
theorem Locbuf.Unfinished.progresses_along_iff
    {b b' : Locbuf}
    {past : List UInt8}
    (h : b.Unfinished past)
    {schedule : List Serve}
    (hrun : runSteps serveStep b schedule = some b') :
    HoldsAlong serveStep Progresses b schedule ↔
      ∀ mid rest, served schedule = mid ++ rest →
        (splitLines 0x0d (past ++ mid)).2.length < locbufSize := by
  induction schedule generalizing b past with
  | nil =>
      rw [HoldsAlong, h.progresses_iff_tail]
      constructor
      · intro hlt mid rest heq
        obtain ⟨rfl, -⟩ := List.append_eq_nil_iff.mp heq.symm
        rwa [List.append_nil]
      · intro hall
        have hlt := hall [] [] rfl
        rwa [List.append_nil] at hlt
  | cons a schedule ih =>
      rw [runSteps] at hrun
      split at hrun
      · exact absurd hrun (by simp)
      · rename_i b₁ hstep
        have h₁ := serveStep_unfinished h hstep
        -- what was read and the unfinished line before it fit the buffer
        have hfits : (splitLines 0x0d past).2.length + a.data.length ≤ locbufSize := by
          rw [serveStep, Option.ite_none_right_eq_some] at hstep
          obtain ⟨⟨len, hrequest, -, hlen⟩, -⟩ := hstep
          rw [h.has.request_eq] at hrequest
          split at hrequest
          · rw [Option.mem_some_iff] at hrequest
            omega
          · exact absurd hrequest (by simp)
        rw [HoldsAlong, h.progresses_iff_tail]
        constructor
        · rintro ⟨-, hnext⟩ mid rest heq
          have hall := (ih h₁ hrun).mp (hnext b₁ hstep)
          rw [served, List.flatMap_cons] at heq
          rcases List.append_eq_append_iff.mp heq with ⟨mid', rfl, hrest⟩ | ⟨more, hdata, hrest⟩
          · have hlt := hall mid' rest hrest
            rwa [List.append_assoc] at hlt
          · have hend := hall [] (served schedule) rfl
            have hle : (splitLines 0x0d (past ++ mid)).2.length ≤
                (splitLines 0x0d past).2.length + mid.length := length_tail_append_le past mid
            have hlen := congrArg List.length hdata
            rw [List.length_append] at hlen
            by_cases hmore : more = []
            · rw [hmore, List.append_nil] at hdata
              rwa [hdata, List.append_nil] at hend
            · have := List.length_pos_iff.mpr hmore
              omega
        · intro hall
          refine ⟨?_, fun b₂ hb₂ => ?_⟩
          · have hlt := hall [] (served (a :: schedule)) rfl
            rwa [List.append_nil] at hlt
          · rw [hstep, Option.some.injEq] at hb₂
            subst hb₂
            refine (ih h₁ hrun).mpr fun mid rest heq => ?_
            have hlt := hall (a.data ++ mid) rest (by
              rw [List.append_assoc, ← heq]
              rfl)
            rwa [← List.append_assoc] at hlt

/-- **Progress of the two loops.**  In a run of reads and drains, of either kind and under
any cut of the stream, the buffer has room after every drain exactly when nowhere in what was
read LOCBUF_SIZE bytes have come without a terminator. -/
theorem progresses_iff
    (schedule : List Serve)
    {b : Locbuf}
    (hrun : runSteps serveStep initLocbuf schedule = some b) :
    HoldsAlong serveStep Progresses initLocbuf schedule ↔
      UnfinishedWithin locbufSize (served schedule) := by
  have h : initLocbuf.Unfinished [] := ⟨initLocbuf_has, rfl⟩
  rw [h.progresses_along_iff hrun]
  rfl

/-- Noise fills the buffer. -/
theorem noise_fills_buffer
    (drainer : Drainer)
    {noise : List UInt8}
    (hnoise : 0x0d ∉ noise)
    (hlen : noise.length = locbufSize) :
    ¬ HoldsAlong serveStep Progresses initLocbuf [⟨drainer, locbufSize, noise⟩] := by
  have h : initLocbuf.Unfinished [] := ⟨initLocbuf_has, rfl⟩
  have hne : noise ≠ [] := by
    rintro rfl
    exact absurd hlen (by decide)
  obtain ⟨b, hstep, hun⟩ := h.serve (a := ⟨drainer, locbufSize, noise⟩)
    (show initLocbuf.request locbufSize = some locbufSize by decide) hne (le_of_eq hlen)
  rintro ⟨-, hnext⟩
  have hlt := hun.progresses_iff_tail.mp (hnext b hstep)
  rw [List.nil_append, splitLines_of_not_mem hnoise, hlen] at hlt
  exact absurd hlt (by omega)

theorem kilobyte_of_noise_stops_loops :
    ¬ HoldsAlong serveStep Progresses initLocbuf
        [⟨.lduLoop, 1024, List.replicate 1024 0x41⟩] ∧
      ¬ HoldsAlong serveStep Progresses initLocbuf
        [⟨.getResp, 1024, List.replicate 1024 0x41⟩] := by
  have hnoise : (0x0d : UInt8) ∉ List.replicate 1024 (0x41 : UInt8) := by
    intro hmem
    exact absurd (List.eq_of_mem_replicate hmem) (by decide)
  have hlen : (List.replicate 1024 (0x41 : UInt8)).length = locbufSize := List.length_replicate
  exact ⟨noise_fills_buffer .lduLoop hnoise hlen, noise_fills_buffer .getResp hnoise hlen⟩

/-- A line in two reads, drained by one loop and then by the other. -/
theorem progresses_two_reads :
    HoldsAlong serveStep Progresses initLocbuf
        [⟨.getResp, 3, [0x44, 0x0d]⟩, ⟨.lduLoop, 2, [0x57, 0x0d]⟩] ↔
      UnfinishedWithin locbufSize
        (served [⟨.getResp, 3, [0x44, 0x0d]⟩, ⟨.lduLoop, 2, [0x57, 0x0d]⟩]) := by
  have hrun : (runSteps serveStep initLocbuf
      [⟨.getResp, 3, [0x44, 0x0d]⟩, ⟨.lduLoop, 2, [0x57, 0x0d]⟩]).isSome := by decide +kernel
  obtain ⟨b, hb⟩ := Option.isSome_iff_exists.mp hrun
  exact progresses_iff _ hb

end Scaled
end MatrixBin
