import MatrixBin.Scaled.Dis4Frames

/-!
# The bounds of the DIS4 buffer (`dis4_loop.c`)

The loop `while(len>0)` with every outcome of its reads: 0 bytes, which change nothing, an
error, which counts as -1 bytes, and bytes that contain NUL.  `dis4_loop_ends_iff` says when
it ends inside the buffer.

A frame that ends is searched for up to the next NUL.  The bytes behind its CR are counted
from the beginning of the buffer, so a NUL that was kept there makes their number wrap
around.  The weight field of a frame may lie outside the buffer: it is read only if a frame
of `packet_length` bytes ends, and no further than a NUL.
-/

namespace MatrixBin
namespace Scaled

open Library

universe u

section Model

variable {W : Type u}

/-- What `read` was asked for allows this result. -/
def Dis4.Fits (s : Dis4 W) : ReadResult → Prop
  | .failed => True
  | .bytes data => data.length ≤ min s.len (dis4Size - (s.pStart + 1))

/-- By how much `len` is lowered: a failed read counts as -1 bytes. -/
def taken : ReadResult → ℤ
  | .failed => -1
  | .bytes data => data.length

/-- A frame ends in the string, and bytes of another are left behind it. -/
def LeavesBytes (str : List UInt8) : Prop :=
  0x0d ∈ str ∧ dropLineFeed (splitLines 0x0d str).2 ≠ []

instance (str : List UInt8) : Decidable (LeavesBytes str) :=
  inferInstanceAs (Decidable (_ ∧ _))

/-- The bytes from `pStart` to the end of the array, whatever they are. -/
def Dis4.behind (s : Dis4 W) : List UInt8 := s.buffer.read s.pStart (dis4Size - s.pStart)

/-- The copy of the weight field stays in the buffer. -/
def Dis4Frame.CopiesInside (t : Dis4Frame) (buffer : Bytes) : Prop :=
  t.weightLen = 0 ∨ t.weightPos + t.weightLen ≤ dis4Size ∨
    ∃ i, t.weightPos ≤ i ∧ i < dis4Size ∧ buffer i = 0

/-- How many bytes the loop counts to each frame that ends in the string: `kept` bytes of the
first were read before. -/
def frameLengths (kept : Nat) (str : List UInt8) : List Nat :=
  ((splitLines 0x0d str).1.map List.length).modifyHead (kept + ·)

/-- The iteration stays in the buffer.  Bytes are searched up to their first NUL, after a
failed read those that stand behind `pStart` from before. -/
def Dis4.ReadSafe (t : Dis4Frame) (s : Dis4 W) : ReadResult → Prop
  | .failed => 0 < s.pStart ∧ 0 ∈ s.behind ∧ ¬ LeavesBytes (stringAt s.behind) ∧
      (t.packetLength ∈ frameLengths s.pStart (stringAt s.behind) →
        t.CopiesInside (s.buffer.write (s.pStart - 1) [0]))
  | .bytes data =>
      (LeavesBytes (stringAt data) → 0 ∉ s.buffer.read 0 s.pStart) ∧
        (t.packetLength ∈ frameLengths s.pStart (stringAt data) →
          t.CopiesInside ((s.buffer.write s.pStart data).write (s.pStart + data.length) [0]))

/-- Between two iterations. -/
structure Dis4.Inside (s : Dis4 W) : Prop where
  pEnd_eq : s.pEnd = 0
  pStart_lt : s.pStart < dis4Size

/-! ### One iteration -/

variable {t : Dis4Frame} {atof : List UInt8 → W} {stack : Nat → StackValue} {s : Dis4 W}

theorem Dis4.moveRest_inside
    {before rest : List UInt8}
    (hholds : s.buffer.Holds 0 (before ++ rest ++ [0]))
    (hfits : (before ++ rest).length < dis4Size)
    (hcr : 0x0d ∉ rest)
    (hnul : 0 ∉ rest)
    (hsafe : rest ≠ [] → 0 ∉ before) :
    ∃ s', s.moveRest before.length = some s' ∧ s'.Inside := by
  cases rest with
  | nil =>
      rw [List.append_nil] at hholds hfits
      have hzero : s.buffer before.length = 0 := by
        have hbehind := (Bytes.holds_append.mp hholds).2
        rw [Nat.zero_add] at hbehind
        exact (Bytes.Holds.head hbehind).1
      rw [Dis4.moveRest, if_pos hfits, if_pos hzero]
      exact ⟨_, rfl, rfl, Nat.zero_lt_succ _⟩
  | cons b rest =>
      have hbefore := hsafe (List.cons_ne_nil b rest)
      have hall : 0 ∉ before ++ b :: rest := by
        rw [List.mem_append, not_or]
        exact ⟨hbefore, hnul⟩
      obtain ⟨s', hmove, hhas, -⟩ := Dis4.moveRest_eq hholds hfits hcr hall
      exact ⟨s', hmove, hhas.pEnd_eq, hhas.pStart_eq ▸ hhas.fits⟩

/-- A NUL before the bytes that are left: their number wraps around. -/
theorem Dis4.moveRest_none
    {before rest : List UInt8}
    (hholds : s.buffer.Holds 0 (before ++ rest ++ [0]))
    (hfits : (before ++ rest).length < dis4Size)
    (hnul : 0 ∉ rest)
    (hrest : rest ≠ [])
    (hmem : 0 ∈ before) :
    s.moveRest before.length = none := by
  obtain ⟨b, rest, rfl⟩ := List.exists_cons_of_ne_nil hrest
  obtain ⟨front, junk, rfl, hfront⟩ := List.eq_append_cons_of_mem hmem
  have hbyte : s.buffer (front ++ 0 :: junk).length ≠ 0 := by
    rw [List.append_assoc _ (b :: rest)] at hholds
    have hbehind := (Bytes.holds_append.mp hholds).2
    rw [Nat.zero_add] at hbehind
    rw [(Bytes.Holds.head hbehind).1]
    rintro rfl
    exact hnul List.mem_cons_self
  have hstring : s.buffer.Holds 0 (front ++ [0]) := by
    have hassoc : front ++ 0 :: junk ++ b :: rest ++ [0] =
        (front ++ [0]) ++ (junk ++ b :: rest ++ [0]) := by simp
    rw [hassoc] at hholds
    exact (Bytes.holds_append.mp hholds).1
  simp only [List.length_append, List.length_cons] at hfits
  have hstrlen : strlen dis4Size s.buffer 0 = some front.length :=
    strlen_of_holds hstring hfront (by omega)
  have hwraps : front.length < (front ++ 0 :: junk).length := by
    rw [List.length_append, List.length_cons]
    omega
  rw [Dis4.moveRest, if_pos (by rw [List.length_append, List.length_cons]; omega), if_neg hbyte,
    hstrlen, Option.bind_some, if_pos hwraps]

theorem Dis4.frame_some
    {s₁ : Dis4 W}
    (h : (if s.pStart - s.pEnd + 1 = t.packetLength then s.distribute t atof stack else some s) =
      some s₁) :
    s₁.buffer = s.buffer ∧ s₁.pStart = s.pStart := by
  split at h
  · obtain ⟨sweight, -, rfl⟩ := Option.map_eq_some_iff.mp h
    exact ⟨rfl, rfl⟩
  · obtain rfl := Option.some.inj h
    exact ⟨rfl, rfl⟩

/-- A frame that has ended is distributed or discarded. -/
theorem Dis4.frame_inside
    (hcopy : t.packetLength = s.pStart - s.pEnd + 1 → t.CopiesInside s.buffer) :
    ∃ s₁, (if s.pStart - s.pEnd + 1 = t.packetLength then s.distribute t atof stack else some s) =
        some s₁ := by
  split
  · rename_i hmatch
    obtain ⟨sweight, hsweight⟩ := strncpy_eq_some_iff.mpr (hcopy hmatch.symm)
    rw [Dis4.distribute, hsweight]
    exact ⟨_, rfl⟩
  · exact ⟨s, rfl⟩

theorem Dis4.distribute_none
    (hcopy : ¬ t.CopiesInside s.buffer) :
    s.distribute t atof stack = none := by
  rw [Dis4.distribute, Option.map_eq_none_iff, Option.eq_none_iff_forall_ne_some]
  exact fun sweight hsweight => hcopy (strncpy_eq_some_iff.mp ⟨sweight, hsweight⟩)

/-- What the next turn of the `do … while` counts. -/
theorem frameLengths_line
    {kept : Nat}
    {body rest : List UInt8}
    (hbody : 0x0d ∉ body) :
    frameLengths kept (body ++ 0x0d :: rest) =
      (kept + body.length + 1) :: (splitLines 0x0d rest).1.map List.length := by
  rw [frameLengths, splitLines_line hbody, List.map_cons, List.modifyHead_cons,
    List.length_append, List.length_singleton, Nat.add_assoc]

theorem map_length_eq_frameLengths
    (str : List UInt8) :
    (splitLines 0x0d str).1.map List.length = frameLengths 0 str := by
  rw [frameLengths]
  cases (splitLines 0x0d str).1 with
  | nil => rfl
  | cons line lines => rw [List.map_cons, List.modifyHead_cons, Nat.zero_add]

/-- The frames of a string, and what is left behind the last CR. -/
theorem Dis4.parse_keepRest
    {fuel : Nat}
    {behind : List UInt8}
    (hcopy : t.packetLength ∈
      (s.pStart - s.pEnd + 1) :: (splitLines 0x0d behind).1.map List.length →
        t.CopiesInside s.buffer)
    (hholds : s.buffer.Holds (s.pStart + 1) (behind ++ [0]))
    (hnul : 0 ∉ behind)
    (hsize : s.pStart + 1 + behind.length < dis4Size)
    (hfuel : behind.length < fuel) :
    ∃ s₁ : Dis4 W, s.parse t atof stack fuel = s₁.keepRest ∧ s₁.buffer = s.buffer ∧
      s₁.pEnd + (splitLines 0x0d behind).2.length = s.pStart + 1 + behind.length := by
  induction fuel generalizing s behind with
  | zero => exact absurd hfuel (Nat.not_lt_zero _)
  | succ fuel ih =>
      obtain ⟨s₁, hframe⟩ :=
        @Dis4.frame_inside W t atof stack s fun hmatch => hcopy (hmatch ▸ List.mem_cons_self)
      obtain ⟨hbuffer, hstart⟩ := Dis4.frame_some hframe
      rw [← hbuffer] at hholds hcopy
      rw [Dis4.parse, hframe, Option.bind_some, hstart,
        strchr_of_holds hholds hnul (by decide) hsize, Option.bind_some]
      by_cases hcr : 0x0d ∈ behind
      · obtain ⟨body, rest, rfl, hbody⟩ := List.eq_append_cons_of_mem hcr
        rw [if_pos hcr, idxOf_line hbody, splitLines_line hbody]
        have hassoc : body ++ 0x0d :: rest ++ [0] = (body ++ [0x0d]) ++ (rest ++ [0]) := by simp
        have hrest : s₁.buffer.Holds (s.pStart + 1 + body.length + 1) (rest ++ [0]) := by
          rw [hassoc] at hholds
          have := (Bytes.holds_append.mp hholds).2
          rwa [List.length_append, List.length_singleton, ← Nat.add_assoc] at this
        rw [List.length_append, List.length_cons] at hsize hfuel ⊢
        obtain ⟨s₂, hparse, hbuffer₂, hpEnd⟩ :=
          @ih { s₁ with pEnd := s.pStart + 1, pStart := s.pStart + 1 + body.length } rest
            (by
              intro hmem
              refine hcopy (List.mem_cons_of_mem _ ?_)
              rw [map_length_eq_frameLengths, frameLengths_line hbody, Nat.zero_add]
              simpa using hmem)
            hrest
            (fun hmem => hnul (by simp [hmem])) (by simp only; omega) (by omega)
        simp only at hpEnd
        exact ⟨s₂, hparse, hbuffer₂.trans hbuffer, by simp only; omega⟩
      · rw [if_neg hcr, splitLines_of_not_mem hcr]
        exact ⟨{ s₁ with pEnd := s.pStart + 1 }, rfl, hbuffer, rfl⟩

/-- A frame of `packet_length` bytes ends, and its weight field cannot be copied. -/
theorem Dis4.parse_none
    {fuel : Nat}
    {behind : List UInt8}
    (hcopy : ¬ t.CopiesInside s.buffer)
    (hmatch : t.packetLength ∈
      (s.pStart - s.pEnd + 1) :: (splitLines 0x0d behind).1.map List.length)
    (hholds : s.buffer.Holds (s.pStart + 1) (behind ++ [0]))
    (hnul : 0 ∉ behind)
    (hsize : s.pStart + 1 + behind.length < dis4Size) :
    s.parse t atof stack fuel = none := by
  induction fuel generalizing s behind with
  | zero => rfl
  | succ fuel ih =>
      rw [Dis4.parse]
      by_cases hfirst : s.pStart - s.pEnd + 1 = t.packetLength
      · rw [if_pos hfirst, Dis4.distribute_none hcopy, Option.bind_none]
      · have hlater := (List.mem_cons.mp hmatch).resolve_left (Ne.symm hfirst)
        have hcr : 0x0d ∈ behind := by
          by_contra hcr
          rw [splitLines_of_not_mem hcr] at hlater
          exact absurd hlater List.not_mem_nil
        obtain ⟨body, rest, rfl, hbody⟩ := List.eq_append_cons_of_mem hcr
        rw [if_neg hfirst, Option.bind_some, strchr_of_holds hholds hnul (by decide) hsize,
          Option.bind_some, if_pos hcr, idxOf_line hbody]
        have hassoc : body ++ 0x0d :: rest ++ [0] = (body ++ [0x0d]) ++ (rest ++ [0]) := by simp
        have hrest : s.buffer.Holds (s.pStart + 1 + body.length + 1) (rest ++ [0]) := by
          rw [hassoc] at hholds
          have := (Bytes.holds_append.mp hholds).2
          rwa [List.length_append, List.length_singleton, ← Nat.add_assoc] at this
        rw [map_length_eq_frameLengths, frameLengths_line hbody, Nat.zero_add] at hlater
        rw [List.length_append, List.length_cons] at hsize
        exact @ih { s with pEnd := s.pStart + 1, pStart := s.pStart + 1 + body.length } rest hcopy
          (by simpa using hlater) hrest (fun hmem => hnul (by simp [hmem]))
          (by simp only; omega)

/-- The bytes are not terminated before the end of the array. -/
theorem Dis4.parse_unterminated
    {fuel : Nat}
    (h : ∀ i, s.pStart ≤ i → i < dis4Size → s.buffer i ≠ 0) :
    s.parse t atof stack fuel = none := by
  induction fuel generalizing s with
  | zero => rfl
  | succ fuel ih =>
      rw [Dis4.parse, Option.bind_eq_none_iff]
      intro s₁ hframe
      obtain ⟨hbuffer, hstart⟩ := Dis4.frame_some hframe
      have hnext : ∀ i, s.pStart + 1 ≤ i → i < dis4Size → s₁.buffer i ≠ 0 := by
        intro i hi
        rw [hbuffer]
        exact h i (by omega)
      rw [hstart]
      rcases @strchr_of_nonzero _ _ _ 0x0d hnext with hnone | ⟨q, hq, hsome⟩
      · rw [hnone, Option.bind_none]
      · rw [hsome, Option.bind_some]
        exact @ih { s₁ with pEnd := s.pStart + 1, pStart := q } fun i hi => hnext i (by
          simp only at hi
          omega)

section Search

variable {front str : List UInt8} {stop len : Nat}

/-- The string that is searched: behind `front`, up to the zero at `stop` or one before it. -/
structure Dis4.Searches (s : Dis4 W) (stop : Nat) (front str : List UInt8) : Prop where
  pStart_eq : s.pStart = front.length
  stop_lt : stop < dis4Size
  holds : (s.buffer.write stop [0]).Holds 0 (front ++ str ++ [0])
  no_nul : 0 ∉ str
  fits : (front ++ str).length < dis4Size

theorem Dis4.Searches.string
    (h : s.Searches stop front str) :
    (s.buffer.write stop [0]).Holds s.pStart (str ++ [0]) := by
  have hholds := h.holds
  rw [List.append_assoc, Bytes.holds_append, Nat.zero_add, ← h.pStart_eq] at hholds
  exact hholds.2

/-- Behind the first line of the string. -/
theorem Dis4.Searches.behind_line
    {body rest : List UInt8}
    (h : s.Searches stop front (body ++ 0x0d :: rest)) :
    (s.buffer.write stop [0]).Holds (s.pStart + body.length + 1) (rest ++ [0]) ∧ 0 ∉ rest := by
  have hassoc : body ++ 0x0d :: rest ++ [0] = (body ++ [0x0d]) ++ (rest ++ [0]) := by simp
  have hstring := h.string
  rw [hassoc] at hstring
  have hrest := (Bytes.holds_append.mp hstring).2
  rw [List.length_append, List.length_singleton, ← Nat.add_assoc] at hrest
  exact ⟨hrest, fun hmem => h.no_nul (by simp [hmem])⟩

theorem Dis4.Searches.search_eq
    (h : s.Searches stop front str) :
    s.search t atof stack stop len =
      if 0x0d ∈ str then
        (Dis4.parse t atof stack (dis4Size + 1)
          { s with buffer := s.buffer.write stop [0], pStart := s.pStart + str.idxOf 0x0d }).map
            fun s => { s with len := len }
      else some { s with buffer := s.buffer.write stop [0], pStart := stop, len := len } := by
  have hfits := h.fits
  have hstart := h.pStart_eq
  rw [List.length_append] at hfits
  rw [Dis4.search, store_eq (Nat.succ_le_of_lt h.stop_lt), Option.bind_some,
    strchr_of_holds h.string h.no_nul (by decide) (by omega), Option.bind_some]
  by_cases hcr : 0x0d ∈ str
  · rw [if_pos hcr, if_pos hcr]
  · rw [if_neg hcr, if_neg hcr]

/-- The frames that end in the string are gone, and the loop is behind its last CR. -/
theorem Dis4.Searches.keepRest
    (h : s.Searches stop front str)
    (hend : s.pEnd = 0)
    (hcopy : t.packetLength ∈ frameLengths s.pStart str →
      t.CopiesInside (s.buffer.write stop [0]))
    (hcr : 0x0d ∈ str) :
    ∃ (s₁ : Dis4 W) (before : List UInt8),
      s.search t atof stack stop len = s₁.keepRest.map (fun s' => { s' with len := len }) ∧
      s₁.buffer.Holds 0 (before ++ (splitLines 0x0d str).2 ++ [0]) ∧
      s₁.pEnd = before.length ∧
      before ++ (splitLines 0x0d str).2 = front ++ str ∧ (0 ∈ before ↔ 0 ∈ front) := by
  have hholds := h.holds
  have hstart := h.pStart_eq
  have hnul := h.no_nul
  have hfits := h.fits
  rw [h.search_eq, if_pos hcr]
  obtain ⟨body, rest, rfl, hbody⟩ := List.eq_append_cons_of_mem hcr
  obtain ⟨hrest, hnul_rest⟩ := h.behind_line
  rw [List.length_append, List.length_append, List.length_cons] at hfits
  rw [frameLengths_line hbody] at hcopy
  rw [idxOf_line hbody, splitLines_line hbody]
  obtain ⟨s₁, hparse, hbuffer, hpEnd⟩ :=
    @Dis4.parse_keepRest W t atof stack
      { s with buffer := s.buffer.write stop [0], pStart := s.pStart + body.length }
      (dis4Size + 1) rest (by simpa [hend] using hcopy) hrest hnul_rest (by simp only; omega)
      (by omega)
  have hflat : (splitLines 0x0d rest).1.flatten ++ (splitLines 0x0d rest).2 = rest :=
    flatten_splitLines rest
  have hlen := congrArg List.length hflat
  rw [List.length_append] at hlen
  simp only at hbuffer hpEnd
  have hbefore : front ++ body ++ 0x0d :: (splitLines 0x0d rest).1.flatten ++
      (splitLines 0x0d rest).2 = front ++ (body ++ 0x0d :: rest) := by
    conv_rhs => rw [← hflat]
    simp
  refine ⟨s₁, front ++ body ++ 0x0d :: (splitLines 0x0d rest).1.flatten, ?_, ?_, ?_, hbefore, ?_⟩
  · rw [hparse]
  · rwa [hbefore, hbuffer]
  · rw [List.length_append, List.length_append, List.length_cons]
    omega
  · -- there is no NUL in the lines of the string
    rw [← hflat] at hnul_rest
    simp only [List.mem_append, List.mem_cons, not_or] at hnul hnul_rest ⊢
    simp [hnul.1, hnul_rest.1]

/-- What is left of the string is moved to the beginning. -/
theorem Dis4.Searches.moveRest
    (h : s.Searches stop front str)
    (hend : s.pEnd = 0)
    (hcopy : t.packetLength ∈ frameLengths s.pStart str →
      t.CopiesInside (s.buffer.write stop [0]))
    (hcr : 0x0d ∈ str) :
    ∃ (s₁ : Dis4 W) (before : List UInt8),
      s.search t atof stack stop len =
        (s₁.moveRest before.length).map (fun s' => { s' with len := len }) ∧
      s₁.buffer.Holds 0 (before ++ dropLineFeed (splitLines 0x0d str).2 ++ [0]) ∧
      (before ++ dropLineFeed (splitLines 0x0d str).2).length < dis4Size ∧
      0 ∉ dropLineFeed (splitLines 0x0d str).2 ∧ (0 ∈ before ↔ 0 ∈ front) := by
  obtain ⟨s₁, before, hsearch, hholds, hpEnd, hbefore, hmem⟩ :=
    @Dis4.Searches.keepRest W t atof stack s front str stop len h hend hcopy hcr
  have hfits := h.fits
  rw [← hbefore] at hfits
  obtain ⟨front₁, hfront₁, hmem₁, hkeep⟩ := Dis4.keepRest_eq_moveRest hholds hpEnd hfits
  have hflat : (splitLines 0x0d str).1.flatten ++ (splitLines 0x0d str).2 = str :=
    flatten_splitLines str
  have hnul : 0 ∉ (splitLines 0x0d str).2 := by
    have hstr := h.no_nul
    rw [← hflat] at hstr
    exact fun htail => hstr (List.mem_append_right _ htail)
  refine ⟨s₁, front₁, ?_, ?_, ?_, not_mem_dropLineFeed hnul, hmem₁.trans hmem⟩
  · rw [hsearch, hkeep]
  · rwa [hfront₁]
  · rwa [hfront₁]

theorem Dis4.Searches.search_inside
    (h : s.Searches stop front str)
    (hend : s.pEnd = 0)
    (hcopy : t.packetLength ∈ frameLengths s.pStart str →
      t.CopiesInside (s.buffer.write stop [0]))
    (hsafe : LeavesBytes str → 0 ∉ front) :
    ∃ s', s.search t atof stack stop len = some s' ∧ s'.Inside ∧ s'.len = len := by
  by_cases hcr : 0x0d ∈ str
  · obtain ⟨s₁, before, hsearch, hholds, hfits, hnul, hmem⟩ :=
      @Dis4.Searches.moveRest W t atof stack s front str stop len h hend hcopy hcr
    have hsafe₁ : dropLineFeed (splitLines 0x0d str).2 ≠ [] → 0 ∉ before := by
      intro hleft hzero
      exact hsafe ⟨hcr, hleft⟩ (hmem.mp hzero)
    obtain ⟨s', hmove, hinside⟩ :=
      Dis4.moveRest_inside hholds hfits (not_mem_dropLineFeed (not_mem_tail str)) hnul hsafe₁
    rw [hsearch, hmove]
    exact ⟨_, rfl, ⟨hinside.pEnd_eq, hinside.pStart_lt⟩, rfl⟩
  · rw [h.search_eq, if_neg hcr]
    exact ⟨_, rfl, ⟨hend, h.stop_lt⟩, rfl⟩

theorem Dis4.Searches.copy_none
    (h : s.Searches stop front str)
    (hend : s.pEnd = 0)
    (hmatch : t.packetLength ∈ frameLengths s.pStart str)
    (hcopy : ¬ t.CopiesInside (s.buffer.write stop [0])) :
    s.search t atof stack stop len = none := by
  have hfits := h.fits
  have hcr : 0x0d ∈ str := by
    by_contra hcr
    rw [frameLengths, splitLines_of_not_mem hcr] at hmatch
    exact absurd hmatch List.not_mem_nil
  rw [h.search_eq, if_pos hcr, Option.map_eq_none_iff]
  obtain ⟨body, rest, rfl, hbody⟩ := List.eq_append_cons_of_mem hcr
  obtain ⟨hrest, hnul_rest⟩ := h.behind_line
  rw [List.length_append, List.length_append, List.length_cons, ← h.pStart_eq] at hfits
  rw [frameLengths_line hbody] at hmatch
  rw [idxOf_line hbody]
  exact @Dis4.parse_none W t atof stack
    { s with buffer := s.buffer.write stop [0], pStart := s.pStart + body.length }
    (dis4Size + 1) rest hcopy (by simpa [hend] using hmatch) hrest hnul_rest
    (by simp only; omega)

/-- Either a copy leaves the buffer, or the number of bytes left wraps around. -/
theorem Dis4.Searches.search_none
    (h : s.Searches stop front str)
    (hend : s.pEnd = 0)
    (hrisky : (LeavesBytes str ∧ 0 ∈ front) ∨
      t.packetLength ∈ frameLengths s.pStart str ∧ ¬ t.CopiesInside (s.buffer.write stop [0])) :
    s.search t atof stack stop len = none := by
  by_cases hcopy : t.packetLength ∈ frameLengths s.pStart str →
      t.CopiesInside (s.buffer.write stop [0])
  · rcases hrisky with ⟨⟨hcr, hleft⟩, hzero⟩ | ⟨hmatch, hnot⟩
    · obtain ⟨s₁, before, hsearch, hholds, hfits, hnul, hmem⟩ :=
        @Dis4.Searches.moveRest W t atof stack s front str stop len h hend hcopy hcr
      rw [hsearch, Dis4.moveRest_none hholds hfits hnul hleft (hmem.mpr hzero), Option.map_none]
    · exact absurd (hcopy hmatch) hnot
  · rw [Classical.not_imp] at hcopy
    exact h.copy_none hend hcopy.1 hcopy.2

end Search

/-- Bytes that were read, up to their first NUL or the one behind them. -/
theorem Dis4.searches_bytes
    (s : Dis4 W)
    {data : List UInt8}
    (hroom : s.pStart + data.length < dis4Size) :
    ({ s with buffer := s.buffer.write s.pStart data } : Dis4 W).Searches
      (s.pStart + data.length) (s.buffer.read 0 s.pStart) (stringAt data) := by
  have hlen : (s.buffer.read 0 s.pStart).length = s.pStart := Bytes.length_read _ _ _
  have hall : ((s.buffer.write s.pStart data).write (s.pStart + data.length) [0]).Holds 0
      (s.buffer.read 0 s.pStart ++ (data ++ [0])) := by
    refine Bytes.holds_append.mpr ⟨?_, Bytes.holds_append.mpr ⟨?_, ?_⟩⟩
    · have hread := Bytes.holds_read s.buffer 0 s.pStart
      exact (hread.write (Or.inr (by omega))).write (Or.inr (by omega))
    · rw [hlen, Nat.zero_add]
      exact Bytes.holds_write.write (Or.inr (le_refl _))
    · rw [hlen, Nat.zero_add]
      exact Bytes.holds_write
  obtain ⟨rest, hrest⟩ := exists_behind_stringAt (show 0 ∈ data ++ [0] by simp)
  rw [stringAt_append_zero] at hrest
  refine ⟨hlen.symm, hroom, ?_, zero_not_mem_stringAt _, ?_⟩
  · have hassoc : s.buffer.read 0 s.pStart ++ (stringAt data ++ 0 :: rest) =
        (s.buffer.read 0 s.pStart ++ stringAt data ++ [0]) ++ rest := by simp
    rw [hrest, hassoc] at hall
    exact (Bytes.holds_append.mp hall).1
  · have hcount := congrArg List.length hrest
    simp only [List.length_append, List.length_cons, List.length_nil] at hcount ⊢
    omega

/-- After a failed read the byte before `pStart` is NUL, and the search begins behind it. -/
theorem Dis4.Inside.searches_failed
    (h : s.Inside)
    (hstart : 0 < s.pStart)
    (hterminated : 0 ∈ s.behind) :
    s.Searches (s.pStart - 1) (s.buffer.read 0 (s.pStart - 1) ++ [0]) (stringAt s.behind) := by
  have hlt := h.pStart_lt
  obtain ⟨rest, hrest⟩ := exists_behind_stringAt hterminated
  have hlen : s.behind.length = dis4Size - s.pStart := Bytes.length_read _ _ _
  have hfront := Bytes.holds_read s.buffer 0 (s.pStart - 1)
  have hlen_front : (s.buffer.read 0 (s.pStart - 1) ++ [0]).length = s.pStart := by
    rw [List.length_append, Bytes.length_read, List.length_singleton]
    omega
  have hall : (s.buffer.write (s.pStart - 1) [0]).Holds 0
      (s.buffer.read 0 (s.pStart - 1) ++ [0] ++ s.behind) := by
    refine Bytes.holds_append.mpr ⟨Bytes.holds_append.mpr ⟨?_, ?_⟩, ?_⟩
    · exact hfront.write (Or.inr (by rw [Bytes.length_read]; omega))
    · rw [Bytes.length_read, Nat.zero_add]
      exact Bytes.holds_write
    · rw [hlen_front, Nat.zero_add]
      exact (Bytes.holds_read _ _ _).write (Or.inl (by rw [List.length_singleton]; omega))
  refine ⟨hlen_front.symm, by omega, ?_, zero_not_mem_stringAt _, ?_⟩
  · have hassoc : s.buffer.read 0 (s.pStart - 1) ++ [0] ++ (stringAt s.behind ++ 0 :: rest) =
        (s.buffer.read 0 (s.pStart - 1) ++ [0] ++ stringAt s.behind ++ [0]) ++ rest := by simp
    rw [hrest, hassoc] at hall
    exact (Bytes.holds_append.mp hall).1
  · have hcount := congrArg List.length hrest
    rw [hlen, List.length_append, List.length_cons] at hcount
    rw [List.length_append, hlen_front]
    omega

/-- Nothing behind `pStart` ends the string that is searched after a failed read. -/
theorem Dis4.failed_unterminated
    (h : s.Inside)
    (hstart : 0 < s.pStart)
    (hunterminated : 0 ∉ s.behind)
    (len : Nat) :
    s.search t atof stack (s.pStart - 1) len = none := by
  have hlt := h.pStart_lt
  have hnonzero : ∀ i, s.pStart ≤ i → i < dis4Size →
      (s.buffer.write (s.pStart - 1) [0]) i ≠ 0 := by
    intro i hi hsize hzero
    rw [Bytes.write_outside (Or.inr (by rw [List.length_singleton]; omega))] at hzero
    refine hunterminated (List.mem_map.mpr ⟨i - s.pStart, List.mem_range.mpr (by omega), ?_⟩)
    rw [← hzero]
    congr 1
    omega
  rw [Dis4.search, store_eq (by rw [List.length_singleton]; omega), Option.bind_some]
  rcases @strchr_of_nonzero _ _ _ 0x0d hnonzero with hnone | ⟨q, hq, hsome⟩
  · rw [hnone, Option.bind_none]
  · have hparse := @Dis4.parse_unterminated W t atof stack
      { s with buffer := s.buffer.write (s.pStart - 1) [0], pStart := q } (dis4Size + 1)
      fun i hi => hnonzero i (le_trans hq hi)
    rw [hsome, Option.bind_some]
    simp only [hparse, Option.map_none]

/-- The model takes a read only if it fits. -/
theorem Dis4.fits_of_read
    {result : ReadResult}
    {s' : Dis4 W}
    (h : s.read t atof stack result = some s') :
    s.Fits result := by
  cases result with
  | failed => trivial
  | bytes data =>
      cases data with
      | nil => exact Nat.zero_le _
      | cons b data =>
          by_contra hcontra
          rw [Dis4.Fits] at hcontra
          rw [Dis4.read, if_neg hcontra] at h
          · exact absurd h (by simp)
          · exact List.cons_ne_nil b data

/-- **One iteration.**  It stays in the buffer exactly if the string that it searches is
terminated there, no NUL stands before the bytes that the string leaves, and the weight field
can be copied if a frame of `packet_length` bytes ends. -/
theorem Dis4.read_some
    {result : ReadResult}
    (h : s.Inside)
    (hfits : s.Fits result)
    (hsafe : s.ReadSafe t result) :
    ∃ s', s.read t atof stack result = some s' ∧ s'.Inside ∧
      (s'.len : ℤ) = s.len - taken result := by
  cases result with
  | failed =>
      obtain ⟨hstart, hterminated, hleaves, hcopy⟩ := hsafe
      obtain ⟨s', hsearch, hinside, hlen⟩ :=
        @Dis4.Searches.search_inside W t atof stack s _ _ (s.pStart - 1) (s.len + 1)
          (h.searches_failed hstart hterminated) h.pEnd_eq hcopy
          fun hcontra => absurd hcontra hleaves
      rw [Dis4.read, if_pos hstart]
      refine ⟨s', hsearch, hinside, ?_⟩
      rw [hlen, taken]
      push_cast
      ring
  | bytes data =>
      cases data with
      | nil => exact ⟨s, rfl, h, by simp [taken]⟩
      | cons b data =>
          have hlt := h.pStart_lt
          rw [Dis4.Fits] at hfits
          have hroom : s.pStart + (b :: data).length < dis4Size := by omega
          obtain ⟨s', hsearch, hinside, hlen⟩ :=
            @Dis4.Searches.search_inside W t atof stack _ _ _ _ (s.len - (b :: data).length)
              (s.searches_bytes hroom) h.pEnd_eq hsafe.2 hsafe.1
          rw [Dis4.read, if_pos hfits, store_eq (le_of_lt hroom), Option.bind_some]
          · refine ⟨s', hsearch, hinside, ?_⟩
            rw [hlen, taken]
            omega
          · exact List.cons_ne_nil b data

theorem Dis4.read_none
    {result : ReadResult}
    (h : s.Inside)
    (hfits : s.Fits result)
    (hnotsafe : ¬ s.ReadSafe t result) :
    s.read t atof stack result = none := by
  cases result with
  | failed =>
      rw [Dis4.read]
      split
      · rename_i hstart
        by_cases hterminated : 0 ∈ s.behind
        · refine (h.searches_failed hstart hterminated).search_none h.pEnd_eq ?_
          by_cases hleaves : LeavesBytes (stringAt s.behind)
          · exact Or.inl ⟨hleaves, by simp⟩
          · right
            rw [← Classical.not_imp]
            exact fun hcopy => hnotsafe ⟨hstart, hterminated, hleaves, hcopy⟩
        · exact Dis4.failed_unterminated h hstart hterminated _
      · rfl
  | bytes data =>
      have hrisky : (LeavesBytes (stringAt data) ∧ 0 ∈ s.buffer.read 0 s.pStart) ∨
          t.packetLength ∈ frameLengths s.pStart (stringAt data) ∧
            ¬ t.CopiesInside ((s.buffer.write s.pStart data).write (s.pStart + data.length) [0]) := by
        rcases not_and_or.mp hnotsafe with hnul | hcopy
        · rw [Classical.not_imp, not_not] at hnul
          exact Or.inl hnul
        · exact Or.inr (Classical.not_imp.mp hcopy)
      cases data with
      | nil =>
          rcases hrisky with ⟨⟨hmem, -⟩, -⟩ | ⟨hmem, -⟩
          · exact absurd hmem List.not_mem_nil
          · exact absurd hmem List.not_mem_nil
      | cons b data =>
          have hlt := h.pStart_lt
          rw [Dis4.Fits] at hfits
          have hroom : s.pStart + (b :: data).length < dis4Size := by omega
          rw [Dis4.read, if_pos hfits, store_eq (le_of_lt hroom), Option.bind_some]
          · exact (s.searches_bytes hroom).search_none h.pEnd_eq hrisky
          · exact List.cons_ne_nil b data

/-! ### The loop -/

variable (t atof stack) in
/-- The state after the first `n` iterations of `while(len>0)`. -/
def Dis4.afterReads (s : Dis4 W) (results : Nat → ReadResult) (n : Nat) : Option (Dis4 W) :=
  runAlong (dis4Step t atof stack) s (fun i => .read (results i)) n

variable (t atof stack) in
/-- No read delivers more than it was asked for. -/
def Dis4.ReadsFit (s : Dis4 W) (results : Nat → ReadResult) : Prop :=
  ∀ n u, s.afterReads t atof stack results n = some u → 0 < u.len → u.Fits (results n)

variable (t atof stack) in
/-- The loop ends after finitely many iterations, and no iteration leaves the buffer. -/
def Dis4.EndsInside (s : Dis4 W) (results : Nat → ReadResult) : Prop :=
  ∃ n s', s.afterReads t atof stack results n = some s' ∧ s'.len = 0 ∧
    ∀ i u, i ≤ n → s.afterReads t atof stack results i = some u →
      u.pStart < dis4Size ∧ u.pEnd < dis4Size

/-- By how much the first `n` reads lower `len`. -/
def takenBy (results : Nat → ReadResult) (n : Nat) : ℤ :=
  ((List.range n).map fun i => taken (results i)).sum

theorem takenBy_succ
    (results : Nat → ReadResult)
    (n : Nat) :
    takenBy results (n + 1) = takenBy results n + taken (results n) := by
  simp [takenBy, List.range_succ]

section Loop

variable {results : Nat → ReadResult} {n : Nat}

theorem Dis4.afterReads_succ :
    s.afterReads t atof stack results (n + 1) =
      (s.afterReads t atof stack results n).bind fun u =>
        dis4Step t atof stack u (.read (results n)) :=
  runAlong_succ

/-- An iteration that is made lowers `len` by what was read. -/
theorem Dis4.iteration
    {u u' : Dis4 W}
    {result : ReadResult}
    (h : u.Inside)
    (hstep : dis4Step t atof stack u (.read result) = some u') :
    0 < u.len ∧ u.ReadSafe t result ∧ u'.Inside ∧ (u'.len : ℤ) = u.len - taken result := by
  rw [dis4Step, Option.ite_none_right_eq_some] at hstep
  obtain ⟨hpos, hread⟩ := hstep
  have hfits := Dis4.fits_of_read hread
  by_cases hsafe : u.ReadSafe t result
  · obtain ⟨u₁, hread₁, hinside, hlen⟩ :=
      @Dis4.read_some W t atof stack u result h hfits hsafe
    rw [hread, Option.some.injEq] at hread₁
    subst hread₁
    exact ⟨hpos, hsafe, hinside, hlen⟩
  · rw [Dis4.read_none h hfits hsafe] at hread
    exact absurd hread (by simp)

/-- A step that is taken keeps the two pointers in the buffer. -/
theorem Dis4.Inside.step
    {a : Dis4Act}
    {s' : Dis4 W}
    (h : s.Inside)
    (hstep : dis4Step t atof stack s a = some s') :
    s'.Inside := by
  cases a with
  | fionread n =>
      rw [dis4Step, Option.ite_none_right_eq_some] at hstep
      obtain rfl := Option.some.inj hstep.2
      exact ⟨h.pEnd_eq, h.pStart_lt⟩
  | read result => exact (Dis4.iteration h hstep).2.2.1

theorem Dis4.afterReads_inside
    {u : Dis4 W}
    (h : s.Inside)
    (hrun : s.afterReads t atof stack results n = some u) :
    u.Inside ∧ (u.len : ℤ) = s.len - takenBy results n := by
  induction n generalizing u with
  | zero =>
      obtain rfl := Option.some.inj hrun
      exact ⟨h, by simp [takenBy]⟩
  | succ n ih =>
      rw [Dis4.afterReads_succ] at hrun
      obtain ⟨v, hv, hstep⟩ := Option.bind_eq_some_iff.mp hrun
      obtain ⟨hinside, hlen⟩ := ih hv
      obtain ⟨-, -, hinside', hlen'⟩ := Dis4.iteration hinside hstep
      rw [takenBy_succ]
      exact ⟨hinside', by omega⟩

/-- As long as bytes are expected, safe reads are followed by the next iteration. -/
theorem Dis4.afterReads_some
    (h : s.Inside)
    (hfits : s.ReadsFit t atof stack results)
    (hsafe : ∀ i u, i < n → s.afterReads t atof stack results i = some u →
      u.ReadSafe t (results i))
    (hexpects : ∀ i u, i < n → s.afterReads t atof stack results i = some u → 0 < u.len) :
    ∃ u, s.afterReads t atof stack results n = some u := by
  induction n with
  | zero => exact ⟨s, runAlong_zero⟩
  | succ n ih =>
      obtain ⟨u, hu⟩ :=
        ih (fun i u hi => hsafe i u (by omega)) (fun i u hi => hexpects i u (by omega))
      have hpos := hexpects n u (Nat.lt_succ_self n) hu
      have hinside := (Dis4.afterReads_inside h hu).1
      obtain ⟨u', hread, -, -⟩ :=
        @Dis4.read_some W t atof stack u (results n) hinside (hfits n u hu hpos)
          (hsafe n u (Nat.lt_succ_self n) hu)
      refine ⟨u', ?_⟩
      rw [Dis4.afterReads_succ, hu, Option.bind_some, dis4Step, if_pos hpos, hread]

/-- Whatever was read before, the loop begins with the two pointers in the buffer. -/
theorem Dis4.inside_of_reached
    {buffer : Bytes}
    (hs : ReachedUnder (dis4Step t atof stack) (fun _ _ => True) (.initial buffer) s) :
    s.Inside := by
  refine hs.invariant ⟨rfl, Nat.zero_lt_succ _⟩ ?_
  intro s a s' hinside _ hstep
  exact hinside.step hstep

/-- **The loop `while(len>0)`.**  It ends inside the buffer exactly if the reads deliver the
bytes that FIONREAD has announced, one more for each failed read, and each of them is safe. -/
theorem dis4_loop_ends_iff
    {buffer : Bytes}
    (hs : ReachedUnder (dis4Step t atof stack) (fun _ _ => True) (.initial buffer) s)
    (hfits : s.ReadsFit t atof stack results) :
    s.EndsInside t atof stack results ↔
      ∃ n, takenBy results n = s.len ∧
        ∀ i u, i < n → s.afterReads t atof stack results i = some u → u.ReadSafe t (results i) := by
  have hinside := Dis4.inside_of_reached hs
  constructor
  · rintro ⟨n, s', hrun, hlen, -⟩
    have htaken := (Dis4.afterReads_inside hinside hrun).2
    refine ⟨n, by omega, ?_⟩
    intro i u hi hu
    obtain ⟨u', hu'⟩ := runAlong_of_le hrun (Nat.succ_le_of_lt hi)
    have hstep : dis4Step t atof stack u (.read (results i)) = some u' := by
      rw [runAlong_succ] at hu'
      rw [Dis4.afterReads] at hu
      rwa [hu, Option.bind_some] at hu'
    exact (Dis4.iteration (Dis4.afterReads_inside hinside hu).1 hstep).2.1
  · rintro ⟨n, htaken, hsafe⟩
    -- the first iteration that finds nothing expected any more
    have hends : ∃ m u, s.afterReads t atof stack results m = some u ∧ u.len = 0 := by
      by_contra hcontra
      have hexpects (i : Nat) (u : Dis4 W) (hu : s.afterReads t atof stack results i = some u) :
          0 < u.len := by
        by_contra hzero
        exact hcontra ⟨i, u, hu, Nat.eq_zero_of_not_pos hzero⟩
      obtain ⟨u, hu⟩ :=
        Dis4.afterReads_some hinside hfits hsafe (fun i u _ hu => hexpects i u hu)
      have hlen := (Dis4.afterReads_inside hinside hu).2
      have hpos := hexpects n u hu
      omega
    obtain ⟨m, u, hu, hzero⟩ := hends
    refine ⟨m, u, hu, hzero, fun i v _ hv => ?_⟩
    have hv' := (Dis4.afterReads_inside hinside hv).1
    exact ⟨hv'.pStart_lt, hv'.pEnd_eq ▸ Nat.zero_lt_succ _⟩

end Loop

end Model

/-- FIONREAD has announced so many bytes, and nothing has been read yet. -/
def announced (n : Nat) : Dis4 ℚ := ⟨fun _ => 0, 0, 0, n, []⟩

/-- A stack that holds zeros. -/
def zeroStack : Nat → StackValue := fun _ => ⟨0, 0⟩

theorem announced_reached
    (n : Nat) :
    ReachedUnder (dis4Step threeDigits Library.atof zeroStack) (fun _ _ => True)
      (.initial fun _ => 0) (announced n) := by
  have hstep : dis4Step threeDigits Library.atof zeroStack (.initial fun _ => 0) (.fionread n) =
      some (announced n) := rfl
  exact .next .start trivial hstep

/-- What the first iterations leave, read off a run. -/
theorem len_pStart_of_afterReads
    {s u : Dis4 ℚ}
    {results : Nat → ReadResult}
    {n len pStart : Nat}
    (hrun : (s.afterReads threeDigits Library.atof zeroStack results n).map
      (fun u => (u.len, u.pStart)) = some (len, pStart))
    (hu : s.afterReads threeDigits Library.atof zeroStack results n = some u) :
    u.len = len ∧ u.pStart = pStart := by
  rw [hu, Option.map_some, Option.some.injEq, Prod.mk.injEq] at hrun
  exact hrun

/-- A frame in two pieces, between them a read of 0 bytes. -/
def frameInPieces : Nat → ReadResult
  | 0 => .bytes [0x30, 0x30, 0x31]
  | 2 => .bytes [0x0d]
  | _ => .bytes []

theorem dis4_loop_ends_in_pieces :
    (announced 4).EndsInside threeDigits Library.atof zeroStack frameInPieces := by
  have hfits : (announced 4).ReadsFit threeDigits Library.atof zeroStack frameInPieces := by
    intro n u hu _
    match n with
    | 0 =>
        obtain ⟨hlen, hstart⟩ :=
          @len_pStart_of_afterReads _ u frameInPieces 0 4 0 (by decide +kernel) hu
        rw [frameInPieces, Dis4.Fits, hlen, hstart]
        decide
    | 2 =>
        obtain ⟨hlen, hstart⟩ :=
          @len_pStart_of_afterReads _ u frameInPieces 2 1 3 (by decide +kernel) hu
        rw [frameInPieces, Dis4.Fits, hlen, hstart]
        decide
    | 1 | _ + 3 => exact Nat.zero_le _
  refine (dis4_loop_ends_iff (announced_reached 4) hfits).mpr ⟨3, by decide, ?_⟩
  intro i u hi _
  match i with
  | 0 | 1 | 2 =>
      exact ⟨fun hleaves => absurd hleaves (by decide), fun _ => Or.inr (Or.inl (by decide))⟩

/-- 63 bytes without CR fill the buffer: the next read asks for 0 bytes, and gets them. -/
def fullBuffer : Nat → ReadResult
  | 0 => .bytes (List.replicate 63 0x41)
  | _ + 1 => .bytes []

theorem full_buffer_never_ends :
    (announced 64).ReadsFit threeDigits Library.atof zeroStack fullBuffer ∧
      ¬ (announced 64).EndsInside threeDigits Library.atof zeroStack fullBuffer := by
  have hfirst : ((announced 64).afterReads threeDigits Library.atof zeroStack fullBuffer 1).map
      (fun u => (u.len, u.pStart)) = some (1, 63) := by decide +kernel
  obtain ⟨u, hu, hlen⟩ := Option.map_eq_some_iff.mp hfirst
  rw [Prod.mk.injEq] at hlen
  -- a read of 0 bytes changes nothing
  have hlater (n : Nat) :
      (announced 64).afterReads threeDigits Library.atof zeroStack fullBuffer (n + 1) = some u := by
    induction n with
    | zero => exact hu
    | succ n ih =>
        rw [Dis4.afterReads_succ, ih, Option.bind_some, dis4Step, if_pos (by omega)]
        rfl
  constructor
  · rintro (_ | n) v hv _
    · obtain rfl := Option.some.inj hv
      rw [fullBuffer, Dis4.Fits]
      decide
    · exact Nat.zero_le _
  · rintro ⟨_ | n, v, hv, hzero, -⟩
    · obtain rfl := Option.some.inj hv
      exact absurd hzero (by decide)
    · rw [hlater, Option.some.injEq] at hv
      rw [← hv, hlen.1] at hzero
      exact absurd hzero (by decide)

end Scaled
end MatrixBin
