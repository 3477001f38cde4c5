import MatrixBin.Library.TransitionRuns
import MatrixBin.Scaled.Locbuf

/-!
# The loop of the DIS4 terminals (`dis4_loop.c`)

The thread collects its frames in `buffer`: `pEnd` is the beginning of the frame, and
`pStart` the place for the next byte, later that of a CR.  After each read every frame
that has ended is distributed; what is left is moved to the beginning.  An operation is
`none` when it leaves the buffer.

The fields `channel` and `tare` of a packet are never assigned; their values are those
that the stack happens to hold, one pair for each packet.  The type of the weights is
that of the results of `atof`, which is left open.

`Dis4.read_eq` says what one read distributes and leaves.
-/

namespace MatrixBin
namespace Scaled

open Library

universe u

/-- `sizeof(buffer)` -/
def dis4Size : Nat := 64

/-- The configured frame of the terminal, and the scale's id. -/
structure Dis4Frame where
  packetLength : Nat
  weightPos : Nat
  weightLen : Nat
  id : UInt8

/-- What the stack holds where `w_s` is created. -/
structure StackValue where
  channel : UInt8
  tare : ℤ

/-- `struct weight_struct`, without the time. -/
structure Dis4Packet (W : Type u) where
  weight : W
  status : UInt32
  channel : UInt8
  tare : ℤ

structure Dis4 (W : Type u) where
  buffer : Bytes
  pStart : Nat
  pEnd : Nat
  len : Nat
  packets : List (Dis4Packet W)

section Model

variable {W : Type u} (t : Dis4Frame) (atof : List UInt8 → W) (stack : Nat → StackValue)

def Dis4.initial (buffer : Bytes) : Dis4 W := ⟨buffer, 0, 0, 0, []⟩

/-- The packet of one frame.  Its weight is read at a fixed place of the buffer. -/
def Dis4.distribute (s : Dis4 W) : Option (Dis4 W) :=
  (strncpy dis4Size s.buffer t.weightPos t.weightLen).map fun sweight =>
    let junk := stack s.packets.length
    { s with packets := s.packets ++ [⟨atof sweight, 0, junk.channel, junk.tare⟩] }

/-- The bytes from `pEnd` on are moved to the beginning. -/
def Dis4.moveRest (s : Dis4 W) (pEnd : Nat) : Option (Dis4 W) :=
  if pEnd < dis4Size then
    if s.buffer pEnd = 0 then some { s with pEnd := 0, pStart := 0 }
    else
      (strlen dis4Size s.buffer 0).bind fun n =>
        -- the string ends before `pEnd`: the unsigned difference wraps around
        if n < pEnd then none
        else
          (load dis4Size s.buffer pEnd (n - pEnd)).bind fun rest =>
            (store dis4Size s.buffer 0 rest).map fun buffer =>
              { s with buffer := buffer, pEnd := 0, pStart := n - pEnd }
  else none

/-- No further CR: what is left is kept, without a LF that it begins with. -/
def Dis4.keepRest (s : Dis4 W) : Option (Dis4 W) :=
  if s.pEnd < dis4Size then
    s.moveRest (if s.buffer s.pEnd = 0x0a then s.pEnd + 1 else s.pEnd)
  else none

/-- The `do … while`: the frame up to `pStart`, and those after it. -/
def Dis4.parse : Nat → Dis4 W → Option (Dis4 W)
  | 0, _ => none
  | fuel + 1, s =>
      (if s.pStart - s.pEnd + 1 = t.packetLength then s.distribute t atof stack else some s).bind
        fun s =>
          (strchr dis4Size s.buffer (s.pStart + 1) 0x0d).bind fun found =>
            match found with
            | some p => Dis4.parse fuel { s with pEnd := s.pStart + 1, pStart := p }
            | none => ({ s with pEnd := s.pStart + 1 } : Dis4 W).keepRest

/-- The bytes end at `stop` after a read: they are terminated there and searched. -/
def Dis4.search (s : Dis4 W) (stop len : Nat) : Option (Dis4 W) :=
  (store dis4Size s.buffer stop [0]).bind fun buffer =>
    (strchr dis4Size buffer s.pStart 0x0d).bind fun found =>
      match found with
      | none => some { s with buffer := buffer, pStart := stop, len := len }
      | some p =>
          (Dis4.parse t atof stack (dis4Size + 1) { s with buffer := buffer, pStart := p }).map
            fun s => { s with len := len }

/-- One turn of `while(len>0)`.  A failed read counts as -1 bytes. -/
def Dis4.read (s : Dis4 W) (result : ReadResult) : Option (Dis4 W) :=
  match result with
  | .failed =>
      if 0 < s.pStart then s.search t atof stack (s.pStart - 1) (s.len + 1) else none
  | .bytes [] => some s
  | .bytes data =>
      if data.length ≤ min s.len (dis4Size - (s.pStart + 1)) then
        (store dis4Size s.buffer s.pStart data).bind fun buffer =>
          ({ s with buffer := buffer } : Dis4 W).search t atof stack (s.pStart + data.length)
            (s.len - data.length)
      else none

inductive Dis4Act
  | fionread (n : Nat)
  | read (result : ReadResult)
deriving DecidableEq

def dis4Step (s : Dis4 W) : Dis4Act → Option (Dis4 W)
  | .fionread n => if s.len = 0 then some { s with len := n } else none
  | .read result => if 0 < s.len then s.read t atof stack result else none

/-! ### One read -/

/-- A LF at the beginning is dropped. -/
def dropLineFeed : List UInt8 → List UInt8
  | [] => []
  | b :: rest => if b = 0x0a then rest else b :: rest

/-- Between two reads the buffer begins with the bytes of an unfinished frame. -/
structure Dis4.Has (s : Dis4 W) (data : List UInt8) : Prop where
  pEnd_eq : s.pEnd = 0
  pStart_eq : s.pStart = data.length
  fits : data.length < dis4Size
  holds : s.buffer.Holds 0 data
  no_cr : 0x0d ∉ data
  no_nul : 0 ∉ data

/-- The packets with these weights. -/
def packetsOf (weights : List W) : List (Dis4Packet W) :=
  weights.mapIdx fun i w => ⟨w, 0, (stack i).channel, (stack i).tare⟩

/-- The bytes of the weight field at the beginning of the buffer. -/
def Dis4Frame.field (t : Dis4Frame) (data : List UInt8) : List UInt8 :=
  (data.drop t.weightPos).take t.weightLen

/-- The weights of the frames that end in one read: all are read from the field at the
beginning of the buffer. -/
def weightsOf (data : List UInt8) (lines : List (List UInt8)) : List W :=
  (lines.filter fun line => line.length = t.packetLength).map fun _ => atof (t.field data)

/-- What is left of the bytes in the buffer after a read. -/
def leftOfRead (data : List UInt8) : List UInt8 :=
  if 0x0d ∈ data then dropLineFeed (splitLines 0x0d data).2 else data

variable {t atof stack}

theorem packetsOf_append_singleton
    (weights : List W)
    (w : W) :
    packetsOf stack (weights ++ [w]) =
      packetsOf stack weights ++
        [⟨w, 0, (stack weights.length).channel, (stack weights.length).tare⟩] :=
  List.mapIdx_concat

theorem weightsOf_cons
    (data line : List UInt8)
    (lines : List (List UInt8)) :
    weightsOf t atof data (line :: lines) =
      (if line.length = t.packetLength then [atof (t.field data)] else []) ++
        weightsOf t atof data lines := by
  by_cases hmatch : line.length = t.packetLength
  · simp [weightsOf, hmatch]
  · simp [weightsOf, hmatch]

@[simp] theorem length_packetsOf
    (weights : List W) :
    (packetsOf stack weights).length = weights.length :=
  List.length_mapIdx

theorem strncpy_field
    {m : Bytes}
    {data : List UInt8}
    (h : m.Holds 0 data)
    (hnul : 0 ∉ data)
    (hfits : data.length < dis4Size)
    (hfield : t.weightPos + t.weightLen ≤ data.length) :
    strncpy dis4Size m t.weightPos t.weightLen = some (t.field data) := by
  have hsplit : data.take t.weightPos ++ data.drop t.weightPos = data :=
    List.take_append_drop _ _
  rw [← hsplit, Bytes.holds_append] at h
  have hdrop := h.2
  rw [List.length_take, min_eq_left (by omega), Nat.zero_add] at hdrop
  refine strncpy_of_holds hdrop ?_ ?_ ?_
  · exact fun hmem => hnul (List.mem_of_mem_drop hmem)
  · rw [List.length_drop]
    omega
  · rw [List.length_drop]
    omega

section Read

variable {s : Dis4 W} {data : List UInt8} {weights : List W}

theorem Dis4.moveRest_eq
    {before rest : List UInt8}
    (hholds : s.buffer.Holds 0 (before ++ rest ++ [0]))
    (hfits : (before ++ rest).length < dis4Size)
    (hcr : 0x0d ∉ rest)
    (hnul : 0 ∉ before ++ rest) :
    ∃ s', s.moveRest before.length = some s' ∧ s'.Has rest ∧ s'.packets = s.packets := by
  have hlen := hfits
  rw [List.length_append] at hlen
  have hbehind := (Bytes.holds_append.mp (by rwa [List.append_assoc] at hholds)).2
  rw [Nat.zero_add] at hbehind
  rw [Dis4.moveRest, if_pos (by omega)]
  cases rest with
  | nil =>
      rw [if_pos (Bytes.Holds.head hbehind).1]
      exact ⟨_, rfl, ⟨rfl, rfl, by decide, Bytes.holds_nil, hcr, List.not_mem_nil⟩, rfl⟩
  | cons b rest =>
      have hb : s.buffer before.length ≠ 0 := by
        rw [(Bytes.Holds.head hbehind).1]
        rintro rfl
        simp at hnul
      have hcount : (before ++ b :: rest).length - before.length = (b :: rest).length := by
        rw [List.length_append]
        omega
      have hrest := (Bytes.holds_append.mp hbehind).1
      have hstrlen : strlen dis4Size s.buffer 0 = some (before ++ b :: rest).length :=
        strlen_of_holds hholds hnul (by omega)
      have hload : load dis4Size s.buffer before.length (b :: rest).length = some (b :: rest) :=
        load_eq hrest (by omega)
      have hstore : store dis4Size s.buffer 0 (b :: rest) = some (s.buffer.write 0 (b :: rest)) :=
        store_eq (by omega)
      have hwritten : (s.buffer.write 0 (b :: rest)).Holds 0 (b :: rest) := Bytes.holds_write
      have hbehind_end : ¬ (before ++ b :: rest).length < before.length := by
        rw [List.length_append]
        omega
      rw [if_neg hb, hstrlen, Option.bind_some, if_neg hbehind_end, hcount, hload,
        Option.bind_some, hstore, Option.map_some]
      refine ⟨_, rfl, ⟨rfl, rfl, by omega, hwritten, hcr, ?_⟩, rfl⟩
      exact fun hmem => hnul (List.mem_append_right _ hmem)

/-- The LF that the rest may begin with is counted as part of what stands before it. -/
theorem Dis4.keepRest_eq_moveRest
    {before rest : List UInt8}
    (hholds : s.buffer.Holds 0 (before ++ rest ++ [0]))
    (hend : s.pEnd = before.length)
    (hfits : (before ++ rest).length < dis4Size) :
    ∃ front, front ++ dropLineFeed rest = before ++ rest ∧ (0 ∈ front ↔ 0 ∈ before) ∧
      s.keepRest = s.moveRest front.length := by
  have hlen := hfits
  rw [List.length_append] at hlen
  have hbehind := (Bytes.holds_append.mp (by rwa [List.append_assoc] at hholds)).2
  rw [Nat.zero_add] at hbehind
  rw [Dis4.keepRest, hend, if_pos (by omega)]
  cases rest with
  | nil =>
      have hzero : s.buffer before.length = 0 := (Bytes.Holds.head hbehind).1
      rw [if_neg (by rw [hzero]; decide)]
      exact ⟨before, rfl, Iff.rfl, rfl⟩
  | cons b rest =>
      rw [(Bytes.Holds.head hbehind).1, dropLineFeed]
      by_cases hb : b = 0x0a
      · subst hb
        rw [if_pos rfl, if_pos rfl]
        exact ⟨before ++ [0x0a], by simp, by simp, by simp⟩
      · rw [if_neg hb, if_neg hb]
        exact ⟨before, rfl, Iff.rfl, rfl⟩

theorem not_mem_dropLineFeed
    {c : UInt8}
    {data : List UInt8}
    (h : c ∉ data) :
    c ∉ dropLineFeed data := by
  cases data with
  | nil => exact h
  | cons b rest =>
      rw [dropLineFeed]
      split
      · exact fun hmem => h (List.mem_cons_of_mem _ hmem)
      · exact h

/-- The rest behind the last CR. -/
theorem Dis4.keepRest_eq
    {before rest : List UInt8}
    (hholds : s.buffer.Holds 0 (before ++ rest ++ [0]))
    (hend : s.pEnd = before.length)
    (hfits : (before ++ rest).length < dis4Size)
    (hcr : 0x0d ∉ rest)
    (hnul : 0 ∉ before ++ rest) :
    ∃ s', s.keepRest = some s' ∧ s'.Has (dropLineFeed rest) ∧ s'.packets = s.packets := by
  obtain ⟨front, hfront, -, hkeep⟩ := Dis4.keepRest_eq_moveRest hholds hend hfits
  rw [← hfront] at hholds hfits hnul
  rw [hkeep]
  exact Dis4.moveRest_eq hholds hfits (not_mem_dropLineFeed hcr) hnul

/-- One frame that has ended. -/
theorem Dis4.frame_eq
    {before body rest : List UInt8}
    (hholds : s.buffer.Holds 0 data)
    (hdata : data = before ++ (body ++ 0x0d :: rest))
    (hend : s.pEnd = before.length)
    (hstart : s.pStart = before.length + body.length)
    (hfits : data.length < dis4Size)
    (hnul : 0 ∉ data)
    (hfield : t.weightPos + t.weightLen ≤ t.packetLength)
    (hpackets : s.packets = packetsOf stack weights) :
    ∃ s', (if s.pStart - s.pEnd + 1 = t.packetLength then s.distribute t atof stack else some s) =
        some s' ∧
      s'.buffer = s.buffer ∧ s'.pStart = s.pStart ∧
      s'.packets = packetsOf stack (weights ++
        if (body ++ [0x0d]).length = t.packetLength then [atof (t.field data)] else []) := by
  have hlength : s.pStart - s.pEnd + 1 = (body ++ [(0x0d : UInt8)]).length := by
    rw [hend, hstart, List.length_append, List.length_singleton]
    omega
  rw [hlength]
  by_cases hmatch : (body ++ [(0x0d : UInt8)]).length = t.packetLength
  · have hinside : t.weightPos + t.weightLen ≤ data.length := by
      rw [hdata]
      simp only [List.length_append, List.length_cons, List.length_nil] at hmatch ⊢
      omega
    have hcopy := strncpy_field hholds hnul hfits hinside
    rw [if_pos hmatch, if_pos hmatch, Dis4.distribute, hcopy, packetsOf_append_singleton,
      ← hpackets]
    refine ⟨_, rfl, rfl, rfl, ?_⟩
    simp only [hpackets, length_packetsOf]
  · rw [if_neg hmatch, if_neg hmatch, List.append_nil]
    exact ⟨s, rfl, rfl, rfl, hpackets⟩

/-- The frames that have ended, and the rest; the loop is at the end of the first. -/
theorem Dis4.parse_eq
    {fuel : Nat}
    {before body rest : List UInt8}
    (hholds : s.buffer.Holds 0 (data ++ [0]))
    (hdata : data = before ++ (body ++ 0x0d :: rest))
    (hend : s.pEnd = before.length)
    (hstart : s.pStart = before.length + body.length)
    (hfits : data.length < dis4Size)
    (hnul : 0 ∉ data)
    (hfield : t.weightPos + t.weightLen ≤ t.packetLength)
    (hpackets : s.packets = packetsOf stack weights)
    (hfuel : rest.length < fuel) :
    ∃ s', s.parse t atof stack fuel = some s' ∧
      s'.Has (dropLineFeed (splitLines 0x0d rest).2) ∧
      s'.packets = packetsOf stack (weights ++
        weightsOf t atof data ((body ++ [0x0d]) :: (splitLines 0x0d rest).1)) := by
  induction fuel generalizing s before body rest weights with
  | zero => exact absurd hfuel (Nat.not_lt_zero _)
  | succ fuel ih =>
      obtain ⟨s₁, hframe, hbuffer, hstart₁, hpackets₁⟩ :=
        Dis4.frame_eq (Bytes.holds_append.mp hholds).1 hdata hend hstart hfits hnul hfield hpackets
      have hsplit : data ++ [0] = (before ++ (body ++ [0x0d])) ++ (rest ++ [0]) := by
        simp [hdata]
      have hlen : (before ++ (body ++ [(0x0d : UInt8)])).length = s.pStart + 1 := by
        rw [hstart]
        simp only [List.length_append, List.length_singleton]
        omega
      have hrest : s₁.buffer.Holds (s.pStart + 1) (rest ++ [0]) := by
        rw [hsplit] at hholds
        have := (Bytes.holds_append.mp hholds).2
        rwa [hlen, Nat.zero_add, ← hbuffer] at this
      have hnul_rest : 0 ∉ rest := by
        intro hmem
        refine hnul ?_
        rw [hdata]
        simp [hmem]
      have hsize : s.pStart + 1 + rest.length < dis4Size := by
        have := congrArg List.length hsplit
        simp only [List.length_append, List.length_singleton] at this hlen
        omega
      rw [Dis4.parse, hframe, Option.bind_some, hstart₁,
        strchr_of_holds hrest hnul_rest (by decide) hsize, Option.bind_some]
      by_cases hcr : 0x0d ∈ rest
      · obtain ⟨body₂, rest₂, rfl, hbody₂⟩ := List.eq_append_cons_of_mem hcr
        rw [if_pos hcr, idxOf_line hbody₂]
        simp only
        obtain ⟨s', hparse, hhas, hpackets'⟩ :=
          @ih { s₁ with pEnd := s.pStart + 1, pStart := s.pStart + 1 + body₂.length } _
            (before ++ (body ++ [0x0d])) body₂ rest₂ (by rw [← hbuffer] at hholds; exact hholds)
            (by simp [hdata]) hlen.symm (by rw [hlen]) hpackets₁
            (by
              simp only [List.length_append, List.length_cons] at hfuel
              omega)
        rw [splitLines_line hbody₂]
        refine ⟨s', hparse, hhas, ?_⟩
        rw [hpackets', weightsOf_cons _ (body ++ [0x0d]), List.append_assoc]
      · rw [if_neg hcr]
        simp only
        have hholds₁ : s₁.buffer.Holds 0 (before ++ (body ++ [0x0d]) ++ rest ++ [0]) := by
          rw [hbuffer, List.append_assoc _ rest, ← hsplit]
          exact hholds
        obtain ⟨s', hkeep, hhas, hpackets'⟩ :=
          @Dis4.keepRest_eq W { s₁ with pEnd := s.pStart + 1 } (before ++ (body ++ [0x0d])) rest
            hholds₁ hlen.symm (by rw [List.length_append, hlen]; exact hsize) hcr
            (by
              intro hmem
              refine hnul ?_
              rw [hdata]
              simpa using hmem)
        rw [splitLines_of_not_mem hcr]
        refine ⟨s', hkeep, hhas, ?_⟩
        rw [hpackets', hpackets₁, weightsOf_cons]
        simp [weightsOf]

/-- The bytes of a read are terminated and searched for CR. -/
theorem Dis4.search_eq
    {chunk : List UInt8}
    {len : Nat}
    (hholds : s.buffer.Holds 0 (data ++ chunk))
    (hend : s.pEnd = 0)
    (hstart : s.pStart = data.length)
    (hfits : (data ++ chunk).length < dis4Size)
    (hcr : 0x0d ∉ data)
    (hnul : 0 ∉ data ++ chunk)
    (hfield : t.weightPos + t.weightLen ≤ t.packetLength)
    (hpackets : s.packets = packetsOf stack weights) :
    ∃ s', s.search t atof stack (data ++ chunk).length len = some s' ∧
      s'.Has (leftOfRead (data ++ chunk)) ∧
      s'.packets = packetsOf stack
        (weights ++ weightsOf t atof (data ++ chunk) (splitLines 0x0d (data ++ chunk)).1) := by
  have hterminated :
      (s.buffer.write (data ++ chunk).length [0]).Holds 0 (data ++ chunk ++ [0]) := by
    refine Bytes.holds_append.mpr ⟨hholds.write (Or.inr (by omega)), ?_⟩
    rw [Nat.zero_add]
    exact Bytes.holds_write
  have hstring : (s.buffer.write (data ++ chunk).length [0]).Holds data.length (chunk ++ [0]) := by
    rw [List.append_assoc] at hterminated
    have := (Bytes.holds_append.mp hterminated).2
    rwa [Nat.zero_add] at this
  have hnul_chunk : 0 ∉ chunk := fun hmem => hnul (List.mem_append_right _ hmem)
  rw [Dis4.search, store_eq (by simp only [List.length_singleton]; omega), Option.bind_some,
    hstart, strchr_of_holds hstring hnul_chunk (by decide) (by rwa [List.length_append] at hfits),
    Option.bind_some]
  by_cases hmem : 0x0d ∈ chunk
  · obtain ⟨body, rest, rfl, hbody⟩ := List.eq_append_cons_of_mem hmem
    have hline : 0x0d ∉ data ++ body := by
      rw [List.mem_append, not_or]
      exact ⟨hcr, hbody⟩
    rw [if_pos hmem, idxOf_line hbody]
    simp only
    obtain ⟨s', hparse, hhas, hpackets'⟩ :=
      @Dis4.parse_eq W t atof stack { s with
          buffer := s.buffer.write (data ++ (body ++ 0x0d :: rest)).length [0]
          pStart := data.length + body.length } (data ++ (body ++ 0x0d :: rest)) weights
        (dis4Size + 1) [] (data ++ body) rest hterminated (by simp) hend (by simp) hfits hnul
        hfield hpackets
        (by
          simp only [List.length_append, List.length_cons] at hfits
          omega)
    rw [leftOfRead, if_pos (by simp), ← List.append_assoc, splitLines_line hline]
    rw [← List.append_assoc] at hparse hpackets'
    refine ⟨{ s' with len := len }, by rw [hparse]; rfl, ?_, hpackets'⟩
    exact ⟨hhas.pEnd_eq, hhas.pStart_eq, hhas.fits, hhas.holds, hhas.no_cr, hhas.no_nul⟩
  · have hnone : 0x0d ∉ data ++ chunk := by
      rw [List.mem_append, not_or]
      exact ⟨hcr, hmem⟩
    rw [if_neg hmem, leftOfRead, if_neg hnone, splitLines_of_not_mem hnone]
    refine ⟨_, rfl, ⟨hend, rfl, hfits, ?_, hnone, hnul⟩, ?_⟩
    · exact (Bytes.holds_append.mp hterminated).1
    · simpa [weightsOf] using hpackets

/-- **One read.**  The frames that end in it are distributed, all with the weight that
stands at the beginning of the buffer. -/
theorem Dis4.read_eq
    {chunk : List UInt8}
    (h : s.Has data)
    (hfield : t.weightPos + t.weightLen ≤ t.packetLength)
    (hpackets : s.packets = packetsOf stack weights)
    (hnul : 0 ∉ chunk)
    (hroom : chunk.length ≤ min s.len (dis4Size - (s.pStart + 1))) :
    ∃ s', s.read t atof stack (.bytes chunk) = some s' ∧
      s'.Has (leftOfRead (data ++ chunk)) ∧
      s'.packets = packetsOf stack
        (weights ++ weightsOf t atof (data ++ chunk) (splitLines 0x0d (data ++ chunk)).1) := by
  have hfits := h.fits
  cases chunk with
  | nil =>
      rw [List.append_nil, leftOfRead, if_neg h.no_cr, splitLines_of_not_mem h.no_cr]
      exact ⟨s, rfl, h, by simpa [weightsOf] using hpackets⟩
  | cons b chunk =>
      have hstart := h.pStart_eq
      have hlen : s.pStart + (b :: chunk).length = (data ++ b :: chunk).length := by
        rw [hstart, List.length_append]
      have hnul' : 0 ∉ data ++ b :: chunk := by
        rw [List.mem_append, not_or]
        exact ⟨h.no_nul, hnul⟩
      have hholds : (s.buffer.write s.pStart (b :: chunk)).Holds 0 (data ++ b :: chunk) := by
        refine Bytes.holds_append.mpr ⟨h.holds.write (Or.inr (by omega)), ?_⟩
        rw [Nat.zero_add, ← hstart]
        exact Bytes.holds_write
      rw [Dis4.read, if_pos hroom, store_eq (by omega), Option.bind_some, hlen]
      · exact Dis4.search_eq hholds h.pEnd_eq hstart (by omega) h.no_cr hnul' hfield hpackets
      · exact List.cons_ne_nil b chunk

end Read

end Model

end Scaled
end MatrixBin
