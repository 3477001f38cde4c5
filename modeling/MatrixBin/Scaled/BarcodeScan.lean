import MatrixBin.Library.LineSplitter
import MatrixBin.Library.TransitionRuns
import MatrixBin.Scaled.LocbufCalls

/-!
# The barcode scanner (`bc_scan.c`)

`scan_loop` reads up to 1024 bytes to a cursor in `buf`, prints them into `prt_buf` with the
unprintable bytes escaped, and publishes the string at the beginning of `buf` when the last byte
of a read is a line feed.  The cursor then goes back; otherwise it moves behind what was read.  A
write outside one of the arrays is `none`.

`published_lines_iff` compares what is published with the lines of the stream, for every sequence
of reads.
-/

namespace MatrixBin
namespace Scaled

open Library

/-- The sizes of `buf` and `prt_buf`, and of a read. -/
def scanBufSize : Nat := 1024
def prtBufSize : Nat := 2048
def scanReadSize : Nat := 1024

def lineFeed : UInt8 := 0x0a

/-- `isprint` in the C locale. -/
def isPrint (b : UInt8) : Bool := 0x20 ≤ b && b ≤ 0x7e

def hexDigit (n : Nat) : UInt8 := UInt8.ofNat (if n < 10 then 0x30 + n else 0x57 + n)

/-- `%2.2x` of a `char`, which is signed: a negative one is printed as an `int` of 32 bits. -/
def sprintfHex (c : UInt8) : List UInt8 :=
  (if 0x80 ≤ c then List.replicate 6 0x66 else []) ++ [hexDigit (c.toNat / 16), hexDigit (c.toNat % 16)]

/-- `mk_prt_str` at the position `j` of its target, which is `prt_buf`. -/
def mkPrtStr (out : Bytes) (j : Nat) : List UInt8 → Option Bytes
  | [] => store prtBufSize out j [0]
  | c :: rest =>
      if isPrint c then (store prtBufSize out j [c]).bind fun out => mkPrtStr out (j + 1) rest
      else
        (store prtBufSize out j [0x5b]).bind fun out =>
          (store prtBufSize out (j + 1) (sprintfHex c ++ [0])).bind fun out =>
            (store prtBufSize out (j + 3) [0x5d]).bind fun out => mkPrtStr out (j + 4) rest

/-- The variables of `scan_loop`, the strings it has given to `to_mqtt`, and all that it has
read. -/
structure ScanLoop where
  buf : Bytes
  p : Nat
  prtBuf : Bytes
  published : List (List UInt8)
  stream : List UInt8
  closed : Bool

def ScanLoop.start (buf prtBuf : Bytes) : ScanLoop := ⟨buf, 0, prtBuf, [], [], false⟩

/-- What happens in an iteration: `pselect` fails, or there is something to read. -/
inductive ScanEvent
  | selectFailed
  | read (result : ReadResult)

/-- What the loop does behind `mk_prt_str` with the `len` bytes at the cursor. -/
def ScanLoop.finish (s : ScanLoop) (len : Nat) : Option ScanLoop :=
  if len = 0 then some { s with closed := true }
  else if s.buf (s.p + len - 1) = lineFeed then
    (store scanBufSize s.buf (s.p + len - 1) [0]).map fun buf =>
      { s with buf := buf, p := 0, published := s.published ++ [cString scanBufSize buf] }
  else some { s with p := s.p + len }

/-- The bytes that `read` puts behind the cursor. -/
def ScanLoop.receive (s : ScanLoop) (data : List UInt8) : Option ScanLoop :=
  (store scanBufSize s.buf s.p data).bind fun buf =>
    (mkPrtStr s.prtBuf 0 data).bind fun prtBuf =>
      ScanLoop.finish { s with buf := buf, prtBuf := prtBuf, stream := s.stream ++ data } data.length

def ScanLoop.iterate (s : ScanLoop) : ScanEvent → Option ScanLoop
  | .selectFailed => some s
  | .read result =>
      match result.upTo scanReadSize with
      | .failed =>
          (mkPrtStr s.prtBuf 0 []).map fun prtBuf => { s with prtBuf := prtBuf, closed := true }
      | .bytes data => s.receive data

/-- An iteration in a run; the function has returned when the device is closed, and behind a
write outside the arrays there is no state. -/
def scanStep : Option ScanLoop → ScanEvent → Option (Option ScanLoop)
  | none, _ => some none
  | some s, event => if s.closed then none else some (s.iterate event)

/-- The lines of a stream, without their ends. -/
def lineTexts (stream : List UInt8) : List (List UInt8) :=
  (splitLines lineFeed stream).1.map List.dropLast

/-- No write has left an array, and the lines of the stream are what was published. -/
def LinesPublished : Option ScanLoop → Prop
  | none => False
  | some s => s.published = lineTexts s.stream

/-- What `mk_prt_str` writes from the position `j` on is inside `prt_buf`. -/
def PrintFits : Nat → List UInt8 → Prop
  | j, [] => j + 1 ≤ prtBufSize
  | j, c :: rest =>
      if isPrint c then PrintFits (j + 1) rest
      else (0x80 ≤ c → j + 10 ≤ prtBufSize) ∧ PrintFits (j + 4) rest

/-- The bytes of a read lie in `buf`, and their print in `prt_buf`; a line feed is the last of
them only, and it ends a line without a zero. -/
structure WholeChunk (pending data : List UInt8) : Prop where
  room : pending.length + data.length ≤ scanBufSize
  print : PrintFits 0 data
  one_line : lineFeed ∉ data.dropLast
  no_zero : data.getLast? = some lineFeed → 0 ∉ pending ++ data

/-- The condition on an iteration. -/
def ReadsWholeChunk : Option ScanLoop → ScanEvent → Prop
  | none, _ => False
  | some _, .selectFailed => True
  | some s, .read result =>
      ∀ data, result.upTo scanReadSize = .bytes data →
        WholeChunk (splitLines lineFeed s.stream).2 data

section BarcodeScan

variable {s : ScanLoop} {data : List UInt8}

theorem PrintFits.lt
    {j : Nat}
    (h : PrintFits j data) :
    j + 1 ≤ prtBufSize := by
  induction data generalizing j with
  | nil => exact h
  | cons c rest ih =>
      rw [PrintFits] at h
      split at h
      · have := ih h
        omega
      · have := ih h.2
        omega

theorem length_sprintfHex
    (c : UInt8) :
    (sprintfHex c).length = if 0x80 ≤ c then 8 else 2 := by
  rw [sprintfHex]
  split
  · rfl
  · rfl

/-- A store that stays in the target, and what is stored behind it. -/
theorem store_bind_isSome_iff
    {size off : Nat}
    {m : Bytes}
    {bytes : List UInt8}
    {next : Bytes → Option Bytes}
    {P : Prop}
    (hnext : ∀ m', (next m').isSome ↔ P) :
    ((store size m off bytes).bind next).isSome ↔ off + bytes.length ≤ size ∧ P := by
  rw [store]
  split_ifs with hsize
  · rw [Option.bind_some, hnext]
    exact (and_iff_right hsize).symm
  · exact iff_of_false (by simp) (fun h => hsize h.1)

/-- `mk_prt_str` stays in its target exactly if the print fits. -/
theorem mkPrtStr_isSome_iff
    (out : Bytes)
    (j : Nat)
    (data : List UInt8) :
    (mkPrtStr out j data).isSome ↔ PrintFits j data := by
  induction data generalizing out j with
  | nil =>
      rw [mkPrtStr, PrintFits, store]
      split_ifs with hsize
      · exact iff_of_true rfl hsize
      · exact iff_of_false (by simp) hsize
  | cons c rest ih =>
      rw [mkPrtStr, PrintFits]
      split_ifs with hprint
      · rw [store_bind_isSome_iff fun out => ih out (j + 1)]
        constructor
        · exact fun h => h.2
        · intro h
          have := h.lt
          exact ⟨by rw [List.length_singleton]; omega, h⟩
      · rw [store_bind_isSome_iff fun out => store_bind_isSome_iff fun out =>
          store_bind_isSome_iff fun out => ih out (j + 4)]
        simp only [List.length_append, List.length_singleton, length_sprintfHex]
        constructor
        · rintro ⟨-, hhex, -, hrest⟩
          refine ⟨fun hneg => ?_, hrest⟩
          rw [if_pos hneg] at hhex
          omega
        · rintro ⟨hneg, hrest⟩
          have hlt := hrest.lt
          refine ⟨by omega, ?_, by omega, hrest⟩
          split_ifs with h80
          · have := hneg h80
            omega
          · omega

/-! ### The lines of the stream -/

/-- The lines that a piece adds. -/
theorem lineTexts_append
    (stream data : List UInt8) :
    lineTexts (stream ++ data) =
      lineTexts stream ++
        (splitLines lineFeed ((splitLines lineFeed stream).2 ++ data)).1.map List.dropLast := by
  rw [lineTexts, splitLines_append, List.map_append]
  rfl

theorem length_lines_append
    (stream data : List UInt8) :
    (splitLines lineFeed ((splitLines lineFeed stream).2 ++ data)).1.length =
      data.count lineFeed := by
  rw [splitLines, length_splitFrom, List.count_append,
    List.count_eq_zero_of_not_mem (not_mem_tail stream), Nat.zero_add]

/-- A piece without a line feed adds no line, and any other does. -/
theorem lineTexts_append_eq_iff
    (stream data : List UInt8) :
    lineTexts stream = lineTexts (stream ++ data) ↔ lineFeed ∉ data := by
  rw [lineTexts_append, List.self_eq_append_right, List.map_eq_nil_iff, ← List.length_eq_zero_iff,
    length_lines_append, List.count_eq_zero]

/-- A piece that ends with a line feed adds one line exactly if it holds no other. -/
theorem lineTexts_append_line_iff
    (stream front text : List UInt8) :
    lineTexts stream ++ [text] = lineTexts (stream ++ (front ++ [lineFeed])) ↔
      lineFeed ∉ front ∧ text = (splitLines lineFeed stream).2 ++ front := by
  rw [lineTexts_append, List.append_cancel_left_eq]
  by_cases hfront : lineFeed ∈ front
  · refine iff_of_false (fun heq => ?_) (fun h => h.1 hfront)
    have hlen := congrArg List.length heq
    rw [List.length_map, length_lines_append, List.count_append, List.count_singleton_self,
      List.length_singleton] at hlen
    have := List.count_pos_iff.mpr hfront
    omega
  · have hline := splitLines_line (not_mem_tail_append stream hfront) []
    rw [← List.append_assoc, hline, splitLines_nil, List.map_singleton, List.dropLast_concat,
      List.singleton_inj]
    exact (and_iff_right hfront).symm

/-! ### One iteration -/

/-- While the device is open, `buf` begins with the unfinished line, and the cursor is behind
it. -/
structure ScanLoop.Pending (s : ScanLoop) : Prop where
  cursor : s.p = (splitLines lineFeed s.stream).2.length
  holds : s.buf.Holds 0 (splitLines lineFeed s.stream).2
  inside : s.p ≤ scanBufSize

/-- The invariant. -/
structure ScanLoop.Inv (s : ScanLoop) : Prop where
  published : s.published = lineTexts s.stream
  pending : s.closed = false → s.Pending

theorem ScanLoop.start_inv
    (buf prtBuf : Bytes) :
    (ScanLoop.start buf prtBuf).Inv :=
  ⟨rfl, fun _ => ⟨rfl, Bytes.holds_nil, Nat.zero_le _⟩⟩

theorem ScanLoop.receive_eq_none
    (hunfit : ¬ (s.p + data.length ≤ scanBufSize ∧ PrintFits 0 data)) :
    s.receive data = none := by
  rw [ScanLoop.receive, store]
  by_cases hroom : s.p + data.length ≤ scanBufSize
  · have hprint : mkPrtStr s.prtBuf 0 data = none := by
      rw [← Option.not_isSome_iff_eq_none, mkPrtStr_isSome_iff]
      exact fun hprint => hunfit ⟨hroom, hprint⟩
    rw [if_pos hroom, Option.bind_some, hprint]
    rfl
  · rw [if_neg hroom]
    rfl

/-- A read that fits: the buffers behind it. -/
theorem ScanLoop.receive_eq
    (hroom : s.p + data.length ≤ scanBufSize)
    (hprint : PrintFits 0 data) :
    ∃ prtBuf, s.receive data =
      ScanLoop.finish { s with
        buf := s.buf.write s.p data, prtBuf := prtBuf, stream := s.stream ++ data } data.length := by
  obtain ⟨prtBuf, hprt⟩ :=
    Option.isSome_iff_exists.mp ((mkPrtStr_isSome_iff s.prtBuf 0 data).mpr hprint)
  refine ⟨prtBuf, ?_⟩
  rw [ScanLoop.receive, store_eq hroom, Option.bind_some, hprt, Option.bind_some]

/-- The bytes of a read behind the unfinished line. -/
theorem ScanLoop.Pending.holds_write
    (h : s.Pending)
    (data : List UInt8) :
    (s.buf.write s.p data).Holds 0 ((splitLines lineFeed s.stream).2 ++ data) := by
  rw [Bytes.holds_append, Nat.zero_add, ← h.cursor]
  exact ⟨h.holds.write (Or.inr (by have := h.cursor; omega)), Bytes.holds_write⟩

/-- The last byte of a read, behind the unfinished line. -/
theorem ScanLoop.Pending.last_byte
    (h : s.Pending)
    (front : List UInt8)
    (last : UInt8) :
    s.buf.write s.p (front ++ [last]) (s.p + (front ++ [last]).length - 1) = last := by
  have hat : s.p + (front ++ [last]).length - 1 = s.p + front.length := by
    rw [List.length_append, List.length_singleton]
    omega
  have hholds := (Bytes.holds_append.mp (h.holds_write (front ++ [last]))).2
  rw [Bytes.holds_append, Nat.zero_add, ← h.cursor] at hholds
  rw [hat]
  exact hholds.2.head.1

/-- A read whose last byte is no line feed. -/
theorem ScanLoop.Inv.receive_open
    (h : s.Inv)
    (hopen : s.closed = false)
    {front : List UInt8}
    {last : UInt8}
    (hlast : last ≠ lineFeed)
    (hroom : s.p + (front ++ [last]).length ≤ scanBufSize)
    (hprint : PrintFits 0 (front ++ [last])) :
    ∃ s', s.receive (front ++ [last]) = some s' ∧
      (s'.published = lineTexts s'.stream ↔ lineFeed ∉ front) ∧
      (lineFeed ∉ front → s'.Inv) := by
  obtain ⟨prtBuf, hreceive⟩ := s.receive_eq hroom hprint
  have hpending := h.pending hopen
  have hmem : lineFeed ∉ front ++ [last] ↔ lineFeed ∉ front := by
    simp [Ne.symm hlast]
  have hpublished : s.published = lineTexts (s.stream ++ (front ++ [last])) ↔ lineFeed ∉ front := by
    rw [h.published, lineTexts_append_eq_iff, hmem]
  have hpos : (front ++ [last]).length ≠ 0 := by simp
  rw [hreceive, ScanLoop.finish, if_neg hpos,
    if_neg (fun heq => hlast ((hpending.last_byte front last).symm.trans heq))]
  refine ⟨_, rfl, hpublished, fun hfront => ⟨hpublished.mpr hfront, fun _ => ?_⟩⟩
  have htail : (splitLines lineFeed (s.stream ++ (front ++ [last]))).2 =
      (splitLines lineFeed s.stream).2 ++ (front ++ [last]) := by
    rw [splitLines_append,
      splitLines_of_not_mem (not_mem_tail_append s.stream (hmem.mpr hfront))]
  have hcursor : s.p + (front ++ [last]).length =
      ((splitLines lineFeed s.stream).2 ++ (front ++ [last])).length := by
    rw [hpending.cursor]
    exact List.length_append.symm
  refine ⟨?_, ?_, hroom⟩
  · rw [htail]
    exact hcursor
  · rw [htail]
    exact hpending.holds_write _

/-- A read whose last byte is a line feed. -/
theorem ScanLoop.Inv.receive_line
    (h : s.Inv)
    (hopen : s.closed = false)
    {front : List UInt8}
    (hroom : s.p + (front ++ [lineFeed]).length ≤ scanBufSize)
    (hprint : PrintFits 0 (front ++ [lineFeed])) :
    ∃ s', s.receive (front ++ [lineFeed]) = some s' ∧
      (s'.published = lineTexts s'.stream ↔
        lineFeed ∉ front ∧ 0 ∉ (splitLines lineFeed s.stream).2 ++ front) ∧
      (lineFeed ∉ front → 0 ∉ (splitLines lineFeed s.stream).2 ++ front → s'.Inv) := by
  obtain ⟨prtBuf, hreceive⟩ := s.receive_eq hroom hprint
  have hpending := h.pending hopen
  have hlen : s.p + (front ++ [lineFeed]).length = s.p + front.length + 1 := by
    rw [List.length_append, List.length_singleton]
    omega
  have hend : s.p + (front ++ [lineFeed]).length - 1 = s.p + front.length := by omega
  have hpos : (front ++ [lineFeed]).length ≠ 0 := by simp
  have hlast := hpending.last_byte front lineFeed
  -- the string that is published: the unfinished line with what was read, up to a zero
  have htext : cString scanBufSize
      ((s.buf.write s.p (front ++ [lineFeed])).write (s.p + front.length) [0]) =
        ((splitLines lineFeed s.stream).2 ++ front).takeWhile (· ≠ 0) := by
    apply cString_of_holds_zero
    · have hholds := hpending.holds_write (front ++ [lineFeed])
      rw [← List.append_assoc, Bytes.holds_append] at hholds
      have hat : 0 + ((splitLines lineFeed s.stream).2 ++ front).length = s.p + front.length := by
        rw [List.length_append, ← hpending.cursor, Nat.zero_add]
      rw [Bytes.holds_append, hat]
      exact ⟨hholds.1.write (Or.inr (by omega)), Bytes.holds_write⟩
    · rw [List.length_append, ← hpending.cursor]
      omega
  have hpublished : s.published ++
      [((splitLines lineFeed s.stream).2 ++ front).takeWhile (· ≠ 0)] =
        lineTexts (s.stream ++ (front ++ [lineFeed])) ↔
      lineFeed ∉ front ∧ 0 ∉ (splitLines lineFeed s.stream).2 ++ front := by
    rw [h.published, lineTexts_append_line_iff, List.takeWhile_eq_self_iff]
    refine and_congr_right fun _ => ?_
    simp only [decide_eq_true_eq]
    exact ⟨fun hall hzero => hall 0 hzero rfl, fun hzero b hb heq => hzero (heq ▸ hb)⟩
  rw [hreceive, ScanLoop.finish, if_neg hpos, if_pos hlast, hend,
    store_eq (by rw [List.length_singleton]; omega), Option.map_some, htext]
  refine ⟨_, rfl, hpublished, fun hfront hzero => ⟨hpublished.mpr ⟨hfront, hzero⟩, fun _ => ?_⟩⟩
  have htail : (splitLines lineFeed (s.stream ++ (front ++ [lineFeed]))).2 = [] := by
    rw [← List.append_assoc, tail_concat_self]
  refine ⟨?_, ?_, Nat.zero_le _⟩
  · rw [htail]
    rfl
  · rw [htail]
    exact Bytes.holds_nil

/-- The condition on a read that fits. -/
theorem wholeChunk_iff
    {pending : List UInt8}
    (hroom : pending.length + data.length ≤ scanBufSize)
    (hprint : PrintFits 0 data) :
    WholeChunk pending data ↔
      lineFeed ∉ data.dropLast ∧ (data.getLast? = some lineFeed → 0 ∉ pending ++ data) :=
  ⟨fun h => ⟨h.one_line, h.no_zero⟩, fun h => ⟨hroom, hprint, h.1, h.2⟩⟩

/-- The bytes of a read: what they do to the law, and when the invariant survives. -/
theorem ScanLoop.Inv.receive
    (h : s.Inv)
    (hopen : s.closed = false)
    (data : List UInt8) :
    (LinesPublished (s.receive data) ↔ WholeChunk (splitLines lineFeed s.stream).2 data) ∧
      (WholeChunk (splitLines lineFeed s.stream).2 data → ∃ s', s.receive data = some s' ∧ s'.Inv) := by
  have hcursor := (h.pending hopen).cursor
  by_cases hfits : s.p + data.length ≤ scanBufSize ∧ PrintFits 0 data
  · obtain ⟨hroom, hprint⟩ := hfits
    rcases List.eq_nil_or_concat' data with rfl | ⟨front, last, rfl⟩
    · -- the end of the stream: the device is closed
      obtain ⟨prtBuf, hreceive⟩ := s.receive_eq hroom hprint
      have hwhole : WholeChunk (splitLines lineFeed s.stream).2 [] :=
        ⟨by rw [← hcursor]; exact hroom, hprint, List.not_mem_nil, fun hno => absurd hno (by simp)⟩
      have hkept : s.published = lineTexts (s.stream ++ []) := by
        rw [List.append_nil]
        exact h.published
      rw [hreceive]
      exact ⟨iff_of_true hkept hwhole, fun _ => ⟨_, rfl, hkept, fun hno => absurd hno (by simp)⟩⟩
    · by_cases hlast : last = lineFeed
      · subst hlast
        obtain ⟨s', hs', hlaw, hinv⟩ := h.receive_line hopen hroom hprint
        have hwhole : WholeChunk (splitLines lineFeed s.stream).2 (front ++ [lineFeed]) ↔
            lineFeed ∉ front ∧ 0 ∉ (splitLines lineFeed s.stream).2 ++ front := by
          rw [wholeChunk_iff (by rw [← hcursor]; exact hroom) hprint, List.dropLast_concat,
            List.getLast?_concat]
          simp [lineFeed]
        rw [hs', hwhole]
        exact ⟨hlaw, fun hcond => ⟨s', rfl, hinv hcond.1 hcond.2⟩⟩
      · obtain ⟨s', hs', hlaw, hinv⟩ := h.receive_open hopen hlast hroom hprint
        have hwhole : WholeChunk (splitLines lineFeed s.stream).2 (front ++ [last]) ↔
            lineFeed ∉ front := by
          rw [wholeChunk_iff (by rw [← hcursor]; exact hroom) hprint, List.dropLast_concat,
            List.getLast?_concat]
          simp [hlast]
        rw [hs', hwhole]
        exact ⟨hlaw, fun hcond => ⟨s', rfl, hinv hcond⟩⟩
  · have hwhole : ¬ WholeChunk (splitLines lineFeed s.stream).2 data := by
      intro hwhole
      have hroom := hwhole.room
      rw [← hcursor] at hroom
      exact hfits ⟨hroom, hwhole.print⟩
    rw [s.receive_eq_none hfits]
    exact ⟨iff_of_false id hwhole, fun hcond => absurd hcond hwhole⟩

/-- The invariant in a run. -/
def ScanInv (s : Option ScanLoop) : Prop := ∃ t, s = some t ∧ t.Inv

theorem ScanInv.step
    {s' t : Option ScanLoop}
    (h : ScanInv t)
    {event : ScanEvent}
    (hstep : scanStep t event = some s') :
    (LinesPublished s' ↔ ReadsWholeChunk t event) ∧ (ReadsWholeChunk t event → ScanInv s') := by
  obtain ⟨s, rfl, hinv⟩ := h
  rw [scanStep, Option.ite_none_left_eq_some, Bool.not_eq_true] at hstep
  obtain ⟨hopen, hs'⟩ := hstep
  obtain rfl := Option.some.inj hs'
  cases event with
  | selectFailed =>
      exact ⟨iff_of_true hinv.published trivial, fun _ => ⟨s, rfl, hinv⟩⟩
  | read result =>
      rw [ReadsWholeChunk, ScanLoop.iterate]
      cases hresult : result.upTo scanReadSize with
      | failed =>
          obtain ⟨prtBuf, hprt⟩ := Option.isSome_iff_exists.mp
            ((mkPrtStr_isSome_iff s.prtBuf 0 []).mpr (by simp [PrintFits, prtBufSize]))
          have hmap : (mkPrtStr s.prtBuf 0 []).map (fun prtBuf =>
              { s with prtBuf := prtBuf, closed := true }) =
                some { s with prtBuf := prtBuf, closed := true } := by
            rw [hprt]
            rfl
          rw [hmap]
          exact ⟨iff_of_true hinv.published (fun data hno => absurd hno (by simp)),
            fun _ => ⟨_, rfl, hinv.published, fun hno => absurd hno (by simp)⟩⟩
      | bytes data =>
          obtain ⟨hlaw, hkeeps⟩ := hinv.receive hopen data
          have hcond : (∀ data', ReadResult.bytes data = ReadResult.bytes data' →
              WholeChunk (splitLines lineFeed s.stream).2 data') ↔
              WholeChunk (splitLines lineFeed s.stream).2 data := by
            simp
          rw [hcond]
          exact ⟨hlaw, hkeeps⟩

/-- **The lines of the scanner.**  Whatever the buffers held before, and for every sequence of
reads, no write leaves an array and the published strings are the lines of the stream exactly if
every read brings a whole chunk. -/
theorem published_lines_iff
    (buf prtBuf : Bytes)
    (events : List ScanEvent) :
    HoldsAlong scanStep LinesPublished (some (ScanLoop.start buf prtBuf)) events ↔
      MeetsAlong scanStep ReadsWholeChunk (some (ScanLoop.start buf prtBuf)) events := by
  have hholds : ∀ s, ScanInv s → LinesPublished s := by
    rintro s ⟨t, rfl, hinv⟩
    exact hinv.published
  exact holdsAlong_iff_meetsAlong hholds (fun s event s' h hstep => (h.step hstep).1)
    (fun s event s' h hcond hstep => (h.step hstep).2 hcond)
    ⟨_, rfl, ScanLoop.start_inv buf prtBuf⟩ events

/-- Two lines in one read are published as one string. -/
theorem two_lines_one_string :
    ¬ HoldsAlong scanStep LinesPublished (some (ScanLoop.start (fun _ => 0) (fun _ => 0)))
      [.read (.bytes [0x41, 0x0a, 0x42, 0x0a])] := by
  rintro ⟨-, hread⟩
  have hlaw := hread _ rfl
  have hstart : ScanInv (some (ScanLoop.start (fun _ => 0) (fun _ => 0))) :=
    ⟨_, rfl, ScanLoop.start_inv _ _⟩
  have hwhole := (hstart.step rfl).1.mp hlaw
  exact absurd (hwhole _ rfl).one_line (by decide)

end BarcodeScan

end Scaled
end MatrixBin
