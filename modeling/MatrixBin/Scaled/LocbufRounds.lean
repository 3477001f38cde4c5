import MatrixBin.Library.LineSplitter
import MatrixBin.Scaled.LocbufMoves

/-!
# When the moves are disjoint (`locbuf.c`)

A `Round` is what was received and asked for since the local buffer was last at its beginning:
the bytes, and the calls that took a piece of them.  Where the pieces end follows from these
alone (`Round.cut`): a line ends at its symbol, a piece of a given size has that size.  When a
call finds no piece, what was not taken moves to the beginning, and the next round begins with it.

`movesDisjoint_iff` says of a whole run that every `memcpy` copies between disjoint ranges exactly
if at least half of each such round was taken.  For a reader that takes all lines after each read,
as the threads of the scales do, it says so of the stream and its chunks: a chunk that completes
lines leaves an unfinished one that is no longer than they are.
-/

namespace MatrixBin
namespace Scaled

open Library

/-- A call that takes a piece. -/
inductive Take
  | bySym (sym : UInt8)
  | bySize (size : ℤ)

/-- Where a piece ends that begins at a position. -/
def pieceEnd (received : List UInt8) (pos : Nat) : Take → Nat
  | .bySym sym => pos + (received.drop pos).idxOf sym + 1
  | .bySize size => (pos + size).toNat

/-- The bytes that were received since the buffer was last at its beginning, with those that
waited then, and the calls that have taken a piece of them. -/
structure Round where
  received : List UInt8
  takes : List Take

/-- How much the calls have taken. -/
def Round.cut (r : Round) : Nat := r.takes.foldl (pieceEnd r.received) 0

def Round.rest (r : Round) : List UInt8 := r.received.drop r.cut

/-- The part of the data that a read can deliver. -/
def Round.delivered (r : Round) (bytes : ℤ) (data : List UInt8) : List UInt8 :=
  if r.rest.length < locbufSize ∧ 0 < bytes then
    data.take (min (locbufSize - r.rest.length) bytes.toNat)
  else []

/-- What `last_by_sym` looks at: the last of as many bytes as wait, counted from the beginning,
with the bytes in front of it back to the symbol, or to those that were taken. -/
def Round.lastPiece (r : Round) (sym : UInt8) : List UInt8 :=
  ((r.received.take (r.rest.length - 1)).drop r.cut).rtakeWhile (· ≠ sym) ++
    (r.received.drop (r.rest.length - 1)).take 1

def Round.step (r : Round) : StreamCall → Option Round
  | .getFromfd bytes data =>
      if r.received.length + (r.delivered bytes data).length ≤ locbufSize then
        some { r with received := r.received ++ r.delivered bytes data }
      else none
  | .nextBySym sym =>
      some (
        if r.rest = [] then r
        else if sym ∈ r.rest then
          let r' : Round := { r with takes := r.takes ++ [.bySym sym] }
          if r'.rest = [] then ⟨[], []⟩ else r'
        else ⟨r.rest, []⟩)
  | .nextBySize size =>
      if r.rest.length < size then some ⟨r.rest, []⟩
      else if 0 ≤ r.cut + size then some { r with takes := r.takes ++ [.bySize size] }
      else none
  | .lastBySym sym =>
      some (
        if r.rest = [] then r
        else if (r.lastPiece sym).getLast? = some sym then ⟨[], []⟩
        else ⟨r.lastPiece sym, []⟩)

/-- When a call finds no piece, nothing was taken or at least half of what was received; and the
piece that `last_by_sym` keeps is at most half of as many bytes as wait. -/
def Round.Halves (r : Round) : StreamCall → Prop
  | .getFromfd _ _ => True
  | .nextBySym sym => 0 < r.cut → sym ∉ r.rest → r.received.length ≤ 2 * r.cut
  | .nextBySize size => 0 < r.cut → r.rest.length < size → r.received.length ≤ 2 * r.cut
  | .lastBySym sym =>
      (r.lastPiece sym).length < r.rest.length → (r.lastPiece sym).getLast? ≠ some sym →
        2 * (r.lastPiece sym).length ≤ r.rest.length

/-! ### The pieces of a round -/

/-- The calls take pieces that lie inside the bytes, up to a position. -/
inductive Takes (received : List UInt8) : List Take → Nat → Prop
  | none : Takes received [] 0
  | bySym
      {takes : List Take} {pos : Nat} {sym : UInt8}
      (before : Takes received takes pos)
      (hsym : sym ∈ received.drop pos) :
      Takes received (takes ++ [.bySym sym]) (pos + (received.drop pos).idxOf sym + 1)
  | bySize
      {takes : List Take} {pos : Nat} {size : ℤ}
      (before : Takes received takes pos)
      (hfront : 0 ≤ pos + size)
      (hinside : pos + size ≤ received.length) :
      Takes received (takes ++ [.bySize size]) (pos + size).toNat

section Pieces

variable {received more : List UInt8} {takes : List Take} {pos : Nat}

theorem Takes.cut_eq
    (h : Takes received takes pos) :
    Round.cut ⟨received, takes⟩ = pos := by
  induction h with
  | none => rfl
  | bySym before hsym ih =>
      rw [Round.cut] at ih
      simp only [Round.cut, List.foldl_append, ih, List.foldl_cons, List.foldl_nil, pieceEnd]
  | bySize before hfront hinside ih =>
      rw [Round.cut] at ih
      simp only [Round.cut, List.foldl_append, ih, List.foldl_cons, List.foldl_nil, pieceEnd]

theorem Takes.le
    (h : Takes received takes pos) :
    pos ≤ received.length := by
  cases h with
  | none => exact Nat.zero_le _
  | @bySym takes pos sym before hsym =>
      have hlt := List.idxOf_lt_length_of_mem hsym
      rw [List.length_drop] at hlt
      omega
  | bySize before hfront hinside => omega

/-- More bytes do not move the ends of the pieces. -/
theorem Takes.append
    (h : Takes received takes pos)
    (more : List UInt8) :
    Takes (received ++ more) takes pos := by
  induction h with
  | none => exact .none
  | @bySym takes pos sym before hsym ih =>
      have hdrop : (received ++ more).drop pos = received.drop pos ++ more :=
        List.drop_append_of_le_length before.le
      have hmem : sym ∈ (received ++ more).drop pos := by
        rw [hdrop]
        exact List.mem_append_left more hsym
      have hidx := ih.bySym hmem
      rwa [hdrop, List.idxOf_append_of_mem hsym] at hidx
  | bySize before hfront hinside ih =>
      refine ih.bySize hfront ?_
      rw [List.length_append]
      push_cast
      omega

end Pieces

/-! ### The round and the window -/

/-- The window of a round: what its calls have taken, and what waits. -/
structure Round.Views (r : Round) (w : Window) : Prop where
  takes : Takes r.received r.takes w.handed.length
  bytes_eq : w.bytes = r.received

section Views

variable {r : Round} {w : Window}

theorem Round.Views.cut_eq
    (h : r.Views w) :
    r.cut = w.handed.length :=
  h.takes.cut_eq

theorem Round.Views.rest_eq
    (h : r.Views w) :
    r.rest = w.waiting := by
  rw [Round.rest, h.cut_eq, ← h.bytes_eq, Window.bytes, List.drop_left]

theorem Round.Views.delivered_eq
    (h : r.Views w)
    (bytes : ℤ)
    (data : List UInt8) :
    r.delivered bytes data = w.taken bytes data := by
  rw [Round.delivered, Window.taken, h.rest_eq]

theorem Round.Views.lastPiece_eq
    (h : r.Views w)
    (sym : UInt8) :
    r.lastPiece sym = w.lastPiece sym := by
  rw [Round.lastPiece, Window.lastPiece, h.rest_eq, h.cut_eq, h.bytes_eq]

/-- A round that begins. -/
theorem Round.views_begin
    (bytes : List UInt8) :
    Round.Views ⟨bytes, []⟩ ⟨[], bytes⟩ :=
  ⟨.none, rfl⟩

theorem Round.Views.nextBySym
    (h : r.Views w)
    (sym : UInt8) :
    Option.Rel Round.Views (r.step (.nextBySym sym)) (w.step (.nextBySym sym)) := by
  rw [Round.step, Window.step, h.rest_eq]
  split_ifs with hempty hsym
  · exact Option.Rel.some h
  · have hdrop : r.received.drop w.handed.length = w.waiting := by
      rw [← h.rest_eq, Round.rest, h.cut_eq]
    have htakes := h.takes.bySym (hdrop.symm ▸ hsym)
    rw [hdrop] at htakes
    have hlen : w.waiting.idxOf sym + 1 ≤ w.waiting.length :=
      List.idxOf_lt_length_of_mem hsym
    have hviews : Round.Views { r with takes := r.takes ++ [.bySym sym] }
        ⟨w.handed ++ w.waiting.take (w.waiting.idxOf sym + 1),
          w.waiting.drop (w.waiting.idxOf sym + 1)⟩ := by
      refine ⟨?_, ?_⟩
      · rwa [List.length_append, List.length_take_of_le hlen, ← Nat.add_assoc]
      · rw [Window.bytes, List.append_assoc, List.take_append_drop]
        exact h.bytes_eq
    simp only [hviews.rest_eq]
    split_ifs with hlast
    · exact Option.Rel.some (Round.views_begin [])
    · exact Option.Rel.some hviews
  · exact Option.Rel.some (Round.views_begin _)

theorem Round.Views.nextBySize
    (h : r.Views w)
    (size : ℤ) :
    Option.Rel Round.Views (r.step (.nextBySize size)) (w.step (.nextBySize size)) := by
  rw [Round.step, Window.step, h.rest_eq, h.cut_eq]
  have hbytes : w.bytes.length = w.handed.length + w.waiting.length := List.length_append
  split_ifs with hfew hfront
  · exact Option.Rel.some (Round.views_begin _)
  · refine Option.Rel.some ⟨?_, ?_⟩
    · have htakes := h.takes.bySize hfront (by rw [← h.bytes_eq, hbytes]; omega)
      rwa [List.length_take_of_le (by omega)]
    · rw [Window.bytes, List.take_append_drop]
      exact h.bytes_eq
  · exact Option.Rel.none

theorem Round.Views.lastBySym
    (h : r.Views w)
    (sym : UInt8) :
    Option.Rel Round.Views (r.step (.lastBySym sym)) (w.step (.lastBySym sym)) := by
  rw [Round.step, Window.step, h.rest_eq, h.lastPiece_eq]
  split_ifs with hempty hsym
  · exact Option.Rel.some h
  · exact Option.Rel.some (Round.views_begin [])
  · exact Option.Rel.some (Round.views_begin _)

theorem Round.Views.getFromfd
    (h : r.Views w)
    (bytes : ℤ)
    (data : List UInt8) :
    Option.Rel Round.Views (r.step (.getFromfd bytes data)) (w.step (.getFromfd bytes data)) := by
  rw [Round.step, Window.step, h.delivered_eq, ← h.bytes_eq]
  split_ifs with hroom
  · refine Option.Rel.some ⟨?_, ?_⟩
    · rw [h.bytes_eq]
      exact h.takes.append _
    · rw [Window.bytes, ← List.append_assoc]
      rfl
  · exact Option.Rel.none

/-- The round and the window go on together. -/
theorem Round.Views.step
    (h : r.Views w)
    (c : StreamCall) :
    Option.Rel Round.Views (r.step c) (w.step c) := by
  cases c with
  | getFromfd bytes data => exact h.getFromfd bytes data
  | nextBySym sym => exact h.nextBySym sym
  | nextBySize size => exact h.nextBySize size
  | lastBySym sym => exact h.lastBySym sym

/-- A rest is short exactly if half of the round was taken. -/
theorem Round.Views.halves_iff
    (h : r.Views w)
    (c : StreamCall) :
    r.Halves c ↔ w.ShortRest c := by
  have hpos : 0 < r.cut ↔ w.handed ≠ [] := by
    rw [h.cut_eq, List.length_pos_iff]
  have hhalf : r.received.length ≤ 2 * r.cut ↔ w.waiting.length ≤ w.handed.length := by
    have hbytes : w.bytes.length = w.handed.length + w.waiting.length := List.length_append
    rw [← h.bytes_eq, hbytes, h.cut_eq]
    omega
  cases c with
  | getFromfd bytes data => exact Iff.rfl
  | nextBySym sym => rw [Round.Halves, Window.ShortRest, hpos, h.rest_eq, hhalf]
  | nextBySize size => rw [Round.Halves, Window.ShortRest, hpos, h.rest_eq, hhalf]
  | lastBySym sym => rw [Round.Halves, Window.ShortRest, h.lastPiece_eq, h.rest_eq]

end Views

/-! ### Reading lines -/

/-- What a reader leaves behind that has taken all lines of the chunks. -/
def unfinishedLine (sym : UInt8) (past : List (List UInt8)) : List UInt8 :=
  (splitLines sym past.flatten).2

/-- After each chunk the lines are taken, until there is none. -/
def readLines (sym : UInt8) (chunks : List (List UInt8)) : List StreamCall :=
  chunks.flatMap fun chunk =>
    .getFromfd chunk.length chunk :: List.replicate (chunk.count sym + 1) (.nextBySym sym)

/-- The chunks that are read; each fits the buffer, behind the unfinished line. -/
structure LineChunks (sym : UInt8) where
  chunks : List (List UInt8)
  fits : ∀ past chunk, past ++ [chunk] <+: chunks →
    (unfinishedLine sym past ++ chunk).length ≤ locbufSize

/-- The chunk completes no line, or the line that it leaves unfinished is no longer than the
lines that it completes. -/
def TailShort (sym : UInt8) (past : List (List UInt8)) (chunk : List UInt8) : Prop :=
  let split := splitLines sym (unfinishedLine sym past ++ chunk)
  split.1 = [] ∨ split.2.length ≤ split.1.flatten.length

section Lines

variable {sym : UInt8} {r : Round} {more : List StreamCall}

theorem not_mem_unfinishedLine
    (past : List (List UInt8)) :
    sym ∉ unfinishedLine sym past :=
  not_mem_tail _

theorem unfinishedLine_concat
    (past : List (List UInt8))
    (chunk : List UInt8) :
    unfinishedLine sym (past ++ [chunk]) =
      (splitLines sym (unfinishedLine sym past ++ chunk)).2 := by
  rw [unfinishedLine, List.flatten_append, splitLines_append]
  simp [unfinishedLine]

/-- The bytes of a round, with their pieces inside them. -/
def Round.Valid (r : Round) : Prop := ∃ pos, Takes r.received r.takes pos

theorem Round.Valid.length_eq
    (h : r.Valid) :
    r.received.length = r.cut + r.rest.length := by
  obtain ⟨pos, htakes⟩ := h
  have hle := htakes.le
  rw [Round.rest, List.length_drop, show r.cut = pos from htakes.cut_eq]
  omega

/-- A line is taken. -/
theorem Round.Valid.takeLine
    (h : r.Valid)
    {body rest : List UInt8}
    (hrest : r.rest = body ++ sym :: rest)
    (hbody : sym ∉ body) :
    Round.Valid { r with takes := r.takes ++ [.bySym sym] } ∧
      Round.cut { r with takes := r.takes ++ [.bySym sym] } = r.cut + body.length + 1 ∧
      Round.rest { r with takes := r.takes ++ [.bySym sym] } = rest := by
  obtain ⟨pos, htakes⟩ := h
  have hcut : r.cut = pos := htakes.cut_eq
  have hdrop : r.received.drop pos = body ++ sym :: rest := by
    rw [← hrest, Round.rest, hcut]
  have hmem : sym ∈ r.received.drop pos := by
    rw [hdrop]
    simp
  have hline := htakes.bySym hmem
  rw [hdrop, idxOf_line hbody] at hline
  have hcut' := hline.cut_eq
  refine ⟨⟨_, hline⟩, by rw [hcut', hcut], ?_⟩
  rw [Round.rest, hcut', Nat.add_assoc, ← List.drop_drop, hdrop, ← List.drop_drop, List.drop_left]
  rfl

/-- The lines that wait are taken, and the call that finds none begins the next round. -/
theorem halves_takeLines
    {n : Nat}
    (hvalid : r.Valid)
    (hbegin : r.rest = [] → r = ⟨[], []⟩)
    (hlines : r.rest.count sym = n) :
    MeetsAll Round.step Round.Halves r (List.replicate (n + 1) (.nextBySym sym) ++ more) ↔
      (0 < r.cut ∨ sym ∈ r.rest →
        2 * (splitLines sym r.rest).2.length ≤ r.received.length) ∧
        MeetsAll Round.step Round.Halves ⟨(splitLines sym r.rest).2, []⟩ more := by
  induction n generalizing r with
  | zero =>
      have hnone : sym ∉ r.rest := List.count_eq_zero.mp hlines
      have hlength := hvalid.length_eq
      rw [splitLines_of_not_mem hnone, Nat.zero_add, List.replicate_one, List.singleton_append,
        MeetsAll]
      simp only [Round.Halves, Round.step]
      by_cases hempty : r.rest = []
      · have hr := hbegin hempty
        subst hr
        simp [Round.cut, Round.rest]
      · rw [if_neg hempty, if_neg hnone]
        simp only [Option.some.injEq, forall_eq', hnone, not_false_eq_true, or_false, forall_const]
        refine and_congr_left fun _ => imp_congr_right fun _ => ?_
        omega
  | succ n ih =>
      have hmem : sym ∈ r.rest := List.count_pos_iff.mp (by omega)
      obtain ⟨body, rest, hrest, hbody⟩ := List.eq_append_cons_of_mem hmem
      obtain ⟨hvalid', hcut', hrest'⟩ := hvalid.takeLine hrest hbody
      have hne : r.rest ≠ [] := List.ne_nil_of_mem hmem
      have hcount : rest.count sym = n := by
        rw [hrest, List.count_append, List.count_cons_self,
          List.count_eq_zero.mpr hbody] at hlines
        omega
      have htail : (splitLines sym r.rest).2 = (splitLines sym rest).2 := by
        rw [hrest, splitLines_line hbody]
      rw [List.replicate_succ, List.cons_append, MeetsAll, htail]
      simp only [Round.Halves, Round.step, if_neg hne, hrest', Option.some.injEq,
        forall_eq', hmem, not_true_eq_false, false_implies, implies_true, true_and, or_true,
        forall_const]
      by_cases hlast : rest = []
      · -- the last line empties the buffer
        subst hlast
        have hstart := ih (r := ⟨[], []⟩) ⟨0, .none⟩ (fun _ => rfl) hcount
        rw [if_pos trivial, if_pos rfl, hstart]
        simp [Round.cut, Round.rest]
      · have hnext := ih hvalid' (fun hnil => absurd (hrest'.symm.trans hnil) hlast)
          (by rw [hrest', hcount])
        rw [if_pos trivial, if_neg hlast, hnext, hrest', hcut']
        simp

/-- One chunk. -/
theorem halves_readChunk
    {past : List (List UInt8)}
    {chunk : List UInt8}
    (hfits : (unfinishedLine sym past ++ chunk).length ≤ locbufSize) :
    MeetsAll Round.step Round.Halves ⟨unfinishedLine sym past, []⟩
        (.getFromfd chunk.length chunk ::
          (List.replicate (chunk.count sym + 1) (.nextBySym sym) ++ more)) ↔
      TailShort sym past chunk ∧
        MeetsAll Round.step Round.Halves ⟨unfinishedLine sym (past ++ [chunk]), []⟩ more := by
  have hnot : sym ∉ unfinishedLine sym past := not_mem_unfinishedLine past
  rw [unfinishedLine_concat, TailShort]
  generalize unfinishedLine sym past = waiting at hfits hnot
  have hdelivered : Round.delivered ⟨waiting, []⟩ chunk.length chunk = chunk := by
    rw [List.length_append] at hfits
    have hrest : Round.rest ⟨waiting, []⟩ = waiting := rfl
    rw [Round.delivered, hrest]
    split_ifs with hread
    · exact List.take_of_length_le (by omega)
    · have hnone : chunk.length = 0 := by omega
      exact (List.length_eq_zero_iff.mp hnone).symm
  have hrest : Round.rest ⟨waiting ++ chunk, []⟩ = waiting ++ chunk := rfl
  have hcount : (waiting ++ chunk).count sym = chunk.count sym := by
    rw [List.count_append, List.count_eq_zero.mpr hnot, Nat.zero_add]
  have hbegin : Round.rest ⟨waiting ++ chunk, []⟩ = [] →
      (⟨waiting ++ chunk, []⟩ : Round) = ⟨[], []⟩ := by
    rintro hnil
    rw [hrest] at hnil
    rw [hnil]
  have hlines := @halves_takeLines _ _ more _ ⟨0, .none⟩ hbegin (hrest ▸ hcount)
  rw [MeetsAll]
  simp only [Round.Halves, Round.step, hdelivered, ← List.length_append, if_pos hfits,
    Option.some.injEq, forall_eq', true_and]
  rw [hlines, hrest]
  refine and_congr_left fun _ => ?_
  have hflat := congrArg List.length (@flatten_splitLines _ _ sym (waiting ++ chunk))
  rw [List.length_append] at hflat
  have hnone : (splitLines sym (waiting ++ chunk)).1 = [] ↔ sym ∉ waiting ++ chunk := by
    rw [← List.length_eq_zero_iff, splitLines, length_splitFrom, List.count_eq_zero]
  have hcut : Round.cut ⟨waiting ++ chunk, []⟩ = 0 := rfl
  rw [hcut, hnone]
  by_cases hmem : sym ∈ waiting ++ chunk
  · simp only [hmem, or_true, not_true_eq_false, false_or, forall_const]
    omega
  · simp [hmem]

/-- All chunks. -/
theorem halves_readLines
    {past chunks : List (List UInt8)}
    (hfits : ∀ before chunk, before ++ [chunk] <+: chunks →
      (unfinishedLine sym (past ++ before) ++ chunk).length ≤ locbufSize) :
    MeetsAll Round.step Round.Halves ⟨unfinishedLine sym past, []⟩ (readLines sym chunks) ↔
      ∀ before chunk, before ++ [chunk] <+: chunks → TailShort sym (past ++ before) chunk := by
  induction chunks generalizing past with
  | nil =>
      refine iff_of_true trivial fun before chunk hprefix => ?_
      exact absurd (List.prefix_nil.mp hprefix) (by simp)
  | cons chunk chunks ih =>
      have hcalls : readLines sym (chunk :: chunks) =
          .getFromfd chunk.length chunk ::
            (List.replicate (chunk.count sym + 1) (.nextBySym sym) ++ readLines sym chunks) := by
        simp [readLines]
      have hfirst := hfits [] chunk (by simp)
      rw [List.append_nil] at hfirst
      have hshift (before : List (List UInt8)) :
          past ++ [chunk] ++ before = past ++ chunk :: before := by simp
      rw [hcalls, halves_readChunk hfirst, ih fun before chunk' hprefix => by
        rw [hshift]
        exact hfits (chunk :: before) chunk' (List.cons_prefix_cons.mpr ⟨rfl, hprefix⟩)]
      constructor
      · rintro ⟨hshort, hlater⟩ before chunk' hprefix
        cases before with
        | nil =>
            obtain ⟨rfl, -⟩ := List.cons_prefix_cons.mp hprefix
            rwa [List.append_nil]
        | cons chunk'' before =>
            obtain ⟨rfl, hbefore⟩ := List.cons_prefix_cons.mp hprefix
            rw [← hshift]
            exact hlater before chunk' hbefore
      · intro hall
        refine ⟨?_, fun before chunk' hprefix => ?_⟩
        · have hshort := hall [] chunk (by simp)
          rwa [List.append_nil] at hshort
        · rw [hshift]
          exact hall (chunk :: before) chunk' (List.cons_prefix_cons.mpr ⟨rfl, hprefix⟩)

end Lines

/-! ### Runs -/

theorem moves_iff_halves
    (calls : List StreamCall) :
    MeetsAll streamStep Locbuf.MoveDisjoint initLocbuf calls ↔
      MeetsAll Round.step Round.Halves ⟨[], []⟩ calls := by
  rw [moves_iff_shortRests]
  exact (meetsAll_iff_of_rel (fun _ _ c h => h.halves_iff c) (fun _ _ c h => h.step c)
    (Round.views_begin []) calls).symm

/-- **The moves inside the local buffer.**  From `init_locbuf`, in any order of the calls and
with any data, every `memcpy` copies between disjoint ranges exactly if, whenever a call finds no
piece, at least half of what was received in this round was taken, or nothing.  When all lines
are taken after each read, this says that no chunk completes lines that are shorter than the
unfinished one behind them. -/
theorem movesDisjoint_iff
    (calls : List StreamCall)
    (sym : UInt8)
    (reads : LineChunks sym) :
    (MeetsAll streamStep Locbuf.MoveDisjoint initLocbuf calls ↔
      MeetsAll Round.step Round.Halves ⟨[], []⟩ calls) ∧
      (MeetsAll streamStep Locbuf.MoveDisjoint initLocbuf (readLines sym reads.chunks) ↔
        ∀ past chunk, past ++ [chunk] <+: reads.chunks → TailShort sym past chunk) := by
  refine ⟨moves_iff_halves calls, ?_⟩
  rw [moves_iff_halves]
  exact @halves_readLines sym [] reads.chunks reads.fits

/-- A short line, and behind it the beginning of a longer one. -/
theorem longer_rest_overlaps :
    ¬ MeetsAll streamStep Locbuf.MoveDisjoint initLocbuf
      [.getFromfd 5 [0x41, 0x0d, 0x42, 0x43, 0x44], .nextBySym 0x0d, .nextBySym 0x0d] := by
  rintro ⟨-, hread⟩
  obtain ⟨-, hline⟩ := hread _ rfl
  obtain ⟨hmove, -⟩ := hline _ rfl
  exact absurd (hmove 2 3 rfl) (by decide)

end Scaled
end MatrixBin
