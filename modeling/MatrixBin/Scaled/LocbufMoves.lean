import Mathlib.Data.List.DropRight
import MatrixBin.Scaled.LocbufCalls

/-!
# The moves inside the local buffer (`locbuf.c`)

`next_by_sym`, `next_by_size` and `last_by_sym` bring the rest of the stream to the beginning of
`spc` with `memcpy`, which is defined for disjoint ranges only.

A `Window` is what the buffer shows of the stream, without positions: the bytes that were handed
out since the buffer was last at its beginning, and the bytes that wait.  `Locbuf.Shows` relates
the two, call by call, and `moves_iff_shortRests` carries the moves of a whole run over to it.
`LocbufRounds` says when they are disjoint in terms of the bytes received and the calls.
-/

namespace MatrixBin
namespace Scaled

open Library

/-- The calls of the buffer, with what a read that does not fail has to deliver. -/
inductive StreamCall
  | getFromfd (bytes : ℤ) (data : List UInt8)
  | nextBySym (sym : UInt8)
  | nextBySize (size : ℤ)
  | lastBySym (sym : UInt8)

def StreamCall.toCall : StreamCall → LocbufCall
  | .getFromfd bytes data => .getFromfd bytes (.bytes data)
  | .nextBySym sym => .nextBySym sym
  | .nextBySize size => .nextBySize size
  | .lastBySym sym => .lastBySym sym

/-- A call that leaves `spc`, or leaves `head` in front of it, is not defined. -/
def streamStep (b : Locbuf) (c : StreamCall) : Option Locbuf :=
  (b.call c.toCall).bind fun b' => if 0 ≤ b'.head then some b' else none

/-- The `memcpy` to `spc` that a call makes: the position of its source, and its size. -/
def Locbuf.memcpyOf (b : Locbuf) : StreamCall → Option (ℤ × ℤ)
  | .getFromfd _ _ => none
  | .nextBySym sym =>
      if b.count ≠ 0 ∧ b.scan sym (b.tail - b.head).toNat b.head = some none ∧ 0 < b.head then
        some (b.head, b.count)
      else none
  | .nextBySize size =>
      if b.count < size ∧ 0 < b.head then some (b.head, b.count) else none
  | .lastBySym sym =>
      if b.count = 0 then none
      else
        let q := b.count - 1
        (b.scanBack sym (q - b.head).toNat (q - 1)).bind fun found =>
          let p := found + 1
          if b.spc q.toNat ≠ sym ∧ 0 < p then some (p, q - p + 1) else none

/-- The source lies behind the target. -/
def Locbuf.MoveDisjoint (b : Locbuf) (c : StreamCall) : Prop :=
  ∀ p size, b.memcpyOf c = some (p, size) → size ≤ p

/-! ### The stream in the buffer -/

/-- The bytes that were handed out since the buffer was last at its beginning, and the bytes that
wait. -/
structure Window where
  handed : List UInt8
  waiting : List UInt8
deriving DecidableEq

def Window.bytes (w : Window) : List UInt8 := w.handed ++ w.waiting

/-- The part of the data that a read can deliver. -/
def Window.taken (w : Window) (bytes : ℤ) (data : List UInt8) : List UInt8 :=
  if w.waiting.length < locbufSize ∧ 0 < bytes then
    data.take (min (locbufSize - w.waiting.length) bytes.toNat)
  else []

/-- What `last_by_sym` looks at: the last of as many bytes as wait, counted from the beginning,
with the bytes in front of it back to the symbol, or to those that were handed out. -/
def Window.lastPiece (w : Window) (sym : UInt8) : List UInt8 :=
  let searched := (w.bytes.take (w.waiting.length - 1)).drop w.handed.length
  searched.rtakeWhile (· ≠ sym) ++ (w.bytes.drop (w.waiting.length - 1)).take 1

def Window.step (w : Window) : StreamCall → Option Window
  | .getFromfd bytes data =>
      if w.bytes.length + (w.taken bytes data).length ≤ locbufSize then
        some { w with waiting := w.waiting ++ w.taken bytes data }
      else none
  | .nextBySym sym =>
      some (
        if w.waiting = [] then w
        else if sym ∈ w.waiting then
          let len := w.waiting.idxOf sym + 1
          if w.waiting.drop len = [] then ⟨[], []⟩
          else ⟨w.handed ++ w.waiting.take len, w.waiting.drop len⟩
        else ⟨[], w.waiting⟩)
  | .nextBySize size =>
      if w.waiting.length < size then some ⟨[], w.waiting⟩
      else if 0 ≤ w.handed.length + size then
        let at' := (w.handed.length + size).toNat
        some ⟨w.bytes.take at', w.bytes.drop at'⟩
      else none
  | .lastBySym sym =>
      some (
        if w.waiting = [] then w
        else if (w.lastPiece sym).getLast? = some sym then ⟨[], []⟩
        else ⟨[], w.lastPiece sym⟩)

/-- A rest that is brought to the beginning is no longer than what lies in front of it: the bytes
that were handed out, or for `last_by_sym` the bytes up to the symbol. -/
def Window.ShortRest (w : Window) : StreamCall → Prop
  | .getFromfd _ _ => True
  | .nextBySym sym => w.handed ≠ [] → sym ∉ w.waiting → w.waiting.length ≤ w.handed.length
  | .nextBySize size =>
      w.handed ≠ [] → w.waiting.length < size → w.waiting.length ≤ w.handed.length
  | .lastBySym sym =>
      (w.lastPiece sym).length < w.waiting.length → (w.lastPiece sym).getLast? ≠ some sym →
        2 * (w.lastPiece sym).length ≤ w.waiting.length

/-- The buffer shows the window. -/
structure Locbuf.Shows (b : Locbuf) (w : Window) : Prop where
  holds : b.spc.Holds 0 w.bytes
  head_eq : b.head = w.handed.length
  tail_eq : b.tail = w.bytes.length
  count_eq : b.count = w.waiting.length
  inside : w.bytes.length ≤ locbufSize

section Moves

variable {b b' : Locbuf} {w : Window} {sym : UInt8}

/-- A move that stays inside the array. -/
theorem eq_of_load_store
    {α : Type*}
    {size off count : Nat}
    {m : Bytes}
    {f : Bytes → α}
    {x : α}
    (h : ((load size m off count).bind fun data => (store size m 0 data).map f) = some x) :
    x = f (m.write 0 (m.read off count)) := by
  obtain ⟨data, hload, hmap⟩ := Option.bind_eq_some_iff.mp h
  obtain ⟨spc, hstore, rfl⟩ := Option.map_eq_some_iff.mp hmap
  rw [load, Option.ite_none_right_eq_some] at hload
  rw [store, Option.ite_none_right_eq_some] at hstore
  obtain rfl := Option.some.inj hload.2
  rw [Option.some.inj hstore.2]

theorem Locbuf.compact_spc
    (h : b.compact = some b') :
    b'.spc = if 0 < b.head then b.spc.write 0 (b.spc.read b.head.toNat b.count.toNat)
      else b.spc := by
  rw [Locbuf.compact] at h
  split_ifs at h ⊢
  · exact congrArg Locbuf.spc (eq_of_load_store h)
  · rw [Option.some.inj h]

/-- What a call other than `get_fromfd` does to `spc`: its `memcpy`, if it makes one. -/
theorem Locbuf.call_spc
    {c : StreamCall}
    (hc : ∀ bytes data, c ≠ .getFromfd bytes data)
    (hcall : b.call c.toCall = some b') :
    b'.spc = match b.memcpyOf c with
      | some (p, size) => b.spc.write 0 (b.spc.read p.toNat size.toNat)
      | none => b.spc := by
  cases c with
  | getFromfd bytes data => exact absurd rfl (hc bytes data)
  | nextBySym sym =>
      obtain ⟨⟨found, b''⟩, hnext, rfl⟩ := Option.map_eq_some_iff.mp hcall
      rw [Locbuf.nextBySym] at hnext
      rw [Locbuf.memcpyOf]
      split_ifs at hnext with hcount
      · rw [if_neg (fun h => h.1 hcount)]
        exact congrArg Locbuf.spc (Prod.mk.inj (Option.some.inj hnext)).2.symm
      · obtain ⟨place, hscan, hrest⟩ := Option.bind_eq_some_iff.mp hnext
        cases place with
        | none =>
            obtain ⟨b₁, hcompact, heq⟩ := Option.map_eq_some_iff.mp hrest
            obtain ⟨-, rfl⟩ := Prod.mk.inj heq
            rw [Locbuf.compact_spc hcompact]
            by_cases hhead : 0 < b.head
            · rw [if_pos hhead, if_pos ⟨hcount, hscan, hhead⟩]
            · rw [if_neg hhead, if_neg (fun h => hhead h.2.2)]
        | some place =>
            rw [if_neg (fun h => absurd (hscan.symm.trans h.2.1) (by simp))]
            simp only [Option.some.injEq, Prod.mk.injEq] at hrest
            rw [← hrest.2]
            split_ifs
            · rfl
            · rfl
  | nextBySize size =>
      obtain ⟨⟨found, b''⟩, hnext, rfl⟩ := Option.map_eq_some_iff.mp hcall
      rw [Locbuf.nextBySize] at hnext
      rw [Locbuf.memcpyOf]
      split_ifs at hnext with hfew
      · obtain ⟨b₁, hcompact, heq⟩ := Option.map_eq_some_iff.mp hnext
        obtain ⟨-, rfl⟩ := Prod.mk.inj heq
        rw [Locbuf.compact_spc hcompact]
        by_cases hhead : 0 < b.head
        · rw [if_pos hhead, if_pos ⟨hfew, hhead⟩]
        · rw [if_neg hhead, if_neg (fun h => hhead h.2)]
      · rw [if_neg (fun h => hfew h.1), ← (Prod.mk.inj (Option.some.inj hnext)).2]
  | lastBySym sym =>
      obtain ⟨⟨found, b''⟩, hnext, rfl⟩ := Option.map_eq_some_iff.mp hcall
      rw [Locbuf.lastBySym] at hnext
      rw [Locbuf.memcpyOf]
      split_ifs at hnext ⊢ with hcount
      · exact congrArg Locbuf.spc (Prod.mk.inj (Option.some.inj hnext)).2.symm
      · obtain ⟨found, hscan, hrest⟩ := Option.bind_eq_some_iff.mp hnext
        simp only [hscan, Option.bind_some]
        simp only at hrest
        split_ifs at hrest with hq hsym hpos
        · rw [if_neg (fun h => h.1 hsym), ← (Prod.mk.inj (Option.some.inj hrest)).2]
        · rw [if_pos ⟨hsym, hpos⟩]
          exact congrArg (fun r => r.2.spc) (eq_of_load_store hrest)
        · rw [if_neg (fun h => hpos h.2), ← (Prod.mk.inj (Option.some.inj hrest)).2]

theorem initLocbuf_shows : initLocbuf.Shows ⟨[], []⟩ where
  holds := Bytes.holds_nil
  head_eq := rfl
  tail_eq := rfl
  count_eq := rfl
  inside := Nat.zero_le _

theorem Locbuf.Shows.has
    (h : b.Shows w) :
    b.Has w.waiting where
  head_nonneg := by
    rw [h.head_eq]
    exact Int.natCast_nonneg _
  tail_eq := by
    rw [h.tail_eq, h.head_eq, Window.bytes, List.length_append, Nat.cast_add]
  tail_le := by
    rw [h.tail_eq]
    exact_mod_cast h.inside
  count_eq := h.count_eq
  holds := by
    have hparts := Bytes.holds_append.mp h.holds
    rw [h.head_eq, Int.toNat_natCast, ← Nat.zero_add w.handed.length]
    exact hparts.2

/-- A buffer at its beginning. -/
theorem Locbuf.Has.shows
    {data : List UInt8}
    (h : b.Has data)
    (hhead : b.head = 0) :
    b.Shows ⟨[], data⟩ where
  holds := by
    have hholds := h.holds
    rw [hhead] at hholds
    exact hholds
  head_eq := hhead
  tail_eq := by
    rw [h.tail_eq, hhead, zero_add]
    rfl
  count_eq := h.count_eq
  inside := h.length_le

/-- The same bytes with the border elsewhere between those handed out and those that wait. -/
theorem Locbuf.Shows.recut
    (h : b.Shows w)
    {handed rest : List UInt8}
    (hbytes : handed ++ rest = w.bytes)
    (hspc : b'.spc = b.spc)
    (hhead : b'.head = handed.length)
    (htail : b'.tail = b.tail)
    (hcount : b'.count = rest.length) :
    b'.Shows ⟨handed, rest⟩ := by
  refine ⟨?_, hhead, ?_, hcount, ?_⟩
  · rw [Window.bytes, hbytes, hspc]
    exact h.holds
  · rw [Window.bytes, hbytes, htail, h.tail_eq]
  · rw [Window.bytes, hbytes]
    exact h.inside

theorem streamStep_of_call
    {c : StreamCall}
    (hcall : b.call c.toCall = some b')
    (hhead : 0 ≤ b'.head) :
    streamStep b c = some b' := by
  rw [streamStep, hcall, Option.bind_some, if_pos hhead]

/-- The bytes that a read delivers lie behind those of the window, if there is room. -/
theorem Locbuf.Shows.append
    (h : b.Shows w)
    {more : List UInt8}
    (hroom : w.bytes.length + more.length ≤ locbufSize) :
    ∃ b', b.append more = some b' ∧ b'.Shows { w with waiting := w.waiting ++ more } := by
  have hbytes : Window.bytes { w with waiting := w.waiting ++ more } = w.bytes ++ more :=
    (List.append_assoc _ _ _).symm
  obtain ⟨spc, hstore, hspc⟩ := h.holds.store_behind hroom
  refine ⟨{ b with tail := b.tail + more.length, count := b.count + more.length, spc := spc },
    ?_, ?_, h.head_eq, ?_, ?_, ?_⟩
  · rw [Locbuf.append, h.tail_eq, if_pos (Int.natCast_nonneg _), Int.toNat_natCast, hstore]
    rfl
  · rw [hbytes]
    exact hspc
  · rw [hbytes, List.length_append, Nat.cast_add, ← h.tail_eq]
  · rw [List.length_append, Nat.cast_add, ← h.count_eq]
  · rw [hbytes, List.length_append]
    exact hroom

theorem Locbuf.Shows.append_none
    (h : b.Shows w)
    {more : List UInt8}
    (hroom : ¬ w.bytes.length + more.length ≤ locbufSize) :
    b.append more = none := by
  rw [Locbuf.append, h.tail_eq, if_pos (Int.natCast_nonneg _), Int.toNat_natCast, store,
    if_neg hroom]
  rfl

/-- What `get_fromfd` does with the data. -/
theorem Locbuf.Shows.fill_eq
    (h : b.Shows w)
    (bytes : ℤ)
    (data : List UInt8) :
    (b.fill bytes (.bytes data)).map Prod.snd =
      if w.waiting.length < locbufSize ∧ 0 < bytes then b.append (w.taken bytes data)
      else some b := by
  have hrequest := h.has.request_eq bytes
  rw [Window.taken]
  split_ifs at hrequest ⊢ with hread
  · rw [Locbuf.fill, Locbuf.getFromfd, hrequest, ReadResult.upTo, Option.getD_some]
    simp only
    rw [if_pos (by rw [List.length_take]; exact Nat.min_le_left _ _), Option.map_map]
    exact Option.map_id'
  · rw [Locbuf.fill_of_request_none hrequest]
    rfl

theorem Locbuf.Shows.getFromfd
    (h : b.Shows w)
    (bytes : ℤ)
    (data : List UInt8) :
    Option.Rel Locbuf.Shows (streamStep b (.getFromfd bytes data))
      (w.step (.getFromfd bytes data)) := by
  have hfill := h.fill_eq bytes data
  have hcall : b.call (StreamCall.getFromfd bytes data).toCall =
      (b.fill bytes (.bytes data)).map Prod.snd := rfl
  by_cases hroom : w.bytes.length + (w.taken bytes data).length ≤ locbufSize
  · rw [Window.step, if_pos hroom]
    by_cases hread : w.waiting.length < locbufSize ∧ 0 < bytes
    · obtain ⟨b', happend, hshows⟩ := h.append hroom
      rw [if_pos hread, happend, ← hcall] at hfill
      rw [streamStep_of_call hfill hshows.has.head_nonneg]
      exact Option.Rel.some hshows
    · have htaken : w.taken bytes data = [] := if_neg hread
      rw [if_neg hread, ← hcall] at hfill
      rw [streamStep_of_call hfill h.has.head_nonneg, htaken, List.append_nil]
      exact Option.Rel.some h
  · rw [Window.step, if_neg hroom]
    have hread : w.waiting.length < locbufSize ∧ 0 < bytes := by
      by_contra hno
      have htaken : w.taken bytes data = [] := if_neg hno
      rw [htaken] at hroom
      exact hroom h.inside
    rw [if_pos hread, h.append_none hroom] at hfill
    rw [streamStep, hcall, hfill]
    exact Option.Rel.none

theorem Locbuf.Shows.nextBySym
    (h : b.Shows w)
    (sym : UInt8) :
    Option.Rel Locbuf.Shows (streamStep b (.nextBySym sym)) (w.step (.nextBySym sym)) := by
  have hcall : b.call (StreamCall.nextBySym sym).toCall = (b.nextBySym sym).map Prod.snd := rfl
  rw [Window.step]
  by_cases hempty : w.waiting = []
  · have hcount : b.count = 0 := by rw [h.count_eq, hempty]; rfl
    have hnext : b.call (StreamCall.nextBySym sym).toCall = some b := by
      rw [hcall, Locbuf.nextBySym, if_pos hcount]
      rfl
    rw [if_pos hempty, streamStep_of_call hnext h.has.head_nonneg]
    exact Option.Rel.some h
  · rw [if_neg hempty]
    by_cases hsym : sym ∈ w.waiting
    · obtain ⟨body, rest, hwaiting, hbody⟩ := List.eq_append_cons_of_mem hsym
      have hline := h.has
      rw [hwaiting] at hline
      obtain ⟨b', hnext, hrest, -, -, hspc, hreset, hmore⟩ := hline.nextBySym_line hbody
      have hsplit : w.waiting = (body ++ [sym]) ++ rest := by
        rw [hwaiting, List.append_assoc]
        rfl
      have hlen : w.waiting.idxOf sym + 1 = (body ++ [sym]).length := by
        rw [hwaiting, idxOf_line hbody, List.length_append, List.length_singleton]
      have hstep : streamStep b (.nextBySym sym) = some b' :=
        streamStep_of_call (by rw [hcall, hnext]; rfl) hrest.head_nonneg
      rw [if_pos hsym, hstep, hlen]
      have hdrop : w.waiting.drop (body ++ [sym]).length = rest := by
        rw [hsplit, List.drop_left]
      have htake : w.waiting.take (body ++ [sym]).length = body ++ [sym] := by
        rw [hsplit, List.take_left]
      simp only [hdrop, htake]
      split_ifs with hlast
      · rw [hlast] at hrest
        exact Option.Rel.some (hrest.shows (hreset hlast))
      · have hhead := hmore hlast
        refine Option.Rel.some (h.recut ?_ hspc ?_ ?_ hrest.count_eq)
        · rw [List.append_assoc, ← hsplit]
          rfl
        · rw [hhead, h.head_eq]
          simp only [List.length_append, List.length_singleton, Nat.cast_add, Nat.cast_one]
          ring
        · rw [hrest.tail_eq, hhead, hline.tail_eq]
          simp only [List.length_append, List.length_cons, Nat.cast_add, Nat.cast_one]
          ring
    · obtain ⟨b', hnext, hhas, hhead⟩ :=
        h.has.nextBySym_none hsym fun hnone => absurd hnone hempty
      have hstep : streamStep b (.nextBySym sym) = some b' :=
        streamStep_of_call (by rw [hcall, hnext]; rfl) hhas.head_nonneg
      rw [if_neg hsym, hstep]
      exact Option.Rel.some (hhas.shows hhead)

theorem Locbuf.Shows.nextBySize
    (h : b.Shows w)
    (size : ℤ) :
    Option.Rel Locbuf.Shows (streamStep b (.nextBySize size)) (w.step (.nextBySize size)) := by
  have hcall : b.call (StreamCall.nextBySize size).toCall = (b.nextBySize size).map Prod.snd := rfl
  rw [Window.step]
  by_cases hfew : w.waiting.length < size
  · obtain ⟨b', hcompact, hhas, hhead⟩ := h.has.compact
    have hnext : b.call (StreamCall.nextBySize size).toCall = some b' := by
      rw [hcall, Locbuf.nextBySize, if_pos (by rw [h.count_eq]; exact hfew), hcompact]
      rfl
    rw [if_pos hfew, streamStep_of_call hnext hhas.head_nonneg]
    exact Option.Rel.some (hhas.shows hhead)
  · have hnext : b.call (StreamCall.nextBySize size).toCall =
        some { b with head := b.head + size, count := b.count - size } := by
      rw [hcall, Locbuf.nextBySize, if_neg (by rw [h.count_eq]; exact hfew)]
      rfl
    have hbytes : w.bytes.length = w.handed.length + w.waiting.length := List.length_append
    rw [if_neg hfew, streamStep, hnext, Option.bind_some]
    simp only [h.head_eq]
    split_ifs with hhead
    · refine Option.Rel.some (h.recut (List.take_append_drop _ _) rfl ?_ rfl ?_)
      · simp only [List.length_take]
        omega
      · simp only [h.count_eq, List.length_drop]
        omega
    · exact Option.Rel.none

/-! ### `last_by_sym` -/

/-- The search backwards stops in front of the longest piece without the symbol. -/
theorem Locbuf.scanBack_rtakeWhile
    (b : Locbuf)
    (sym : UInt8)
    {off : Nat}
    {data : List UInt8}
    (hholds : b.spc.Holds off data)
    (hsize : off + data.length ≤ locbufSize) :
    b.scanBack sym data.length (off + data.length - 1) =
      some ((off : ℤ) + data.length - 1 - (data.rtakeWhile (· ≠ sym)).length) := by
  induction data using List.reverseRecOn with
  | nil => simp [Locbuf.scanBack]
  | append_singleton data c ih =>
      obtain ⟨hdata, hc⟩ := Bytes.holds_append.mp hholds
      have hbyte : b.spc (off + data.length) = c := by
        simpa using (hc 0 (by simp)).symm
      rw [List.length_append, List.length_singleton] at hsize
      have hp : (off : ℤ) + ((data.length + 1 : ℕ) : ℤ) - 1 = ((off + data.length : ℕ) : ℤ) := by
        push_cast
        ring
      rw [List.length_append, List.length_singleton, Locbuf.scanBack, hp, Int.toNat_natCast,
        if_pos (by omega), hbyte, List.rtakeWhile_concat]
      by_cases hsym : c = sym
      · simp [hsym]
      · rw [if_neg hsym, if_pos (by simpa using hsym), Nat.cast_add, ih hdata (by omega),
          List.length_append, List.length_singleton]
        congr 1
        push_cast
        ring

/-- Where the piece lies that `last_by_sym` looks at. -/
theorem Window.lastPiece_split
    (sym : UInt8)
    (hwaiting : w.waiting ≠ []) :
    ∃ front kept last rest, w.bytes = front ++ (kept ++ [last]) ++ rest ∧
      kept = ((w.bytes.take (w.waiting.length - 1)).drop w.handed.length).rtakeWhile (· ≠ sym) ∧
      w.lastPiece sym = kept ++ [last] ∧
      front.length + kept.length + 1 = w.waiting.length := by
  have hpos := List.length_pos_iff.mpr hwaiting
  have hbytes : w.bytes.length = w.handed.length + w.waiting.length := List.length_append
  obtain ⟨last, rest, hlast⟩ : ∃ last rest, w.bytes.drop (w.waiting.length - 1) = last :: rest :=
    List.exists_cons_of_length_pos (by rw [List.length_drop]; omega)
  have hlen : (w.bytes.take (w.waiting.length - 1)).length = w.waiting.length - 1 := by
    rw [List.length_take]
    omega
  generalize hkept : ((w.bytes.take (w.waiting.length - 1)).drop w.handed.length).rtakeWhile
    (· ≠ sym) = kept
  obtain ⟨front, hfront⟩ : kept <:+ w.bytes.take (w.waiting.length - 1) := by
    rw [← hkept]
    exact (List.rtakeWhile_suffix _ _).trans (List.drop_suffix _ _)
  refine ⟨front, kept, last, rest, ?_, rfl, ?_, ?_⟩
  · rw [← List.append_assoc, hfront, List.append_assoc, List.singleton_append, ← hlast,
      List.take_append_drop]
  · simp only [Window.lastPiece]
    rw [hkept, hlast]
    rfl
  · rw [← hfront, List.length_append] at hlen
    omega

/-- The search of `last_by_sym` ends in front of that piece. -/
theorem Locbuf.Shows.scanBack
    (h : b.Shows w)
    {front kept : List UInt8}
    (hkept : kept =
      ((w.bytes.take (w.waiting.length - 1)).drop w.handed.length).rtakeWhile (· ≠ sym))
    (hlen : front.length + kept.length + 1 = w.waiting.length) :
    b.scanBack sym (b.count - 1 - b.head).toNat (b.count - 1 - 1) =
      some ((front.length : ℤ) - 1) := by
  have htotal : w.bytes.length = w.handed.length + w.waiting.length := List.length_append
  have hinside := h.inside
  generalize hsearched : (w.bytes.take (w.waiting.length - 1)).drop w.handed.length = searched
    at hkept
  have hlength : searched.length = w.waiting.length - 1 - w.handed.length := by
    rw [← hsearched, List.length_drop, List.length_take]
    omega
  have hcount : (b.count - 1 - b.head).toNat = searched.length := by
    rw [h.count_eq, h.head_eq, hlength]
    omega
  rw [hcount]
  by_cases hnone : searched = []
  · have hkept' : kept = [] := by rw [hkept, hnone, List.rtakeWhile_nil]
    rw [hkept', List.length_nil] at hlen
    rw [hnone, List.length_nil, Locbuf.scanBack, h.count_eq]
    congr 1
    omega
  · have hpos := List.length_pos_iff.mpr hnone
    have hholds : b.spc.Holds w.handed.length searched := by
      intro i hi
      have hat := h.holds (w.handed.length + i) (by omega)
      rw [← hsearched, List.getElem?_drop, List.getElem?_take, if_pos (by omega), hat, Nat.zero_add]
    have hscan := b.scanBack_rtakeWhile sym hholds (by omega)
    rw [← hkept] at hscan
    have hp : b.count - 1 - 1 = (w.handed.length : ℤ) + searched.length - 1 := by
      rw [h.count_eq]
      omega
    rw [hp, hscan]
    congr 1
    omega

/-- `last_by_sym`, with the piece and what lies in front of it. -/
theorem Locbuf.Shows.lastBySym_eq
    (h : b.Shows w)
    {front kept rest : List UInt8}
    {last : UInt8}
    (hbytes : w.bytes = front ++ (kept ++ [last]) ++ rest)
    (hscan : b.scanBack sym (b.count - 1 - b.head).toNat (b.count - 1 - 1) =
      some ((front.length : ℤ) - 1))
    (hlen : front.length + kept.length + 1 = w.waiting.length) :
    b.spc (b.count - 1).toNat = last ∧
      (b.lastBySym sym).map Prod.snd = some (
        if last = sym then { b with count := 0, head := 0, tail := 0 }
        else ⟨(kept ++ [last]).length, 0, (kept ++ [last]).length,
          if 0 < front.length then b.spc.write 0 (kept ++ [last]) else b.spc⟩) := by
  have hinside := h.inside
  have htotal := congrArg List.length hbytes
  simp only [List.length_append, List.length_singleton] at htotal
  have hcount : b.count ≠ 0 := by
    rw [h.count_eq]
    omega
  have hq : b.count - 1 = ((front.length + kept.length : ℕ) : ℤ) := by
    rw [h.count_eq]
    omega
  have hholds := h.holds
  rw [hbytes, Bytes.holds_append, Bytes.holds_append, Nat.zero_add] at hholds
  obtain ⟨⟨-, hpiece⟩, -⟩ := hholds
  have hlast : b.spc (front.length + kept.length) = last := by
    exact (Bytes.holds_append.mp hpiece).2.head.1
  have hsize : ((front.length + kept.length : ℕ) : ℤ) - (front.length : ℤ) + 1 =
      ((kept ++ [last]).length : ℤ) := by
    simp only [List.length_append, List.length_singleton]
    push_cast
    ring
  rw [hq] at hscan ⊢
  refine ⟨hlast, ?_⟩
  rw [Locbuf.lastBySym, if_neg hcount]
  simp only [hq, hscan, Option.bind_some, sub_add_cancel, hsize, Int.toNat_natCast, hlast]
  have hinside' : (front.length + kept.length : ℕ) < (locbufSize : ℤ) := by omega
  rw [if_pos ⟨Int.natCast_nonneg _, hinside'⟩]
  split_ifs with hsym hpos hpos' hpos'
  · rfl
  · have hfits : front.length + (kept ++ [last]).length ≤ locbufSize := by
      simp only [List.length_append, List.length_singleton]
      omega
    rw [load_eq hpiece hfits, Option.bind_some, store_eq (by omega)]
    rfl
  · omega
  · omega
  · rfl

theorem Locbuf.Shows.lastBySym
    (h : b.Shows w)
    (sym : UInt8) :
    Option.Rel Locbuf.Shows (streamStep b (.lastBySym sym)) (w.step (.lastBySym sym)) := by
  have hcall : b.call (StreamCall.lastBySym sym).toCall = (b.lastBySym sym).map Prod.snd := rfl
  rw [Window.step]
  by_cases hempty : w.waiting = []
  · have hcount : b.count = 0 := by rw [h.count_eq, hempty]; rfl
    have hnext : b.call (StreamCall.lastBySym sym).toCall = some b := by
      rw [hcall, Locbuf.lastBySym, if_pos hcount]
      rfl
    rw [if_pos hempty, streamStep_of_call hnext h.has.head_nonneg]
    exact Option.Rel.some h
  · obtain ⟨front, kept, last, rest, hbytes, hkept, hpiece, hlen⟩ :=
      Window.lastPiece_split sym hempty
    have hlast := (h.lastBySym_eq hbytes (h.scanBack hkept hlen) hlen).2
    have hinside := h.inside
    have hfits : (kept ++ [last]).length ≤ locbufSize := by
      rw [hbytes, List.length_append, List.length_append] at hinside
      omega
    rw [← hcall] at hlast
    rw [if_neg hempty, hpiece, List.getLast?_concat]
    by_cases hsym : last = sym
    · rw [if_pos hsym] at hlast
      rw [if_pos (congrArg some hsym), streamStep_of_call hlast (le_refl 0)]
      exact Option.Rel.some ⟨Bytes.holds_nil, rfl, rfl, rfl, Nat.zero_le _⟩
    · rw [if_neg hsym] at hlast
      rw [if_neg (fun heq => hsym (Option.some.inj heq)), streamStep_of_call hlast (le_refl 0)]
      refine Option.Rel.some ⟨?_, rfl, rfl, rfl, hfits⟩
      simp only [Window.bytes, List.nil_append]
      split_ifs with hpos
      · exact Bytes.holds_write
      · have hfront : front = [] := List.length_eq_zero_iff.mp (by omega)
        have hholds := h.holds
        rw [hbytes, hfront, List.nil_append] at hholds
        exact (Bytes.holds_append.mp hholds).1

/-- **One call.**  The buffer and the window go on together. -/
theorem Locbuf.Shows.step
    (h : b.Shows w)
    (c : StreamCall) :
    Option.Rel Locbuf.Shows (streamStep b c) (w.step c) := by
  cases c with
  | getFromfd bytes data => exact h.getFromfd bytes data
  | nextBySym sym => exact h.nextBySym sym
  | nextBySize size => exact h.nextBySize size
  | lastBySym sym => exact h.lastBySym sym

theorem Locbuf.Shows.scan_eq
    (h : b.Shows w)
    (sym : UInt8) :
    b.scan sym (b.tail - b.head).toNat b.head = some none ↔ sym ∉ w.waiting := by
  have hhas := h.has
  have hlen : (b.tail - b.head).toNat = w.waiting.length := by
    rw [hhas.tail_eq]
    omega
  have hinside : b.head + w.waiting.length ≤ locbufSize := by
    rw [← hhas.tail_eq]
    exact hhas.tail_le
  rw [hlen, Locbuf.scan_eq hhas.head_nonneg hinside hhas.holds]
  split_ifs with hmem
  · exact iff_of_false (by simp) (not_not.mpr hmem)
  · exact iff_of_true rfl hmem

theorem Locbuf.Shows.head_pos_iff
    (h : b.Shows w) :
    0 < b.head ↔ w.handed ≠ [] := by
  rw [h.head_eq, ← List.length_pos_iff]
  exact Int.natCast_pos

/-- The source of a move lies behind its target exactly if the rest is short. -/
theorem Locbuf.Shows.moveDisjoint_iff
    (h : b.Shows w)
    (c : StreamCall) :
    b.MoveDisjoint c ↔ w.ShortRest c := by
  -- a rest that is moved from `head`
  have hrest : ∀ {moves : Prop} [Decidable moves],
      (∀ p size, (if moves then some (b.head, b.count) else none) = some (p, size) → size ≤ p) ↔
        (moves → w.waiting.length ≤ w.handed.length) := by
    intro moves _
    rw [← Int.ofNat_le, ← h.head_eq, ← h.count_eq]
    split_ifs with hmoves
    · simp [hmoves]
    · simp [hmoves]
  cases c with
  | getFromfd bytes data =>
      exact iff_of_true (fun p size hno => absurd hno (by simp [Locbuf.memcpyOf])) trivial
  | nextBySym sym =>
      rw [Locbuf.MoveDisjoint, Locbuf.memcpyOf, hrest, h.scan_eq, h.head_pos_iff]
      constructor
      · intro hshort hhanded hsym
        by_cases hcount : b.count = 0
        · rw [h.count_eq] at hcount
          omega
        · exact hshort ⟨hcount, hsym, hhanded⟩
      · rintro hshort ⟨-, hsym, hhanded⟩
        exact hshort hhanded hsym
  | nextBySize size =>
      rw [Locbuf.MoveDisjoint, Locbuf.memcpyOf, hrest, h.head_pos_iff, h.count_eq]
      exact ⟨fun hshort hhanded hfew => hshort ⟨hfew, hhanded⟩,
        fun hshort hmoves => hshort hmoves.2 hmoves.1⟩
  | lastBySym sym =>
      rw [Locbuf.MoveDisjoint, Locbuf.memcpyOf, Window.ShortRest]
      by_cases hempty : w.waiting = []
      · have hcount : b.count = 0 := by rw [h.count_eq, hempty]; rfl
        rw [if_pos hcount, hempty]
        exact iff_of_true (fun p size hno => absurd hno (by simp))
          (fun hlt => absurd hlt (Nat.not_lt_zero _))
      · obtain ⟨front, kept, last, rest, hbytes, hkept, hpiece, hlen⟩ :=
          Window.lastPiece_split sym hempty
        have hscan := h.scanBack hkept hlen
        have hlast := (h.lastBySym_eq hbytes hscan hlen).1
        have hcount : b.count = (front.length : ℤ) + kept.length + 1 := by
          rw [h.count_eq]
          omega
        have hnonzero : b.count ≠ 0 := by omega
        rw [if_neg hnonzero, hpiece, List.getLast?_concat]
        simp only [hscan, Option.bind_some, hlast, sub_add_cancel, List.length_append,
          List.length_singleton, Option.ite_none_right_eq_some, Option.some.injEq, Prod.mk.injEq]
        constructor
        · intro hshort hfew hsym
          have := hshort _ _ ⟨⟨by simpa using hsym, by omega⟩, rfl, rfl⟩
          omega
        · rintro hshort p size ⟨⟨hsym, hpos⟩, rfl, rfl⟩
          have := hshort (by omega) (by simpa using hsym)
          omega

end Moves

/-! ### Runs -/

/-- The moves of a run, on the window. -/
theorem moves_iff_shortRests
    (calls : List StreamCall) :
    MeetsAll streamStep Locbuf.MoveDisjoint initLocbuf calls ↔
      MeetsAll Window.step Window.ShortRest ⟨[], []⟩ calls :=
  meetsAll_iff_of_rel (fun _ _ c h => h.moveDisjoint_iff c) (fun _ _ c h => h.step c)
    initLocbuf_shows calls

end Scaled
end MatrixBin
