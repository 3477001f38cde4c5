import MatrixBin.Library.TransitionRuns
import MatrixBin.Scaled.Locbuf

/-!
# All calls of the local buffer (`locbuf.c`)

`next_by_size`, `last_by_sym` and `purge_sysbuf`, beside the calls of `Locbuf`, and runs of
the five calls in any order from `init_locbuf`, with any outcome of the reads.

The representation invariant `Locbuf.Rep` is kept by `next_by_sym` and `last_by_sym`
whatever the state.  `Locbuf.RoomFor` says when the other calls keep it; `repKept_iff` is
exact for every run.
-/

namespace MatrixBin
namespace Scaled

open Library

/-! ### The calls -/

/-- `read` delivers any part of what was asked, or fails. -/
def ReadResult.upTo (len : Nat) : ReadResult → ReadResult
  | .failed => .failed
  | .bytes data => .bytes (data.take len)

/-- `get_fromfd` with an outcome that its `read` can have. -/
def Locbuf.fill (b : Locbuf) (bytes : ℤ) (result : ReadResult) : Option (ℤ × Locbuf) :=
  b.getFromfd bytes (result.upTo ((b.request bytes).getD 0))

/-- `next_by_size` -/
def Locbuf.nextBySize (b : Locbuf) (size : ℤ) : Option (Option ℤ × Locbuf) :=
  if b.count < size then b.compact.map fun b' => (none, b')
  else some (some b.head, { b with head := b.head + size, count := b.count - size })

/-- The loop of `last_by_sym`: backwards over at most `k` positions to the symbol. -/
def Locbuf.scanBack (b : Locbuf) (sym : UInt8) : Nat → ℤ → Option ℤ
  | 0, p => some p
  | k + 1, p =>
      if 0 ≤ p ∧ p < locbufSize then
        if b.spc p.toNat = sym then some p else b.scanBack sym k (p - 1)
      else none

/-- `last_by_sym`: the position or NULL, and the size.  The search begins at the byte with
the number `count` from `spc`, wherever `head` is. -/
def Locbuf.lastBySym (b : Locbuf) (sym : UInt8) : Option ((Option ℤ × ℤ) × Locbuf) :=
  if b.count = 0 then some ((none, 0), b)
  else
    let q := b.count - 1
    (b.scanBack sym (q - b.head).toNat (q - 1)).bind fun found =>
      let p := found + 1
      let size := q - p + 1
      if 0 ≤ q ∧ q < locbufSize then
        if b.spc q.toNat = sym then
          some ((some p, size), { b with count := 0, head := 0, tail := 0 })
        else if 0 < p then
          (load locbufSize b.spc p.toNat size.toNat).bind fun data =>
            (store locbufSize b.spc 0 data).map fun spc => ((none, size), ⟨size, 0, size, spc⟩)
        else some ((none, size), { b with count := size, head := 0, tail := size })
      else none

/-- `while( next_by_sym(b,sym,&m)!=NULL ) ;` -/
def Locbuf.drainSym (sym : UInt8) : Nat → Locbuf → Option Locbuf
  | 0, _ => none
  | k + 1, b =>
      (b.nextBySym sym).bind fun (found, b') =>
        match found with
        | some _ => b'.drainSym sym k
        | none => some b'

/-- Each line takes a byte off the count, so this many calls of `next_by_sym` are enough. -/
def Locbuf.drain (b : Locbuf) (sym : UInt8) : Option Locbuf := b.drainSym sym (b.count.toNat + 1)

/-- `purge_sysbuf`, with the results of its reads; a read behind the last of them finds
nothing. -/
def Locbuf.purgeSysbuf (sym : UInt8) : List ReadResult → ℤ → Locbuf → Option Locbuf
  | [], bytes, b => (b.fill bytes (.bytes [])).map Prod.snd
  | result :: rest, bytes, b =>
      (b.fill bytes result).bind fun (n, b') =>
        if 0 < n then (b'.drain sym).bind fun b'' => b''.purgeSysbuf sym rest (bytes - n)
        else some b'

inductive LocbufCall
  | getFromfd (bytes : ℤ) (result : ReadResult)
  | nextBySym (sym : UInt8)
  | nextBySize (size : ℤ)
  | lastBySym (sym : UInt8)
  | purgeSysbuf (sym : UInt8) (bytes : ℤ) (results : List ReadResult)

/-- The buffer after a call; `none` if the call leaves `spc`. -/
def Locbuf.call (b : Locbuf) : LocbufCall → Option Locbuf
  | .getFromfd bytes result => (b.fill bytes result).map Prod.snd
  | .nextBySym sym => (b.nextBySym sym).map Prod.snd
  | .nextBySize size => (b.nextBySize size).map Prod.snd
  | .lastBySym sym => (b.lastBySym sym).map Prod.snd
  | .purgeSysbuf sym bytes results => b.purgeSysbuf sym results bytes

/-! ### The representation invariant -/

structure Locbuf.Rep (b : Locbuf) : Prop where
  head_nonneg : 0 ≤ b.head
  head_le : b.head ≤ b.tail
  tail_le : b.tail ≤ locbufSize
  count_eq : b.count = b.tail - b.head

theorem Locbuf.Has.rep
    {b : Locbuf}
    {data : List UInt8}
    (h : b.Has data) :
    b.Rep where
  head_nonneg := h.head_nonneg
  head_le := by
    have := h.tail_eq
    omega
  tail_le := h.tail_le
  count_eq := by
    have := h.tail_eq
    have := h.count_eq
    omega

section Calls

variable {b : Locbuf} {sym : UInt8}

theorem Locbuf.Rep.count_nonneg
    (h : b.Rep) :
    0 ≤ b.count := by
  have := h.head_le
  have := h.count_eq
  omega

/-- Within the invariant the buffer holds the bytes between the two pointers. -/
theorem Locbuf.Rep.has
    (h : b.Rep) :
    b.Has (b.spc.read b.head.toNat b.count.toNat) := by
  have hcount := h.count_nonneg
  have heq := h.count_eq
  refine ⟨h.head_nonneg, ?_, h.tail_le, ?_, ?_⟩
  · rw [Bytes.length_read]
    omega
  · rw [Bytes.length_read]
    omega
  · intro i hi
    rw [Bytes.length_read] at hi
    simp [Bytes.read, hi]

theorem Locbuf.Rep.compact
    (h : b.Rep) :
    ∃ b', b.compact = some b' ∧ b'.Rep := by
  obtain ⟨b', hcompact, hhas, -⟩ := h.has.compact
  exact ⟨b', hcompact, hhas.rep⟩

/-- `next_by_sym` keeps the invariant; a line takes bytes off the count. -/
theorem Locbuf.Rep.nextBySym
    (h : b.Rep)
    (sym : UInt8) :
    ∃ found b', b.nextBySym sym = some (found, b') ∧ b'.Rep ∧
      (found.isSome → b'.count < b.count) := by
  have hhas := h.has
  by_cases hcount : b.count = 0
  · exact ⟨none, b, if_pos hcount, h, by simp⟩
  · generalize hdata : b.spc.read b.head.toNat b.count.toNat = data at hhas
    by_cases hsym : sym ∈ data
    · obtain ⟨body, rest, rfl, hbody⟩ := List.eq_append_cons_of_mem hsym
      obtain ⟨b', hnext, hrest, -⟩ := hhas.nextBySym_line hbody
      refine ⟨_, b', hnext, hrest.rep, fun _ => ?_⟩
      rw [hrest.count_eq, hhas.count_eq, List.length_append, List.length_cons]
      omega
    · have hempty : data = [] → b.head = 0 := by
        rintro rfl
        exact absurd hhas.count_eq hcount
      obtain ⟨b', hnext, hrest, -⟩ := hhas.nextBySym_none hsym hempty
      exact ⟨none, b', hnext, hrest.rep, by simp⟩

/-- The loop over `next_by_sym` ends. -/
theorem Locbuf.Rep.drainSym
    (h : b.Rep)
    {k : Nat}
    (hk : b.count < k) :
    ∃ b', b.drainSym sym k = some b' ∧ b'.Rep := by
  induction k generalizing b with
  | zero =>
      have := h.count_nonneg
      omega
  | succ k ih =>
      obtain ⟨found, b', hnext, hrep, hless⟩ := h.nextBySym sym
      rw [Locbuf.drainSym, hnext, Option.bind_some]
      cases found with
      | none => exact ⟨b', rfl, hrep⟩
      | some line =>
          have := hless rfl
          exact ih hrep (by omega)

theorem Locbuf.Rep.drain
    (h : b.Rep)
    (sym : UInt8) :
    ∃ b', b.drain sym = some b' ∧ b'.Rep := by
  have := h.count_nonneg
  exact h.drainSym (by omega)

/-- Where the search backwards ends: at the last symbol, or in front of the range. -/
theorem Locbuf.scanBack_eq
    (b : Locbuf)
    (sym : UInt8)
    {k : Nat}
    {p : ℤ}
    (hlow : (k : ℤ) ≤ p + 1)
    (hhigh : p < locbufSize) :
    ∃ r, b.scanBack sym k p = some r ∧ p - k ≤ r ∧ r ≤ p ∧
      (∀ i, r < i → i ≤ p → b.spc i.toNat ≠ sym) ∧
      (r = p - k ∨ p - k < r ∧ b.spc r.toNat = sym) := by
  induction k generalizing p with
  | zero => exact ⟨p, rfl, by omega, le_refl p, fun i hi hi' => by omega, Or.inl (by omega)⟩
  | succ k ih =>
      rw [Locbuf.scanBack, if_pos (by omega)]
      by_cases hsym : b.spc p.toNat = sym
      · rw [if_pos hsym]
        exact ⟨p, rfl, by omega, le_refl p, fun i hi hi' => by omega, Or.inr ⟨by omega, hsym⟩⟩
      · rw [if_neg hsym]
        obtain ⟨r, hr, hle, hle', hnone, hend⟩ := ih (p := p - 1) (by omega) (by omega)
        refine ⟨r, hr, by omega, by omega, ?_, ?_⟩
        · intro i hi hi'
          rcases eq_or_lt_of_le hi' with rfl | hlt
          · exact hsym
          · exact hnone i hi (by omega)
        · rcases hend with rfl | ⟨hlt, hend⟩
          · exact Or.inl (by omega)
          · exact Or.inr ⟨by omega, hend⟩

/-- `last_by_sym` keeps the invariant, also where `head` is not at `spc` and the search
begins at the wrong byte. -/
theorem Locbuf.Rep.lastBySym
    (h : b.Rep)
    (sym : UInt8) :
    ∃ r, b.lastBySym sym = some r ∧ r.2.Rep := by
  obtain ⟨hhead, hle, htail, hcount⟩ := h
  rw [Locbuf.lastBySym]
  by_cases hzero : b.count = 0
  · exact ⟨_, if_pos hzero, hhead, hle, htail, hcount⟩
  · obtain ⟨r, hr, hlow, hhigh, -⟩ := b.scanBack_eq sym
      (k := (b.count - 1 - b.head).toNat) (p := b.count - 1 - 1) (by omega) (by omega)
    rw [if_neg hzero]
    simp only [hr, Option.bind_some]
    rw [if_pos (by omega)]
    split
    · exact ⟨_, rfl, le_refl 0, le_refl 0, by simp, rfl⟩
    · split
      · rename_i hpos
        have hload : load locbufSize b.spc (r + 1).toNat (b.count - 1 - (r + 1) + 1).toNat =
            some (b.spc.read (r + 1).toNat (b.count - 1 - (r + 1) + 1).toNat) :=
          if_pos (by omega)
        rw [hload, Option.bind_some, store_eq (by rw [Bytes.length_read]; omega)]
        refine ⟨_, rfl, le_refl 0, ?_, ?_, ?_⟩
        · simp only
          omega
        · simp only
          omega
        · simp
      · refine ⟨_, rfl, le_refl 0, ?_, ?_, ?_⟩
        · simp only
          omega
        · simp only
          omega
        · simp

/-! ### When a call keeps the invariant -/

/-- A read that is made fails only while there are bytes in the buffer, or what it delivers
lies between `tail` and the end of `spc`. -/
def Locbuf.ReadFits (b : Locbuf) (bytes : ℤ) (result : ReadResult) : Prop :=
  ∀ len, b.request bytes = some len →
    match result with
    | .failed => 0 < b.count
    | .bytes data => b.head + b.count + (min len data.length : ℕ) ≤ locbufSize

/-- The same for each read that `purge_sysbuf` makes, in the state in which it is made. -/
def Locbuf.PurgeFits (sym : UInt8) : List ReadResult → ℤ → Locbuf → Prop
  | [], _, _ => True
  | result :: rest, bytes, b =>
      b.ReadFits bytes result ∧
        ∀ n b' b'', b.fill bytes result = some (n, b') → 0 < n → b'.drain sym = some b'' →
          b''.PurgeFits sym rest (bytes - n)

/-- What a call needs from the buffer. -/
def Locbuf.RoomFor (b : Locbuf) : LocbufCall → Prop
  | .getFromfd bytes result => b.ReadFits bytes result
  | .nextBySym _ => True
  | .nextBySize size => 0 ≤ b.head + size
  | .lastBySym _ => True
  | .purgeSysbuf sym bytes results => b.PurgeFits sym results bytes

theorem Locbuf.fill_of_request_none
    {bytes : ℤ}
    (hrequest : b.request bytes = none)
    (result : ReadResult) :
    b.fill bytes result = some (-1, b) := by
  rw [Locbuf.fill, Locbuf.getFromfd, hrequest]

/-- One call of `get_fromfd`: what becomes of the invariant. -/
theorem Locbuf.Rep.fill
    (h : b.Rep)
    {bytes : ℤ}
    {result : ReadResult}
    (hfits : b.ReadFits bytes result) :
    ∃ n b', b.fill bytes result = some (n, b') ∧ b'.Rep := by
  obtain ⟨hhead, hle, htail, hcount⟩ := h
  cases hrequest : b.request bytes with
  | none => exact ⟨-1, b, b.fill_of_request_none hrequest result, hhead, hle, htail, hcount⟩
  | some len =>
      have hroom := hfits len hrequest
      cases result with
      | failed =>
          simp only at hroom
          refine ⟨-1, _, by simp only [Locbuf.fill, Locbuf.getFromfd, hrequest]; rfl, ?_⟩
          exact ⟨hhead, by simp only; omega, by simp only; omega, by simp only; omega⟩
      | bytes data =>
          simp only at hroom
          have hstore : store locbufSize b.spc b.tail.toNat (data.take len) =
              some (b.spc.write b.tail.toNat (data.take len)) :=
            store_eq (by rw [List.length_take]; omega)
          refine ⟨(data.take len).length, _, by
            simp only [Locbuf.fill, Locbuf.getFromfd, hrequest, ReadResult.upTo, Option.getD_some]
            rw [if_pos (by rw [List.length_take]; omega), Locbuf.append, if_pos (by omega), hstore]
            rfl, ?_⟩
          refine ⟨hhead, ?_, ?_, ?_⟩
          · simp only
            omega
          · simp only [List.length_take]
            omega
          · simp only
            omega

/-- A read without room leaves `spc`, or the call ends outside the invariant. -/
theorem Locbuf.Rep.fill_unfit
    (h : b.Rep)
    {bytes : ℤ}
    {result : ReadResult}
    (hunfit : ¬ b.ReadFits bytes result) :
    b.fill bytes result = none ∨ ∃ b', b.fill bytes result = some (-1, b') ∧ ¬ b'.Rep := by
  obtain ⟨hhead, hle, htail, hcount⟩ := h
  obtain ⟨len, hunfit⟩ := not_forall.mp hunfit
  obtain ⟨hrequest, hno⟩ := Classical.not_imp.mp hunfit
  cases result with
  | failed =>
      simp only at hno
      refine Or.inr ⟨_, by simp only [Locbuf.fill, Locbuf.getFromfd, hrequest]; rfl, ?_⟩
      intro hrep
      have := hrep.head_le
      simp only at this
      omega
  | bytes data =>
      simp only at hno
      have hstore : store locbufSize b.spc b.tail.toNat (data.take len) = none :=
        if_neg (by rw [List.length_take]; omega)
      refine Or.inl ?_
      simp only [Locbuf.fill, Locbuf.getFromfd, hrequest, ReadResult.upTo, Option.getD_some]
      rw [if_pos (by rw [List.length_take]; omega), Locbuf.append, if_pos (by omega), hstore]
      rfl

theorem Locbuf.Rep.readFits_nil
    (h : b.Rep)
    (bytes : ℤ) :
    b.ReadFits bytes (.bytes []) := by
  intro len _
  have := h.tail_le
  have := h.count_eq
  simp only [List.length_nil, Nat.min_zero, Nat.cast_zero]
  omega

/-- `get_fromfd`, exactly. -/
theorem Locbuf.Rep.getFromfd_iff
    (h : b.Rep)
    (bytes : ℤ)
    (result : ReadResult) :
    (∃ b', (b.fill bytes result).map Prod.snd = some b' ∧ b'.Rep) ↔ b.ReadFits bytes result := by
  constructor
  · rintro ⟨b', hcall, hrep⟩
    by_contra hunfit
    rcases h.fill_unfit hunfit with hnone | ⟨b'', hsome, hbad⟩
    · rw [hnone] at hcall
      exact absurd hcall (by simp)
    · rw [hsome, Option.map_some, Option.some.injEq] at hcall
      subst hcall
      exact hbad hrep
  · intro hfits
    obtain ⟨n, b', hfill, hrep⟩ := h.fill hfits
    exact ⟨b', by rw [hfill, Option.map_some], hrep⟩

/-- `next_by_size`, exactly. -/
theorem Locbuf.Rep.nextBySize_iff
    (h : b.Rep)
    (size : ℤ) :
    (∃ b', (b.nextBySize size).map Prod.snd = some b' ∧ b'.Rep) ↔ 0 ≤ b.head + size := by
  have hnonneg := h.count_nonneg
  have hhead := h.head_nonneg
  rw [Locbuf.nextBySize]
  split
  · obtain ⟨b', hcompact, hrep⟩ := h.compact
    refine iff_of_true ⟨b', by rw [hcompact]; rfl, hrep⟩ (by omega)
  · constructor
    · rintro ⟨b', hcall, hrep⟩
      rw [Option.map_some, Option.some.injEq] at hcall
      subst hcall
      exact hrep.head_nonneg
    · intro hle
      have htail := h.tail_le
      have hcount := h.count_eq
      refine ⟨_, rfl, hle, ?_, htail, ?_⟩
      · simp only
        omega
      · simp only
        omega

/-- `purge_sysbuf`, exactly: its reads, one after the other. -/
theorem Locbuf.Rep.purgeSysbuf_iff
    (h : b.Rep)
    (results : List ReadResult)
    (bytes : ℤ) :
    (∃ b', b.purgeSysbuf sym results bytes = some b' ∧ b'.Rep) ↔
      b.PurgeFits sym results bytes := by
  induction results generalizing b bytes with
  | nil =>
      obtain ⟨n, b', hfill, hrep⟩ := h.fill (h.readFits_nil bytes)
      exact iff_of_true ⟨b', by rw [Locbuf.purgeSysbuf, hfill]; rfl, hrep⟩ trivial
  | cons result rest ih =>
      rw [Locbuf.purgeSysbuf, Locbuf.PurgeFits]
      by_cases hfits : b.ReadFits bytes result
      · obtain ⟨n, b', hfill, hrep⟩ := h.fill hfits
        rw [hfill, Option.bind_some]
        by_cases hn : 0 < n
        · -- the loop goes on behind the drain
          obtain ⟨b'', hdrain, hrep'⟩ := hrep.drain sym
          simp only [if_pos hn, hdrain, Option.bind_some]
          rw [ih hrep' (bytes - n)]
          constructor
          · intro hrest
            refine ⟨hfits, ?_⟩
            rintro n₁ b₁ b₂ heq - hdrain'
            rw [Option.some.injEq, Prod.mk.injEq] at heq
            obtain ⟨rfl, rfl⟩ := heq
            rw [hdrain, Option.some.injEq] at hdrain'
            exact hdrain' ▸ hrest
          · rintro ⟨-, hrest⟩
            exact hrest n b' b'' rfl hn hdrain
        · simp only [if_neg hn]
          refine iff_of_true ⟨b', rfl, hrep⟩ ⟨hfits, ?_⟩
          rintro n₁ b₁ b₂ heq hn₁ -
          rw [Option.some.injEq, Prod.mk.injEq] at heq
          exact absurd (heq.1 ▸ hn₁) hn
      · refine iff_of_false ?_ (fun hcond => hfits hcond.1)
        rintro ⟨b₁, hcall, hrep⟩
        rcases h.fill_unfit hfits with hnone | ⟨b', hsome, hbad⟩
        · rw [hnone, Option.bind_none] at hcall
          exact absurd hcall (by simp)
        · rw [hsome, Option.bind_some] at hcall
          simp only [if_neg (show ¬ (0 : ℤ) < -1 by omega), Option.some.injEq] at hcall
          exact hbad (hcall ▸ hrep)

/-- **One call.** -/
theorem Locbuf.Rep.call_iff
    (h : b.Rep)
    (c : LocbufCall) :
    (∃ b', b.call c = some b' ∧ b'.Rep) ↔ b.RoomFor c := by
  cases c with
  | getFromfd bytes result => exact h.getFromfd_iff bytes result
  | nextBySym sym =>
      obtain ⟨found, b', hnext, hrep, -⟩ := h.nextBySym sym
      exact iff_of_true ⟨b', by rw [Locbuf.call, hnext]; rfl, hrep⟩ trivial
  | nextBySize size => exact h.nextBySize_iff size
  | lastBySym sym =>
      obtain ⟨r, hlast, hrep⟩ := h.lastBySym sym
      exact iff_of_true ⟨r.2, by rw [Locbuf.call, hlast]; rfl, hrep⟩ trivial
  | purgeSysbuf sym bytes results => exact h.purgeSysbuf_iff results bytes

end Calls

/-! ### Runs -/

/-- A buffer within the invariant; `none` is a buffer that was left by a call. -/
def RepKept (s : Option Locbuf) : Prop := ∃ b, s = some b ∧ b.Rep

/-- One call, in a run that goes on whatever the call did. -/
def locbufStep (s : Option Locbuf) (c : LocbufCall) : Option (Option Locbuf) :=
  some (s.bind fun b => b.call c)

/-- Every call finds the room that it needs. -/
def RoomFound (s : Option Locbuf) (c : LocbufCall) : Prop := ∃ b, s = some b ∧ b.RoomFor c

/-- **The invariant of the local buffer.**  From `init_locbuf`, in any order of the calls and
with any outcome of the reads, every call stays inside `spc` and ends within the invariant
exactly when every call finds the room that it needs. -/
theorem repKept_iff
    (calls : List LocbufCall) :
    HoldsAlong locbufStep RepKept (some initLocbuf) calls ↔
      MeetsAlong locbufStep RoomFound (some initLocbuf) calls := by
  have hexact : ∀ s c s', RepKept s → locbufStep s c = some s' → (RepKept s' ↔ RoomFound s c) := by
    rintro s c s' ⟨b, rfl, hrep⟩ hstep
    rw [locbufStep, Option.bind_some, Option.some.injEq] at hstep
    subst hstep
    rw [RepKept, hrep.call_iff c]
    constructor
    · intro hroom
      exact ⟨b, rfl, hroom⟩
    · rintro ⟨b', heq, hroom⟩
      rw [Option.some.injEq] at heq
      exact heq ▸ hroom
  have hkept : ∀ s, RepKept s → RepKept s := fun _ hs => hs
  refine holdsAlong_iff_meetsAlong hkept hexact ?_ ⟨initLocbuf, rfl, initLocbuf_has.rep⟩ calls
  intro s c s' hs hroom hstep
  exact (hexact s c s' hs hstep).mpr hroom

/-- The first read fails: `tail` is in front of `spc`. -/
theorem failed_read_breaks_rep :
    ¬ HoldsAlong locbufStep RepKept (some initLocbuf) [.getFromfd 1 .failed] := by
  rintro ⟨-, hlast⟩
  obtain ⟨b, hcall, hrep⟩ := hlast _ rfl
  have htail : b.tail = -1 := by
    rw [Option.bind_some, Locbuf.call, Locbuf.fill, Locbuf.getFromfd] at hcall
    have hrequest : initLocbuf.request 1 = some 1 := by decide
    simp only [hrequest, ReadResult.upTo, Option.map_some, Option.some.injEq] at hcall
    rw [← hcall]
    rfl
  have := hrep.head_nonneg
  have := hrep.head_le
  omega

end Scaled
end MatrixBin
