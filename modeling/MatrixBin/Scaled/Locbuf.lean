import Mathlib.Tactic.Ring
import MatrixBin.Library.ByteBuffer
import MatrixBin.Library.LineSplitter

/-!
# The local buffer (`locbuf.c`)

The bytes that a thread has read from its port and not yet used lie between `head` and
`tail` in `spc`; the two pointers are offsets into the array.  An operation is `none`
when it leaves the array.  `memcpy` copies correctly also when its ranges overlap.

`Locbuf.Has data` relates a buffer to the bytes it holds; one theorem for each operation
says what becomes of them.
-/

namespace MatrixBin
namespace Scaled

open Library

/-- `LOCBUF_SIZE` -/
def locbufSize : Nat := 1024

structure Locbuf where
  count : ℤ
  head : ℤ
  tail : ℤ
  spc : Bytes

/-- `new_locbuf`, `init_locbuf` -/
def initLocbuf : Locbuf := ⟨0, 0, 0, fun _ => 0⟩

/-- What `read` delivers: an error, or bytes (none of them at the end of the stream). -/
inductive ReadResult
  | failed
  | bytes (data : List UInt8)
deriving DecidableEq

/-- The bytes that `get_fromfd` asks for; `none` if it makes no attempt to read. -/
def Locbuf.request (b : Locbuf) (bytes : ℤ) : Option Nat :=
  if (locbufSize : ℤ) - b.count ≤ 0 ∨ bytes ≤ 0 then none
  else some (min ((locbufSize : ℤ) - b.count) bytes).toNat

/-- The bytes that were read are put at the tail. -/
def Locbuf.append (b : Locbuf) (data : List UInt8) : Option Locbuf :=
  if 0 ≤ b.tail then
    (store locbufSize b.spc b.tail.toNat data).map fun spc =>
      { b with tail := b.tail + data.length, count := b.count + data.length, spc := spc }
  else none

/-- `get_fromfd`, with the result of its `read`. -/
def Locbuf.getFromfd (b : Locbuf) (bytes : ℤ) (result : ReadResult) : Option (ℤ × Locbuf) :=
  match b.request bytes with
  | none => some (-1, b)
  | some len =>
      match result with
      | .failed => some (-1, { b with tail := b.tail - 1, count := b.count - 1 })
      | .bytes data =>
          if data.length ≤ len then (b.append data).map fun b' => (data.length, b') else none

/-- The loop of `next_by_sym`: the first position of the symbol among the next `k`. -/
def Locbuf.scan (b : Locbuf) (sym : UInt8) : Nat → ℤ → Option (Option ℤ)
  | 0, _ => some none
  | k + 1, p =>
      if 0 ≤ p ∧ p < locbufSize then
        if b.spc p.toNat = sym then some (some p) else b.scan sym k (p + 1)
      else none

/-- The unused bytes are moved to the beginning of the array. -/
def Locbuf.compact (b : Locbuf) : Option Locbuf :=
  if 0 < b.head then
    if 0 ≤ b.count then
      (load locbufSize b.spc b.head.toNat b.count.toNat).bind fun data =>
        (store locbufSize b.spc 0 data).map fun spc =>
          { b with head := 0, tail := b.count, spc := spc }
    else none
  else some b

/-- `next_by_sym`: the position and the size of a line, or NULL (and the size 0). -/
def Locbuf.nextBySym (b : Locbuf) (sym : UInt8) : Option (Option (ℤ × ℤ) × Locbuf) :=
  if b.count = 0 then some (none, b)
  else
    (b.scan sym (b.tail - b.head).toNat b.head).bind fun found =>
      match found with
      | some p =>
          let len := p + 1 - b.head
          let b' := { b with head := p + 1, count := b.count - len }
          some (some (b.head, len),
            if b'.count = 0 then { b' with head := 0, tail := 0 } else b')
      | none => b.compact.map fun b' => (none, b')

/-! ### The bytes in the buffer -/

/-- The unused bytes of the buffer. -/
structure Locbuf.Has (b : Locbuf) (data : List UInt8) : Prop where
  head_nonneg : 0 ≤ b.head
  tail_eq : b.tail = b.head + data.length
  tail_le : b.tail ≤ locbufSize
  count_eq : b.count = data.length
  holds : b.spc.Holds b.head.toNat data

theorem initLocbuf_has : initLocbuf.Has [] where
  head_nonneg := le_refl 0
  tail_eq := rfl
  tail_le := by simp [initLocbuf]
  count_eq := rfl
  holds := Bytes.holds_nil

section Operations

variable {b : Locbuf} {data : List UInt8} {sym : UInt8}

theorem Locbuf.Has.length_le
    (h : b.Has data) :
    data.length ≤ locbufSize := by
  have := h.tail_eq
  have := h.tail_le
  have := h.head_nonneg
  omega

/-- The buffer at its beginning has room for what `get_fromfd` asks for. -/
theorem Locbuf.Has.append
    (h : b.Has data)
    (hhead : b.head = 0)
    {more : List UInt8}
    (hroom : data.length + more.length ≤ locbufSize) :
    ∃ b', b.append more = some b' ∧ b'.Has (data ++ more) ∧ b'.head = 0 := by
  have htail : b.tail = data.length := by
    rw [h.tail_eq, hhead, zero_add]
  have hholds : b.spc.Holds 0 data := by
    have := h.holds
    rwa [hhead] at this
  obtain ⟨spc, hstore, hspc⟩ := hholds.store_behind hroom
  refine ⟨{ b with tail := b.tail + more.length, count := b.count + more.length, spc := spc },
    ?_, ⟨?_, ?_, ?_, ?_, ?_⟩, hhead⟩
  · rw [Locbuf.append, htail, if_pos (Int.natCast_nonneg _), Int.toNat_natCast, hstore]
    rfl
  · exact h.head_nonneg
  · simp [htail, hhead]
  · simp only [htail]
    exact_mod_cast hroom
  · simp [h.count_eq]
  · simpa [hhead] using hspc

theorem Locbuf.Has.request_eq
    (h : b.Has data)
    (bytes : ℤ) :
    b.request bytes =
      if data.length < locbufSize ∧ 0 < bytes then
        some (min (locbufSize - data.length) bytes.toNat)
      else none := by
  have := h.length_le
  rw [Locbuf.request, h.count_eq]
  split_ifs with h₁ h₂ h₂
  · omega
  · rfl
  · congr 1
    omega
  · omega

/-- The scan finds the first symbol. -/
theorem Locbuf.scan_eq
    {p : ℤ}
    (hp : 0 ≤ p)
    (hle : p + data.length ≤ locbufSize)
    (hholds : b.spc.Holds p.toNat data) :
    b.scan sym data.length p =
      some (if sym ∈ data then some (p + (data.idxOf sym : ℤ)) else none) := by
  induction data generalizing p with
  | nil => simp [Locbuf.scan]
  | cons c data ih =>
      rw [← List.singleton_append, Bytes.holds_append] at hholds
      obtain ⟨hc, hrest⟩ := hholds
      have hbyte : b.spc p.toNat = c := by
        simpa using (hc 0 (by simp)).symm
      have hnext : (p + 1).toNat = p.toNat + 1 := by omega
      rw [List.length_cons, Nat.cast_add, Nat.cast_one] at hle
      rw [List.length_cons, Locbuf.scan, if_pos (by omega), hbyte]
      by_cases heq : c = sym
      · simp [heq]
      · rw [if_neg heq, ih (by omega) (by omega) (by rw [hnext]; exact hrest)]
        by_cases hmem : sym ∈ data
        · rw [List.idxOf_cons_ne data heq]
          simp only [hmem, List.mem_cons, or_true, if_true]
          push_cast
          congr 2
          ring
        · simp [hmem, Ne.symm heq]

theorem Locbuf.Has.compact
    (h : b.Has data) :
    ∃ b', b.compact = some b' ∧ b'.Has data ∧ b'.head = 0 := by
  rw [Locbuf.compact]
  by_cases hhead : 0 < b.head
  · have hle : b.head.toNat + data.length ≤ locbufSize := by
      have := h.tail_eq
      have := h.tail_le
      omega
    have hload := load_eq h.holds hle
    have hstore : store locbufSize b.spc 0 data = some (b.spc.write 0 data) :=
      store_eq (by omega)
    have hwritten : (b.spc.write 0 data).Holds (0 : ℤ).toNat data := Bytes.holds_write
    refine ⟨{ b with head := 0, tail := b.count, spc := b.spc.write 0 data }, ?_,
      ⟨le_refl 0, ?_, ?_, h.count_eq, hwritten⟩, rfl⟩
    · rw [if_pos hhead, if_pos (by rw [h.count_eq]; omega), h.count_eq, Int.toNat_natCast, hload,
        Option.bind_some, hstore]
      rfl
    · simp [h.count_eq]
    · have := h.length_le
      simp only [h.count_eq]
      exact_mod_cast this
  · exact ⟨b, if_neg hhead, h, le_antisymm (by omega) h.head_nonneg⟩

/-- No terminator among the bytes: they are moved to the beginning. -/
theorem Locbuf.Has.nextBySym_none
    (h : b.Has data)
    (hsym : sym ∉ data)
    (hempty : data = [] → b.head = 0) :
    ∃ b', b.nextBySym sym = some (none, b') ∧ b'.Has data ∧ b'.head = 0 := by
  rw [Locbuf.nextBySym]
  by_cases hcount : b.count = 0
  · have hdata : data = [] := by
      rw [h.count_eq] at hcount
      exact List.length_eq_zero_iff.mp (by exact_mod_cast hcount)
    exact ⟨b, if_pos hcount, h, hempty hdata⟩
  · obtain ⟨b', hcompact, hhas, hhead⟩ := h.compact
    have hlen : (b.tail - b.head).toNat = data.length := by
      have := h.tail_eq
      omega
    have hle : b.head + data.length ≤ locbufSize := by
      have := h.tail_eq
      have := h.tail_le
      omega
    refine ⟨b', ?_, hhas, hhead⟩
    rw [if_neg hcount, hlen, Locbuf.scan_eq h.head_nonneg hle h.holds, if_neg hsym,
      Option.bind_some, hcompact]
    rfl

/-- A line: it is handed out where it lies, with its size; what follows it stays.  The
buffer is reset when nothing follows. -/
theorem Locbuf.Has.nextBySym_line
    {body rest : List UInt8}
    (h : b.Has (body ++ sym :: rest))
    (hbody : sym ∉ body) :
    ∃ b', b.nextBySym sym = some (some (b.head, (body.length : ℤ) + 1), b') ∧ b'.Has rest ∧
      b.spc.Holds b.head.toNat (body ++ [sym]) ∧ b.head + body.length + 1 ≤ locbufSize ∧
      b'.spc = b.spc ∧ (rest = [] → b'.head = 0) ∧
      (rest ≠ [] → b'.head = b.head + body.length + 1) := by
  have hcount := h.count_eq
  have htail := h.tail_eq
  have hle := h.tail_le
  have hnonneg := h.head_nonneg
  simp only [List.length_append, List.length_cons, Nat.cast_add, Nat.cast_one] at hcount htail
  have hlen : (b.tail - b.head).toNat = (body ++ sym :: rest).length := by
    simp only [List.length_append, List.length_cons]
    omega
  have hidx : (body ++ sym :: rest).idxOf sym = body.length := idxOf_line hbody rest
  have hholds : b.spc.Holds b.head.toNat ((body ++ [sym]) ++ rest) := by
    rw [List.append_assoc]
    exact h.holds
  obtain ⟨hline, hrest⟩ := Bytes.holds_append.mp hholds
  have hscan : b.scan sym (b.tail - b.head).toNat b.head =
      some (some (b.head + body.length)) := by
    rw [hlen, Locbuf.scan_eq hnonneg (by
      simp only [List.length_append, List.length_cons]
      omega) h.holds, if_pos (by simp), hidx]
  have hsize : b.head + (body.length : ℤ) + 1 - b.head = body.length + 1 := by ring
  have hleft : b.count - ((body.length : ℤ) + 1) = rest.length := by
    rw [hcount]
    ring
  rw [Locbuf.nextBySym, if_neg (by omega), hscan]
  simp only [Option.bind_some, hsize, hleft]
  cases rest with
  | nil =>
      refine ⟨_, rfl, ⟨?_, ?_, ?_, ?_, Bytes.holds_nil⟩, hline, ?_, ?_, ?_, ?_⟩
      · simp
      · simp
      · simp
      · simp
      · omega
      · simp
      · simp
      · simp
  | cons c rest =>
      have hne : ((c :: rest).length : ℤ) ≠ 0 := by
        simp only [List.length_cons, Nat.cast_add, Nat.cast_one]
        omega
      rw [if_neg hne]
      refine ⟨_, rfl, ⟨?_, ?_, hle, rfl, ?_⟩, hline, ?_, rfl, ?_, ?_⟩
      · simp only
        omega
      · simp only [List.length_cons, Nat.cast_add, Nat.cast_one] at htail ⊢
        omega
      · have hoff : b.head.toNat + (body ++ [sym]).length = (b.head + body.length + 1).toNat := by
          simp only [List.length_append, List.length_singleton]
          omega
        rw [hoff] at hrest
        exact hrest
      · simp only [List.length_cons, Nat.cast_add, Nat.cast_one] at htail
        omega
      · simp
      · simp

/-- Bytes in front of the unused ones may be changed. -/
theorem Locbuf.Has.write_before
    (h : b.Has data)
    {off : Nat}
    {bytes : List UInt8}
    (hbefore : data = [] ∨ off + bytes.length ≤ b.head.toNat) :
    ({ b with spc := b.spc.write off bytes } : Locbuf).Has data where
  head_nonneg := h.head_nonneg
  tail_eq := h.tail_eq
  tail_le := h.tail_le
  count_eq := h.count_eq
  holds := by
    rcases hbefore with rfl | hbefore
    · exact Bytes.holds_nil
    · exact h.holds.write (Or.inl hbefore)

end Operations

end Scaled
end MatrixBin
