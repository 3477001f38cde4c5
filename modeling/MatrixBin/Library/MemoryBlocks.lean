import Mathlib.Logic.Function.Basic
import MatrixBin.Library.ByteBuffer

/-!
# Allocated blocks

A program with several owners that each fill blocks of their own is modelled with a memory of
named blocks and the list of the writes that were made, each with its writer.  A write that
does not fit its block is `none`.  A writer keeps to its own blocks if none of its writes with
at least one byte goes to another one.
-/

namespace MatrixBin
namespace Library

/-- A write of so many bytes to a block. -/
structure BlockWrite (ω σ : Type) where
  writer : ω
  block : σ
  size : Nat

structure Blocks (ω σ : Type) where
  mem : σ → List UInt8
  writes : List (BlockWrite ω σ)

/-- Every write goes to a block of its writer. -/
def Blocks.KeepOwn {ω σ : Type} (owner : σ → ω) (m : Blocks ω σ) : Prop :=
  ∀ w ∈ m.writes, 0 < w.size → owner w.block = w.writer

namespace Blocks

variable {ω σ : Type} [DecidableEq σ]

/-- A new block with what happens to be there. -/
def malloc (junk : Nat → UInt8) (b : σ) (n : Nat) (m : Blocks ω σ) : Blocks ω σ :=
  { m with mem := Function.update m.mem b ((List.range n).map junk) }

/-- A write to the first bytes of a block. -/
def write (w : ω) (b : σ) (bytes : List UInt8) (m : Blocks ω σ) : Option (Blocks ω σ) :=
  if bytes.length ≤ (m.mem b).length then
    some
      { mem := Function.update m.mem b (bytes ++ (m.mem b).drop bytes.length)
        writes := m.writes ++ [⟨w, b, bytes.length⟩] }
  else none

/-- `memset` with zeros -/
def memset (w : ω) (b : σ) (n : Nat) (m : Blocks ω σ) : Option (Blocks ω σ) :=
  m.write w b (List.replicate n 0)

/-- `strncpy` -/
def strncpy (w : ω) (b : σ) (n : Nat) (text : List UInt8) (m : Blocks ω σ) :
    Option (Blocks ω σ) :=
  m.write w b (strncpyBytes n text)

/-- Each new block is cleared, or another one is with its size. -/
def allocate (w : ω) (junk : σ → Nat → UInt8) (n : Nat) :
    List (σ × σ) → Blocks ω σ → Option (Blocks ω σ)
  | [], m => some m
  | (own, cleared) :: rest, m =>
      ((m.malloc (junk own) own n).memset w cleared n).bind (allocate w junk n rest)

/-- The texts that are set are copied, one after the other. -/
def copyTexts (w : ω) (n : Nat) :
    List (σ × Option (List UInt8)) → Blocks ω σ → Option (Blocks ω σ)
  | [], m => some m
  | (_, none) :: rest, m => copyTexts w n rest m
  | (b, some text) :: rest, m => (m.strncpy w b n text).bind (copyTexts w n rest)

/-- What a copied text makes of a block. -/
def overwrite (n : Nat) (text : Option (List UInt8)) (old : List UInt8) : List UInt8 :=
  match text with
  | none => old
  | some text => strncpyBytes n text ++ old.drop n

/-- A block holds the first `n` characters of a text, with a terminator. -/
structure HoldsText (n : Nat) (text : Option (List UInt8)) (block : List UInt8) : Prop where
  terminated : 0 ∈ block
  string : stringAt block = (stringAt (text.getD [])).take n

section Writes

variable {w : ω} {b other : σ} {bytes : List UInt8} {m after : Blocks ω σ} {n : Nat}
  {junk : σ → Nat → UInt8}

@[simp] theorem malloc_self :
    (m.malloc (junk b) b n).mem b = (List.range n).map (junk b) := by
  simp [malloc]

@[simp] theorem malloc_writes : (m.malloc (junk b) b n).writes = m.writes := rfl

theorem write_eq_some_iff :
    m.write w b bytes = some after ↔
      bytes.length ≤ (m.mem b).length ∧
        after =
          { mem := Function.update m.mem b (bytes ++ (m.mem b).drop bytes.length)
            writes := m.writes ++ [⟨w, b, bytes.length⟩] } := by
  rw [write]
  split
  next hfit => simp [hfit, eq_comm]
  next hfit => simp [hfit]

theorem write_isSome_iff :
    (m.write w b bytes).isSome ↔ bytes.length ≤ (m.mem b).length := by
  rw [write]
  split
  next hfit => simp [hfit]
  next hfit => simp [hfit]

/-- A write does not change the size of a block. -/
theorem write_length
    (h : m.write w b bytes = some after)
    (other : σ) :
    (after.mem other).length = (m.mem other).length := by
  obtain ⟨hfit, rfl⟩ := write_eq_some_iff.mp h
  by_cases hne : other = b
  · subst hne
    simp only [Function.update_self, List.length_append, List.length_drop]
    omega
  · simp only [Function.update_of_ne hne]

/-- A new block that is cleared has room for it. -/
theorem malloc_memset :
    (m.malloc (junk b) b n).memset w b n =
      some
        { mem := Function.update m.mem b (List.replicate n 0)
          writes := m.writes ++ [⟨w, b, n⟩] } := by
  refine write_eq_some_iff.mpr ⟨by simp, ?_⟩
  simp [malloc, List.drop_eq_nil_of_le]

/-- New blocks that are all cleared. -/
theorem allocate_own
    (w : ω)
    (junk : σ → Nat → UInt8)
    (n : Nat)
    (blocks : List σ)
    (m : Blocks ω σ) :
    ∃ after, allocate w junk n (blocks.map fun b => (b, b)) m = some after ∧
      ∀ b, after.mem b = if b ∈ blocks then List.replicate n 0 else m.mem b := by
  induction blocks generalizing m with
  | nil => exact ⟨m, rfl, by simp⟩
  | cons b blocks ih =>
      rw [List.map_cons, allocate, malloc_memset, Option.bind_some]
      obtain ⟨after, hrun, hmem⟩ := ih _
      refine ⟨after, hrun, fun other => ?_⟩
      rw [hmem]
      by_cases hrest : other ∈ blocks
      · simp [hrest]
      · by_cases hb : other = b
        · simp [hb]
        · simp [hrest, hb]

/-- A copy succeeds exactly when every text that is set has room. -/
theorem copyTexts_isSome_iff
    {copies : List (σ × Option (List UInt8))} :
    (copyTexts w n copies m).isSome ↔
      ∀ c ∈ copies, c.2.isSome → n ≤ (m.mem c.1).length := by
  induction copies generalizing m with
  | nil => simp [copyTexts]
  | cons c copies ih =>
      obtain ⟨b, text⟩ := c
      rw [List.forall_mem_cons]
      cases text with
      | none =>
          rw [copyTexts, ih]
          simp
      | some text =>
          have hroom : (m.strncpy w b n text).isSome ↔ n ≤ (m.mem b).length := by
            rw [strncpy, write_isSome_iff, length_strncpyBytes]
          rw [copyTexts]
          cases hwrite : m.strncpy w b n text with
          | none =>
              have hfull : ¬ n ≤ (m.mem b).length := by
                rw [← hroom, hwrite]
                exact Bool.false_ne_true
              simp [hfull]
          | some mid =>
              have hfit : n ≤ (m.mem b).length := by
                rw [← hroom, hwrite]
                rfl
              simp only [Option.bind_some, ih, write_length hwrite, hfit, implies_true, true_and]

/-- Copies do not change the size of a block. -/
theorem copyTexts_length
    {copies : List (σ × Option (List UInt8))}
    (h : copyTexts w n copies m = some after)
    (b : σ) :
    (after.mem b).length = (m.mem b).length := by
  induction copies generalizing m with
  | nil => rw [← Option.some.inj h]
  | cons c copies ih =>
      obtain ⟨other, text⟩ := c
      cases text with
      | none => exact ih h
      | some text =>
          obtain ⟨mid, hmid, hrest⟩ := Option.bind_eq_some_iff.mp h
          rw [ih hrest, write_length hmid]

/-- The blocks behind the copies. -/
theorem copyTexts_mem
    {copies : List (σ × Option (List UInt8))}
    (h : copyTexts w n copies m = some after) :
    after.mem =
      copies.foldl (fun mem c => Function.update mem c.1 (overwrite n c.2 (mem c.1))) m.mem := by
  induction copies generalizing m with
  | nil => rw [← Option.some.inj h, List.foldl_nil]
  | cons c copies ih =>
      obtain ⟨b, text⟩ := c
      rw [List.foldl_cons]
      cases text with
      | none =>
          rw [ih h]
          simp [overwrite]
      | some text =>
          obtain ⟨mid, hmid, hrest⟩ := Option.bind_eq_some_iff.mp h
          obtain ⟨-, rfl⟩ := write_eq_some_iff.mp hmid
          rw [ih hrest]
          simp [overwrite]

/-- The writes only grow. -/
theorem copyTexts_writes
    {copies : List (σ × Option (List UInt8))}
    (h : copyTexts w n copies m = some after) :
    m.writes ⊆ after.writes := by
  induction copies generalizing m with
  | nil => rw [← Option.some.inj h]; exact fun _ hw => hw
  | cons c copies ih =>
      obtain ⟨b, text⟩ := c
      cases text with
      | none => exact ih h
      | some text =>
          obtain ⟨mid, hmid, hrest⟩ := Option.bind_eq_some_iff.mp h
          obtain ⟨-, rfl⟩ := write_eq_some_iff.mp hmid
          exact List.Subset.trans (List.subset_append_left _ _) (ih hrest)

end Writes

section Texts

variable {n : Nat} {text : Option (List UInt8)} {junk : Nat → UInt8}

/-- A block without bytes holds no text. -/
theorem not_holdsText_nil : ¬ HoldsText n text [] := fun h => nomatch h.terminated

/-- A block whose front is cleared holds the empty text only. -/
theorem holdsText_cleared_iff
    {size : Nat}
    (hsize : 0 < size)
    (rest : List UInt8) :
    HoldsText n text (List.replicate size 0 ++ rest) ↔ (stringAt (text.getD [])).take n = [] := by
  have hzero : 0 ∈ List.replicate size (0 : UInt8) := List.mem_replicate.mpr ⟨by omega, rfl⟩
  have hstring : stringAt (List.replicate size 0 ++ rest) = [] := by
    rw [stringAt_append_of_mem hzero, stringAt_replicate_zero]
  constructor
  · intro h
    rw [← h.string, hstring]
  · intro h
    exact ⟨List.mem_append_left _ hzero, by rw [hstring, h]⟩

/-- The string of a text and the byte behind it. -/
theorem holdsText_strncpyBytes_iff
    (n : Nat)
    (t : List UInt8)
    (b : UInt8) :
    HoldsText n (some t) (strncpyBytes n t ++ [b]) ↔ (stringAt t).length < n ∨ b = 0 := by
  by_cases hshort : (stringAt t).length < n
  · have hzero : 0 ∈ strncpyBytes n t := by
      rw [strncpyBytes, List.mem_append]
      exact Or.inr (List.mem_replicate.mpr ⟨by omega, rfl⟩)
    simp only [hshort, true_or, iff_true]
    refine ⟨List.mem_append_left _ hzero, ?_⟩
    rw [stringAt_append_of_mem hzero, stringAt_strncpyBytes, ← take_stringAt, Option.getD_some]
  · have hfull : strncpyBytes n t = (stringAt t).take n := by
      rw [strncpyBytes, Nat.sub_eq_zero_of_le (by omega), List.replicate_zero, List.append_nil]
    have hno : 0 ∉ (stringAt t).take n := fun h =>
      zero_not_mem_stringAt t (List.mem_of_mem_take h)
    simp only [hshort, false_or]
    rw [hfull]
    constructor
    · intro h
      rcases List.mem_append.mp h.terminated with hmem | hmem
      · exact absurd hmem hno
      · exact (List.mem_singleton.mp hmem).symm
    · rintro rfl
      refine ⟨List.mem_append_right _ (List.mem_singleton_self _), ?_⟩
      rw [stringAt_append_zero, stringAt_of_not_mem hno, Option.getD_some]

/-- A text in a cleared block with one byte more. -/
theorem holdsText_overwrite_cleared :
    HoldsText n text (overwrite n text (List.replicate (n + 1) 0)) := by
  cases text with
  | none =>
      rw [overwrite, ← List.append_nil (List.replicate (n + 1) 0)]
      exact (holdsText_cleared_iff (Nat.succ_pos n) []).mpr (by simp [stringAt])
  | some t =>
      have hrest : (List.replicate (n + 1) (0 : UInt8)).drop n = [0] := by
        rw [List.drop_replicate, Nat.add_sub_cancel_left, List.replicate_one]
      rw [overwrite, hrest]
      exact (holdsText_strncpyBytes_iff n t 0).mpr (Or.inr rfl)

/-- The second of two texts stands. -/
theorem overwrite_some_overwrite
    (t : List UInt8)
    (old : List UInt8) :
    overwrite n (some t) (overwrite n text old) = overwrite n (some t) old := by
  cases text with
  | none => rfl
  | some other =>
      simp only [overwrite]
      rw [List.drop_left' (length_strncpyBytes n other)]

/-- A text in a block that was not cleared: without a text the first byte must be zero, and
behind a text of at least `n` characters the last one. -/
theorem holdsText_overwrite_junk_iff :
    HoldsText n text (overwrite n text ((List.range (n + 1)).map junk)) ↔
      match text with
      | none => junk 0 = 0
      | some t => (stringAt t).length < n ∨ junk n = 0 := by
  cases text with
  | none =>
      rw [overwrite, List.range_succ_eq_map, List.map_cons]
      constructor
      · intro h
        have hstring := h.string
        by_contra hne
        simp [stringAt, hne] at hstring
      · intro h
        simp only at h
        exact ⟨by simp [h], by simp [stringAt, h]⟩
  | some t =>
      have hrest : ((List.range (n + 1)).map junk).drop n = [junk n] := by
        rw [List.range_succ, List.map_append, List.map_singleton,
          List.drop_left' (by rw [List.length_map, List.length_range])]
      rw [overwrite, hrest]
      exact holdsText_strncpyBytes_iff n t (junk n)

end Texts

end Blocks

end Library
end MatrixBin
