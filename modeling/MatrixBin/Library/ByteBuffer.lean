import Mathlib.Data.List.Basic
import Mathlib.Data.List.TakeWhile

/-!
# Byte buffers of a fixed size

The contents of a C array of bytes are a function from positions to bytes; the size of
the array is an argument of the operations.  `store` and `load` are `none` when they
leave the array.  `Holds m off bytes` says which bytes lie at a position: a store
establishes it, stores elsewhere keep it, and it splits along a concatenation.

Words of 16 bits are stored with their low byte first.
-/

namespace MatrixBin
namespace Library

/-- The contents of an array of bytes, whatever its size. -/
abbrev Bytes := Nat → UInt8

/-- Write bytes at a position. -/
def Bytes.write (m : Bytes) (off : Nat) (bytes : List UInt8) : Bytes :=
  fun i => if off ≤ i then bytes[i - off]?.getD (m i) else m i

/-- Write into an array of the given size. -/
def store (size : Nat) (m : Bytes) (off : Nat) (bytes : List UInt8) : Option Bytes :=
  if off + bytes.length ≤ size then some (m.write off bytes) else none

/-- The bytes at a position. -/
def Bytes.read (m : Bytes) (off count : Nat) : List UInt8 :=
  (List.range count).map fun i => m (off + i)

/-- Read from an array of the given size. -/
def load (size : Nat) (m : Bytes) (off count : Nat) : Option (List UInt8) :=
  if off + count ≤ size then some (m.read off count) else none

/-- The bytes lie at the position. -/
def Bytes.Holds (m : Bytes) (off : Nat) (bytes : List UInt8) : Prop :=
  ∀ i, i < bytes.length → bytes[i]? = some (m (off + i))

section Holds

variable {m : Bytes} {off : Nat} {a b : List UInt8}

theorem Bytes.write_apply
    (m : Bytes)
    (off : Nat)
    (bytes : List UInt8)
    (i : Nat) :
    m.write off bytes i = if off ≤ i then bytes[i - off]?.getD (m i) else m i :=
  rfl

theorem Bytes.write_outside
    {i : Nat}
    (h : i < off ∨ off + a.length ≤ i) :
    m.write off a i = m i := by
  rw [Bytes.write_apply]
  split
  · rw [List.getElem?_eq_none (by omega), Option.getD_none]
  · rfl

@[simp] theorem Bytes.write_nil : m.write off [] = m := by
  funext i
  rw [Bytes.write_apply, List.getElem?_nil, Option.getD_none, ite_self]

theorem Bytes.holds_nil : m.Holds off [] := by
  intro i hi
  simp at hi

theorem Bytes.holds_write :
    (m.write off a).Holds off a := by
  intro i hi
  simp [Bytes.write_apply, hi]

/-- Frame rule: a write to other positions keeps the bytes. -/
theorem Bytes.Holds.write
    {off' : Nat}
    (h : m.Holds off a)
    (hdisjoint : off' + b.length ≤ off ∨ off + a.length ≤ off') :
    (m.write off' b).Holds off a := by
  intro i hi
  rw [h i hi, Bytes.write_outside]
  omega

theorem Bytes.holds_append :
    m.Holds off (a ++ b) ↔ m.Holds off a ∧ m.Holds (off + a.length) b := by
  constructor
  · intro h
    constructor
    · intro i hi
      rw [← h i (by rw [List.length_append]; omega), List.getElem?_append_left hi]
    · intro i hi
      have := h (a.length + i) (by rw [List.length_append]; omega)
      rw [List.getElem?_append_right (by omega)] at this
      rw [Nat.add_assoc, ← this]
      congr 1
      omega
  · rintro ⟨ha, hb⟩ i hi
    rw [List.length_append] at hi
    by_cases hlt : i < a.length
    · rw [List.getElem?_append_left hlt, ha i hlt]
    · rw [List.getElem?_append_right (by omega), hb _ (by omega)]
      congr 2
      omega

theorem Bytes.Holds.read_eq
    (h : m.Holds off a) :
    m.read off a.length = a := by
  apply List.ext_getElem?
  intro i
  by_cases hi : i < a.length
  · rw [h i hi]
    simp [Bytes.read, hi]
  · simp [Bytes.read, hi]

@[simp] theorem Bytes.length_read
    (m : Bytes)
    (off count : Nat) :
    (m.read off count).length = count := by
  simp [Bytes.read]

theorem Bytes.holds_read
    (m : Bytes)
    (off count : Nat) :
    m.Holds off (m.read off count) := by
  intro i hi
  rw [Bytes.length_read] at hi
  simp [Bytes.read, hi]

theorem Bytes.read_eq_read_iff
    (m m' : Bytes)
    (off count : Nat) :
    m.read off count = m'.read off count ↔ ∀ i, i < count → m (off + i) = m' (off + i) := by
  rw [Bytes.read, Bytes.read, List.map_inj_left]
  simp only [List.mem_range]

theorem store_eq
    {size : Nat}
    (h : off + a.length ≤ size) :
    store size m off a = some (m.write off a) :=
  if_pos h

theorem load_eq
    {size : Nat}
    (hholds : m.Holds off a)
    (h : off + a.length ≤ size) :
    load size m off a.length = some a := by
  rw [load, if_pos h, hholds.read_eq]

/-- Two writes, one right behind the other. -/
theorem Bytes.write_append
    (m : Bytes)
    (off : Nat)
    (a b : List UInt8) :
    (m.write off a).write (off + a.length) b = m.write off (a ++ b) := by
  funext i
  simp only [Bytes.write_apply]
  by_cases hbehind : off + a.length ≤ i
  · have hsub : i - off - a.length = i - (off + a.length) := by omega
    rw [if_pos hbehind, if_pos (by omega), if_pos (by omega),
      List.getElem?_append_right (by omega), hsub,
      List.getElem?_eq_none (by omega : a.length ≤ i - off), Option.getD_none]
  · rw [if_neg hbehind]
    by_cases hfront : off ≤ i
    · rw [if_pos hfront, if_pos hfront, List.getElem?_append_left (by omega)]
    · rw [if_neg hfront, if_neg hfront]

theorem Bytes.write_behind
    (m : Bytes)
    (h : off = a.length) :
    (m.write 0 a).write off b = m.write 0 (a ++ b) := by
  have happend := m.write_append 0 a b
  rwa [Nat.zero_add, ← h] at happend

/-- Zeros written over the end of a field before the field is written fill it up. -/
theorem Bytes.write_over_zeros
    (m : Bytes)
    {q k : Nat}
    (hstart : off ≤ q)
    (hinside : q ≤ off + a.length)
    (hend : off + a.length ≤ q + k) :
    (m.write q (List.replicate k 0)).write off a =
      m.write off (a ++ List.replicate (q + k - (off + a.length)) 0) := by
  funext i
  simp only [Bytes.write_apply]
  by_cases hfront : off ≤ i
  · rw [if_pos hfront, if_pos hfront]
    by_cases hin : i - off < a.length
    · rw [List.getElem?_append_left hin, List.getElem?_eq_getElem hin, Option.getD_some,
        Option.getD_some]
    · rw [List.getElem?_append_right (by omega), List.getElem?_eq_none (by omega), Option.getD_none,
        if_pos (by omega), List.getElem?_replicate, List.getElem?_replicate]
      by_cases hzero : i < q + k
      · rw [if_pos (by omega), if_pos (by omega)]
      · rw [if_neg (by omega), if_neg (by omega)]
  · rw [if_neg hfront, if_neg hfront, if_neg (by omega)]

/-- A store right behind the bytes that a buffer begins with. -/
theorem Bytes.Holds.store_behind
    {size : Nat}
    (h : m.Holds 0 a)
    (hsize : a.length + b.length ≤ size) :
    ∃ m', store size m a.length b = some m' ∧ m'.Holds 0 (a ++ b) := by
  refine ⟨m.write a.length b, store_eq hsize, Bytes.holds_append.mpr ⟨?_, ?_⟩⟩
  · exact h.write (Or.inr (by omega))
  · rw [Nat.zero_add]
    exact Bytes.holds_write

/-- A read in two parts. -/
theorem Bytes.read_add
    (m : Bytes)
    (off j k : Nat) :
    m.read off (j + k) = m.read off j ++ m.read (off + j) k := by
  simp only [Bytes.read, List.range_add, List.map_append, List.map_map]
  congr 1
  apply List.map_congr_left
  intro i _
  simp [Nat.add_assoc]

end Holds

/-! ### Strings -/

/-- The string at the beginning of an array, up to its terminator. -/
def cString (size : Nat) (m : Bytes) : List UInt8 := (m.read 0 size).takeWhile (· ≠ 0)

/-- The text in front of a terminator, up to its own first zero. -/
theorem cString_of_holds_zero
    {size : Nat}
    {m : Bytes}
    {s : List UInt8}
    (h : m.Holds 0 (s ++ [0]))
    (hsize : s.length < size) :
    cString size m = s.takeWhile (· ≠ 0) := by
  have hread : m.read 0 size = (s ++ [0]) ++ m.read (s.length + 1) (size - (s.length + 1)) := by
    have hlen : (s ++ [(0 : UInt8)]).length = s.length + 1 := by simp
    have hsplit := m.read_add 0 (s.length + 1) (size - (s.length + 1))
    rw [← hlen, h.read_eq, hlen, Nat.zero_add] at hsplit
    rw [← hsplit]
    congr 1
    omega
  rw [cString, hread, List.append_assoc, List.singleton_append]
  generalize m.read (s.length + 1) (size - (s.length + 1)) = rest
  clear h hread hsize
  induction s with
  | nil => rfl
  | cons b s ih =>
      rw [List.cons_append, List.takeWhile_cons, List.takeWhile_cons, ih]

theorem cString_of_holds
    {size : Nat}
    {m : Bytes}
    {s : List UInt8}
    (h : m.Holds 0 (s ++ [0]))
    (hs : 0 ∉ s)
    (hsize : s.length < size) :
    cString size m = s := by
  rw [cString_of_holds_zero h hsize, List.takeWhile_eq_self_iff]
  intro b hb
  rw [decide_eq_true_eq]
  rintro rfl
  exact hs hb

/-- The first position of a byte among the next `k` positions, or that of the terminator
before it; a search that meets neither leaves the array. -/
def strchrFrom (size : Nat) (m : Bytes) (c : UInt8) : Nat → Nat → Option (Option Nat)
  | 0, _ => none
  | k + 1, p =>
      if p < size then
        if m p = c then some (some p)
        else if m p = 0 then some none
        else strchrFrom size m c k (p + 1)
      else none

def strchr (size : Nat) (m : Bytes) (p : Nat) (c : UInt8) : Option (Option Nat) :=
  strchrFrom size m c (size + 1) p

def strlen (size : Nat) (m : Bytes) (p : Nat) : Option Nat :=
  (strchr size m p 0).bind fun found => found.map (· - p)

/-- A copy of at most `n` bytes of the string at a position. -/
def strncpy (size : Nat) (m : Bytes) : Nat → Nat → Option (List UInt8)
  | _, 0 => some []
  | p, n + 1 =>
      if p < size then
        if m p = 0 then some [] else (strncpy size m (p + 1) n).map fun s => m p :: s
      else none

theorem Bytes.Holds.head
    {m : Bytes}
    {p : Nat}
    {b : UInt8}
    {s : List UInt8}
    (h : m.Holds p (b :: s)) :
    m p = b ∧ m.Holds (p + 1) s := by
  rw [← List.singleton_append, Bytes.holds_append] at h
  refine ⟨?_, h.2⟩
  simpa using (h.1 0 (by simp)).symm

theorem strchrFrom_of_holds
    {size k p : Nat}
    {m : Bytes}
    {c : UInt8}
    {s : List UInt8}
    (h : m.Holds p (s ++ [0]))
    (hs : 0 ∉ s)
    (hsize : p + s.length < size)
    (hk : s.length < k) :
    strchrFrom size m c k p =
      some (if c ∈ s then some (p + s.idxOf c)
        else if c = 0 then some (p + s.length) else none) := by
  induction s generalizing p k with
  | nil =>
      obtain ⟨k, rfl⟩ := Nat.exists_eq_succ_of_ne_zero (Nat.ne_of_gt hk)
      have hzero := (Bytes.Holds.head h).1
      rw [strchrFrom, if_pos (by simpa using hsize), hzero]
      by_cases hc : c = 0
      · simp [hc]
      · simp [hc, Ne.symm hc]
  | cons b s ih =>
      obtain ⟨k, rfl⟩ := Nat.exists_eq_succ_of_ne_zero (Nat.ne_of_gt (Nat.zero_lt_of_lt hk))
      obtain ⟨hb, hrest⟩ := Bytes.Holds.head h
      rw [List.mem_cons, not_or] at hs
      rw [List.length_cons] at hsize hk
      rw [strchrFrom, if_pos (by omega), hb]
      by_cases hc : b = c
      · simp [hc]
      · rw [if_neg hc, if_neg (Ne.symm hs.1), ih hrest hs.2 (by omega) (by omega),
          List.idxOf_cons_ne s hc]
        have hadd (i : Nat) : p + 1 + i = p + (i + 1) := by omega
        simp only [List.mem_cons, Ne.symm hc, false_or, List.length_cons, hadd]

/-- The search in a string. -/
theorem strchr_of_holds
    {size p : Nat}
    {m : Bytes}
    {c : UInt8}
    {s : List UInt8}
    (h : m.Holds p (s ++ [0]))
    (hs : 0 ∉ s)
    (hc : c ≠ 0)
    (hsize : p + s.length < size) :
    strchr size m p c = some (if c ∈ s then some (p + s.idxOf c) else none) := by
  rw [strchr, strchrFrom_of_holds h hs hsize (by omega), if_neg hc]

theorem strlen_of_holds
    {size p : Nat}
    {m : Bytes}
    {s : List UInt8}
    (h : m.Holds p (s ++ [0]))
    (hs : 0 ∉ s)
    (hsize : p + s.length < size) :
    strlen size m p = some s.length := by
  rw [strlen, strchr, strchrFrom_of_holds h hs hsize (by omega), if_neg hs, if_pos rfl]
  simp

theorem strchrFrom_zero_isSome_iff
    {size k p : Nat}
    {m : Bytes}
    (hk : size < p + k) :
    (strchrFrom size m 0 k p).isSome ↔ ∃ j, p ≤ j ∧ j < size ∧ m j = 0 := by
  induction k generalizing p with
  | zero =>
      refine iff_of_false (by simp [strchrFrom]) ?_
      rintro ⟨j, hle, hlt, -⟩
      omega
  | succ k ih =>
      rw [strchrFrom]
      by_cases hp : p < size
      · rw [if_pos hp]
        by_cases hzero : m p = 0
        · rw [if_pos hzero]
          exact iff_of_true rfl ⟨p, Nat.le_refl p, hp, hzero⟩
        · rw [if_neg hzero, if_neg hzero, ih (by omega)]
          constructor
          · rintro ⟨j, hle, hlt, hj⟩
            exact ⟨j, by omega, hlt, hj⟩
          · rintro ⟨j, hle, hlt, hj⟩
            rcases Nat.eq_or_lt_of_le hle with rfl | hgt
            · exact absurd hj hzero
            · exact ⟨j, hgt, hlt, hj⟩
      · rw [if_neg hp]
        refine iff_of_false (by simp) ?_
        rintro ⟨j, hle, hlt, -⟩
        omega

/-- A string can be read if it has a terminator in the array. -/
theorem strlen_isSome_iff
    {size p : Nat}
    {m : Bytes} :
    (strlen size m p).isSome ↔ ∃ j, p ≤ j ∧ j < size ∧ m j = 0 := by
  have hk : size < p + (size + 1) := by omega
  rw [← strchrFrom_zero_isSome_iff hk, strlen, strchr]
  have hfound : ∀ k p, strchrFrom size m 0 k p ≠ some none := by
    intro k
    induction k with
    | zero => simp [strchrFrom]
    | succ k ih =>
        intro p
        rw [strchrFrom]
        split
        · split
          · simp
          · exact ih (p + 1)
        · simp
  cases hscan : strchrFrom size m 0 (size + 1) p with
  | none => rfl
  | some found =>
      cases found with
      | none => exact absurd hscan (hfound _ _)
      | some j => rfl

theorem strncpy_of_holds
    {size p n : Nat}
    {m : Bytes}
    {s : List UInt8}
    (h : m.Holds p s)
    (hs : 0 ∉ s)
    (hsize : p + s.length ≤ size)
    (hn : n ≤ s.length) :
    strncpy size m p n = some (s.take n) := by
  induction s generalizing p n with
  | nil =>
      obtain rfl : n = 0 := Nat.le_zero.mp hn
      rfl
  | cons b s ih =>
      cases n with
      | zero => rfl
      | succ n =>
          obtain ⟨hb, hrest⟩ := Bytes.Holds.head h
          rw [List.mem_cons, not_or] at hs
          rw [List.length_cons] at hsize hn
          rw [strncpy, if_pos (by omega), hb, if_neg (Ne.symm hs.1),
            ih hrest hs.2 (by omega) (by omega)]
          rfl

/-- A copy stays in the array if nothing is copied, the field lies there, or a zero in the
array ends it. -/
theorem strncpy_eq_some_iff
    {size p n : Nat}
    {m : Bytes} :
    (∃ s, strncpy size m p n = some s) ↔
      n = 0 ∨ p + n ≤ size ∨ ∃ i, p ≤ i ∧ i < size ∧ m i = 0 := by
  induction n generalizing p with
  | zero => simp [strncpy]
  | succ n ih =>
      rw [strncpy]
      by_cases hp : p < size
      · by_cases hzero : m p = 0
        · rw [if_pos hp, if_pos hzero]
          exact iff_of_true ⟨[], rfl⟩ (Or.inr (Or.inr ⟨p, le_refl p, hp, hzero⟩))
        · have hlater : (∃ i, p ≤ i ∧ i < size ∧ m i = 0) ↔
              ∃ i, p + 1 ≤ i ∧ i < size ∧ m i = 0 := by
            refine exists_congr fun i => ?_
            constructor
            · rintro ⟨hi, hlt, hm⟩
              have hne : p ≠ i := fun heq => hzero (heq ▸ hm)
              exact ⟨by omega, hlt, hm⟩
            · rintro ⟨hi, hlt, hm⟩
              exact ⟨by omega, hlt, hm⟩
          have hmap : (∃ s, (strncpy size m (p + 1) n).map (fun s => m p :: s) = some s) ↔
              ∃ s, strncpy size m (p + 1) n = some s := by
            simp only [Option.map_eq_some_iff]
            exact ⟨fun ⟨_, s, hs, _⟩ => ⟨s, hs⟩, fun ⟨s, hs⟩ => ⟨_, s, hs, rfl⟩⟩
          rw [if_pos hp, if_neg hzero, hmap, ih, hlater]
          constructor
          · rintro (rfl | hfits | hends)
            · exact Or.inr (Or.inl (by omega))
            · exact Or.inr (Or.inl (by omega))
            · exact Or.inr (Or.inr hends)
          · rintro (hnone | hfits | hends)
            · exact absurd hnone (Nat.succ_ne_zero n)
            · exact Or.inr (Or.inl (by omega))
            · exact Or.inr (Or.inr hends)
      · rw [if_neg hp]
        refine iff_of_false (by rintro ⟨s, hs⟩; cases hs) ?_
        rintro (hnone | hfits | ⟨i, hi, hlt, -⟩)
        · exact absurd hnone (Nat.succ_ne_zero n)
        · omega
        · omega

/-- A search that meets no zero finds the byte, or leaves the array. -/
theorem strchr_of_nonzero
    {size p : Nat}
    {m : Bytes}
    {c : UInt8}
    (h : ∀ i, p ≤ i → i < size → m i ≠ 0) :
    strchr size m p c = none ∨ ∃ q, p ≤ q ∧ strchr size m p c = some (some q) := by
  rw [strchr]
  generalize size + 1 = k
  induction k generalizing p with
  | zero => exact Or.inl rfl
  | succ k ih =>
      rw [strchrFrom]
      by_cases hlt : p < size
      · rw [if_pos hlt]
        by_cases hc : m p = c
        · rw [if_pos hc]
          exact Or.inr ⟨p, le_refl p, rfl⟩
        · rw [if_neg hc, if_neg (h p (le_refl p) hlt)]
          rcases @ih (p + 1) fun i hi => h i (by omega) with hnone | ⟨q, hq, hsome⟩
          · exact Or.inl hnone
          · exact Or.inr ⟨q, by omega, hsome⟩
      · rw [if_neg hlt]
        exact Or.inl rfl

/-- The string at the beginning of some bytes. -/
def stringAt (bytes : List UInt8) : List UInt8 := bytes.takeWhile (· ≠ 0)

/-- What `strncpy` stores: the string, cut to `n` bytes or filled up with zeros. -/
def strncpyBytes (n : Nat) (src : List UInt8) : List UInt8 :=
  (stringAt src).take n ++ List.replicate (n - (stringAt src).length) 0

section StringAt

variable {a b : List UInt8} {n : Nat}

theorem stringAt_of_not_mem
    (h : 0 ∉ a) :
    stringAt a = a := by
  rw [stringAt, List.takeWhile_eq_self_iff]
  intro c hc
  rw [decide_eq_true_eq]
  rintro rfl
  exact h hc

theorem stringAt_append_of_not_mem
    (h : 0 ∉ a) :
    stringAt (a ++ b) = a ++ stringAt b := by
  refine List.takeWhile_append_of_pos ?_
  intro c hc
  rw [decide_eq_true_eq]
  rintro rfl
  exact h hc

/-- A string ends at its first zero, whatever lies behind it. -/
theorem stringAt_append_of_mem
    (h : 0 ∈ a) :
    stringAt (a ++ b) = stringAt a := by
  obtain ⟨front, rest, rfl, hfront⟩ := List.eq_append_cons_of_mem h
  rw [List.append_assoc, stringAt_append_of_not_mem hfront, stringAt_append_of_not_mem hfront]
  simp [stringAt]

@[simp] theorem stringAt_replicate_zero :
    stringAt (List.replicate n 0) = [] := by
  cases n <;> simp [stringAt, List.replicate_succ]

theorem zero_not_mem_stringAt
    (a : List UInt8) :
    0 ∉ stringAt a := by
  intro h
  have := List.mem_takeWhile_imp h
  simp at this

@[simp] theorem stringAt_append_zero
    (a : List UInt8) :
    stringAt (a ++ [0]) = stringAt a := by
  by_cases h : 0 ∈ a
  · exact stringAt_append_of_mem h
  · rw [stringAt_append_of_not_mem h, stringAt_of_not_mem h]
    simp [stringAt]

/-- Bytes with a zero begin with their string and its terminator. -/
theorem exists_behind_stringAt
    (h : 0 ∈ a) :
    ∃ rest, a = stringAt a ++ 0 :: rest := by
  obtain ⟨front, rest, rfl, hfront⟩ := List.eq_append_cons_of_mem h
  refine ⟨rest, ?_⟩
  rw [stringAt_append_of_not_mem hfront]
  simp [stringAt]

@[simp] theorem length_strncpyBytes
    (n : Nat)
    (src : List UInt8) :
    (strncpyBytes n src).length = n := by
  simp only [strncpyBytes, List.length_append, List.length_take, List.length_replicate]
  omega

/-- Cutting a string and taking the string of what was cut are the same. -/
theorem take_stringAt
    (n : Nat)
    (src : List UInt8) :
    (stringAt src).take n = stringAt (src.take n) :=
  List.take_takeWhile

theorem stringAt_strncpyBytes
    (n : Nat)
    (src : List UInt8) :
    stringAt (strncpyBytes n src) = stringAt (src.take n) := by
  rw [strncpyBytes, take_stringAt, stringAt_append_of_not_mem (zero_not_mem_stringAt _),
    stringAt_replicate_zero, List.append_nil]

/-- A field without a zero is copied as it is. -/
theorem strncpyBytes_of_not_mem
    (h : 0 ∉ b.take n)
    (hlen : n ≤ b.length) :
    strncpyBytes n b = b.take n := by
  have hcut := length_strncpyBytes n b
  rw [strncpyBytes, take_stringAt, stringAt_of_not_mem h] at hcut ⊢
  rw [List.length_append, List.length_take, List.length_replicate] at hcut
  have hnone : n - (stringAt b).length = 0 := by omega
  rw [hnone, List.replicate_zero, List.append_nil]

/-- A zero in the field ends the copy, and zeros fill it up. -/
theorem zero_mem_strncpyBytes
    (h : 0 ∈ b.take n) :
    0 ∈ strncpyBytes n b := by
  obtain ⟨front, rest, hsplit, hfront⟩ := List.eq_append_cons_of_mem h
  have hlen : front.length < n := by
    have := congrArg List.length hsplit
    rw [List.length_take, List.length_append, List.length_cons] at this
    omega
  have hstring : stringAt b = front := by
    rw [← List.take_append_drop n b, stringAt_append_of_mem h, hsplit,
      stringAt_append_of_not_mem hfront]
    simp [stringAt]
  rw [strncpyBytes, hstring, List.mem_append]
  exact Or.inr (List.mem_replicate.mpr ⟨by omega, rfl⟩)

theorem mem_strncpyBytes
    {c : UInt8}
    (h : c ∈ strncpyBytes n b) :
    c ∈ b.take n ∨ c = 0 := by
  rw [strncpyBytes, take_stringAt] at h
  rcases List.mem_append.mp h with h | h
  · exact Or.inl ((List.takeWhile_prefix _).subset h)
  · exact Or.inr (List.eq_of_mem_replicate h)

end StringAt

/-! ### Words of 16 bits -/

def wordBytes (w : UInt16) : List UInt8 :=
  [UInt8.ofNat (w.toNat % 256), UInt8.ofNat (w.toNat / 256)]

def wordOfBytes (lo hi : UInt8) : UInt16 := UInt16.ofNat (lo.toNat + 256 * hi.toNat)

@[simp] theorem length_wordBytes
    (w : UInt16) :
    (wordBytes w).length = 2 :=
  rfl

theorem wordOfBytes_toNat
    (lo hi : UInt8) :
    (wordOfBytes lo hi).toNat = lo.toNat + 256 * hi.toNat := by
  have hlo := lo.toNat_lt
  have hhi := hi.toNat_lt
  exact UInt16.toNat_ofNat_of_lt' (by change _ < 65536; omega)

@[simp] theorem wordOfBytes_wordBytes
    (w : UInt16) :
    wordOfBytes (UInt8.ofNat (w.toNat % 256)) (UInt8.ofNat (w.toNat / 256)) = w := by
  have hw := w.toNat_lt
  apply UInt16.toNat_inj.mp
  rw [wordOfBytes_toNat, UInt8.toNat_ofNat_of_lt' (by change _ < 256; omega),
    UInt8.toNat_ofNat_of_lt' (by change _ < 256; omega)]
  omega

theorem wordBytes_wordOfBytes
    (lo hi : UInt8) :
    wordBytes (wordOfBytes lo hi) = [lo, hi] := by
  have hlo := lo.toNat_lt
  have hmod : (lo.toNat + 256 * hi.toNat) % 256 = lo.toNat := by omega
  have hdiv : (lo.toNat + 256 * hi.toNat) / 256 = hi.toNat := by omega
  rw [wordBytes, wordOfBytes_toNat, hmod, hdiv, UInt8.ofNat_toNat, UInt8.ofNat_toNat]

/-- The word at a position. -/
def loadWord (size : Nat) (m : Bytes) (off : Nat) : Option UInt16 :=
  if off + 2 ≤ size then some (wordOfBytes (m off) (m (off + 1))) else none

theorem Bytes.Holds.loadWord_eq
    {size off : Nat}
    {m : Bytes}
    {w : UInt16}
    (h : m.Holds off (wordBytes w))
    (hsize : off + 2 ≤ size) :
    loadWord size m off = some w := by
  have h0 := h 0 (by simp)
  have h1 := h 1 (by simp)
  simp only [wordBytes, List.getElem?_cons_zero, List.getElem?_cons_succ, Option.some.injEq,
    Nat.add_zero] at h0 h1
  rw [loadWord, if_pos hsize, ← h0, ← h1, wordOfBytes_wordBytes]

/-- Copy words from one array to another with their two bytes exchanged, in ascending
order. -/
def copySwapped (srcSize : Nat) (src : Bytes) (srcOff dstSize dstOff : Nat) :
    Nat → Bytes → Option Bytes
  | 0, dst => some dst
  | n + 1, dst =>
      (copySwapped srcSize src srcOff dstSize dstOff n dst).bind fun dst =>
        if srcOff + 2 * n + 2 ≤ srcSize then
          store dstSize dst (dstOff + 2 * n) [src (srcOff + 2 * n + 1), src (srcOff + 2 * n)]
        else none

/-- The bytes of `n` words from a position on, high byte first. -/
def swappedBytes (src : Bytes) (off : Nat) : Nat → List UInt8
  | 0 => []
  | n + 1 => swappedBytes src off n ++ [src (off + 2 * n + 1), src (off + 2 * n)]

@[simp] theorem length_swappedBytes
    (src : Bytes)
    (off n : Nat) :
    (swappedBytes src off n).length = 2 * n := by
  induction n with
  | zero => rfl
  | succ n ih =>
      rw [swappedBytes, List.length_append, ih]
      rfl

theorem swappedBytes_eq_flatMap
    (src : Bytes)
    (off n : Nat) :
    swappedBytes src off n =
      (List.range n).flatMap fun k => [src (off + 2 * k + 1), src (off + 2 * k)] := by
  induction n with
  | zero => rfl
  | succ n ih =>
      rw [swappedBytes, ih, List.range_succ, List.flatMap_append, List.flatMap_singleton]

theorem getElem?_swappedBytes
    (src : Bytes)
    (off : Nat)
    {n k : Nat}
    (hk : k < n) :
    (swappedBytes src off n)[2 * k]? = some (src (off + 2 * k + 1)) ∧
      (swappedBytes src off n)[2 * k + 1]? = some (src (off + 2 * k)) := by
  induction n with
  | zero => omega
  | succ n ih =>
      have hlen := length_swappedBytes src off n
      rcases Nat.lt_or_eq_of_le (Nat.le_of_lt_succ hk) with hlt | rfl
      · rw [swappedBytes, List.getElem?_append_left (by omega),
          List.getElem?_append_left (by omega)]
        exact ih hlt
      · have hone : 2 * k + 1 - 2 * k = 1 := by omega
        rw [swappedBytes, List.getElem?_append_right (by omega),
          List.getElem?_append_right (by omega), hlen, Nat.sub_self, hone]
        exact ⟨rfl, rfl⟩

/-- Each word of a copy. -/
theorem write_swappedBytes
    (dst src : Bytes)
    (dstOff off : Nat)
    {n k : Nat}
    (hk : k < n) :
    dst.write dstOff (swappedBytes src off n) (dstOff + 2 * k) = src (off + 2 * k + 1) ∧
      dst.write dstOff (swappedBytes src off n) (dstOff + 2 * k + 1) = src (off + 2 * k) := by
  obtain ⟨hhigh, hlow⟩ := getElem?_swappedBytes src off hk
  have hfirst : dstOff + 2 * k - dstOff = 2 * k := by omega
  have hsecond : dstOff + 2 * k + 1 - dstOff = 2 * k + 1 := by omega
  simp only [Bytes.write_apply]
  rw [if_pos (by omega), if_pos (by omega), hfirst, hsecond, hhigh, hlow]
  exact ⟨rfl, rfl⟩

/-- Two arrays have the same words if they agree on their bytes. -/
theorem swappedBytes_eq_iff
    (src src' : Bytes)
    (off n : Nat) :
    swappedBytes src off n = swappedBytes src' off n ↔
      ∀ i, off ≤ i → i < off + 2 * n → src i = src' i := by
  induction n with
  | zero => exact iff_of_true rfl fun i hle hlt => by omega
  | succ n ih =>
      have hlen := length_swappedBytes src off n
      have hlen' := length_swappedBytes src' off n
      have hwords : swappedBytes src off n = swappedBytes src' off n ∧
          src (off + 2 * n + 1) = src' (off + 2 * n + 1) ∧ src (off + 2 * n) = src' (off + 2 * n) ↔
          swappedBytes src off (n + 1) = swappedBytes src' off (n + 1) := by
        rw [swappedBytes, swappedBytes]
        constructor
        · rintro ⟨hfront, hhigh, hlow⟩
          rw [hfront, hhigh, hlow]
        · intro h
          obtain ⟨hfront, hword⟩ := List.append_inj h (hlen.trans hlen'.symm)
          simp only [List.cons.injEq, and_true] at hword
          exact ⟨hfront, hword⟩
      rw [← hwords, ih]
      constructor
      · rintro ⟨hfront, hhigh, hlow⟩ i hle hlt
        by_cases hi : i < off + 2 * n
        · exact hfront i hle hi
        · rcases (by omega : i = off + 2 * n ∨ i = off + 2 * n + 1) with rfl | rfl
          · exact hlow
          · exact hhigh
      · intro h
        exact ⟨fun i hle hlt => h i hle (by omega), h _ (by omega) (by omega),
          h _ (by omega) (by omega)⟩

/-- The words have arrived with their bytes exchanged, if both arrays hold them. -/
theorem copySwapped_spec
    (srcSize : Nat)
    (src : Bytes)
    (srcOff dstSize dstOff n : Nat)
    (dst : Bytes) :
    copySwapped srcSize src srcOff dstSize dstOff n dst =
      if n = 0 ∨ (srcOff + 2 * n ≤ srcSize ∧ dstOff + 2 * n ≤ dstSize) then
        some (dst.write dstOff (swappedBytes src srcOff n))
      else none := by
  induction n with
  | zero =>
      rw [copySwapped, if_pos (Or.inl rfl)]
      congr 1
      funext i
      simp [Bytes.write_apply, swappedBytes]
  | succ n ih =>
      rw [copySwapped, ih]
      by_cases hfits : srcOff + 2 * (n + 1) ≤ srcSize ∧ dstOff + 2 * (n + 1) ≤ dstSize
      · have hbefore : n = 0 ∨ (srcOff + 2 * n ≤ srcSize ∧ dstOff + 2 * n ≤ dstSize) :=
          Or.inr ⟨by omega, by omega⟩
        have hbehind := dst.write_append dstOff (swappedBytes src srcOff n)
          [src (srcOff + 2 * n + 1), src (srcOff + 2 * n)]
        rw [length_swappedBytes] at hbehind
        have hstore (m : Bytes) :
            store dstSize m (dstOff + 2 * n) [src (srcOff + 2 * n + 1), src (srcOff + 2 * n)] =
              some (m.write (dstOff + 2 * n) [src (srcOff + 2 * n + 1), src (srcOff + 2 * n)]) :=
          store_eq (by simp only [List.length_cons, List.length_nil]; omega)
        rw [if_pos hbefore, if_pos (Or.inr hfits), Option.bind_some, if_pos (by omega), hstore,
          hbehind]
        rfl
      · have hstop (m : Bytes) :
            (if srcOff + 2 * n + 2 ≤ srcSize then
              store dstSize m (dstOff + 2 * n) [src (srcOff + 2 * n + 1), src (srcOff + 2 * n)]
            else none) = none := by
          split
          next hsrc =>
            rw [store]
            exact if_neg (by simp only [List.length_cons, List.length_nil]; omega)
          next => rfl
        rw [if_neg (by omega : ¬ (n + 1 = 0 ∨ _))]
        simp only [hstop]
        exact Option.bind_fun_none _

/-- Each word, and the bytes that are as before. -/
theorem copySwapped_eq
    {srcSize srcOff dstSize dstOff n : Nat}
    (src dst : Bytes)
    (hsrc : srcOff + 2 * n ≤ srcSize)
    (hdst : dstOff + 2 * n ≤ dstSize) :
    ∃ dst', copySwapped srcSize src srcOff dstSize dstOff n dst = some dst' ∧
      (∀ k, k < n → dst' (dstOff + 2 * k) = src (srcOff + 2 * k + 1) ∧
        dst' (dstOff + 2 * k + 1) = src (srcOff + 2 * k)) ∧
      ∀ i, i < dstOff ∨ dstOff + 2 * n ≤ i → dst' i = dst i := by
  refine ⟨dst.write dstOff (swappedBytes src srcOff n), ?_, ?_, ?_⟩
  · rw [copySwapped_spec, if_pos (Or.inr ⟨hsrc, hdst⟩)]
  · intro k hk
    exact write_swappedBytes dst src dstOff srcOff hk
  · intro i hi
    exact Bytes.write_outside (by rw [length_swappedBytes]; omega)

end Library
end MatrixBin
