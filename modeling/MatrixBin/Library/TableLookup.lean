import Mathlib.Data.Int.Notation
import Mathlib.Data.List.Basic
import Mathlib.Data.List.Pairwise

/-!
# Searching a table of strings

`scanTable` is a loop over the indices of a table, up to a bound that need not be the length of
the table; a read behind the table is `none`.  Strings are compared with `strncmp`, up to the
length of the entry, so that an entry matches every string that begins with it.

`lookedUp_iff` says when such a search is right: if no entry of the table begins another one
and the bound lies behind the table, exactly for the strings of the table.
-/

namespace MatrixBin
namespace Library

universe u

section Scan

variable {α : Type u}

/-- The loop from the index `i` on, with so many iterations left. -/
def scanFrom (p : α → Bool) (table : List α) : Nat → Nat → Option Nat
  | 0, i => some i
  | n + 1, i => table[i]?.bind fun entry => if p entry then some i else scanFrom p table n (i + 1)

def scanTable (p : α → Bool) (table : List α) (bound : Nat) : Option Nat :=
  scanFrom p table bound 0

variable {p : α → Bool} {table : List α}

/-- From an index in front of the first match, or in front of the end. -/
theorem scanFrom_eq
    (n : Nat)
    {i : Nat}
    (hi : i ≤ table.findIdx p) :
    scanFrom p table n i =
      if i + n ≤ table.findIdx p then some (i + n)
      else if table.findIdx p < table.length then some (table.findIdx p)
      else none := by
  induction n generalizing i with
  | zero => rw [scanFrom, Nat.add_zero, if_pos hi]
  | succ n ih =>
      have hle : table.findIdx p ≤ table.length := List.findIdx_le_length
      rw [scanFrom]
      rcases Nat.lt_or_eq_of_le hi with hlt | rfl
      · -- not there yet
        have hinside : i < table.length := by omega
        have hmiss : p table[i] = false := by
          simpa using List.not_of_lt_findIdx hlt
        rw [List.getElem?_eq_getElem hinside, Option.bind_some, if_neg (by simp [hmiss]), ih hlt]
        congr 2 <;> omega
      · rw [if_neg (by omega)]
        split_ifs with hfound
        · rw [List.getElem?_eq_getElem hfound, Option.bind_some, if_pos List.findIdx_getElem]
        · rw [List.getElem?_eq_none (Nat.le_of_not_lt hfound), Option.bind_none]

/-- With a bound behind the table, the search ends at the first match or leaves the table. -/
theorem scanTable_eq
    {bound : Nat}
    (hbound : table.length < bound) :
    scanTable p table bound =
      if table.findIdx p < table.length then some (table.findIdx p) else none := by
  have hle : table.findIdx p ≤ table.length := List.findIdx_le_length
  rw [scanTable, scanFrom_eq bound (Nat.zero_le _), if_neg (by omega)]

/-- The search leaves the table if nothing in it matches. -/
theorem scanTable_eq_none_iff
    {bound : Nat}
    (hbound : table.length < bound) :
    scanTable p table bound = none ↔ ∀ entry ∈ table, p entry = false := by
  rw [scanTable_eq hbound, ite_eq_right_iff, imp_iff_not (by simp), List.findIdx_lt_length]
  simp

end Scan

/-! ### Strings -/

/-- `strncmp`, on the bytes in front of the zeros. -/
def strncmp : Nat → List UInt8 → List UInt8 → ℤ
  | 0, _, _ => 0
  | n + 1, a, b =>
      if a.headD 0 = b.headD 0 then if a.headD 0 = 0 then 0 else strncmp n a.tail b.tail
      else (a.headD 0).toNat - (b.headD 0).toNat

/-- Up to its length, a string equals the strings that begin with it. -/
theorem strncmp_eq_zero_iff
    {a : List UInt8}
    (hzero : 0 ∉ a)
    (b : List UInt8) :
    strncmp a.length a b = 0 ↔ a <+: b := by
  induction a generalizing b with
  | nil => simp [strncmp]
  | cons x a ih =>
      rw [List.mem_cons, not_or] at hzero
      obtain ⟨hx, hzero⟩ := hzero
      have hdiffer : ∀ y : UInt8, x ≠ y → (x.toNat : ℤ) - y.toNat ≠ 0 := by
        intro y hy hsub
        exact hy (UInt8.toNat_inj.mp (by omega))
      cases b with
      | nil => simpa [strncmp, Ne.symm hx] using hdiffer 0 (Ne.symm hx)
      | cons y b =>
          rw [List.length_cons, List.cons_prefix_cons]
          by_cases hxy : x = y
          · have hstep : strncmp (a.length + 1) (x :: a) (y :: b) = strncmp a.length a b := by
              simp [strncmp, hxy, hxy ▸ Ne.symm hx]
            rw [hstep, ih hzero]
            exact (and_iff_right hxy).symm
          · have hstep : strncmp (a.length + 1) (x :: a) (y :: b) = (x.toNat : ℤ) - y.toNat := by
              simp [strncmp, hxy]
            rw [hstep]
            exact iff_of_false (hdiffer y hxy) (fun h => hxy h.1)

/-- The search is right for a string: it stays inside the table, ends at an entry exactly if
that entry is the string, and gives `max` for a string that is none of the entries. -/
structure LookedUp {α : Type u} (table : List α) (max : Nat) (s : α) (result : Option Nat) :
    Prop where
  inside : result ≠ none
  entry : ∀ i, i < table.length → (result = some i ↔ table[i]? = some s)
  other : s ∉ table → result = some max

section Prefixes

variable {α : Type u} {table : List (List α)} {p : List α → Bool} {s : List α} {bound : Nat}

/-- No entry begins a later one. -/
def PrefixFree (table : List (List α)) : Prop := table.Pairwise fun a b => ¬ a <+: b

instance [DecidableEq α] (table : List (List α)) : Decidable (PrefixFree table) :=
  inferInstanceAs (Decidable (table.Pairwise _))

theorem PrefixFree.eq_of_prefix
    (hfree : PrefixFree table)
    {i j : Nat}
    (hi : i < table.length)
    (hj : j < table.length)
    (hle : i ≤ j)
    (hbegins : table[i] <+: table[j]) :
    i = j := by
  rcases Nat.lt_or_eq_of_le hle with hlt | heq
  · exact absurd hbegins (List.pairwise_iff_getElem.mp hfree i j hi hj hlt)
  · exact heq

/-- An entry is found at its own index. -/
theorem scanTable_of_entry
    (hfree : PrefixFree table)
    (hp : ∀ entry ∈ table, p entry = true ↔ entry <+: s)
    (hbound : table.length < bound)
    {i : Nat}
    (hi : i < table.length)
    (hs : table[i] = s) :
    scanTable p table bound = some i := by
  have hfind : table.findIdx p = i := by
    rw [List.findIdx_eq hi, hp _ (List.getElem_mem hi), hs]
    refine ⟨List.prefix_rfl, fun j hj => ?_⟩
    have hjlen : j < table.length := Nat.lt_trans hj hi
    rw [← Bool.not_eq_true, hp _ (List.getElem_mem hjlen), ← hs]
    exact fun hbegins => Nat.ne_of_lt hj (hfree.eq_of_prefix hjlen hi (Nat.le_of_lt hj) hbegins)
  rw [scanTable_eq hbound, hfind, if_pos hi]

/-- **The strings that a search finds.**  With the bound behind the table and no entry that
begins a later one, the search is right exactly for the entries. -/
theorem lookedUp_iff
    (hfree : PrefixFree table)
    (hp : ∀ entry ∈ table, p entry = true ↔ entry <+: s)
    (hbound : table.length < bound)
    (max : Nat) :
    LookedUp table max s (scanTable p table bound) ↔ s ∈ table := by
  constructor
  · intro h
    have hinside := h.inside
    rw [scanTable_eq hbound, ite_ne_right_iff] at hinside
    have hfound := (h.entry _ hinside.1).mp (by rw [scanTable_eq hbound, if_pos hinside.1])
    exact List.mem_of_getElem? hfound
  · intro hs
    obtain ⟨k, hk, hentry⟩ := List.getElem_of_mem hs
    have hscan := scanTable_of_entry hfree hp hbound hk hentry
    rw [hscan]
    refine ⟨by simp, fun i hi => ?_, fun hno => absurd hs hno⟩
    rw [Option.some.injEq, List.getElem?_eq_getElem hi, Option.some.injEq]
    constructor
    · rintro rfl
      exact hentry
    · intro hi'
      -- two entries that are the same string are one
      have hsame : scanTable p table bound = some i := scanTable_of_entry hfree hp hbound hi hi'
      exact Option.some.inj (hscan.symm.trans hsame)

end Prefixes

end Library
end MatrixBin
