import Mathlib.Data.List.Basic

/-!
# Lines that end with a terminator

The reference splitter over an arbitrary alphabet.  One pass over a word gives its
lines, each with its terminator, and the tail behind the last terminator.

A stream that arrives in pieces is split as its concatenation: `splitLines_append` keeps
only the tail of what came before.
-/

namespace MatrixBin
namespace Library

universe u

section LineSplitter

variable {α : Type u} [DecidableEq α] (sym : α)

/-- The lines and the tail of a word behind an unfinished line. -/
def splitFrom : List α → List α → List (List α) × List α
  | line, [] => ([], line)
  | line, b :: rest =>
      if b = sym then ((line ++ [b]) :: (splitFrom [] rest).1, (splitFrom [] rest).2)
      else splitFrom (line ++ [b]) rest

/-- The lines and the tail of a word. -/
def splitLines (w : List α) : List (List α) × List α := splitFrom sym [] w

/-- No line, the unfinished one included, is longer than `cap`. -/
def LinesWithin (cap : Nat) (w : List α) : Prop :=
  (∀ line ∈ (splitLines sym w).1, line.length ≤ cap) ∧ (splitLines sym w).2.length ≤ cap

variable {sym}

theorem splitFrom_append
    (line a b : List α) :
    splitFrom sym line (a ++ b) =
      ((splitFrom sym line a).1 ++ (splitFrom sym (splitFrom sym line a).2 b).1,
        (splitFrom sym (splitFrom sym line a).2 b).2) := by
  induction a generalizing line with
  | nil => simp [splitFrom]
  | cons x a ih =>
      rw [List.cons_append, splitFrom, splitFrom]
      split
      · rw [ih]
        simp
      · exact ih _

/-- Symbols other than the terminator extend the unfinished line. -/
theorem splitFrom_of_not_mem
    (line : List α)
    {w : List α}
    (hw : sym ∉ w) :
    splitFrom sym line w = ([], line ++ w) := by
  induction w generalizing line with
  | nil => simp [splitFrom]
  | cons b w ih =>
      rw [List.mem_cons, not_or] at hw
      rw [splitFrom, if_neg (Ne.symm hw.1), ih _ hw.2]
      simp

theorem splitFrom_eq_splitLines
    {line : List α}
    (hline : sym ∉ line)
    (w : List α) :
    splitFrom sym line w = splitLines sym (line ++ w) := by
  rw [splitLines, splitFrom_append, splitFrom_of_not_mem [] hline]
  simp

@[simp] theorem splitLines_nil : splitLines sym [] = ([], []) := rfl

theorem splitLines_of_not_mem
    {w : List α}
    (hw : sym ∉ w) :
    splitLines sym w = ([], w) :=
  splitFrom_of_not_mem [] hw

/-- Where the first line of a word ends. -/
theorem idxOf_line
    {body : List α}
    (hbody : sym ∉ body)
    (rest : List α) :
    (body ++ sym :: rest).idxOf sym = body.length := by
  rw [List.idxOf_append_of_notMem hbody, List.idxOf_cons_self, Nat.add_zero]

/-- The first line of a word. -/
theorem splitLines_line
    {body : List α}
    (hbody : sym ∉ body)
    (rest : List α) :
    splitLines sym (body ++ sym :: rest) =
      ((body ++ [sym]) :: (splitLines sym rest).1, (splitLines sym rest).2) := by
  rw [← splitFrom_eq_splitLines hbody, splitFrom, if_pos rfl]
  rfl

theorem not_mem_splitFrom_tail
    {line : List α}
    (hline : sym ∉ line)
    (w : List α) :
    sym ∉ (splitFrom sym line w).2 := by
  induction w generalizing line with
  | nil => exact hline
  | cons b w ih =>
      rw [splitFrom]
      split
      · exact ih List.not_mem_nil
      · rename_i hb
        refine ih ?_
        simp only [List.mem_append, List.mem_singleton, not_or]
        exact ⟨hline, Ne.symm hb⟩

theorem not_mem_tail
    (w : List α) :
    sym ∉ (splitLines sym w).2 :=
  not_mem_splitFrom_tail List.not_mem_nil w

/-- The unfinished line stays one without a terminator. -/
theorem not_mem_tail_append
    (w : List α)
    {more : List α}
    (hmore : sym ∉ more) :
    sym ∉ (splitLines sym w).2 ++ more := by
  rw [List.mem_append, not_or]
  exact ⟨not_mem_tail w, hmore⟩

/-- **Pieces of a stream.**  The lines of a longer stream are those already found and
those of the tail with the new piece. -/
theorem splitLines_append
    (a b : List α) :
    splitLines sym (a ++ b) =
      ((splitLines sym a).1 ++ (splitLines sym ((splitLines sym a).2 ++ b)).1,
        (splitLines sym ((splitLines sym a).2 ++ b)).2) := by
  rw [← splitFrom_eq_splitLines (not_mem_tail a)]
  exact splitFrom_append [] a b

/-- The terminator ends the unfinished line. -/
@[simp] theorem tail_concat_self
    (w : List α) :
    (splitLines sym (w ++ [sym])).2 = [] := by
  have hnot : sym ∉ (splitLines sym w).2 := not_mem_tail w
  have hline := splitLines_line hnot []
  rw [splitLines_append, hline]
  rfl

/-- The line that the terminator ends is the last one. -/
theorem lines_concat_self
    (w : List α) :
    (splitLines sym (w ++ [sym])).1 =
      (splitLines sym w).1 ++ [(splitLines sym w).2 ++ [sym]] := by
  have hnot : sym ∉ (splitLines sym w).2 := not_mem_tail w
  have hline := splitLines_line hnot []
  rw [splitLines_append, hline]
  rfl

/-- Any other symbol extends it. -/
theorem tail_concat_ne
    (w : List α)
    {b : α}
    (hb : b ≠ sym) :
    (splitLines sym (w ++ [b])).2 = (splitLines sym w).2 ++ [b] := by
  have hnot : sym ∉ (splitLines sym w).2 ++ [b] :=
    not_mem_tail_append w fun hmem => hb (List.mem_singleton.mp hmem).symm
  rw [splitLines_append, splitLines_of_not_mem hnot]

/-- There are as many lines as terminators. -/
theorem length_splitFrom
    (line w : List α) :
    (splitFrom sym line w).1.length = w.count sym := by
  induction w generalizing line with
  | nil => rfl
  | cons b w ih =>
      rw [splitFrom]
      split
      · rename_i hb
        rw [List.length_cons, ih, hb, List.count_cons_self]
      · rename_i hb
        rw [ih, List.count_cons_of_ne hb]

/-- Nothing is lost: the lines and the tail make up the word. -/
theorem flatten_splitLines
    (w : List α) :
    (splitLines sym w).1.flatten ++ (splitLines sym w).2 = w := by
  have hfrom (line : List α) :
      (splitFrom sym line w).1.flatten ++ (splitFrom sym line w).2 = line ++ w := by
    induction w generalizing line with
    | nil => simp [splitFrom]
    | cons b w ih =>
        rw [splitFrom]
        split
        · rw [List.flatten_cons, List.append_assoc, ih]
          simp
        · rw [ih]
          simp
  exact hfrom []

/-- A piece makes the unfinished line longer by its own length at most. -/
theorem length_tail_append_le
    (a b : List α) :
    (splitLines sym (a ++ b)).2.length ≤ (splitLines sym a).2.length + b.length := by
  have hflat : (splitLines sym ((splitLines sym a).2 ++ b)).1.flatten ++
      (splitLines sym ((splitLines sym a).2 ++ b)).2 = (splitLines sym a).2 ++ b :=
    flatten_splitLines _
  have hlen := congrArg List.length hflat
  rw [List.length_append, List.length_append] at hlen
  rw [splitLines_append]
  simp only
  omega

theorem isLine_of_mem_splitFrom
    {start w line : List α}
    (hstart : sym ∉ start)
    (h : line ∈ (splitFrom sym start w).1) :
    ∃ body, line = body ++ [sym] ∧ sym ∉ body := by
  induction w generalizing start with
  | nil => simp [splitFrom] at h
  | cons b w ih =>
      rw [splitFrom] at h
      split at h
      · rename_i hb
        rcases List.mem_cons.mp h with rfl | h
        · exact ⟨start, by rw [hb], hstart⟩
        · exact ih List.not_mem_nil h
      · rename_i hb
        refine ih ?_ h
        simp only [List.mem_append, List.mem_singleton, not_or]
        exact ⟨hstart, Ne.symm hb⟩

/-- Each line has its terminator at its end and nowhere else. -/
theorem isLine_of_mem
    {w line : List α}
    (h : line ∈ (splitLines sym w).1) :
    ∃ body, line = body ++ [sym] ∧ sym ∉ body :=
  isLine_of_mem_splitFrom List.not_mem_nil h

/-- The line that an unfinished line belongs to is longer than what there is of it. -/
theorem LinesWithin.tail_lt
    {cap : Nat}
    {a b : List α}
    (h : LinesWithin sym cap (a ++ b))
    (hb : b ≠ []) :
    (splitLines sym a).2.length < cap := by
  obtain ⟨hlines, htail⟩ := h
  have hpos : 0 < b.length := List.length_pos_iff.mpr hb
  have hnot := @not_mem_tail _ _ sym a
  rw [splitLines_append] at hlines htail
  by_cases hmem : sym ∈ b
  · obtain ⟨body, rest, rfl, hbody⟩ := List.eq_append_cons_of_mem hmem
    have hline : sym ∉ (splitLines sym a).2 ++ body := by
      rw [List.mem_append, not_or]
      exact ⟨hnot, hbody⟩
    rw [← List.append_assoc, splitLines_line hline] at hlines
    have := hlines ((splitLines sym a).2 ++ body ++ [sym]) (by simp)
    simp only [List.length_append, List.length_singleton] at this
    omega
  · have hline : sym ∉ (splitLines sym a).2 ++ b := by
      rw [List.mem_append, not_or]
      exact ⟨hnot, hmem⟩
    rw [splitLines_of_not_mem hline, List.length_append] at htail
    omega

end LineSplitter

end Library
end MatrixBin
