import Mathlib.Data.List.Basic

/-!
# Queues written without blocking

A queue of bounded capacity.  A write that does not block takes all of a word, a first part
of it, or nothing, and reports nothing as a failure; what it takes fits into the queue.  The
result of a write is an input.
-/

namespace MatrixBin
namespace Library

universe u

/-- A queue whose content fits. -/
structure BoundedQueue (α : Type u) (capacity : Nat) where
  content : List α
  fits : content.length ≤ capacity

/-- What a write reports: the number of symbols taken, or that it would block. -/
inductive WriteResult
  | wrote (n : Nat)
  | wouldBlock
deriving DecidableEq

namespace BoundedQueue

variable {α : Type u} {capacity : Nat}

def empty : BoundedQueue α capacity := ⟨[], Nat.zero_le _⟩

/-- The queue after a write with a given result; `none` if the write cannot have it. -/
def write (q : BoundedQueue α capacity) (w : List α) :
    WriteResult → Option (BoundedQueue α capacity)
  | .wrote n =>
      if h : 0 < n ∧ n ≤ w.length ∧ q.content.length + n ≤ capacity then
        some ⟨q.content ++ w.take n, by
          rw [List.length_append, List.length_take, Nat.min_eq_left h.2.1]
          exact h.2.2⟩
      else none
  | .wouldBlock => some q

/-- The queue without its first `n` symbols. -/
def drop (q : BoundedQueue α capacity) (n : Nat) : BoundedQueue α capacity :=
  ⟨q.content.drop n, by
    have := q.fits
    rw [List.length_drop]
    omega⟩

@[simp] theorem empty_content : (empty : BoundedQueue α capacity).content = [] := by
  rfl

@[simp] theorem drop_content
    (q : BoundedQueue α capacity)
    (n : Nat) :
    (q.drop n).content = q.content.drop n := by
  rfl

/-- A write that takes everything appends the word. -/
theorem content_of_wrote_all
    {q q' : BoundedQueue α capacity}
    {w : List α}
    (h : q.write w (.wrote w.length) = some q') :
    q'.content = q.content ++ w := by
  simp only [write] at h
  split at h
  · obtain rfl := Option.some.inj h
    simp
  · cases h

end BoundedQueue

end Library
end MatrixBin
