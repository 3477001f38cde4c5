import Mathlib.Data.List.Induction
import Mathlib.Data.Option.Basic

/-!
# Dispatch tables

A table of functions is filled by registering each function at its number, a later one over an
earlier one, and a call with a number reads the table and calls what it finds there.  The number
of the first entry is `base`, and the only check on a number is that it is not greater than the
size of the table.

`dispatch_right_iff` says for which numbers a call does what it should: every function of this
number was registered, no two functions share it, and the number is neither below the table nor
the one behind its last entry.
-/

namespace MatrixBin
namespace Library

universe u

variable {φ : Type u}

/-- What a call comes to. -/
inductive Dispatched (φ : Type u)
  | outOfBounds
  | returned (code : Int)
  | called (f : φ)
deriving DecidableEq, Repr

/-- A table of the given size with the functions registered one after the other. -/
def registerAll (index : φ → Nat) (size : Nat) (fs : List φ) : List (Option φ) :=
  fs.foldl (fun table f => table.set (index f) (some f)) (List.replicate size none)

/-- Call the function of a number. -/
def dispatch (table : List (Option φ)) (base : Nat) (error code : Int) : Dispatched φ :=
  if (table.length : Int) < code then .returned error
  else if code < base ∨ (table.length : Int) ≤ code - base then .outOfBounds
  else
    match (table[(code - base).toNat]?).join with
    | some f => .called f
    | none => .returned error

/-- The call is right for the number: a function of this number is called, and if there is none
the error is returned. -/
structure RightAt (number : φ → Nat) (error code : Int) (outcome : Dispatched φ) : Prop where
  inBounds : outcome ≠ .outOfBounds
  named : ∀ f, (number f : Int) = code → outcome = .called f
  other : (∀ f, (number f : Int) ≠ code) → outcome = .returned error

@[simp] theorem length_registerAll
    (index : φ → Nat)
    (size : Nat)
    (fs : List φ) :
    (registerAll index size fs).length = size := by
  unfold registerAll
  induction fs using List.reverseRecOn with
  | nil => simp
  | append_singleton fs f ih => simpa using ih

/-- The function registered last at an index is found there. -/
theorem getElem?_registerAll
    (index : φ → Nat)
    {size i : Nat}
    (hi : i < size)
    (fs : List φ) :
    ((registerAll index size fs)[i]?).join = fs.reverse.find? fun f => decide (index f = i) := by
  induction fs using List.reverseRecOn with
  | nil => simp [registerAll, hi]
  | append_singleton fs f ih =>
      have hlast : registerAll index size (fs ++ [f]) =
          (registerAll index size fs).set (index f) (some f) := by
        simp [registerAll]
      rw [hlast, List.getElem?_set, List.reverse_append]
      by_cases hf : index f = i
      · simp [hf, hi]
      · simpa [hf] using ih

section Right

variable {number : φ → Nat} {base size : Nat} {error code : Int} {fs : List φ}

/-- A number of the table is right exactly if its functions are registered and are one. -/
theorem dispatch_inBounds_right_iff
    (hbase : ∀ f, base ≤ number f)
    (hlow : (base : Int) ≤ code)
    (hhigh : code < (size : Int) + base)
    (hsize : code ≤ size) :
    RightAt number error code
        (dispatch (registerAll (fun f => number f - base) size fs) base error code) ↔
      (∀ f, (number f : Int) = code → f ∈ fs) ∧
        ∀ f g, (number f : Int) = code → (number g : Int) = code → f = g := by
  have hindex (f : φ) : number f - base = (code - base).toNat ↔ (number f : Int) = code := by
    have := hbase f
    omega
  have hdispatch :
      dispatch (registerAll (fun f => number f - base) size fs) base error code =
        match fs.reverse.find? fun f => decide ((number f : Int) = code) with
        | some f => .called f
        | none => .returned error := by
    unfold dispatch
    rw [length_registerAll, if_neg (by omega), if_neg (by omega),
      getElem?_registerAll _ (by omega)]
    simp only [hindex]
  rw [hdispatch]
  constructor
  · intro h
    have hfound (f : φ) (hf : (number f : Int) = code) :
        fs.reverse.find? (fun f => decide ((number f : Int) = code)) = some f := by
      have hnamed := h.named f hf
      split at hnamed
      next g hg =>
        rw [Dispatched.called.injEq] at hnamed
        rw [hg, hnamed]
      next => exact absurd hnamed (by simp)
    refine ⟨fun f hf => ?_, fun f g hf hg => ?_⟩
    · exact List.mem_reverse.mp (List.mem_of_find?_eq_some (hfound f hf))
    · exact Option.some.inj ((hfound f hf).symm.trans (hfound g hg))
  · rintro ⟨hregistered, hunique⟩
    cases hfind : fs.reverse.find? fun f => decide ((number f : Int) = code) with
    | none =>
        have hno (f : φ) (hf : (number f : Int) = code) : False := by
          have hskipped := List.find?_eq_none.mp hfind f (List.mem_reverse.mpr (hregistered f hf))
          simp [hf] at hskipped
        exact ⟨by simp, fun f hf => (hno f hf).elim, fun _ => rfl⟩
    | some g =>
        have hg : (number g : Int) = code := by simpa using List.find?_some hfind
        exact ⟨by simp, fun f hf => by rw [hunique f g hf hg], fun hnone => absurd hg (hnone g)⟩

/-- **Right numbers.**  The numbers above the size are always right; the others are right if
they lie in the table and their functions are registered and are one. -/
theorem dispatch_right_iff
    (hbase : ∀ f, base ≤ number f)
    (hnumbers : ∀ f, number f ≤ size) :
    RightAt number error code
        (dispatch (registerAll (fun f => number f - base) size fs) base error code) ↔
      (size : Int) < code ∨
        ((base : Int) ≤ code ∧ code < (size : Int) + base ∧
          (∀ f, (number f : Int) = code → f ∈ fs) ∧
            ∀ f g, (number f : Int) = code → (number g : Int) = code → f = g) := by
  by_cases habove : (size : Int) < code
  · have hreturned : dispatch (registerAll (fun f => number f - base) size fs) base error code =
        .returned error := by
      unfold dispatch
      rw [length_registerAll, if_pos habove]
    rw [hreturned]
    refine iff_of_true ⟨by simp, fun f hf => ?_, fun _ => rfl⟩ (Or.inl habove)
    have := hnumbers f
    omega
  · by_cases hrange : (base : Int) ≤ code ∧ code < (size : Int) + base
    · obtain ⟨hlow, hhigh⟩ := hrange
      rw [dispatch_inBounds_right_iff hbase hlow hhigh (Int.not_lt.mp habove)]
      simp [habove, hlow, hhigh]
    · have hout : dispatch (registerAll (fun f => number f - base) size fs) base error code =
          .outOfBounds := by
        unfold dispatch
        rw [length_registerAll, if_neg habove, if_pos (by omega)]
      rw [hout]
      refine iff_of_false (fun h => h.inBounds rfl) ?_
      rintro (hlt | ⟨hlow, hhigh, -⟩)
      · exact habove hlt
      · exact hrange ⟨hlow, hhigh⟩

end Right

end Library
end MatrixBin
