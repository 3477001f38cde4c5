import Mathlib.Data.List.Basic

/-!
# Filling a record from a document

A reader walks a document and stores what it finds in a record that holds values
already.  At the first thing that is missing it stops and reports failure; what it has
stored stays.  Whether it succeeds depends on the document alone, so a reader together
with its document is a `Filler`: a verdict and an effect on the record.
-/

namespace MatrixBin
namespace Library

universe u v

structure Filler (σ : Type u) where
  ok : Bool
  fill : σ → σ

namespace Filler

variable {σ : Type u} {τ : Type v} {α : Type v}

def done : Filler σ := ⟨true, id⟩

def fail : Filler σ := ⟨false, id⟩

def store (f : σ → σ) : Filler σ := ⟨true, f⟩

/-- Stop if there is no value, store it otherwise. -/
def require (value : Option α) (f : α → σ → σ) : Filler σ :=
  match value with
  | some a => store (f a)
  | none => fail

/-- One filler after another. -/
def andThen (p q : Filler σ) : Filler σ :=
  ⟨p.ok && q.ok, fun s => if p.ok then q.fill (p.fill s) else p.fill s⟩

/-- The fillers of a list until one fails. -/
def steps : List (Filler σ) → Filler σ
  | [] => done
  | p :: rest => p.andThen (steps rest)

/-- Fill a part of the record. -/
def onPart (get : σ → τ) (set : τ → σ → σ) (p : Filler τ) : Filler σ :=
  ⟨p.ok, fun s => set (p.fill (get s)) s⟩

/-- The failure is not reported. -/
def ignored (p : Filler σ) : Filler σ := ⟨true, p.fill⟩

/-- The elements of a vector in turn until one fails. -/
def items : List (Filler α) → Filler (List α)
  | [] => done
  | p :: rest =>
      ⟨p.ok && (items rest).ok, fun as =>
        match as with
        | [] => []
        | a :: later => p.fill a :: if p.ok then (items rest).fill later else later⟩

end Filler

/-- `std::vector::resize`; the new elements are zero-initialized. -/
def resize {α : Type u} (zero : α) (n : Nat) (as : List α) : List α :=
  as.take n ++ List.replicate (n - as.length) zero

/-- Resize a vector to the number of fillers, then fill its elements. -/
def Filler.vector {α : Type u} (zero : α) (ps : List (Filler α)) : Filler (List α) :=
  ⟨(items ps).ok, fun as => (items ps).fill (resize zero ps.length as)⟩

/-! ### Verdicts -/

section Verdicts

variable {σ : Type u} {τ : Type v} {α : Type v}

@[simp] theorem Filler.done_ok : (done : Filler σ).ok = true := rfl

@[simp] theorem Filler.fail_ok : (fail : Filler σ).ok = false := rfl

@[simp] theorem Filler.store_ok (f : σ → σ) : (store f).ok = true := rfl

@[simp] theorem Filler.require_ok
    (value : Option α)
    (f : α → σ → σ) :
    (require value f).ok = value.isSome := by
  cases value <;> rfl

@[simp] theorem Filler.steps_nil_ok : (steps ([] : List (Filler σ))).ok = true := rfl

@[simp] theorem Filler.steps_cons_ok
    (p : Filler σ)
    (rest : List (Filler σ)) :
    (steps (p :: rest)).ok = (p.ok && (steps rest).ok) := rfl

@[simp] theorem Filler.onPart_ok
    (get : σ → τ)
    (set : τ → σ → σ)
    (p : Filler τ) :
    (onPart get set p).ok = p.ok := rfl

@[simp] theorem Filler.ignored_ok (p : Filler σ) : p.ignored.ok = true := rfl

theorem Filler.steps_ok (ps : List (Filler σ)) : (steps ps).ok = ps.all Filler.ok := by
  induction ps with
  | nil => rfl
  | cons p rest ih => simp [ih]

@[simp] theorem Filler.items_ok (ps : List (Filler α)) : (items ps).ok = ps.all Filler.ok := by
  induction ps with
  | nil => rfl
  | cons p rest ih => simp [items, ih]

@[simp] theorem Filler.vector_ok
    (zero : α)
    (ps : List (Filler α)) :
    (vector zero ps).ok = ps.all Filler.ok :=
  items_ok ps

end Verdicts

/-! ### Effects -/

section Effects

variable {σ : Type u} {τ : Type v} {α : Type v}

@[simp] theorem Filler.done_fill (s : σ) : done.fill s = s := rfl

@[simp] theorem Filler.fail_fill (s : σ) : fail.fill s = s := rfl

@[simp] theorem Filler.store_fill (f : σ → σ) (s : σ) : (store f).fill s = f s := rfl

@[simp] theorem Filler.require_some
    (a : α)
    (f : α → σ → σ) :
    require (some a) f = store (f a) := rfl

@[simp] theorem Filler.require_none (f : α → σ → σ) : require none f = fail := rfl

@[simp] theorem Filler.steps_nil_fill (s : σ) : (steps []).fill s = s := rfl

@[simp] theorem Filler.steps_cons_fill
    (p : Filler σ)
    (rest : List (Filler σ))
    (s : σ) :
    (steps (p :: rest)).fill s =
      if p.ok then (steps rest).fill (p.fill s) else p.fill s := rfl

@[simp] theorem Filler.onPart_fill
    (get : σ → τ)
    (set : τ → σ → σ)
    (p : Filler τ)
    (s : σ) :
    (onPart get set p).fill s = set (p.fill (get s)) s := rfl

@[simp] theorem Filler.ignored_fill
    (p : Filler σ)
    (s : σ) :
    p.ignored.fill s = p.fill s := rfl

end Effects

/-! ### What a filler leaves alone -/

section Frames

variable {σ : Type u} {τ : Type v} {β : Type v}

/-- The filler does not change what `view` shows of the record. -/
def Filler.Keeps (p : Filler σ) (view : σ → β) : Prop := ∀ s, view (p.fill s) = view s

theorem Filler.Keeps.fail (view : σ → β) : (Filler.fail : Filler σ).Keeps view := by
  intro s
  rfl

theorem Filler.Keeps.onPart
    {view : σ → β}
    {get : σ → τ}
    {set : τ → σ → σ}
    (hset : ∀ v s, view (set v s) = view s)
    (p : Filler τ) :
    (Filler.onPart get set p).Keeps view := by
  intro s
  exact hset _ s

theorem Filler.Keeps.andThen
    {view : σ → β}
    {p q : Filler σ}
    (hp : p.Keeps view)
    (hq : q.Keeps view) :
    (p.andThen q).Keeps view := by
  intro s
  unfold Filler.andThen
  cases p.ok with
  | false => simpa using hp s
  | true => simpa using (hq (p.fill s)).trans (hp s)

theorem Filler.Keeps.steps
    {view : σ → β}
    {ps : List (Filler σ)}
    (hps : ∀ p ∈ ps, p.Keeps view) :
    (Filler.steps ps).Keeps view := by
  induction ps with
  | nil =>
      intro s
      rfl
  | cons p rest ih =>
      exact (hps p (by simp)).andThen (ih fun q hq => hps q (by simp [hq]))

end Frames

/-! ### What a filler makes of different records -/

section TwoRecords

variable {σ : Type u} {α : Type u} {δ : Type v}

/-- The result does not depend on the record. -/
def Filler.Overwrites (p : Filler σ) : Prop := ∀ a b, p.fill a = p.fill b

/-- Filling with `q` before is not noticed. -/
def Filler.Absorbs (p q : Filler σ) : Prop := ∀ a, p.fill (q.fill a) = p.fill a

/-- What is left of a record after the filling is what `left` shows of it. -/
def Filler.Leaves (p : Filler σ) (left : σ → σ) : Prop :=
  ∀ a b, p.fill a = p.fill b ↔ left a = left b

theorem length_resize
    (zero : α)
    (n : Nat)
    (as : List α) :
    (resize zero n as).length = n := by
  simp only [resize, List.length_append, List.length_take, List.length_replicate]
  omega

theorem resize_of_length
    {zero : α}
    {n : Nat}
    {as : List α}
    (hlen : as.length = n) :
    resize zero n as = as := by
  simp [resize, ← hlen]

theorem getElem?_resize
    (zero : α)
    {n i : Nat}
    (hi : i < n)
    (as : List α) :
    (resize zero n as)[i]? = some (as[i]?.getD zero) := by
  unfold resize
  by_cases has : i < as.length
  · rw [List.getElem?_append_left (by simp; omega), List.getElem?_take_of_lt hi,
      List.getElem?_eq_getElem has, Option.getD_some]
  · have hlen : (as.take n).length = as.length := by
      simp only [List.length_take]
      omega
    rw [List.getElem?_append_right (by omega), hlen, List.getElem?_replicate,
      List.getElem?_eq_none (by omega), Option.getD_none, if_pos (by omega)]

theorem Filler.items_fill_of_ok
    {ps : List (Filler α)}
    (hok : ps.all Filler.ok = true)
    {as : List α}
    (hlen : as.length = ps.length) :
    (items ps).fill as = List.zipWith (fun p a => p.fill a) ps as := by
  induction ps generalizing as with
  | nil => simpa [items, done] using hlen
  | cons p rest ih =>
      cases as with
      | nil => simp at hlen
      | cons a later =>
          simp only [List.all_cons, Bool.and_eq_true] at hok
          simp [items, hok.1, ih hok.2 (by simpa using hlen)]

theorem Filler.length_items_fill
    (ps : List (Filler α))
    (as : List α) :
    ((items ps).fill as).length = as.length := by
  induction ps generalizing as with
  | nil => rfl
  | cons p rest ih =>
      cases as with
      | nil => rfl
      | cons a later => cases hp : p.ok <;> simp [items, hp, ih]

theorem Filler.Overwrites.vector
    (zero : α)
    {ps : List (Filler α)}
    (hok : ps.all Filler.ok = true)
    (hps : ∀ p ∈ ps, p.Overwrites) :
    (Filler.vector zero ps).Overwrites := by
  have hitems (as bs : List α) (hlen : as.length = bs.length) :
      List.zipWith (fun p a => Filler.fill p a) ps as =
        List.zipWith (fun p a => Filler.fill p a) ps bs := by
    clear hok
    induction ps generalizing as bs with
    | nil => rfl
    | cons p rest ih =>
        cases as with
        | nil =>
            cases bs with
            | nil => rfl
            | cons b later' => simp at hlen
        | cons a later =>
            cases bs with
            | nil => simp at hlen
            | cons b later' =>
                have hhead := hps p (by simp) a b
                have htail :=
                  ih (fun q hq => hps q (by simp [hq])) later later' (by simpa using hlen)
                simp [hhead, htail]
  intro as bs
  unfold Filler.vector
  rw [items_fill_of_ok hok (length_resize zero _ _), items_fill_of_ok hok (length_resize zero _ _)]
  exact hitems _ _ (by rw [length_resize, length_resize])

theorem Filler.Absorbs.vector
    (zero : α)
    {parse parse' : δ → Filler α}
    (js : List δ)
    (hok : ∀ j, (parse j).ok = (parse' j).ok)
    (hparse : ∀ j, (parse j).Absorbs (parse' j)) :
    (Filler.vector zero (js.map parse)).Absorbs (Filler.vector zero (js.map parse')) := by
  have hitems (as : List α) :
      (items (js.map parse)).fill ((items (js.map parse')).fill as) =
        (items (js.map parse)).fill as := by
    induction js generalizing as with
    | nil => rfl
    | cons j rest ih =>
        cases as with
        | nil => rfl
        | cons a later =>
            have hhead := hparse j a
            cases hj : (parse' j).ok <;> simp [items, hok, hj, hhead, ih]
  intro as
  have hlen :
      ((items (js.map parse')).fill (resize zero js.length as)).length = js.length := by
    rw [length_items_fill, length_resize]
  simp only [Filler.vector, List.length_map, resize_of_length hlen]
  exact hitems _

/-- What is left of the elements of a vector: of those up to the first failure what their
fillers leave, of the later ones everything. -/
def Filler.itemsLeft (parse : δ → Filler α) (left : δ → α → α) : List δ → List α → List α
  | [], as => as
  | _ :: _, [] => []
  | j :: rest, a :: later =>
      left j a :: if (parse j).ok then itemsLeft parse left rest later else later

theorem Filler.Leaves.vector
    (zero : α)
    {parse : δ → Filler α}
    {left : δ → α → α}
    (hparse : ∀ j, (parse j).Leaves (left j))
    (js : List δ) :
    (Filler.vector zero (js.map parse)).Leaves fun as =>
      itemsLeft parse left js (resize zero js.length as) := by
  have hitems (as bs : List α) :
      (items (js.map parse)).fill as = (items (js.map parse)).fill bs ↔
        itemsLeft parse left js as = itemsLeft parse left js bs := by
    induction js generalizing as bs with
    | nil => rfl
    | cons j rest ih =>
        cases as with
        | nil => cases bs <;> simp [items, itemsLeft]
        | cons a later =>
            cases bs with
            | nil => simp [items, itemsLeft]
            | cons b later' =>
                cases hj : (parse j).ok <;> simp [items, itemsLeft, hj, hparse j a b, ih]
  intro as bs
  simp only [Filler.vector, List.length_map]
  exact hitems _ _

end TwoRecords

end Library
end MatrixBin
