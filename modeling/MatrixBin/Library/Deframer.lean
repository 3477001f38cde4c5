import Mathlib.Data.List.Basic

/-!
# Frames between a start symbol and a stop symbol

The reference deframer over an arbitrary alphabet.  A frame is the word from the
last start symbol since the previous stop symbol up to the first stop symbol
after it.  Symbols outside a frame, and a stop symbol with no open frame,
contribute nothing; a start symbol inside an unfinished frame restarts it.

`BackToBack cap` describes the words in which nothing has to be skipped: complete
frames that follow each other immediately, then an unfinished frame or symbols
that belong to no frame.
-/

namespace MatrixBin
namespace Library

universe u

section Frames

variable {α : Type u} (start stop : α)

/-- A frame with no start or stop symbol inside. -/
def IsFrame (frame : List α) : Prop :=
  ∃ body, frame = start :: (body ++ [stop]) ∧ start ∉ body ∧ stop ∉ body

/-- What may follow the last frame: an unfinished frame, or symbols outside a frame. -/
structure IsTail (cap : Nat) (tail : List α) : Prop where
  no_stop : stop ∉ tail
  no_inner_start : start ∉ tail.tail
  fits : start ∈ tail → tail.length ≤ cap

/-- Complete frames of at most `cap` symbols, one immediately after the other. -/
def BackToBack (cap : Nat) (w : List α) : Prop :=
  ∃ (frames : List (List α)) (tail : List α),
    w = frames.flatten ++ tail ∧
    (∀ frame ∈ frames, IsFrame start stop frame ∧ frame.length ≤ cap) ∧
    IsTail start stop cap tail

variable {start stop}

theorem IsTail.backToBack
    {cap : Nat}
    {tail : List α}
    (h : IsTail start stop cap tail) :
    BackToBack start stop cap tail :=
  ⟨[], tail, rfl, by simp, h⟩

theorem isTail_nil (cap : Nat) : IsTail start stop cap ([] : List α) :=
  ⟨by simp, by simp, by simp⟩

theorem BackToBack.frame_append
    {cap : Nat}
    {frame w : List α}
    (hframe : IsFrame start stop frame)
    (hlen : frame.length ≤ cap)
    (hw : BackToBack start stop cap w) :
    BackToBack start stop cap (frame ++ w) := by
  obtain ⟨frames, tail, rfl, hframes, htail⟩ := hw
  refine ⟨frame :: frames, tail, by simp, ?_, htail⟩
  intro f hf
  rcases List.mem_cons.mp hf with rfl | hf
  · exact ⟨hframe, hlen⟩
  · exact hframes f hf

/-- An unfinished frame is a tail. -/
theorem isTail_open
    (hne : start ≠ stop)
    {cap : Nat}
    {body : List α}
    (hstart : start ∉ body)
    (hstop : stop ∉ body)
    (hlen : body.length + 1 ≤ cap) :
    IsTail start stop cap (start :: body) where
  no_stop := by simpa [hstop] using Ne.symm hne
  no_inner_start := hstart
  fits := fun _ => hlen

theorem IsTail.of_append
    {cap : Nat}
    {a b : List α}
    (h : IsTail start stop cap (a ++ b)) :
    IsTail start stop cap a where
  no_stop := fun hmem => h.no_stop (List.mem_append_left _ hmem)
  no_inner_start := by
    intro hmem
    cases a with
    | nil => simp at hmem
    | cons x a => exact h.no_inner_start (List.mem_append_left _ hmem)
  fits := by
    intro hmem
    have := h.fits (List.mem_append_left _ hmem)
    rw [List.length_append] at this
    omega

/-- A proper prefix of a frame is an unfinished frame. -/
theorem isTail_of_proper_part
    (hne : start ≠ stop)
    {cap : Nat}
    {a b : List α}
    (hframe : IsFrame start stop (a ++ b))
    (hb : b ≠ [])
    (hlen : (a ++ b).length ≤ cap) :
    IsTail start stop cap a := by
  obtain ⟨body, heq, hstart, hstop⟩ := hframe
  have hopen : a <+: start :: body := by
    obtain ⟨c, x, rfl⟩ : ∃ c x, b = c ++ [x] :=
      ⟨b.dropLast, b.getLast hb, (List.dropLast_append_getLast hb).symm⟩
    rw [← List.append_assoc, ← List.cons_append] at heq
    exact ⟨c, (List.append_inj' heq rfl).1⟩
  obtain ⟨c, hc⟩ := hopen
  have hlen' : body.length + 1 ≤ cap := by
    rw [heq] at hlen
    simp only [List.length_cons, List.length_append, List.length_nil] at hlen
    omega
  have htail : IsTail start stop cap (a ++ c) := by
    rw [hc]
    exact isTail_open hne hstart hstop hlen'
  exact htail.of_append

/-- Frames that follow each other immediately do so in every prefix. -/
theorem BackToBack.of_append
    (hne : start ≠ stop)
    {cap : Nat}
    {a b : List α}
    (h : BackToBack start stop cap (a ++ b)) :
    BackToBack start stop cap a := by
  obtain ⟨frames, tail, heq, hframes, htail⟩ := h
  induction frames generalizing a with
  | nil =>
      rw [List.flatten_nil, List.nil_append] at heq
      rw [← heq] at htail
      exact htail.of_append.backToBack
  | cons frame frames ih =>
      obtain ⟨hframe, hlen⟩ := hframes frame (by simp)
      rw [List.flatten_cons, List.append_assoc, List.append_eq_append_iff] at heq
      rcases heq with ⟨c, rfl, -⟩ | ⟨c, rfl, hrest⟩
      · by_cases hc : c = []
        · subst hc
          rw [List.append_nil] at hframe hlen
          simpa using BackToBack.frame_append hframe hlen (isTail_nil cap).backToBack
        · exact (isTail_of_proper_part hne hframe hc hlen).backToBack
      · exact BackToBack.frame_append hframe hlen
          (ih hrest.symm (fun f hf => hframes f (List.mem_cons_of_mem _ hf)))

end Frames

section Deframer

variable {α : Type u} [DecidableEq α] (start stop : α)

/-- The frames that a word completes, from an open frame (`none` outside one). -/
def deframeFrom : Option (List α) → List α → List (List α)
  | _, [] => []
  | o, b :: rest =>
      if b = start then deframeFrom (some [start]) rest
      else if b = stop then
        match o with
        | none => deframeFrom none rest
        | some frame => (frame ++ [stop]) :: deframeFrom none rest
      else deframeFrom (o.map (· ++ [b])) rest

/-- The frames of a word. -/
def deframe (w : List α) : List (List α) :=
  deframeFrom start stop none w

variable {start stop}

theorem deframeFrom_cons
    (o : Option (List α))
    (b : α)
    (rest : List α) :
    deframeFrom start stop o (b :: rest) =
      if b = start then deframeFrom start stop (some [start]) rest
      else if b = stop then
        match o with
        | none => deframeFrom start stop none rest
        | some frame => (frame ++ [stop]) :: deframeFrom start stop none rest
      else deframeFrom start stop (o.map (· ++ [b])) rest := by
  cases o <;> rfl

/-- Symbols other than the two delimiters extend the open frame. -/
theorem deframeFrom_body
    (o : Option (List α))
    {body : List α}
    (hstart : start ∉ body)
    (hstop : stop ∉ body)
    (rest : List α) :
    deframeFrom start stop o (body ++ rest) =
      deframeFrom start stop (o.map (· ++ body)) rest := by
  induction body generalizing o with
  | nil => cases o <;> simp
  | cons b body ih =>
      simp only [List.mem_cons, not_or] at hstart hstop
      rw [List.cons_append, deframeFrom_cons, if_neg (Ne.symm hstart.1), if_neg (Ne.symm hstop.1),
        ih _ hstart.2 hstop.2]
      cases o <;> simp

/-- A frame at the head of a word is the first frame found. -/
theorem deframeFrom_frame
    (hne : start ≠ stop)
    (o : Option (List α))
    {frame : List α}
    (h : IsFrame start stop frame)
    (rest : List α) :
    deframeFrom start stop o (frame ++ rest) =
      frame :: deframeFrom start stop none rest := by
  obtain ⟨body, rfl, hstart, hstop⟩ := h
  rw [List.cons_append, deframeFrom_cons, if_pos rfl, List.append_assoc,
    deframeFrom_body _ hstart hstop, List.singleton_append, deframeFrom_cons,
    if_neg (Ne.symm hne), if_pos rfl]
  simp

theorem deframeFrom_tail
    (o : Option (List α))
    {tail : List α}
    (hstop : stop ∉ tail) :
    deframeFrom start stop o tail = [] := by
  induction tail generalizing o with
  | nil => rfl
  | cons b tail ih =>
      simp only [List.mem_cons, not_or] at hstop
      rw [deframeFrom_cons]
      split_ifs with h1 h2
      · exact ih _ hstop.2
      · exact absurd h2.symm hstop.1
      · exact ih _ hstop.2

/-- Back-to-back frames are found exactly. -/
theorem deframe_flatten
    (hne : start ≠ stop)
    {frames : List (List α)}
    {tail : List α}
    (hframes : ∀ frame ∈ frames, IsFrame start stop frame)
    (htail : stop ∉ tail) :
    deframe start stop (frames.flatten ++ tail) = frames := by
  unfold deframe
  induction frames with
  | nil => exact deframeFrom_tail none htail
  | cons frame frames ih =>
      rw [List.flatten_cons, List.append_assoc,
        deframeFrom_frame hne none (hframes frame (by simp)),
        ih (fun f hf => hframes f (List.mem_cons_of_mem _ hf))]

/-- A word has at most as many frames as stop symbols. -/
theorem length_deframeFrom_le
    (o : Option (List α))
    (w : List α) :
    (deframeFrom start stop o w).length ≤ w.count stop := by
  induction w generalizing o with
  | nil => simp [deframeFrom]
  | cons b rest ih =>
      rw [deframeFrom_cons]
      split_ifs with h1 h2
      · exact Nat.le_trans (ih _) List.count_le_count_cons
      · subst h2
        rw [List.count_cons_self]
        cases o with
        | none => exact Nat.le_succ_of_le (ih none)
        | some frame => simpa using ih none
      · exact Nat.le_trans (ih _) List.count_le_count_cons

end Deframer

end Library
end MatrixBin
