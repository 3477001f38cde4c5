import Mathlib.Data.List.Basic
import Mathlib.Data.List.Infix

/-!
# Merging streams of frames

Several sources send frames, which are words over an arbitrary alphabet.  The pieces in which
their streams are read need not end where a frame ends, and are forwarded in the order read.
Pieces and frames are words tagged with their source.

* `Between frames w` says that a part `w` of the stream of one source ends on a border.
* `Interleaves frames w` says that `w` consists of whole frames, each source's in order and
  without a gap, and perhaps a first part of one more frame.
* `Woven frames pieces` says the same of forwarded pieces, and that for each source nothing
  is added or left out.

`Woven.snoc` is the rule for one more piece: no other source may be inside a frame.
-/

namespace MatrixBin
namespace Library

universe u v

section Merging

variable {ι : Type u} {α : Type v}

/-- The word that tagged words make. -/
def joined (merged : List (ι × List α)) : List α := (merged.map Prod.snd).flatten

/-- The done frames and the beginning of the next one. -/
def CutIn (frames done : List (List α)) (part : List α) : Prop :=
  ∃ frame, done ++ [frame] <+: frames ∧ part <+: frame ∧ part ≠ frame

/-- The word ends on a border of frames. -/
def Between (frames : List (List α)) (w : List α) : Prop :=
  ∃ done ∈ frames.inits, w = done.flatten

instance [DecidableEq α] (frames : List (List α)) (w : List α) : Decidable (Between frames w) :=
  inferInstanceAs (Decidable (∃ done ∈ frames.inits, w = done.flatten))

@[simp] theorem joined_nil : joined ([] : List (ι × List α)) = [] := by
  rfl

@[simp] theorem joined_append
    (a b : List (ι × List α)) :
    joined (a ++ b) = joined a ++ joined b := by
  simp [joined]

@[simp] theorem joined_singleton
    (b : ι)
    (w : List α) :
    joined [(b, w)] = w := by
  simp [joined]

@[simp] theorem joined_map_mk
    (b : ι)
    (ws : List (List α)) :
    joined (ws.map (Prod.mk b)) = ws.flatten := by
  simp [joined, Function.comp_def]

/-- A first part of a stream of frames: the frames it completes, and what is left. -/
theorem exists_cut
    {frames : List (List α)}
    {w : List α}
    (h : w <+: frames.flatten) :
    ∃ done part, w = done.flatten ++ part ∧ done <+: frames ∧
      (part = [] ∨ part ≠ [] ∧ CutIn frames done part) := by
  induction frames generalizing w with
  | nil =>
      obtain rfl := List.prefix_nil.mp h
      exact ⟨[], [], rfl, List.prefix_rfl, Or.inl rfl⟩
  | cons frame frames ih =>
      rw [List.flatten_cons] at h
      by_cases hw : w <+: frame ∧ w ≠ frame
      · -- the word ends inside the first frame
        by_cases hempty : w = []
        · exact ⟨[], w, rfl, List.nil_prefix, Or.inl hempty⟩
        · refine ⟨[], w, rfl, List.nil_prefix, Or.inr ⟨hempty, frame, ?_, hw.1, hw.2⟩⟩
          exact ⟨frames, rfl⟩
      · obtain ⟨rest, rfl⟩ : frame <+: w := by
          rcases List.prefix_or_prefix_of_prefix h (List.prefix_append frame frames.flatten) with
            hle | hle
          · have heq : w = frame := by
              by_contra hne
              exact hw ⟨hle, hne⟩
            rw [heq]
          · exact hle
        obtain ⟨done, part, rfl, hdone, hpart⟩ := ih ((List.prefix_append_right_inj frame).mp h)
        refine ⟨frame :: done, part, by simp, List.prefix_cons_inj frame |>.mpr hdone, ?_⟩
        rcases hpart with hpart | ⟨hne, next, hnext, hcut⟩
        · exact Or.inl hpart
        · exact Or.inr ⟨hne, next, List.prefix_cons_inj frame |>.mpr hnext, hcut⟩

/-- Inside a frame the word does not end on a border. -/
theorem CutIn.not_between
    {frames done : List (List α)}
    {part : List α}
    (h : CutIn frames done part)
    (hpart : part ≠ []) :
    ¬ Between frames (done.flatten ++ part) := by
  obtain ⟨frame, hframe, hinner, hne⟩ := h
  rintro ⟨all, hall, heq⟩
  rw [List.mem_inits] at hall
  have hlength := congrArg List.length heq
  rw [List.length_append] at hlength
  have hpos := List.length_pos_of_ne_nil hpart
  have hlt : part.length < frame.length := by
    refine lt_of_le_of_ne hinner.length_le fun h => hne ?_
    exact hinner.eq_of_length h
  rcases List.prefix_or_prefix_of_prefix hall hframe with hle | hle
  · rcases List.prefix_concat_iff.mp hle with rfl | hle
    · rw [List.flatten_append, List.length_append, List.flatten_singleton] at hlength
      omega
    · have := hle.flatten.length_le
      omega
  · have := hle.flatten.length_le
    rw [List.flatten_append, List.length_append, List.flatten_singleton] at this
    omega

theorem between_nil
    (frames : List (List α)) :
    Between frames [] :=
  ⟨[], by simp, rfl⟩

/-- Behind the first frames the borders are those of the frames that follow. -/
theorem Between.of_append
    {before ahead : List (List α)}
    {w : List α}
    (h : Between (before ++ ahead) (before.flatten ++ w)) :
    Between ahead w := by
  obtain ⟨done, hdone, heq⟩ := h
  rw [List.mem_inits] at hdone
  rcases List.prefix_or_prefix_of_prefix hdone (List.prefix_append before ahead) with
    ⟨rest, rfl⟩ | ⟨rest, rfl⟩
  · rw [List.flatten_append, List.append_assoc, List.append_right_eq_self] at heq
    obtain ⟨-, rfl⟩ := List.append_eq_nil_iff.mp heq
    exact between_nil ahead
  · rw [List.flatten_append, List.append_cancel_left_eq] at heq
    rw [List.prefix_append_right_inj] at hdone
    exact ⟨rest, (List.mem_inits _ _).mpr hdone, heq⟩

variable [DecidableEq ι]

/-- The words of one source, in order. -/
def ofSource (b : ι) (merged : List (ι × List α)) : List (List α) :=
  (merged.filter fun piece => piece.1 = b).map Prod.snd

/-- The part of one source. -/
def share (b : ι) (pieces : List (ι × List α)) : List α := (ofSource b pieces).flatten

/-- Whole frames of the sources, perhaps with a first part of one more frame at the end. -/
def Interleaves (frames : ι → List (List α)) (w : List α) : Prop :=
  ∃ (merged : List (ι × List α)) (part : List α),
    w = joined merged ++ part ∧ (∀ b, ofSource b merged <+: frames b) ∧
      (part = [] ∨ ∃ b, CutIn (frames b) (ofSource b merged) part)

/-- The pieces make whole frames of the sources, perhaps with a first part of one more frame
at the end, and each source's part is kept. -/
def Woven (frames : ι → List (List α)) (pieces : List (ι × List α)) : Prop :=
  ∃ merged tail : List (ι × List α),
    joined pieces = joined (merged ++ tail) ∧ (∀ b, share b pieces = share b (merged ++ tail)) ∧
      (∀ b, ofSource b merged <+: frames b) ∧
      (tail = [] ∨
        ∃ b part, tail = [(b, part)] ∧ part ≠ [] ∧ CutIn (frames b) (ofSource b merged) part)

@[simp] theorem ofSource_nil
    (b : ι) :
    ofSource b ([] : List (ι × List α)) = [] := by
  rfl

@[simp] theorem ofSource_append
    (b : ι)
    (x y : List (ι × List α)) :
    ofSource b (x ++ y) = ofSource b x ++ ofSource b y := by
  simp [ofSource]

theorem ofSource_singleton
    (b t : ι)
    (w : List α) :
    ofSource t [(b, w)] = if b = t then [w] else [] := by
  by_cases h : b = t <;> simp [ofSource, h]

theorem ofSource_map_mk
    (b t : ι)
    (ws : List (List α)) :
    ofSource t (ws.map (Prod.mk b)) = if b = t then ws else [] := by
  by_cases h : b = t <;> simp [ofSource, List.filter_map, Function.comp_def, h]

@[simp] theorem share_append
    (b : ι)
    (x y : List (ι × List α)) :
    share b (x ++ y) = share b x ++ share b y := by
  simp [share]

@[simp] theorem share_nil
    (b : ι) :
    share b ([] : List (ι × List α)) = [] := by
  rfl

theorem share_singleton
    (b t : ι)
    (w : List α) :
    share t [(b, w)] = if b = t then w else [] := by
  by_cases h : b = t <;> simp [share, ofSource_singleton, h]

theorem share_map_mk
    (b t : ι)
    (ws : List (List α)) :
    share t (ws.map (Prod.mk b)) = if b = t then ws.flatten else [] := by
  by_cases h : b = t <;> simp [share, ofSource_map_mk, h]

theorem woven_nil
    (frames : ι → List (List α)) :
    Woven frames [] :=
  ⟨[], [], rfl, fun _ => rfl, fun _ => List.nil_prefix, Or.inl rfl⟩

section Weaving

variable {frames : ι → List (List α)} {pieces : List (ι × List α)} {b : ι}

/-- One more piece of a source, where only that source may be inside a frame: the part it has
begun and the piece are cut anew. -/
theorem Woven.extend
    {merged : List (ι × List α)}
    {part piece : List α}
    (hjoined : joined pieces = joined merged ++ part)
    (hown : share b pieces = share b merged ++ part)
    (hother : ∀ t, t ≠ b → share t pieces = share t merged)
    (hmerged : ∀ t, ofSource t merged <+: frames t)
    (hpiece : share b pieces ++ piece <+: (frames b).flatten) :
    Woven frames (pieces ++ [(b, piece)]) := by
  obtain ⟨ahead, hahead⟩ := hmerged b
  have hrest : part ++ piece <+: ahead.flatten := by
    rw [← hahead, List.flatten_append, hown, List.append_assoc] at hpiece
    exact (List.prefix_append_right_inj _).mp hpiece
  obtain ⟨done, last, hcut, hdone, hlast⟩ := exists_cut hrest
  have hframes : ∀ t, ofSource t (merged ++ done.map (Prod.mk b)) <+: frames t := by
    intro t
    rw [ofSource_append, ofSource_map_mk]
    split_ifs with h
    · subst h
      rw [← hahead]
      exact (List.prefix_append_right_inj _).mpr hdone
    · rw [List.append_nil]
      exact hmerged t
  have hshare : ∀ t, share t (pieces ++ [(b, piece)]) =
      share t (merged ++ done.map (Prod.mk b)) ++ if b = t then last else [] := by
    intro t
    rw [share_append, share_append, share_singleton, share_map_mk]
    by_cases h : b = t
    · subst h
      simp [hown, hcut]
    · simp [h, hother t (Ne.symm h)]
  have hjoin : joined (pieces ++ [(b, piece)]) =
      joined (merged ++ done.map (Prod.mk b)) ++ last := by
    simp [hjoined, hcut, List.append_assoc]
  rcases hlast with rfl | ⟨hne, frame, hframe, hinner, hpart⟩
  · exact ⟨merged ++ done.map (Prod.mk b), [], by simpa using hjoin, by simpa using hshare,
      hframes, Or.inl rfl⟩
  · refine ⟨merged ++ done.map (Prod.mk b), [(b, last)], by simpa using hjoin, ?_, hframes,
      Or.inr ⟨b, last, rfl, hne, frame, ?_, hinner, hpart⟩⟩
    · intro t
      rw [hshare, share_append t (merged ++ _), share_singleton]
    · rw [ofSource_append, ofSource_map_mk, if_pos rfl, List.append_assoc, ← hahead]
      exact (List.prefix_append_right_inj _).mpr hframe

/-- One more piece while no other source is inside a frame. -/
theorem Woven.snoc
    (h : Woven frames pieces)
    {piece : List α}
    (hothers : ∀ t, t ≠ b → Between (frames t) (share t pieces))
    (hpiece : share b pieces ++ piece <+: (frames b).flatten) :
    Woven frames (pieces ++ [(b, piece)]) := by
  obtain ⟨merged, tail, hjoined, hshare, hmerged, rfl | ⟨t, part, rfl, hne, hcut⟩⟩ := h
  · have hown : ∀ t, share t pieces = share t merged := by simpa using hshare
    have hbytes : joined pieces = joined merged ++ [] := by simpa using hjoined
    exact Woven.extend hbytes (by simpa using hown b) (fun t _ => hown t) hmerged hpiece
  · have hsplit : ∀ u, share u pieces = share u merged ++ if t = u then part else [] := by
      intro u
      rw [hshare, share_append, share_singleton]
    by_cases htb : t = b
    · subst htb
      have hbytes : joined pieces = joined merged ++ part := by simpa using hjoined
      refine Woven.extend hbytes ?_ ?_ hmerged hpiece
      · rw [hsplit, if_pos rfl]
      · intro u hu
        rw [hsplit, if_neg (Ne.symm hu), List.append_nil]
    · -- the unfinished frame would be another source's
      refine absurd (hothers t htb) ?_
      rw [hsplit, if_pos rfl]
      exact hcut.not_between hne

theorem Woven.interleaves
    (h : Woven frames pieces) :
    Interleaves frames (joined pieces) := by
  obtain ⟨merged, tail, hjoined, -, hmerged, rfl | ⟨t, part, rfl, -, hcut⟩⟩ := h
  · exact ⟨merged, [], by simpa using hjoined, hmerged, Or.inl rfl⟩
  · exact ⟨merged, part, by simpa using hjoined, hmerged, Or.inr ⟨t, hcut⟩⟩

/-- What has arrived of an interleaving is one. -/
theorem Interleaves.of_prefix
    {w v : List α}
    (h : Interleaves frames w)
    (hv : v <+: w) :
    Interleaves frames v := by
  obtain ⟨merged, part, rfl, hmerged, hpart⟩ := h
  rcases List.prefix_or_prefix_of_prefix hv (List.prefix_append (joined merged) part) with hle | hle
  · obtain ⟨done, last, rfl, hdone, hlast⟩ := exists_cut hle
    obtain ⟨kept, hkept, rfl⟩ := List.prefix_map_iff.mp hdone
    have hframes : ∀ t, ofSource t kept <+: frames t := by
      intro t
      obtain ⟨rest, rfl⟩ := hkept
      have hmerged := hmerged t
      rw [ofSource_append] at hmerged
      exact (List.prefix_append _ _).trans hmerged
    refine ⟨kept, last, rfl, hframes, ?_⟩
    rcases hlast with hlast | ⟨-, frame, hframe, hcut⟩
    · exact Or.inl hlast
    · -- the frame cut here is the next one of the interleaving
      obtain ⟨rest, rfl⟩ := hkept
      rw [List.map_append, List.prefix_append_right_inj] at hframe
      cases rest with
      | nil => simp at hframe
      | cons next rest =>
          obtain rfl : frame = next.2 := by simpa using hframe
          refine Or.inr ⟨next.1, next.2, ?_, hcut⟩
          have hnext := hmerged next.1
          rw [List.append_cons, ofSource_append, ofSource_append, ofSource_singleton,
            if_pos rfl] at hnext
          exact (List.prefix_append _ _).trans hnext
  · obtain ⟨first, rfl⟩ := hle
    have hfirst : first <+: part := (List.prefix_append_right_inj _).mp hv
    refine ⟨merged, first, rfl, hmerged, ?_⟩
    rcases hpart with rfl | ⟨t, frame, hframe, hinner, hne⟩
    · exact Or.inl (List.prefix_nil.mp hfirst)
    · refine Or.inr ⟨t, frame, hframe, hfirst.trans hinner, ?_⟩
      rintro rfl
      exact hne (hinner.eq_of_length_le hfirst.length_le)

end Weaving

end Merging

end Library
end MatrixBin
