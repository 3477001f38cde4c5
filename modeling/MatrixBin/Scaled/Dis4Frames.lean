import MatrixBin.Library.DecimalText
import MatrixBin.Scaled.Dis4Loop

/-!
# The frames of a DIS4 terminal

A terminal sends frames of `packet_length` bytes that end in CR; a LF may follow.
`dis4_loop_distributes_iff` compares the packets of the loop with these frames, for every
way in which the stream is read.  The buffer takes 63 bytes: when they are all kept, the
loop asks for 0 bytes from then on, and what the terminal sends stays unread.

The loop drops a LF only if the CR before it is read together with it, and the CR after
it later; otherwise the frame after it is discarded.  The weights of the frames that end
in one read are all taken from the first of them.  The channel is what the stack holds.
-/

namespace MatrixBin
namespace Scaled

open Library

universe u

/-- The frames of a stream, without the LF that may stand before them. -/
def framesOf (w : List UInt8) : List (List UInt8) := (splitLines 0x0d w).1.map dropLineFeed

/-- A stream of frames of `packetLength` bytes, perhaps with the beginning of another. -/
structure IsFrameStream (packetLength : Nat) (w : List UInt8) : Prop where
  frame_length : ∀ frame ∈ framesOf w, frame.length = packetLength
  start : ∀ rest, w ≠ 0x0a :: rest
  no_nul : 0 ∉ w

/-- The frames that end in a read, after what was read before. -/
def framesOfRead (before : List (List UInt8)) (chunk : List UInt8) : List (List UInt8) :=
  framesOf ((splitLines 0x0d before.flatten).2 ++ chunk)

/-- Where a read begins and ends relative to a LF between two frames: no frame that ends in
it has its LF inside the read, and if the read begins with the LF no frame ends after it. -/
structure ReadsLineFeeds (before : List (List UInt8)) (chunk : List UInt8)
    (after : List (List UInt8)) : Prop where
  inside : ∀ line ∈ (splitLines 0x0d chunk).1.tail, ∀ y, line ≠ 0x0a :: y
  begins : ∀ y, before.flatten.getLast? = some 0x0d → chunk = 0x0a :: y →
    0x0d ∉ y ∧ 0x0d ∉ after.flatten

/-- A condition on every read. -/
def EveryRead (P : List (List UInt8) → List UInt8 → List (List UInt8) → Prop)
    (reads : List (List UInt8)) : Prop :=
  ∀ before chunk after, reads = before ++ chunk :: after → P before chunk after

/-- A LF that begins the unfinished frame was the first byte of a read. -/
def PendingLineFeed (reads : List (List UInt8)) : Prop :=
  ∃ before y after, reads = before ++ (0x0a :: y) :: after ∧
    before.flatten.getLast? = some 0x0d ∧ 0x0d ∉ y ∧ 0x0d ∉ after.flatten

/-- The bytes that the loop keeps after these reads. -/
def leftAfter (reads : List (List UInt8)) : List UInt8 :=
  reads.foldl (fun data chunk => leftOfRead (data ++ chunk)) []

@[simp] theorem leftAfter_append_singleton
    (reads : List (List UInt8))
    (chunk : List UInt8) :
    leftAfter (reads ++ [chunk]) = leftOfRead (leftAfter reads ++ chunk) := by
  simp [leftAfter]

/-! ### Splitting -/

section Splitting

variable {P : List (List UInt8) → List UInt8 → List (List UInt8) → Prop}
variable {reads : List (List UInt8)} {w chunk : List UInt8}

theorem everyRead_nil : EveryRead P [] := by
  intro before chunk after h
  simp at h

theorem everyRead_append_singleton :
    EveryRead P (reads ++ [chunk]) ↔
      EveryRead (fun before c after => P before c (after ++ [chunk])) reads ∧
        P reads chunk [] := by
  constructor
  · intro h
    refine ⟨?_, h reads chunk [] rfl⟩
    intro before c after heq
    refine h before c (after ++ [chunk]) ?_
    rw [heq, List.append_assoc, List.cons_append]
  · rintro ⟨hreads, hlast⟩ before c after heq
    rcases List.eq_nil_or_concat' after with rfl | ⟨after, d, rfl⟩
    · obtain ⟨rfl, hc⟩ := List.append_inj' heq rfl
      obtain rfl := (List.cons.inj hc).1
      exact hlast
    · rw [← List.cons_append, ← List.append_assoc] at heq
      obtain ⟨hbefore, hd⟩ := List.append_inj' heq rfl
      obtain rfl := (List.cons.inj hd).1
      exact hreads before c after hbefore

/-- The last byte is CR if no frame has been begun. -/
theorem getLast?_eq_cr_iff :
    w.getLast? = some 0x0d ↔ (splitLines 0x0d w).2 = [] ∧ w ≠ [] := by
  have hflat := @flatten_splitLines _ _ (0x0d : UInt8) w
  have hnot := @not_mem_tail _ _ (0x0d : UInt8) w
  constructor
  · intro hlast
    refine ⟨?_, by rintro rfl; simp at hlast⟩
    by_contra hne
    rw [← hflat, List.getLast?_append_of_ne_nil _ hne] at hlast
    exact hnot (List.mem_of_getLast? hlast)
  · rintro ⟨htail, hne⟩
    rw [htail, List.append_nil] at hflat
    rcases List.eq_nil_or_concat' (splitLines 0x0d w).1 with hnil | ⟨lines, line, hlines⟩
    · rw [hnil] at hflat
      exact absurd hflat.symm hne
    · have hmem : line ∈ (splitLines 0x0d w).1 := by
        rw [hlines]
        simp
      obtain ⟨body, rfl, -⟩ := isLine_of_mem hmem
      rw [← hflat, hlines]
      simp

theorem framesOf_append
    (a b : List UInt8) :
    framesOf (a ++ b) = framesOf a ++ framesOf ((splitLines 0x0d a).2 ++ b) := by
  rw [framesOf, splitLines_append, List.map_append]
  rfl

theorem framesOf_reads_append_singleton :
    framesOf (reads ++ [chunk]).flatten =
      framesOf reads.flatten ++ framesOfRead reads chunk := by
  rw [List.flatten_append, List.flatten_singleton, framesOf_append]
  rfl

theorem dropLineFeed_of_ne
    (h : ∀ rest, w ≠ 0x0a :: rest) :
    dropLineFeed w = w := by
  cases w with
  | nil => rfl
  | cons b rest =>
      rw [dropLineFeed, if_neg]
      rintro rfl
      exact h rest rfl

theorem dropLineFeed_line_feed
    (rest : List UInt8) :
    dropLineFeed (0x0a :: rest) = rest := by
  rw [dropLineFeed, if_pos rfl]

/-- Nothing is dropped exactly if the length stays. -/
theorem length_dropLineFeed_eq_iff :
    (dropLineFeed w).length = w.length ↔ ∀ rest, w ≠ 0x0a :: rest := by
  constructor
  · rintro hlen rest rfl
    rw [dropLineFeed_line_feed, List.length_cons] at hlen
    omega
  · intro h
    rw [dropLineFeed_of_ne h]

/-- The conditions on the reads after one more read. -/
theorem readsLineFeeds_append_singleton :
    EveryRead ReadsLineFeeds (reads ++ [chunk]) ↔
      EveryRead ReadsLineFeeds reads ∧ (0x0d ∈ chunk → ¬ PendingLineFeed reads) ∧
        ReadsLineFeeds reads chunk [] := by
  rw [everyRead_append_singleton]
  constructor
  · rintro ⟨hreads, hlast⟩
    refine ⟨?_, ?_, hlast⟩
    · intro before c after heq
      refine ⟨(hreads before c after heq).inside, fun y hcr hc => ?_⟩
      obtain ⟨hy, hafter⟩ := (hreads before c after heq).begins y hcr hc
      refine ⟨hy, fun hmem => hafter ?_⟩
      rw [List.flatten_append, List.mem_append]
      exact Or.inl hmem
    · rintro hmem ⟨before, y, after, heq, hcr, -, -⟩
      refine ((hreads before _ after heq).begins y hcr rfl).2 ?_
      rw [List.flatten_append, List.flatten_singleton, List.mem_append]
      exact Or.inr hmem
  · rintro ⟨hreads, hpending, hlast⟩
    refine ⟨?_, hlast⟩
    intro before c after heq
    refine ⟨(hreads before c after heq).inside, fun y hcr hc => ?_⟩
    obtain ⟨hy, hafter⟩ := (hreads before c after heq).begins y hcr hc
    refine ⟨hy, ?_⟩
    rw [List.flatten_append, List.flatten_singleton, List.mem_append, not_or]
    refine ⟨hafter, fun hmem => hpending hmem ?_⟩
    exact ⟨before, y, after, by rw [heq, hc], hcr, hy, hafter⟩

end Splitting

/-! ### What the loop keeps -/

section Kept

variable {reads : List (List UInt8)} {chunk : List UInt8}

/-- The loop keeps the unfinished frame, with the LF before it if that was the first byte
of a read. -/
structure KeepsFrame (reads : List (List UInt8)) : Prop where
  kept : leftAfter reads = (splitLines 0x0d reads.flatten).2 ∨
    (splitLines 0x0d reads.flatten).2 = 0x0a :: leftAfter reads
  pending_iff : (leftAfter reads = (splitLines 0x0d reads.flatten).2 ∧
    ∃ y, (splitLines 0x0d reads.flatten).2 = 0x0a :: y) ↔ PendingLineFeed reads

theorem not_pendingLineFeed_nil : ¬ PendingLineFeed [] := by
  rintro ⟨before, y, after, h, -⟩
  simp at h

theorem pendingLineFeed_append_singleton :
    PendingLineFeed (reads ++ [chunk]) ↔
      0x0d ∉ chunk ∧ (PendingLineFeed reads ∨
        reads.flatten.getLast? = some 0x0d ∧ ∃ y, chunk = 0x0a :: y) := by
  constructor
  · rintro ⟨before, y, after, heq, hcr, hy, hafter⟩
    rcases List.eq_nil_or_concat' after with rfl | ⟨after, d, rfl⟩
    · obtain ⟨rfl, hc⟩ := List.append_inj' heq rfl
      obtain rfl := (List.cons.inj hc).1
      exact ⟨by simpa using hy, Or.inr ⟨hcr, y, rfl⟩⟩
    · rw [← List.cons_append, ← List.append_assoc] at heq
      obtain ⟨hbefore, hd⟩ := List.append_inj' heq rfl
      obtain rfl := (List.cons.inj hd).1
      rw [List.flatten_append, List.flatten_singleton, List.mem_append, not_or] at hafter
      exact ⟨hafter.2, Or.inl ⟨before, y, after, hbefore, hcr, hy, hafter.1⟩⟩
  · rintro ⟨hchunk, ⟨before, y, after, rfl, hcr, hy, hafter⟩ | ⟨hcr, y, rfl⟩⟩
    · refine ⟨before, y, after ++ [chunk], by simp, hcr, hy, ?_⟩
      rw [List.flatten_append, List.flatten_singleton, List.mem_append, not_or]
      exact ⟨hafter, hchunk⟩
    · exact ⟨reads, y, [], rfl, hcr, by simpa using hchunk, List.not_mem_nil⟩

theorem KeepsFrame.no_cr
    (h : KeepsFrame reads) :
    0x0d ∉ leftAfter reads := by
  have hnot := @not_mem_tail _ _ (0x0d : UInt8) reads.flatten
  rcases h.kept with heq | heq
  · rwa [heq]
  · rw [heq, List.mem_cons, not_or] at hnot
    exact hnot.2

theorem KeepsFrame.no_cr_append
    (h : KeepsFrame reads)
    {more : List UInt8}
    (hmore : 0x0d ∉ more) :
    0x0d ∉ leftAfter reads ++ more := by
  rw [List.mem_append, not_or]
  exact ⟨h.no_cr, hmore⟩

/-- The tail of the stream and what is kept, after a read in which a frame ends. -/
theorem splitLines_reads_of_cr
    {body rest : List UInt8}
    (hbody : 0x0d ∉ body) :
    (splitLines 0x0d (reads ++ [body ++ 0x0d :: rest]).flatten).2 = (splitLines 0x0d rest).2 := by
  rw [List.flatten_append, List.flatten_singleton, splitLines_append, ← List.append_assoc,
    splitLines_line (not_mem_tail_append _ hbody)]

theorem KeepsFrame.read
    (h : KeepsFrame reads)
    (hstart : ∀ rest, (reads ++ [chunk]).flatten ≠ 0x0a :: rest) :
    KeepsFrame (reads ++ [chunk]) := by
  by_cases hcr : 0x0d ∈ chunk
  · obtain ⟨body, rest, rfl, hbody⟩ := List.eq_append_cons_of_mem hcr
    have htail := @splitLines_reads_of_cr reads body rest hbody
    have hleft : leftAfter (reads ++ [body ++ 0x0d :: rest]) =
        dropLineFeed (splitLines 0x0d rest).2 := by
      rw [leftAfter_append_singleton, leftOfRead, if_pos (by simp), ← List.append_assoc,
        splitLines_line (h.no_cr_append hbody)]
    have hnot : ¬ PendingLineFeed (reads ++ [body ++ 0x0d :: rest]) := by
      rw [pendingLineFeed_append_singleton]
      exact fun hpending => hpending.1 hcr
    constructor
    · rw [htail, hleft]
      cases htail' : (splitLines 0x0d rest).2 with
      | nil => exact Or.inl rfl
      | cons b tail =>
          by_cases hb : b = 0x0a
          · subst hb
            exact Or.inr (by rw [dropLineFeed_line_feed])
          · exact Or.inl (if_neg hb)
    · rw [htail, hleft]
      refine iff_of_false ?_ hnot
      rintro ⟨heq, y, hy⟩
      rw [hy, dropLineFeed_line_feed] at heq
      have := congrArg List.length heq
      simp at this
  · have htail : (splitLines 0x0d (reads ++ [chunk]).flatten).2 =
        (splitLines 0x0d reads.flatten).2 ++ chunk := by
      rw [List.flatten_append, List.flatten_singleton, splitLines_append,
        splitLines_of_not_mem (not_mem_tail_append _ hcr)]
    have hleft : leftAfter (reads ++ [chunk]) = leftAfter reads ++ chunk := by
      rw [leftAfter_append_singleton, leftOfRead, if_neg (h.no_cr_append hcr)]
    constructor
    · rw [htail, hleft]
      rcases h.kept with heq | heq
      · exact Or.inl (by rw [heq])
      · exact Or.inr (by rw [heq, List.cons_append])
    · rw [htail, hleft, List.append_left_inj, pendingLineFeed_append_singleton, ← h.pending_iff,
        getLast?_eq_cr_iff]
      cases htail' : (splitLines 0x0d reads.flatten).2 with
      | nil =>
          have hkept : leftAfter reads = [] := by
            rcases h.kept with heq | heq
            · rw [heq, htail']
            · rw [htail'] at heq
              cases heq
          have hne : (∃ y, chunk = 0x0a :: y) → reads.flatten ≠ [] := by
            rintro ⟨y, rfl⟩ hnil
            refine hstart y ?_
            rw [List.flatten_append, hnil]
            simp
          simp only [hkept, true_and, List.nil_append, List.nil_eq, reduceCtorEq, exists_false,
            false_or, hcr, not_false_eq_true]
          exact ⟨fun hy => ⟨hne hy, hy⟩, fun hy => hy.2⟩
      | cons b tail =>
          simp only [List.cons_append, List.cons.injEq, reduceCtorEq, false_and, or_false, hcr,
            not_false_eq_true, true_and]
          refine and_congr_right fun _ => ?_
          constructor
          · rintro ⟨y, hb, -⟩
            exact ⟨tail, hb, rfl⟩
          · rintro ⟨y, hb, rfl⟩
            exact ⟨tail ++ chunk, hb, rfl⟩

/-- The first frame that ends in a read: the loop has it without the LF before it unless
that LF was the first byte of a read. -/
theorem KeepsFrame.first_frame_iff
    {body rest : List UInt8}
    (h : KeepsFrame reads)
    (hchunk : chunk = body ++ 0x0d :: rest)
    (hstart : ∀ rest, (reads ++ [chunk]).flatten ≠ 0x0a :: rest) :
    leftAfter reads ++ body ++ [0x0d] =
        dropLineFeed ((splitLines 0x0d reads.flatten).2 ++ body ++ [0x0d]) ↔
      ¬ PendingLineFeed reads ∧
        ∀ y, reads.flatten.getLast? = some 0x0d → chunk ≠ 0x0a :: y := by
  rw [← h.pending_iff, getLast?_eq_cr_iff]
  rcases h.kept with heq | heq
  · rw [heq, eq_comm]
    have hdrop (w : List UInt8) : dropLineFeed w = w ↔ ∀ rest, w ≠ 0x0a :: rest := by
      rw [← length_dropLineFeed_eq_iff]
      constructor
      · intro hw
        rw [hw]
      · intro hw
        exact dropLineFeed_of_ne (length_dropLineFeed_eq_iff.mp hw)
    rw [hdrop]
    cases htail : (splitLines 0x0d reads.flatten).2 with
    | nil =>
        simp only [List.nil_append, true_and, reduceCtorEq, exists_false, not_false_eq_true]
        constructor
        · rintro hbody y - rfl
          cases body with
          | nil =>
              have := (List.cons.inj hchunk).1
              contradiction
          | cons b body =>
              obtain ⟨rfl, -⟩ := List.cons.inj hchunk
              exact hbody (body ++ [0x0d]) rfl
        · intro hread y hy
          cases body with
          | nil =>
              have := (List.cons.inj hy).1
              contradiction
          | cons b body =>
              obtain ⟨rfl, -⟩ := List.cons.inj hy
              refine hread (body ++ 0x0d :: rest) ?_ hchunk
              intro hnil
              refine hstart (body ++ 0x0d :: rest) ?_
              rw [List.flatten_append, hnil, hchunk]
              simp
    | cons b tail =>
        simp only [List.cons_append, ne_eq, List.cons.injEq, not_and, reduceCtorEq, true_and,
          not_exists, false_and, false_implies, implies_true, and_true]
        constructor
        · intro hall y hb _
          exact hall (tail ++ (body ++ [0x0d])) hb (by simp)
        · intro hall y hb _
          exact hall tail hb rfl
  · rw [heq]
    simp only [List.cons_append, dropLineFeed_line_feed, true_iff, reduceCtorEq, false_and,
      false_implies, implies_true, and_true, not_and, not_exists]
    intro hself
    have := congrArg List.length hself
    simp at this

theorem KeepsFrame.first_frame_of_length
    (h : KeepsFrame reads)
    {body : List UInt8}
    (hlen : (leftAfter reads ++ body ++ [0x0d]).length =
      (dropLineFeed ((splitLines 0x0d reads.flatten).2 ++ body ++ [0x0d])).length) :
    leftAfter reads ++ body ++ [0x0d] =
      dropLineFeed ((splitLines 0x0d reads.flatten).2 ++ body ++ [0x0d]) := by
  rcases h.kept with heq | heq
  · rw [heq] at hlen ⊢
    exact (dropLineFeed_of_ne (length_dropLineFeed_eq_iff.mp hlen.symm)).symm
  · rw [heq, List.cons_append, List.cons_append, dropLineFeed_line_feed]

end Kept

/-! ### The packets and the frames -/

section Packets

variable {W : Type u} {t : Dis4Frame} {atof : List UInt8 → W}
variable {reads : List (List UInt8)} {chunk : List UInt8}

/-- The weights that the loop distributes for these reads. -/
def weightsAfter (t : Dis4Frame) (atof : List UInt8 → W) (reads : List (List UInt8)) : List W :=
  (reads.foldl (fun (s : List UInt8 × List W) chunk =>
    (leftOfRead (s.1 ++ chunk),
      s.2 ++ weightsOf t atof (s.1 ++ chunk) (splitLines 0x0d (s.1 ++ chunk)).1)) ([], [])).2

theorem weightsAfter_append_singleton :
    weightsAfter t atof (reads ++ [chunk]) =
      weightsAfter t atof reads ++
        weightsOf t atof (leftAfter reads ++ chunk)
          (splitLines 0x0d (leftAfter reads ++ chunk)).1 := by
  have hfst (s : List UInt8 × List W) :
      (reads.foldl (fun (s : List UInt8 × List W) chunk =>
        (leftOfRead (s.1 ++ chunk),
          s.2 ++ weightsOf t atof (s.1 ++ chunk) (splitLines 0x0d (s.1 ++ chunk)).1)) s).1 =
        reads.foldl (fun data chunk => leftOfRead (data ++ chunk)) s.1 := by
    induction reads generalizing s with
    | nil => rfl
    | cons c reads ih => exact ih _
  rw [weightsAfter, List.foldl_append, List.foldl_cons, List.foldl_nil, hfst]
  rfl

/-- The frames that end in a read have the same number in their weight fields. -/
def SameWeights (t : Dis4Frame) (atof : List UInt8 → W) (before : List (List UInt8))
    (chunk : List UInt8) (_ : List (List UInt8)) : Prop :=
  ∀ f ∈ framesOfRead before chunk, ∀ g ∈ framesOfRead before chunk,
    atof (t.field f) = atof (t.field g)

/-- The weights in the frames themselves. -/
def weightsOfFrames (t : Dis4Frame) (atof : List UInt8 → W) (frames : List (List UInt8)) :
    List W :=
  frames.map fun frame => atof (t.field frame)

theorem Dis4Frame.field_append
    {a b : List UInt8}
    (h : t.weightPos + t.weightLen ≤ a.length) :
    t.field (a ++ b) = t.field a := by
  rw [Dis4Frame.field, Dis4Frame.field, List.drop_append_of_le_length (by omega),
    List.take_append_of_le_length]
  rw [List.length_drop]
  omega

/-- A frame too long or too short gets no packet. -/
theorem length_weightsOf_eq_iff
    {data : List UInt8}
    {lines frames : List (List UInt8)}
    (hlines : lines.length = frames.length) :
    (weightsOf t atof data lines).length = frames.length ↔
      ∀ line ∈ lines, line.length = t.packetLength := by
  rw [weightsOf, List.length_map, ← hlines, List.length_filter_eq_length_iff]
  simp

/-- The loop finds as many frames as end in the read. -/
theorem KeepsFrame.length_lines
    (h : KeepsFrame reads) :
    (splitLines 0x0d (leftAfter reads ++ chunk)).1.length = (framesOfRead reads chunk).length := by
  rw [← splitFrom_eq_splitLines h.no_cr, framesOfRead, framesOf, List.length_map,
    ← splitFrom_eq_splitLines (not_mem_tail _), length_splitFrom, length_splitFrom]

/-- Nothing ends in a read without a CR. -/
theorem KeepsFrame.weightsOf_read_of_no_cr
    (hkeeps : KeepsFrame reads)
    (hcr : 0x0d ∉ chunk) :
    weightsOf t atof (leftAfter reads ++ chunk) (splitLines 0x0d (leftAfter reads ++ chunk)).1 =
        weightsOfFrames t atof (framesOfRead reads chunk) ↔
      (0x0d ∈ chunk → ¬ PendingLineFeed reads) ∧ ReadsLineFeeds reads chunk [] ∧
        SameWeights t atof reads chunk [] := by
  have hnone : framesOfRead reads chunk = [] := by
    rw [framesOfRead, framesOf, splitLines_of_not_mem (not_mem_tail_append _ hcr)]
    rfl
  refine iff_of_true ?_ ⟨fun h => absurd h hcr, ⟨?_, ?_⟩, ?_⟩
  · rw [hnone, splitLines_of_not_mem (hkeeps.no_cr_append hcr)]
    rfl
  · rw [splitLines_of_not_mem hcr]
    simp
  · rintro y - rfl
    exact ⟨fun hy => hcr (List.mem_cons_of_mem _ hy), List.not_mem_nil⟩
  · rw [SameWeights, hnone]
    simp

/-- One read gives each frame that ends in it a packet with its own weight exactly if no
LF is counted to a frame and the weights are the same. -/
theorem weightsOf_read_eq_iff
    (hfield : t.weightPos + t.weightLen ≤ t.packetLength)
    (hkeeps : KeepsFrame reads)
    (hframes : ∀ frame ∈ framesOfRead reads chunk, frame.length = t.packetLength)
    (hstart : ∀ rest, (reads ++ [chunk]).flatten ≠ 0x0a :: rest) :
    weightsOf t atof (leftAfter reads ++ chunk) (splitLines 0x0d (leftAfter reads ++ chunk)).1 =
        weightsOfFrames t atof (framesOfRead reads chunk) ↔
      (0x0d ∈ chunk → ¬ PendingLineFeed reads) ∧ ReadsLineFeeds reads chunk [] ∧
        SameWeights t atof reads chunk [] := by
  by_cases hcr : 0x0d ∈ chunk
  · obtain ⟨body, rest, hchunk, hbody⟩ := List.eq_append_cons_of_mem hcr
    have hlines : (splitLines 0x0d (leftAfter reads ++ chunk)).1 =
        (leftAfter reads ++ body ++ [0x0d]) :: (splitLines 0x0d rest).1 := by
      rw [hchunk, ← List.append_assoc, splitLines_line (hkeeps.no_cr_append hbody)]
    have hread : framesOfRead reads chunk =
        dropLineFeed ((splitLines 0x0d reads.flatten).2 ++ body ++ [0x0d]) ::
          (splitLines 0x0d rest).1.map dropLineFeed := by
      rw [framesOfRead, framesOf, hchunk, ← List.append_assoc,
        splitLines_line (not_mem_tail_append _ hbody)]
      rfl
    have hothers : (splitLines 0x0d chunk).1.tail = (splitLines 0x0d rest).1 := by
      rw [hchunk, splitLines_line hbody]
      rfl
    have hfirst := hkeeps.first_frame_iff hchunk hstart
    constructor
    · intro heq
      have hlength := (length_weightsOf_eq_iff hkeeps.length_lines).mp (by
        rw [heq, weightsOfFrames, List.length_map])
      rw [hlines, List.forall_mem_cons] at hlength
      rw [hread, List.forall_mem_cons] at hframes
      obtain ⟨hpending, hbegins⟩ := hfirst.mp
        (hkeeps.first_frame_of_length (hlength.1.trans hframes.1.symm))
      refine ⟨fun _ => hpending, ⟨?_, ?_⟩, ?_⟩
      · rw [hothers]
        intro line hline
        refine length_dropLineFeed_eq_iff.mp ?_
        rw [hframes.2 _ (List.mem_map_of_mem hline), hlength.2 line hline]
      · intro y hlast hy
        exact absurd hy (hbegins y hlast)
      · have hconst (f : List UInt8) (hf : f ∈ framesOfRead reads chunk) :
            atof (t.field f) = atof (t.field (leftAfter reads ++ chunk)) := by
          have hmem : atof (t.field f) ∈ weightsOfFrames t atof (framesOfRead reads chunk) :=
            List.mem_map_of_mem hf
          rw [← heq, weightsOf, List.mem_map] at hmem
          obtain ⟨-, -, hw⟩ := hmem
          exact hw.symm
        intro f hf g hg
        rw [hconst f hf, hconst g hg]
    · rintro ⟨hpending, hfeeds, hsame⟩
      have hself : (splitLines 0x0d (leftAfter reads ++ chunk)).1 = framesOfRead reads chunk := by
        rw [hlines, hread, ← hfirst.mpr ⟨hpending hcr, ?_⟩]
        · congr 1
          refine ((List.map_congr_left ?_).trans (List.map_id _)).symm
          intro line hline
          exact dropLineFeed_of_ne (hfeeds.inside line (by rw [hothers]; exact hline))
        · intro y hlast hy
          refine (hfeeds.begins y hlast hy).1 ?_
          rw [hy, List.mem_cons] at hcr
          exact hcr.resolve_left (by decide)
      have hfirst_mem : leftAfter reads ++ body ++ [0x0d] ∈ framesOfRead reads chunk := by
        rw [← hself, hlines]
        exact List.mem_cons_self
      have hown : t.field (leftAfter reads ++ chunk) =
          t.field (leftAfter reads ++ body ++ [0x0d]) := by
        have hlen := hframes _ hfirst_mem
        have hdata : leftAfter reads ++ chunk = (leftAfter reads ++ body ++ [0x0d]) ++ rest := by
          rw [hchunk]
          simp
        rw [hdata]
        exact Dis4Frame.field_append (by rw [hlen]; exact hfield)
      rw [hself, weightsOf, List.filter_eq_self.mpr (by simpa using hframes), weightsOfFrames, hown]
      exact List.map_congr_left fun frame hframe => hsame _ hfirst_mem frame hframe
  · exact hkeeps.weightsOf_read_of_no_cr hcr

theorem IsFrameStream.of_append
    {packetLength : Nat}
    {a b : List UInt8}
    (h : IsFrameStream packetLength (a ++ b)) :
    IsFrameStream packetLength a where
  frame_length := by
    intro frame hframe
    refine h.frame_length frame ?_
    rw [framesOf_append, List.mem_append]
    exact Or.inl hframe
  start := by
    rintro rest rfl
    exact h.start (rest ++ b) rfl
  no_nul := fun hmem => h.no_nul (List.mem_append_left _ hmem)

theorem keepsFrame_of_start
    (hstart : ∀ rest, reads.flatten ≠ 0x0a :: rest) :
    KeepsFrame reads := by
  induction reads using List.reverseRecOn with
  | nil =>
      refine ⟨Or.inl rfl, iff_of_false ?_ not_pendingLineFeed_nil⟩
      rintro ⟨-, y, hy⟩
      cases hy
  | append_singleton reads chunk ih =>
      refine (ih ?_).read hstart
      intro rest hrest
      refine hstart (rest ++ chunk) ?_
      rw [List.flatten_append, hrest]
      simp

theorem length_weightsAfter_le
    (hstart : ∀ rest, reads.flatten ≠ 0x0a :: rest) :
    (weightsAfter t atof reads).length ≤ (framesOf reads.flatten).length := by
  induction reads using List.reverseRecOn with
  | nil => exact Nat.le_refl 0
  | append_singleton reads chunk ih =>
      have hbefore : ∀ rest, reads.flatten ≠ 0x0a :: rest := by
        intro rest hrest
        refine hstart (rest ++ chunk) ?_
        rw [List.flatten_append, hrest]
        simp
      rw [weightsAfter_append_singleton, framesOf_reads_append_singleton, List.length_append,
        List.length_append, ← (keepsFrame_of_start hbefore).length_lines]
      refine Nat.add_le_add (ih hbefore) ?_
      rw [weightsOf, List.length_map]
      exact List.length_filter_le _ _

/-- The weights distributed are those of the frames exactly under the two conditions. -/
theorem weightsAfter_eq_iff
    (hfield : t.weightPos + t.weightLen ≤ t.packetLength)
    (hstream : IsFrameStream t.packetLength reads.flatten) :
    weightsAfter t atof reads = weightsOfFrames t atof (framesOf reads.flatten) ↔
      EveryRead ReadsLineFeeds reads ∧ EveryRead (SameWeights t atof) reads := by
  induction reads using List.reverseRecOn with
  | nil => exact iff_of_true rfl ⟨everyRead_nil, everyRead_nil⟩
  | append_singleton reads chunk ih =>
      have hbefore : IsFrameStream t.packetLength reads.flatten := by
        rw [List.flatten_append] at hstream
        exact hstream.of_append
      have hframes : ∀ frame ∈ framesOfRead reads chunk, frame.length = t.packetLength := by
        intro frame hframe
        refine hstream.frame_length frame ?_
        rw [framesOf_reads_append_singleton, List.mem_append]
        exact Or.inr hframe
      have hkeeps := keepsFrame_of_start hbefore.start
      have hread := @weightsOf_read_eq_iff W t atof reads chunk hfield hkeeps hframes hstream.start
      have hsame : EveryRead (SameWeights t atof) (reads ++ [chunk]) ↔
          EveryRead (SameWeights t atof) reads ∧ SameWeights t atof reads chunk [] :=
        everyRead_append_singleton
      rw [readsLineFeeds_append_singleton, hsame, weightsAfter_append_singleton,
        framesOf_reads_append_singleton, weightsOfFrames, List.map_append]
      constructor
      · intro heq
        have hle := @length_weightsAfter_le W t atof reads hbefore.start
        have hle' : (weightsOf t atof (leftAfter reads ++ chunk)
            (splitLines 0x0d (leftAfter reads ++ chunk)).1).length ≤
            (framesOfRead reads chunk).length := by
          rw [← hkeeps.length_lines, weightsOf, List.length_map]
          exact List.length_filter_le _ _
        have hlen := congrArg List.length heq
        simp only [List.length_append, List.length_map] at hlen
        obtain ⟨hold, hnew⟩ := List.append_inj heq (by
          rw [List.length_map]
          omega)
        obtain ⟨hfeeds, hweights⟩ := (ih hbefore).mp hold
        obtain ⟨hpending, hfeed, hweight⟩ := hread.mp hnew
        exact ⟨⟨hfeeds, hpending, hfeed⟩, hweights, hweight⟩
      · rintro ⟨⟨hfeeds, hpending, hfeed⟩, hweights, hweight⟩
        rw [(ih hbefore).mpr ⟨hfeeds, hweights⟩, hread.mpr ⟨hpending, hfeed, hweight⟩]
        rfl

end Packets

/-! ### Runs -/

section Runs

variable {W : Type u} {t : Dis4Frame} {atof : List UInt8 → W} {stack : Nat → StackValue}
variable {buffer : Bytes} {acts : List Dis4Act} {s : Dis4 W}

/-- What the reads of a run deliver. -/
def readsOf (acts : List Dis4Act) : List (List UInt8) :=
  acts.filterMap fun
    | .read (.bytes data) => some data
    | _ => none

@[simp] theorem readsOf_append
    (acts acts' : List Dis4Act) :
    readsOf (acts ++ acts') = readsOf acts ++ readsOf acts' :=
  List.filterMap_append

/-- What holds after a run with the given steps, all of whose reads succeed. -/
def Dis4.After (t : Dis4Frame) (atof : List UInt8 → W) (stack : Nat → StackValue)
    (acts : List Dis4Act) (s : Dis4 W) : Prop :=
  (∀ a ∈ acts, a ≠ .read .failed) → 0 ∉ (readsOf acts).flatten →
    s.Has (leftAfter (readsOf acts)) ∧
      s.packets = packetsOf stack (weightsAfter t atof (readsOf acts)) ∧
      (weightsAfter t atof (readsOf acts) ≠ [] → t.packetLength < dis4Size)

/-- A frame that is distributed stands in the buffer. -/
theorem packetLength_le_of_weightsOf
    {data : List UInt8}
    (h : weightsOf t atof data (splitLines 0x0d data).1 ≠ []) :
    t.packetLength ≤ data.length := by
  obtain ⟨w, hw⟩ := List.exists_mem_of_ne_nil _ h
  rw [weightsOf, List.mem_map] at hw
  obtain ⟨line, hline, -⟩ := hw
  rw [List.mem_filter, decide_eq_true_eq] at hline
  rw [← hline.2, ← @flatten_splitLines _ _ (0x0d : UInt8) data, List.length_append]
  exact le_trans (List.sublist_flatten_of_mem hline.1).length_le (Nat.le_add_right _ _)

theorem Dis4.after_step
    {past : List Dis4Act}
    {a : Dis4Act}
    {s' : Dis4 W}
    (hfield : t.weightPos + t.weightLen ≤ t.packetLength)
    (h : s.After t atof stack past)
    (hstep : dis4Step t atof stack s a = some s') :
    s'.After t atof stack (past ++ [a]) := by
  intro hsucceed hnul
  rw [readsOf_append, List.flatten_append, List.mem_append, not_or] at hnul
  obtain ⟨hhas, hpackets, hshort⟩ :=
    h (fun b hb => hsucceed b (List.mem_append_left _ hb)) hnul.1
  cases a with
  | fionread n =>
      rw [dis4Step] at hstep
      split at hstep
      · obtain rfl := Option.some.inj hstep
        rw [readsOf_append, show readsOf [.fionread n] = [] from rfl, List.append_nil]
        exact ⟨⟨hhas.pEnd_eq, hhas.pStart_eq, hhas.fits, hhas.holds, hhas.no_cr, hhas.no_nul⟩,
          hpackets, hshort⟩
      · cases hstep
  | read result =>
      rw [dis4Step] at hstep
      split at hstep
      · cases result with
        | failed => exact absurd rfl (hsucceed (.read .failed) (by simp))
        | bytes chunk =>
            have hchunk : readsOf [.read (.bytes chunk)] = [chunk] := rfl
            rw [hchunk, List.flatten_singleton] at hnul
            have hroom : chunk.length ≤ min s.len (dis4Size - (s.pStart + 1)) := by
              cases chunk with
              | nil => exact Nat.zero_le _
              | cons b chunk =>
                  by_contra hcon
                  rw [Dis4.read, if_neg hcon] at hstep
                  · cases hstep
                  · exact List.cons_ne_nil b chunk
            obtain ⟨s₁, hread, hhas₁, hpackets₁⟩ :=
              Dis4.read_eq hhas hfield hpackets hnul.2 hroom
            obtain rfl := Option.some.inj (hread.symm.trans hstep)
            rw [readsOf_append, hchunk, leftAfter_append_singleton, weightsAfter_append_singleton]
            refine ⟨hhas₁, hpackets₁, fun hweights => ?_⟩
            by_cases hold : weightsAfter t atof (readsOf past) = []
            · rw [hold, List.nil_append] at hweights
              have hle := packetLength_le_of_weightsOf hweights
              have hfits := hhas.fits
              have hstart := hhas.pStart_eq
              rw [List.length_append] at hle
              omega
            · exact hshort hold
      · cases hstep

theorem Dis4.after_run
    (hfield : t.weightPos + t.weightLen ≤ t.packetLength)
    (hrun : runSteps (dis4Step t atof stack) (.initial buffer) acts = some s) :
    s.After t atof stack acts := by
  refine runSteps_invariant ?_ ?_ hrun
  · intro _ _
    refine ⟨⟨rfl, rfl, by decide, Bytes.holds_nil, List.not_mem_nil, List.not_mem_nil⟩, rfl, ?_⟩
    exact fun hweights => absurd rfl hweights
  · intro past s a s' h hstep
    exact Dis4.after_step hfield h hstep

/-- Weights and channels are compared one by one. -/
theorem packetsOf_eq_iff
    {weights : List W}
    {frames : List (List UInt8)} :
    (packetsOf stack weights).map (fun p => (p.weight, p.channel)) =
        frames.map (fun frame => (atof (t.field frame), t.id)) ↔
      weights = weightsOfFrames t atof frames ∧
        ∀ i, i < frames.length → (stack i).channel = t.id := by
  have hleft (i : Nat) :
      ((packetsOf stack weights).map fun p => (p.weight, p.channel))[i]? =
        weights[i]?.map fun w => (w, (stack i).channel) := by
    simp [packetsOf, Function.comp_def]
  constructor
  · intro heq
    have hi (i : Nat) : weights[i]?.map (fun w => (w, (stack i).channel)) =
        frames[i]?.map fun frame => (atof (t.field frame), t.id) := by
      rw [← hleft, heq, List.getElem?_map]
    constructor
    · refine List.ext_getElem? fun i => ?_
      have := congrArg (Option.map Prod.fst) (hi i)
      simpa [weightsOfFrames, Function.comp_def] using this
    · intro i hlt
      have := congrArg (Option.map Prod.snd) (hi i)
      rw [List.getElem?_eq_getElem hlt] at this
      simp only [Option.map_map, Option.map_some] at this
      obtain ⟨_, -, hchannel⟩ := Option.map_eq_some_iff.mp this
      exact hchannel
  · rintro ⟨rfl, hchannels⟩
    refine List.ext_getElem? fun i => ?_
    rw [hleft, weightsOfFrames, List.getElem?_map, List.getElem?_map]
    by_cases hlt : i < frames.length
    · simp [List.getElem?_eq_getElem hlt, hchannels i hlt]
    · simp [List.getElem?_eq_none (Nat.le_of_not_lt hlt)]

/-- The packets of the reads, compared with the frames that have been read. -/
theorem packets_of_reads_iff
    (hfield : t.weightPos + t.weightLen ≤ t.packetLength)
    (hrun : runSteps (dis4Step t atof stack) (.initial buffer) acts = some s)
    (hsucceed : ∀ a ∈ acts, a ≠ .read .failed)
    (hstream : IsFrameStream t.packetLength (readsOf acts).flatten) :
    s.packets.map (fun p => (p.weight, p.channel)) =
        (framesOf (readsOf acts).flatten).map (fun frame => (atof (t.field frame), t.id)) ↔
      EveryRead ReadsLineFeeds (readsOf acts) ∧ EveryRead (SameWeights t atof) (readsOf acts) ∧
        ∀ i, i < (framesOf (readsOf acts).flatten).length → (stack i).channel = t.id := by
  obtain ⟨-, hpackets, -⟩ := Dis4.after_run hfield hrun hsucceed hstream.no_nul
  rw [← and_assoc, ← weightsAfter_eq_iff hfield hstream, hpackets]
  exact packetsOf_eq_iff

/-- Bytes are expected, and the next `read` asks for none: the buffer is full. -/
def Dis4.Stuck (s : Dis4 W) : Prop := 0 < s.len ∧ s.pStart + 1 = dis4Size

/-- The loop has read all that was sent, or it reads nothing more. -/
def Dis4.Settled (s : Dis4 W) (unread : List UInt8) : Prop := unread = [] ∨ s.Stuck

/-- From then on every read gets 0 bytes, and nothing changes. -/
theorem Dis4.Stuck.step
    {a : Dis4Act}
    {s' : Dis4 W}
    (h : s.Stuck)
    (ha : a ≠ .read .failed)
    (hstep : dis4Step t atof stack s a = some s') :
    s' = s := by
  obtain ⟨hlen, hfull⟩ := h
  cases a with
  | fionread n =>
      rw [dis4Step, if_neg (by omega)] at hstep
      cases hstep
  | read result =>
      cases result with
      | failed => exact absurd rfl ha
      | bytes data =>
          cases data with
          | nil =>
              rw [dis4Step, if_pos hlen] at hstep
              exact (Option.some.inj hstep).symm
          | cons b data =>
              rw [dis4Step, if_pos hlen, Dis4.read, if_neg] at hstep
              · cases hstep
              · rw [List.length_cons]
                omega
              · exact List.cons_ne_nil b data

section Unread

variable {reads : List (List UInt8)} {unread : List UInt8}

/-- A full buffer leaves no room for the rest of a frame that would fit in it. -/
theorem KeepsFrame.not_mem_unread
    {packetLength : Nat}
    (h : KeepsFrame reads)
    (hstream : IsFrameStream packetLength (reads.flatten ++ unread))
    (hfull : (leftAfter reads).length + 1 = dis4Size)
    (hshort : framesOf (reads.flatten ++ unread) ≠ [] → packetLength < dis4Size)
    (hpending : 0x0d ∈ unread → ¬ PendingLineFeed reads) :
    0x0d ∉ unread := by
  intro hmem
  have hnotpending := hpending hmem
  rw [← h.pending_iff] at hnotpending
  obtain ⟨body, rest, rfl, hbody⟩ := List.eq_append_cons_of_mem hmem
  have hframe : dropLineFeed ((splitLines 0x0d reads.flatten).2 ++ body ++ [0x0d]) ∈
      framesOf (reads.flatten ++ (body ++ 0x0d :: rest)) := by
    rw [framesOf_append, List.mem_append]
    refine Or.inr ?_
    rw [framesOf, ← List.append_assoc, splitLines_line (not_mem_tail_append _ hbody)]
    exact List.mem_cons_self
  have hlength := hstream.frame_length _ hframe
  have hlt := hshort (List.ne_nil_of_mem hframe)
  rcases h.kept with heq | heq
  · rw [← heq, dropLineFeed_of_ne] at hlength
    · simp only [List.length_append, List.length_singleton] at hlength
      omega
    · intro y hy
      refine hnotpending ⟨heq, ?_⟩
      rw [← heq]
      cases hkept : leftAfter reads with
      | nil =>
          rw [hkept] at hfull
          exact absurd hfull (by decide)
      | cons b kept =>
          rw [hkept] at hy
          exact ⟨kept, by rw [(List.cons.inj hy).1]⟩
  · rw [heq, List.cons_append, List.cons_append, dropLineFeed_line_feed] at hlength
    simp only [List.length_append, List.length_singleton] at hlength
    omega

/-- No frame ends in the bytes that are not read. -/
theorem framesOf_append_of_not_mem
    {w : List UInt8}
    (h : 0x0d ∉ unread) :
    framesOf (w ++ unread) = framesOf w := by
  rw [framesOf_append, framesOf, framesOf, splitLines_of_not_mem (not_mem_tail_append _ h)]
  exact List.append_nil _

theorem not_mem_of_length_framesOf
    {w : List UInt8}
    (h : (framesOf (w ++ unread)).length ≤ (framesOf w).length) :
    0x0d ∉ unread := by
  intro hmem
  obtain ⟨body, rest, rfl, hbody⟩ := List.eq_append_cons_of_mem hmem
  rw [framesOf_append, ← List.append_assoc, List.length_append] at h
  have hpos : 0 < (framesOf ((splitLines 0x0d w).2 ++ body ++ 0x0d :: rest)).length := by
    rw [framesOf, splitLines_line (not_mem_tail_append _ hbody)]
    exact Nat.succ_pos _
  omega

end Unread

/-- **One packet for each frame sent.**  The packets have the weights of the frames and the
id of the scale exactly if a frame fits in the buffer, the LF between two frames are read
with the CR before them and before the CR after them, the frames that end in one read have
the same weight, and the stack happens to hold the id. -/
theorem dis4_loop_distributes_iff
    {unread : List UInt8}
    (hfield : t.weightPos + t.weightLen ≤ t.packetLength)
    (hrun : runSteps (dis4Step t atof stack) (.initial buffer) acts = some s)
    (hsucceed : ∀ a ∈ acts, a ≠ .read .failed)
    (hstream : IsFrameStream t.packetLength ((readsOf acts).flatten ++ unread))
    (hsettled : s.Settled unread) :
    s.packets.map (fun p => (p.weight, p.channel)) =
        (framesOf ((readsOf acts).flatten ++ unread)).map
          (fun frame => (atof (t.field frame), t.id)) ↔
      (framesOf ((readsOf acts).flatten ++ unread) ≠ [] → t.packetLength < dis4Size) ∧
        EveryRead ReadsLineFeeds (readsOf acts) ∧
        (0x0d ∈ unread → ¬ PendingLineFeed (readsOf acts)) ∧
        EveryRead (SameWeights t atof) (readsOf acts) ∧
        ∀ i, i < (framesOf ((readsOf acts).flatten ++ unread)).length →
          (stack i).channel = t.id := by
  have hread := hstream.of_append
  obtain ⟨hhas, hpackets, hshort⟩ := Dis4.after_run hfield hrun hsucceed hread.no_nul
  have hreads := packets_of_reads_iff hfield hrun hsucceed hread
  constructor
  · intro heq
    have hlen := congrArg List.length heq
    rw [List.length_map, List.length_map, hpackets, length_packetsOf] at hlen
    have hle := @length_weightsAfter_le W t atof _ hread.start
    have hcr := not_mem_of_length_framesOf (hlen ▸ hle)
    rw [framesOf_append_of_not_mem hcr] at heq hlen ⊢
    obtain ⟨hfeeds, hsame, hchannel⟩ := hreads.mp heq
    refine ⟨fun hframes => hshort ?_, hfeeds, fun hmem => absurd hmem hcr, hsame, hchannel⟩
    intro hnil
    rw [hnil] at hlen
    exact hframes (List.length_eq_zero_iff.mp hlen.symm)
  · rintro ⟨hfits, hfeeds, hpending, hsame, hchannel⟩
    have hcr : 0x0d ∉ unread := by
      rcases hsettled with rfl | ⟨-, hfull⟩
      · exact List.not_mem_nil
      · rw [hhas.pStart_eq] at hfull
        exact (keepsFrame_of_start hread.start).not_mem_unread hstream hfull hfits hpending
    rw [framesOf_append_of_not_mem hcr] at hchannel ⊢
    exact hreads.mpr ⟨hfeeds, hsame, hchannel⟩

/-- Frames of three digits and CR, from the scale 1. -/
def threeDigits : Dis4Frame := ⟨4, 0, 3, 1⟩

/-- The frames `001` and `002`, a LF between them, each in its own read. -/
def twoReads : List Dis4Act :=
  [.fionread 9, .read (.bytes [0x30, 0x30, 0x31, 0x0d, 0x0a]),
    .read (.bytes [0x30, 0x30, 0x32, 0x0d])]

/-- The same frames without a LF in one read. -/
def oneRead : List Dis4Act :=
  [.fionread 8, .read (.bytes [0x30, 0x30, 0x31, 0x0d, 0x30, 0x30, 0x32, 0x0d])]

theorem isFrameStream_twoReads : IsFrameStream 4 ((readsOf twoReads).flatten ++ []) := by
  refine ⟨by decide, ?_, by decide⟩
  intro rest h
  have := (List.cons.inj h).1
  contradiction

/-- Two reads, and a stack that holds the id. -/
theorem two_reads_distributed :
    (framesOf ((readsOf twoReads).flatten ++ []) ≠ [] → threeDigits.packetLength < dis4Size) ∧
      EveryRead ReadsLineFeeds (readsOf twoReads) ∧
      (0x0d ∈ ([] : List UInt8) → ¬ PendingLineFeed (readsOf twoReads)) ∧
      EveryRead (SameWeights threeDigits Library.atof) (readsOf twoReads) ∧
      ∀ i, i < (framesOf ((readsOf twoReads).flatten ++ [])).length →
        ((fun _ => ⟨1, 0⟩ : Nat → StackValue) i).channel = threeDigits.id := by
  have hrun : runSteps (dis4Step threeDigits Library.atof fun _ => ⟨1, 0⟩)
    (.initial fun _ => 0) twoReads = some _ := rfl
  exact (dis4_loop_distributes_iff (by decide) hrun (by decide) isFrameStream_twoReads
    (Or.inl rfl)).mp rfl

/-- Two frames in one read have the weight of the first, and the channel that the stack
happens to hold. -/
theorem one_read_two_weights :
    ∃ s, runSteps (dis4Step threeDigits Library.atof fun _ => ⟨7, 0⟩) (.initial fun _ => 0)
        oneRead = some s ∧
      s.packets.map (fun p => (p.weight, p.channel)) = [(1, 7), (1, 7)] ∧
      (framesOf (readsOf oneRead).flatten).map
        (fun frame => (Library.atof (threeDigits.field frame), threeDigits.id)) =
          [(1, 1), (2, 1)] :=
  ⟨_, rfl, by decide +kernel, by decide +kernel⟩

end Runs

end Scaled
end MatrixBin
