import MatrixBin.Scaled.Dis2Commands
import MatrixBin.Scaled.GetResp

/-!
# `readnbytes` and its buffer (`dis2_loop.c`)

The loop with its cursor, the counter `trials` and the buffer of the caller, over any sequence
of results of `read`.  A read delivers at most what it was asked for, `n - len` bytes.

`readnbytes_returns` says what is in the buffer when the loop ends, and after how many reads at
most it does; `readnbytesInto_eq` relates it to `readnbytes` of the commands, which takes its
bytes from a list of results.
-/

namespace MatrixBin
namespace Scaled

open Library

/-- All bytes of some reads, in their order. -/
def readData (got : List ReadResult) : List UInt8 := got.flatMap ReadResult.data

/-- The variables of `readnbytes`, with the results of the reads so far. -/
structure NbytesLoop where
  buf : Bytes
  len : Nat
  trials : Nat
  got : List ReadResult

/-- The body of the loop; in the second component whether the loop goes on. -/
def NbytesLoop.pass (n : Nat) (s : NbytesLoop) : ReadResult → NbytesLoop × Bool
  | .failed => ({ s with got := s.got ++ [.failed] }, false)
  | .bytes [] =>
      let s' := { s with trials := s.trials + 1, got := s.got ++ [.bytes []] }
      (s', if 5 ≤ s'.trials then false else s'.len < n)
  | .bytes (b :: data) =>
      let s' := { s with
        buf := s.buf.write s.len (b :: data)
        len := s.len + (b :: data).length
        trials := 0
        got := s.got ++ [.bytes (b :: data)] }
      (s', s'.len < n)

/-- The result of the next read. -/
def NbytesLoop.next (n : Nat) (results : Nat → ReadResult) (s : NbytesLoop) : ReadResult :=
  (results s.got.length).upTo (n - s.len)

/-- A pass behind which the loop goes on has brought bytes, or is one trial more. -/
theorem NbytesLoop.pass_lowers
    {n : Nat}
    {s s' : NbytesLoop}
    {result : ReadResult}
    (h : s.pass n result = (s', true)) :
    n - s'.len < n - s.len ∨ n - s'.len = n - s.len ∧ 5 - s'.trials < 5 - s.trials := by
  match result with
  | .failed => simp [NbytesLoop.pass] at h
  | .bytes [] =>
      simp only [NbytesLoop.pass, Prod.mk.injEq] at h
      obtain ⟨rfl, hmore⟩ := h
      split at hmore
      · simp at hmore
      · exact Or.inr ⟨rfl, by simp only; omega⟩
  | .bytes (b :: data) =>
      simp only [NbytesLoop.pass, Prod.mk.injEq, decide_eq_true_eq, List.length_cons] at h
      obtain ⟨rfl, hmore⟩ := h
      exact Or.inl (by simp only; omega)

/-- The loop. -/
def NbytesLoop.run (n : Nat) (results : Nat → ReadResult) (s : NbytesLoop) : NbytesLoop :=
  match _h : s.pass n (s.next n results) with
  | (s', true) => s'.run n results
  | (s', false) => s'
termination_by (n - s.len, 5 - s.trials)
decreasing_by
  rcases NbytesLoop.pass_lowers _h with hlen | ⟨hlen, htrials⟩
  · exact Prod.Lex.left _ _ hlen
  · rw [hlen]
    exact Prod.Lex.right _ htrials

/-- `readnbytes(fd, n, buf)` with the results of its reads. -/
def readnbytesInto (n : Nat) (results : Nat → ReadResult) (buf : Bytes) : NbytesLoop :=
  NbytesLoop.run n results ⟨buf, 0, 0, []⟩

/-- The results of the reads are those of the sequence, each cut to the size of its request. -/
def AsRequested (n : Nat) (results : Nat → ReadResult) (got : List ReadResult) : Prop :=
  ∀ i < got.length, got[i]? = some ((results i).upTo (n - (readData (got.take i)).length))

/-- The buffer, over what it was at the call, holds what the reads have delivered. -/
structure NbytesLoop.Filled
    (n : Nat)
    (results : Nat → ReadResult)
    (buf : Bytes)
    (s : NbytesLoop) : Prop where
  len_eq : s.len = (readData s.got).length
  len_le : s.len ≤ n
  buf_eq : s.buf = buf.write 0 (readData s.got)
  as_requested : AsRequested n results s.got

/-- The invariant of the loop.  Five reads without a byte would have ended it, so that every
byte that is still missing costs five reads at most. -/
structure NbytesLoop.Inv
    (n : Nat)
    (results : Nat → ReadResult)
    (buf : Bytes)
    (s : NbytesLoop) : Prop extends s.Filled n results buf where
  trials_lt : s.trials < 5
  empty_reads : ∃ front, s.got = front ++ List.replicate s.trials (.bytes [])
  reads_lt : s.got.length + 5 * (n - s.len) < 5 * n + s.trials + 1

/-- What is to hold when `readnbytes` returns. -/
structure NbytesLoop.Returned
    (n : Nat)
    (results : Nat → ReadResult)
    (buf : Bytes)
    (s : NbytesLoop) : Prop where
  reads_le : s.got.length ≤ 5 * (n + 1)
  as_requested : AsRequested n results s.got
  len_le : s.len ≤ n
  filled : s.buf.read 0 s.len = readData s.got
  behind : ∀ i, n ≤ i → s.buf i = buf i
  short : s.len < n →
    s.got.getLast? = some .failed ∨ ∃ front, s.got = front ++ List.replicate 5 (.bytes [])

section Readnbytes

variable {n : Nat} {results : Nat → ReadResult} {buf : Bytes} {s s' : NbytesLoop}

theorem readData_append
    (got : List ReadResult)
    (result : ReadResult) :
    readData (got ++ [result]) = readData got ++ result.data := by
  rw [readData, List.flatMap_append, List.flatMap_singleton]
  rfl

/-- The next result is as requested. -/
theorem NbytesLoop.Filled.next_requested
    (h : s.Filled n results buf) :
    AsRequested n results (s.got ++ [s.next n results]) := by
  intro i hi
  rw [List.length_append, List.length_singleton] at hi
  rcases Nat.lt_succ_iff_lt_or_eq.mp hi with hlt | rfl
  · rw [List.getElem?_append_left hlt, List.take_append_of_le_length (Nat.le_of_lt hlt)]
    exact h.as_requested i hlt
  · rw [List.getElem?_append_right (Nat.le_refl _), Nat.sub_self, List.take_left, ← h.len_eq]
    rfl

/-- A read delivers no more than what is missing. -/
theorem NbytesLoop.length_data_next_le
    (n : Nat)
    (results : Nat → ReadResult)
    (s : NbytesLoop) :
    (s.next n results).data.length ≤ n - s.len := by
  rw [NbytesLoop.next]
  cases results s.got.length with
  | failed => exact Nat.zero_le _
  | bytes coming =>
      rw [ReadResult.upTo, ReadResult.data, List.length_take]
      exact Nat.min_le_left _ _

/-- What a pass does to the buffer and the cursor, whatever the read has delivered. -/
theorem NbytesLoop.pass_eq
    {result : ReadResult}
    {again : Bool}
    (h : s.pass n result = (s', again)) :
    s'.buf = s.buf.write s.len result.data ∧
      s'.len = s.len + result.data.length ∧
      s'.got = s.got ++ [result] := by
  obtain rfl : (s.pass n result).1 = s' := congrArg Prod.fst h
  match result with
  | .failed => exact ⟨Bytes.write_nil.symm, rfl, rfl⟩
  | .bytes [] => exact ⟨Bytes.write_nil.symm, rfl, rfl⟩
  | .bytes (b :: data) => exact ⟨rfl, rfl, rfl⟩

theorem NbytesLoop.Filled.pass
    {again : Bool}
    (h : s.Filled n results buf)
    (hpass : s.pass n (s.next n results) = (s', again)) :
    s'.Filled n results buf := by
  obtain ⟨hbuf, hlen, hgot⟩ := NbytesLoop.pass_eq hpass
  have hdata := s.length_data_next_le n results
  have hle := h.len_le
  refine ⟨?_, by omega, ?_, ?_⟩
  · rw [hlen, hgot, readData_append, List.length_append, h.len_eq]
  · rw [hbuf, hgot, readData_append, h.buf_eq, h.len_eq]
    have hwrite := Bytes.write_append buf 0 (readData s.got) (s.next n results).data
    rwa [Nat.zero_add] at hwrite
  · rw [hgot]
    exact h.next_requested

/-- How a pass ends the loop: the read has failed, it was the fifth without a byte, or the
buffer is full. -/
theorem NbytesLoop.pass_ends
    {result : ReadResult}
    (h : s.pass n result = (s', false)) :
    result = .failed ∨ (result = .bytes [] ∧ 5 ≤ s.trials + 1) ∨ n ≤ s'.len := by
  match result with
  | .failed => exact Or.inl rfl
  | .bytes [] =>
      simp only [NbytesLoop.pass, Prod.mk.injEq] at h
      obtain ⟨rfl, hend⟩ := h
      split at hend
      · rename_i htrials
        exact Or.inr (Or.inl ⟨rfl, htrials⟩)
      · exact Or.inr (Or.inr (Nat.le_of_not_lt (of_decide_eq_false hend)))
  | .bytes (b :: data) =>
      simp only [NbytesLoop.pass, Prod.mk.injEq] at h
      obtain ⟨rfl, hend⟩ := h
      exact Or.inr (Or.inr (Nat.le_of_not_lt (of_decide_eq_false hend)))

theorem NbytesLoop.Inv.ends
    (h : s.Inv n results buf)
    (hpass : s.pass n (s.next n results) = (s', false)) :
    s'.Returned n results buf := by
  have hfilled := h.toFilled.pass hpass
  have hgot := (NbytesLoop.pass_eq hpass).2.2
  have htrials := h.trials_lt
  have hreads := h.reads_lt
  refine ⟨?_, hfilled.as_requested, hfilled.len_le, ?_, fun i hi => ?_, fun hshort => ?_⟩
  · rw [hgot, List.length_append, List.length_singleton]
    omega
  · rw [hfilled.len_eq, hfilled.buf_eq]
    exact Bytes.holds_write.read_eq
  · rw [hfilled.buf_eq]
    have hlen := hfilled.len_eq
    have hle := hfilled.len_le
    exact Bytes.write_outside (Or.inr (by omega))
  · rcases NbytesLoop.pass_ends hpass with hfailed | ⟨hempty, hfive⟩ | hfull
    · rw [hgot, hfailed, List.getLast?_concat]
      exact Or.inl rfl
    · obtain ⟨front, hfront⟩ := h.empty_reads
      have hfour : s.trials = 4 := by omega
      refine Or.inr ⟨front, ?_⟩
      rw [hgot, hempty, hfront, hfour, List.append_assoc, ← List.replicate_succ']
    · omega

/-- The loop goes on within the invariant. -/
theorem NbytesLoop.Inv.goes_on
    (h : s.Inv n results buf)
    (hpass : s.pass n (s.next n results) = (s', true)) :
    s'.Inv n results buf := by
  have hfilled := h.toFilled.pass hpass
  obtain ⟨-, hlen, hgot⟩ := NbytesLoop.pass_eq hpass
  have hdata := s.length_data_next_le n results
  have hreads := h.reads_lt
  have htrials := h.trials_lt
  have hlength : s'.got.length = s.got.length + 1 := by
    rw [hgot, List.length_append, List.length_singleton]
  revert hpass hlen hgot hdata
  match s.next n results with
  | .failed => exact fun hpass => absurd (congrArg Prod.snd hpass) (by simp [NbytesLoop.pass])
  | .bytes [] =>
      intro hpass hlen hgot hdata
      simp only [NbytesLoop.pass, Prod.mk.injEq] at hpass
      obtain ⟨hnext, hmore⟩ := hpass
      have hcount : s'.trials = s.trials + 1 := by rw [← hnext]
      have hfew : ¬ 5 ≤ s.trials + 1 := by
        intro hfive
        rw [if_pos hfive] at hmore
        exact absurd hmore (by simp)
      obtain ⟨front, hfront⟩ := h.empty_reads
      refine { hfilled with trials_lt := by omega, empty_reads := ⟨front, ?_⟩, reads_lt := ?_ }
      · rw [hgot, hcount, hfront, List.append_assoc, ← List.replicate_succ']
      · rw [ReadResult.data, List.length_nil, Nat.add_zero] at hlen
        rw [hlen]
        omega
  | .bytes (b :: data) =>
      intro hpass hlen hgot hdata
      have hcount : s'.trials = 0 := by
        have hnext := congrArg Prod.fst hpass
        exact (congrArg NbytesLoop.trials hnext).symm
      rw [ReadResult.data, List.length_cons] at hdata hlen
      refine { hfilled with trials_lt := by omega, empty_reads := ⟨s'.got, ?_⟩, reads_lt := ?_ }
      · rw [hcount, List.replicate_zero, List.append_nil]
      · omega

theorem NbytesLoop.run_of_again
    (hpass : s.pass n (s.next n results) = (s', true)) :
    s.run n results = s'.run n results := by
  rw [NbytesLoop.run]
  split
  · rename_i t hagain
    obtain rfl := congrArg Prod.fst (hpass.symm.trans hagain)
    rfl
  · rename_i t hend
    exact absurd (hpass.symm.trans hend) (by simp)

theorem NbytesLoop.run_of_end
    (hpass : s.pass n (s.next n results) = (s', false)) :
    s.run n results = s' := by
  rw [NbytesLoop.run]
  split
  · rename_i t hagain
    exact absurd (hpass.symm.trans hagain) (by simp)
  · rename_i t hend
    exact congrArg Prod.fst (hend.symm.trans hpass)

/-- Every loop that is entered within the invariant ends as it is to. -/
theorem NbytesLoop.Inv.run
    (h : s.Inv n results buf) :
    (s.run n results).Returned n results buf := by
  induction s using NbytesLoop.run.induct n results with
  | case1 s s' hpass ih =>
      rw [NbytesLoop.run_of_again hpass]
      exact ih (h.goes_on hpass)
  | case2 s s' hpass =>
      rw [NbytesLoop.run_of_end hpass]
      exact h.ends hpass

theorem start_nbytesInv
    (n : Nat)
    (results : Nat → ReadResult)
    (buf : Bytes) :
    NbytesLoop.Inv n results buf ⟨buf, 0, 0, []⟩ := by
  refine ⟨⟨rfl, Nat.zero_le _, ?_, fun i hi => ?_⟩, Nat.zero_lt_succ _, ⟨[], rfl⟩, ?_⟩
  · exact Bytes.write_nil.symm
  · exact absurd hi (Nat.not_lt_zero _)
  · simp only [List.length_nil]
    omega

/-- **`readnbytes`.**  Whatever the reads return, it ends after at most `5 * (n + 1)` of them;
the buffer then begins with all bytes that they have delivered, at most `n`, and is unchanged
behind `n`; and less than `n` bytes are delivered only if the last read has failed or the last
five have found nothing. -/
theorem readnbytes_returns
    (n : Nat)
    (results : Nat → ReadResult)
    (buf : Bytes) :
    (readnbytesInto n results buf).Returned n results buf := by
  exact (start_nbytesInv n results buf).run

/-- One pass over a list of results that begins with the result of its read. -/
theorem NbytesLoop.readnbytes_pass
    {again : Bool}
    {rest : List ReadResult}
    (hmissing : s.len < n)
    (hpass : s.pass n (s.next n results) = (s', again))
    (hend : again = false → rest = [])
    (hrest : again = true →
      s'.len < n ∧ readnbytes (n - s'.len) s'.trials rest = (readData rest, [])) :
    readnbytes (n - s.len) s.trials (s.next n results :: rest) =
      (readData (s.next n results :: rest), []) := by
  have hdata := s.length_data_next_le n results
  revert hpass hdata
  match s.next n results with
  | .failed =>
      intro hpass _
      obtain rfl := hend (congrArg Prod.snd hpass).symm
      rfl
  | .bytes [] =>
      intro hpass _
      simp only [NbytesLoop.pass, Prod.mk.injEq] at hpass
      obtain ⟨rfl, hagain⟩ := hpass
      rw [readnbytes]
      split
      · rename_i hfive
        rw [if_pos hfive] at hagain
        rw [hend hagain.symm]
        rfl
      · rename_i hfew
        rw [if_neg hfew, decide_eq_true hmissing] at hagain
        exact (hrest hagain.symm).2
  | .bytes (b :: data) =>
      intro hpass hdata
      simp only [NbytesLoop.pass, Prod.mk.injEq] at hpass
      obtain ⟨rfl, hagain⟩ := hpass
      rw [ReadResult.data] at hdata
      rw [readnbytes, if_neg (Nat.not_lt.mpr hdata)]
      by_cases hfull : n - s.len = (b :: data).length
      · have hlast : again = false := by
          rw [← hagain, decide_eq_false_iff_not]
          omega
        rw [if_pos hfull, hend hlast]
        simp [readData, ReadResult.data]
      · have hmore : again = true := by
          rw [← hagain, decide_eq_true_eq]
          omega
        have hloop := (hrest hmore).2
        rw [← Nat.sub_sub] at hloop
        rw [if_neg hfull, hloop]
        rfl

theorem NbytesLoop.len_lt_of_again
    {result : ReadResult}
    (hpass : s.pass n result = (s', true)) :
    s'.len < n := by
  match result with
  | .failed => exact absurd (congrArg Prod.snd hpass) (by simp [NbytesLoop.pass])
  | .bytes [] =>
      simp only [NbytesLoop.pass, Prod.mk.injEq] at hpass
      obtain ⟨rfl, hagain⟩ := hpass
      split at hagain
      · exact absurd hagain (by simp)
      · exact of_decide_eq_true hagain
  | .bytes (b :: data) =>
      simp only [NbytesLoop.pass, Prod.mk.injEq] at hpass
      obtain ⟨rfl, hagain⟩ := hpass
      exact of_decide_eq_true hagain

theorem NbytesLoop.readnbytes_run
    (hmissing : s.len < n) :
    ∃ more, (s.run n results).got = s.got ++ more ∧
      readnbytes (n - s.len) s.trials more = (readData more, []) := by
  induction s using NbytesLoop.run.induct n results with
  | case1 s s' hpass ih =>
      have hmissing' := NbytesLoop.len_lt_of_again hpass
      obtain ⟨more, hgot, hmore⟩ := ih hmissing'
      refine ⟨s.next n results :: more, ?_, ?_⟩
      · rw [NbytesLoop.run_of_again hpass, hgot, (NbytesLoop.pass_eq hpass).2.2,
          List.append_assoc, List.singleton_append]
      · exact NbytesLoop.readnbytes_pass hmissing hpass (by simp) fun _ => ⟨hmissing', hmore⟩
  | case2 s s' hpass =>
      refine ⟨[s.next n results], ?_, ?_⟩
      · rw [NbytesLoop.run_of_end hpass, (NbytesLoop.pass_eq hpass).2.2]
      · exact NbytesLoop.readnbytes_pass hmissing hpass (fun _ => rfl) (by simp)

/-- The loop over a list of results delivers the same bytes, if the list is that of the results
of the reads. -/
theorem readnbytesInto_eq
    (results : Nat → ReadResult)
    (buf : Bytes)
    (hn : 0 < n) :
    readnbytes n 0 (readnbytesInto n results buf).got =
      ((readnbytesInto n results buf).buf.read 0 (readnbytesInto n results buf).len, []) := by
  obtain ⟨more, hgot, hmore⟩ : ∃ more, (NbytesLoop.run n results ⟨buf, 0, 0, []⟩).got = [] ++ more ∧
      readnbytes n 0 more = (readData more, []) :=
    NbytesLoop.readnbytes_run hn
  have hreturned : (readnbytesInto n results buf).Returned n results buf :=
    (start_nbytesInv n results buf).run
  rw [hreturned.filled]
  rw [List.nil_append] at hgot
  rw [readnbytesInto, hgot]
  exact hmore

end Readnbytes

end Scaled
end MatrixBin
