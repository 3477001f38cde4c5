import MatrixBin.Scaled.LduLoop

/-!
# Reading lines from the port (`ldu_loop.c` on top of `locbuf.c`)

When bytes are announced by FIONREAD, the thread calls `get_fromfd` as long as it
returns bytes, and after each call `next_by_sym` with CR until that returns NULL.
Bytes arrive at the port at any time, and a read delivers any part of what was asked.

A step of the reader moves bytes from the port to the buffer, or hands out one line
(`readerStep_moves`).  So the lines handed out are those of the bytes consumed, and the
thread distributes the texts that `ThreadState.nextByte` distributes.
-/

namespace MatrixBin
namespace Scaled

open Library

/-- The two loops: waiting for `pselect`, at the call of `get_fromfd`, at that of
`next_by_sym`. -/
inductive ReaderPhase
  | waiting
  | reading
  | parsing
deriving DecidableEq

/-- The thread with its port; `consumed` is what it has read, `messages` the lines that
`next_by_sym` returned, with their sizes. -/
structure LduReader where
  phase : ReaderPhase
  lb : Locbuf
  sysBufBytes : ℤ
  port : List UInt8
  consumed : List UInt8
  messages : List (List UInt8 × ℤ)
  distributed : List (List UInt8)

def LduReader.initial : LduReader := ⟨.waiting, initLocbuf, 0, [], [], [], []⟩

inductive ReaderAct
  | arrive (bytes : List UInt8)
  | fionread (n : ℤ)
  | getFromfd (n : Nat)
  | nextBySym (packetLength : Nat)

/-- `next_by_sym` and the body of its loop: a line that is not too short is terminated
and distributed. -/
def LduReader.parse (r : LduReader) (packetLength : Nat) : Option LduReader :=
  (r.lb.nextBySym 0x0d).bind fun (found, lb) =>
    match found with
    | none => some { r with phase := .reading, lb := lb }
    | some (wtmsg, m) =>
        (load locbufSize lb.spc wtmsg.toNat m.toNat).bind fun line =>
          if m < packetLength then
            some { r with lb := lb, messages := r.messages ++ [(line, m)] }
          else
            (store locbufSize lb.spc (wtmsg + m - 1).toNat [0]).map fun spc =>
              { r with
                lb := { lb with spc := spc }
                messages := r.messages ++ [(line, m)]
                distributed := r.distributed ++ [line.dropLast] }

/-- `get_fromfd`, where the read delivers the next `n` bytes of the port. -/
def LduReader.readPort (r : LduReader) (n : Nat) : Option LduReader :=
  (r.lb.getFromfd r.sysBufBytes (.bytes (r.port.take n))).map fun (result, lb) =>
    if 0 < result then
      { r with
        phase := .parsing
        lb := lb
        sysBufBytes := r.sysBufBytes - result
        port := r.port.drop n
        consumed := r.consumed ++ r.port.take n }
    else { r with phase := .waiting, lb := lb }

def readerStep (r : LduReader) : ReaderAct → Option LduReader
  | .arrive bytes => some { r with port := r.port ++ bytes }
  | .fionread n =>
      if r.phase = .waiting then
        if n ≤ 0 then some r else some { r with phase := .reading, sysBufBytes := n }
      else none
  | .getFromfd n =>
      if r.phase = .reading ∧
          (r.lb.request r.sysBufBytes = none ∨ 0 < n ∧ n ≤ r.port.length) then
        r.readPort n
      else none
  | .nextBySym packetLength =>
      if r.phase = .parsing then r.parse packetLength else none

/-- The bytes that arrive in a run. -/
def arrivals (acts : List ReaderAct) : List UInt8 :=
  acts.flatMap fun
    | .arrive bytes => bytes
    | _ => []

/-! ### One step -/

/-- What a step does with the bytes in the buffer, before and after. -/
inductive ReaderMove (r r' : LduReader) (data : List UInt8) : List UInt8 → ReaderAct → Prop
  | arrive (bytes : List UInt8) :
      r' = { r with port := r.port ++ bytes } →
      ReaderMove r r' data data (.arrive bytes)
  | skip {phase : ReaderPhase} {n : ℤ} {a : ReaderAct} :
      r.phase ≠ .parsing →
      phase ≠ .parsing →
      r' = { r with phase := phase, sysBufBytes := n } →
      arrivals [a] = [] →
      ReaderMove r r' data data a
  | read {n : Nat} {lb : Locbuf} {left : ℤ} :
      r.phase = .reading →
      0 < n ∧ n ≤ r.port.length →
      lb.head = 0 →
      r' = { r with
        phase := .parsing
        lb := lb
        sysBufBytes := left
        port := r.port.drop n
        consumed := r.consumed ++ r.port.take n } →
      ReaderMove r r' data (data ++ r.port.take n) (.getFromfd n)
  | drained {lb : Locbuf} {packetLength : Nat} :
      r.phase = .parsing →
      0x0d ∉ data →
      lb.head = 0 →
      r' = { r with phase := .reading, lb := lb } →
      ReaderMove r r' data data (.nextBySym packetLength)
  | line {body rest : List UInt8} {lb : Locbuf} {packetLength : Nat} :
      r.phase = .parsing →
      data = body ++ 0x0d :: rest →
      0x0d ∉ body →
      (rest = [] → lb.head = 0) →
      r' = { r with
        lb := lb
        messages := r.messages ++ [(body ++ [0x0d], (body.length : ℤ) + 1)]
        distributed := r.distributed ++ if body.length + 1 < packetLength then [] else [body] } →
      ReaderMove r r' data rest (.nextBySym packetLength)

section OneStep

variable {r r' : LduReader} {data : List UInt8}

/-- Outside the inner loop the bytes are an unfinished line at `spc`. -/
structure LduReader.Holding (r : LduReader) (data : List UInt8) : Prop where
  has : r.lb.Has data
  empty : data = [] → r.lb.head = 0
  at_spc : r.phase ≠ .parsing → r.lb.head = 0
  unfinished : r.phase ≠ .parsing → 0x0d ∉ data

theorem LduReader.Holding.parse_line
    (h : r.Holding data)
    (hphase : r.phase = .parsing)
    (packetLength : Nat)
    {body rest : List UInt8}
    (hdata : data = body ++ 0x0d :: rest)
    (hbody : 0x0d ∉ body) :
    ∃ r', r.parse packetLength = some r' ∧ r'.Holding rest ∧
      ReaderMove r r' data rest (.nextBySym packetLength) := by
  subst hdata
  obtain ⟨lb, hnext, hhas, hline, hle, hspc, hreset, hhead⟩ := h.has.nextBySym_line hbody
  have hnonneg := h.has.head_nonneg
  have hm : ((body.length : ℤ) + 1).toNat = (body ++ [(0x0d : UInt8)]).length := by
    simp only [List.length_append, List.length_singleton]
    omega
  have hload : load locbufSize lb.spc r.lb.head.toNat ((body.length : ℤ) + 1).toNat =
      some (body ++ [0x0d]) := by
    rw [hspc, hm]
    refine load_eq hline ?_
    simp only [List.length_append, List.length_singleton]
    omega
  rw [LduReader.parse, hnext, Option.bind_some]
  simp only [hload, Option.bind_some]
  by_cases hshort : ((body.length : ℤ) + 1) < packetLength
  · rw [if_pos hshort]
    refine ⟨_, rfl, ⟨hhas, hreset, fun hne => absurd hphase hne, fun hne => absurd hphase hne⟩, ?_⟩
    refine .line hphase rfl hbody hreset ?_
    rw [if_pos (by omega), List.append_nil]
  · obtain ⟨spc, hstore⟩ : ∃ spc, store locbufSize lb.spc
        (r.lb.head + ((body.length : ℤ) + 1) - 1).toNat [0] = some spc :=
      ⟨_, store_eq (by simp only [List.length_singleton]; omega)⟩
    have hwritten : ({ lb with spc := spc } : Locbuf).Has rest := by
      rw [store_eq (by simp only [List.length_singleton]; omega)] at hstore
      obtain rfl := Option.some.inj hstore
      refine hhas.write_before ?_
      by_cases hrest : rest = []
      · exact Or.inl hrest
      · refine Or.inr ?_
        rw [hhead hrest, List.length_singleton]
        omega
    rw [if_neg hshort, hstore, Option.map_some]
    refine ⟨_, rfl, ⟨hwritten, hreset, fun hne => absurd hphase hne,
      fun hne => absurd hphase hne⟩, ?_⟩
    refine @ReaderMove.line _ _ _ _ _ { lb with spc := spc } _ hphase rfl hbody hreset ?_
    rw [if_neg (by omega), List.dropLast_concat]

theorem LduReader.Holding.parse
    (h : r.Holding data)
    (hphase : r.phase = .parsing)
    (packetLength : Nat) :
    ∃ r' data', r.parse packetLength = some r' ∧ r'.Holding data' ∧
      ReaderMove r r' data data' (.nextBySym packetLength) := by
  by_cases hsym : 0x0d ∈ data
  · obtain ⟨body, rest, hdata, hbody⟩ := List.eq_append_cons_of_mem hsym
    obtain ⟨r', hparse, hholding, hmove⟩ := h.parse_line hphase packetLength hdata hbody
    exact ⟨r', rest, hparse, hholding, hmove⟩
  · obtain ⟨lb, hnext, hhas, hhead⟩ := h.has.nextBySym_none hsym h.empty
    refine ⟨{ r with phase := .reading, lb := lb }, data, ?_, ?_, ?_⟩
    · rw [LduReader.parse, hnext]
      rfl
    · exact ⟨hhas, fun _ => hhead, fun _ => hhead, fun _ => hsym⟩
    · exact .drained hphase hsym hhead rfl

theorem LduReader.Holding.readPort
    (h : r.Holding data)
    (hphase : r.phase = .reading)
    {n : Nat}
    (hn : 0 < n ∧ n ≤ r.port.length)
    (hroom : data.length + n ≤ locbufSize)
    (hbytes : (n : ℤ) ≤ r.sysBufBytes) :
    ∃ lb, lb.Has (data ++ r.port.take n) ∧ lb.head = 0 ∧ r.readPort n = some { r with
      phase := .parsing
      lb := lb
      sysBufBytes := r.sysBufBytes - n
      port := r.port.drop n
      consumed := r.consumed ++ r.port.take n } := by
  have hnot : r.phase ≠ .parsing := by
    rw [hphase]
    exact ReaderPhase.noConfusion
  have hlen : (r.port.take n).length = n := by
    rw [List.length_take, min_eq_left hn.2]
  obtain ⟨lb, happend, hhas, hhead⟩ := h.has.append (h.at_spc hnot)
    (show data.length + (r.port.take n).length ≤ locbufSize by rw [hlen]; exact hroom)
  have hrequest : r.lb.request r.sysBufBytes =
      some (min (locbufSize - data.length) r.sysBufBytes.toNat) := by
    rw [h.has.request_eq, if_pos (by omega)]
  have hget : r.lb.getFromfd r.sysBufBytes (.bytes (r.port.take n)) = some ((n : ℤ), lb) := by
    simp only [Locbuf.getFromfd, hrequest]
    rw [if_pos (by rw [hlen]; omega), happend, Option.map_some, hlen]
  have hpos : (0 : ℤ) < n := by omega
  refine ⟨lb, hhas, hhead, ?_⟩
  rw [LduReader.readPort, hget, Option.map_some]
  simp only [if_pos hpos]

/-- **One step.** -/
theorem readerStep_moves
    {a : ReaderAct}
    (h : r.Holding data)
    (hstep : readerStep r a = some r') :
    ∃ data', r'.Holding data' ∧ ReaderMove r r' data data' a := by
  cases a with
  | arrive bytes =>
      obtain rfl := Option.some.inj hstep
      exact ⟨data, ⟨h.has, h.empty, h.at_spc, h.unfinished⟩, .arrive bytes rfl⟩
  | fionread n =>
      rw [readerStep] at hstep
      split at hstep
      · rename_i hphase
        have hnot : r.phase ≠ .parsing := by
          rw [hphase]
          exact ReaderPhase.noConfusion
        split at hstep
        · obtain rfl := Option.some.inj hstep
          exact ⟨data, h, .skip hnot hnot rfl rfl⟩
        · obtain rfl := Option.some.inj hstep
          exact ⟨data, ⟨h.has, h.empty, fun _ => h.at_spc hnot, fun _ => h.unfinished hnot⟩,
            .skip hnot ReaderPhase.noConfusion rfl rfl⟩
      · cases hstep
  | getFromfd n =>
      rw [readerStep] at hstep
      split at hstep
      · rename_i hcond
        obtain ⟨hphase, hread⟩ := hcond
        have hnot : r.phase ≠ .parsing := by
          rw [hphase]
          exact ReaderPhase.noConfusion
        cases hrequest : r.lb.request r.sysBufBytes with
        | none =>
            simp only [LduReader.readPort, Locbuf.getFromfd, hrequest, Option.map_some,
              Int.reduceNeg, Int.reduceLT, if_false, Option.some.injEq] at hstep
            subst hstep
            exact ⟨data, ⟨h.has, h.empty, fun _ => h.at_spc hnot, fun _ => h.unfinished hnot⟩,
              .skip hnot ReaderPhase.noConfusion rfl rfl⟩
        | some len =>
            have hn := hread.resolve_left (by rw [hrequest]; exact Option.some_ne_none _)
            have hlen : (r.port.take n).length = n := by
              rw [List.length_take, min_eq_left hn.2]
            have hwithin : n ≤ len := by
              by_contra hcon
              simp only [LduReader.readPort, Locbuf.getFromfd, hrequest, hlen, hcon, if_false,
                Option.map_none] at hstep
              cases hstep
            rw [h.has.request_eq] at hrequest
            split at hrequest
            · rename_i hroom
              obtain rfl := Option.some.inj hrequest
              obtain ⟨lb, hhas, hhead, hr₁⟩ := h.readPort hphase hn (by omega) (by omega)
              obtain rfl := Option.some.inj (hr₁.symm.trans hstep)
              exact ⟨_, ⟨hhas, fun _ => hhead, fun hne => absurd rfl hne,
                fun hne => absurd rfl hne⟩, .read hphase hn hhead rfl⟩
            · cases hrequest
      · cases hstep
  | nextBySym packetLength =>
      rw [readerStep] at hstep
      split at hstep
      · rename_i hphase
        obtain ⟨r₁, data', hr₁, hholding, hmove⟩ := h.parse hphase packetLength
        obtain rfl := Option.some.inj (hr₁.symm.trans hstep)
        exact ⟨data', hholding, hmove⟩
      · cases hstep

end OneStep

/-! ### Whole runs -/

section Runs

variable {acts : List ReaderAct} {r r' : LduReader}

@[simp] theorem arrivals_append
    (acts acts' : List ReaderAct) :
    arrivals (acts ++ acts') = arrivals acts ++ arrivals acts' :=
  List.flatMap_append

/-- The lines of the bytes consumed are those handed out and those in the buffer. -/
structure LduReader.Splits (r : LduReader) (data : List UInt8) : Prop where
  holding : r.Holding data
  lines : splitLines 0x0d r.consumed =
    (r.messages.map Prod.fst ++ (splitLines 0x0d data).1, (splitLines 0x0d data).2)
  sizes : ∀ m ∈ r.messages, m.2 = (m.1.length : ℤ)

theorem LduReader.Splits.step
    {data : List UInt8}
    {a : ReaderAct}
    (h : r.Splits data)
    (hstep : readerStep r a = some r') :
    ∃ data', r'.Splits data' ∧ r'.consumed ++ r'.port = r.consumed ++ r.port ++ arrivals [a] := by
  obtain ⟨data', hholding, hmove⟩ := readerStep_moves h.holding hstep
  refine ⟨data', ?_⟩
  cases hmove with
  | arrive bytes hr =>
      subst hr
      refine ⟨⟨hholding, h.lines, h.sizes⟩, ?_⟩
      simp [arrivals]
  | skip _ _ hr hnone =>
      subst hr
      refine ⟨⟨hholding, h.lines, h.sizes⟩, ?_⟩
      rw [hnone, List.append_nil]
  | @read n _ _ hphase hn hhead hr =>
      subst hr
      have hnot : 0x0d ∉ data := by
        refine h.holding.unfinished ?_
        rw [hphase]
        exact ReaderPhase.noConfusion
      have hlines := h.lines
      rw [splitLines_of_not_mem hnot, List.append_nil] at hlines
      refine ⟨⟨hholding, ?_, h.sizes⟩, ?_⟩
      · rw [splitLines_append, hlines]
      · rw [List.append_assoc, List.take_append_drop]
        simp [arrivals]
  | drained _ _ _ hr =>
      subst hr
      exact ⟨⟨hholding, h.lines, h.sizes⟩, by simp [arrivals]⟩
  | line _ hdata hbody _ hr =>
      subst hr
      have hlines := h.lines
      rw [hdata, splitLines_line hbody] at hlines
      refine ⟨⟨hholding, ?_, ?_⟩, by simp [arrivals]⟩
      · simp [hlines]
      · intro m hm
        rcases List.mem_append.mp hm with hm | hm
        · exact h.sizes m hm
        · obtain rfl := List.mem_singleton.mp hm
          simp

/-- What holds after a run with the given steps. -/
def LduReader.After (acts : List ReaderAct) (r : LduReader) : Prop :=
  (∃ data, r.Splits data) ∧ r.consumed ++ r.port = arrivals acts

theorem LduReader.after_run
    (hrun : runSteps readerStep .initial acts = some r) :
    r.After acts := by
  refine runSteps_invariant ⟨⟨[], ?_⟩, rfl⟩ ?_ hrun
  · refine ⟨⟨initLocbuf_has, fun _ => rfl, fun _ => rfl, fun _ => List.not_mem_nil⟩, rfl, ?_⟩
    simp [LduReader.initial]
  · rintro past s a s' ⟨⟨data, hsplits⟩, hport⟩ hstep
    obtain ⟨data', hsplits', hport'⟩ := hsplits.step hstep
    refine ⟨⟨data', hsplits'⟩, ?_⟩
    rw [hport', hport, arrivals_append]

/-- The inner loop ends: a call of `next_by_sym` that returns a line takes it from the
buffer. -/
theorem LduReader.Holding.drain
    {data : List UInt8}
    (h : r.Holding data)
    (hphase : r.phase = .parsing)
    (packetLength : Nat) :
    ∃ calls r', runSteps readerStep r (List.replicate calls (.nextBySym packetLength)) =
      some r' ∧ r'.phase = .reading := by
  induction hlen : data.length using Nat.strong_induction_on generalizing r data with
  | _ len ih =>
      obtain ⟨r₁, data₁, hparse, hholding, hmove⟩ := h.parse hphase packetLength
      have hstep : readerStep r (.nextBySym packetLength) = some r₁ := by
        rw [readerStep, if_pos hphase, hparse]
      cases hmove with
      | skip hnot _ _ _ => exact absurd hphase hnot
      | drained _ _ _ hr => exact ⟨1, r₁, by simp [runSteps, hstep], by rw [hr]⟩
      | line _ hdata _ _ hr =>
          have hless : data₁.length < len := by
            rw [← hlen, hdata, List.length_append, List.length_cons]
            omega
          obtain ⟨calls, r', hrun, hend⟩ := ih _ hless hholding (by rw [hr]; exact hphase) rfl
          refine ⟨calls + 1, r', ?_, hend⟩
          rw [List.replicate_succ, runSteps, hstep]
          exact hrun

/-- Outside the inner loop the lines of all consumed bytes have been handed out. -/
theorem LduReader.Splits.drained
    {data : List UInt8}
    (h : r.Splits data)
    (hphase : r.phase ≠ .parsing) :
    r.messages = (splitLines 0x0d r.consumed).1.map (fun line => (line, (line.length : ℤ))) ∧
      data = (splitLines 0x0d r.consumed).2 := by
  have hlines := h.lines
  rw [splitLines_of_not_mem (h.holding.unfinished hphase), List.append_nil] at hlines
  rw [hlines]
  refine ⟨?_, rfl⟩
  rw [List.map_map]
  refine (List.map_id _).symm.trans (List.map_congr_left ?_)
  intro m hm
  exact Prod.ext rfl (h.sizes m hm)

/-- **Lines of the port.**  After each drain the lines handed out are those of the bytes
consumed, with their sizes, and the buffer holds the tail at `spc`.  Every drain ends,
and as long as bytes are left there is room for the next read. -/
theorem ldu_loop_reads_lines
    (hrun : runSteps readerStep .initial acts = some r)
    (hwithin : LinesWithin 0x0d locbufSize (arrivals acts)) :
    r.consumed ++ r.port = arrivals acts ∧
      (r.phase ≠ .parsing →
        r.messages =
          (splitLines 0x0d r.consumed).1.map (fun line => (line, (line.length : ℤ))) ∧
        r.lb.head = 0 ∧ r.lb.tail - r.lb.head = r.lb.count ∧
        r.lb.count = ((splitLines 0x0d r.consumed).2.length : ℤ) ∧
        r.lb.spc.Holds 0 (splitLines 0x0d r.consumed).2) ∧
      (r.phase = .parsing → ∀ packetLength, ∃ calls r',
        runSteps readerStep r (List.replicate calls (.nextBySym packetLength)) = some r' ∧
        r'.phase = .reading) ∧
      (r.phase = .reading → r.port ≠ [] → 0 < r.sysBufBytes →
        ∃ room, r.lb.request r.sysBufBytes = some room ∧ 0 < room ∧
          ∀ n, 0 < n → n ≤ room → n ≤ r.port.length →
            ∃ r', readerStep r (.getFromfd n) = some r' ∧
              r'.consumed = r.consumed ++ r.port.take n ∧ r'.port = r.port.drop n) := by
  obtain ⟨⟨data, hsplits⟩, hport⟩ := LduReader.after_run hrun
  have hholding := hsplits.holding
  refine ⟨hport, ?_, ?_, ?_⟩
  · intro hphase
    obtain ⟨hmessages, hdata⟩ := hsplits.drained hphase
    have hhead := hholding.at_spc hphase
    have hholds := hholding.has.holds
    rw [hhead, hdata] at hholds
    refine ⟨hmessages, hhead, ?_, ?_, hholds⟩
    · rw [hholding.has.tail_eq, hholding.has.count_eq]
      ring
    · rw [hholding.has.count_eq, hdata]
  · intro hphase packetLength
    exact hholding.drain hphase packetLength
  · intro hphase hleft hbytes
    have hnot : r.phase ≠ .parsing := by
      rw [hphase]
      exact ReaderPhase.noConfusion
    have hroom : data.length < locbufSize := by
      rw [(hsplits.drained hnot).2]
      rw [← hport] at hwithin
      exact hwithin.tail_lt hleft
    have hrequest := hholding.has.request_eq r.sysBufBytes
    rw [if_pos ⟨hroom, hbytes⟩] at hrequest
    refine ⟨_, hrequest, by omega, ?_⟩
    intro n hn hle hport'
    obtain ⟨lb, -, -, hread⟩ := hholding.readPort hphase ⟨hn, hport'⟩ (by omega) (by omega)
    have hstep : readerStep r (.getFromfd n) = r.readPort n := by
      rw [readerStep, if_pos ⟨hphase, Or.inr ⟨hn, hport'⟩⟩]
    exact ⟨_, hstep.trans hread, rfl, rfl⟩

/-- Two lines in three reads, the second of them cut twice. -/
def twoLinesInThreeReads : List ReaderAct :=
  [.arrive [0x41, 0x42, 0x0d, 0x43], .fionread 4, .getFromfd 4, .nextBySym 2, .nextBySym 2,
    .getFromfd 0, .arrive [0x44, 0x0d, 0x45], .fionread 1, .getFromfd 1, .nextBySym 2,
    .getFromfd 0, .fionread 2, .getFromfd 2, .nextBySym 2, .nextBySym 2]

theorem two_lines_in_three_reads :
    ∃ r, runSteps readerStep .initial twoLinesInThreeReads = some r ∧
      r.messages = [([0x41, 0x42, 0x0d], 3), ([0x43, 0x44, 0x0d], 3)] ∧
      r.lb.spc.Holds 0 [0x45] := by
  have hwithin : LinesWithin 0x0d locbufSize (arrivals twoLinesInThreeReads) := by
    unfold LinesWithin
    decide
  have hrun : runSteps readerStep .initial twoLinesInThreeReads = some _ := rfl
  obtain ⟨-, hlines, -⟩ := ldu_loop_reads_lines hrun hwithin
  obtain ⟨hmessages, -, -, -, hholds⟩ := hlines (by decide)
  exact ⟨_, hrun, hmessages, hholds⟩

end Runs

/-! ### The thread that takes one byte at a time -/

section Refinement

variable {r r' : LduReader} {data : List UInt8}

/-- The thread after some bytes, each taken with a value of `packet_length`. -/
def ThreadState.feed (s : ThreadState) (bytes : List (UInt8 × Nat)) : ThreadState :=
  bytes.foldl (fun s x => s.nextByte x.2 x.1) s

/-- The bytes of an unfinished line. -/
theorem ThreadState.feed_unfinished
    (s : ThreadState)
    {bytes : List UInt8}
    (hbytes : 0x0d ∉ bytes)
    (packetLength : Nat) :
    (s.feed (bytes.map fun b => (b, packetLength))).spc = s.spc ++ bytes ∧
      (s.feed (bytes.map fun b => (b, packetLength))).distributed = s.distributed := by
  induction bytes generalizing s with
  | nil => simp [ThreadState.feed]
  | cons b bytes ih =>
      rw [List.mem_cons, not_or] at hbytes
      obtain ⟨hspc, hdistributed⟩ := ih (s.nextByte packetLength b) hbytes.2
      rw [List.map_cons, ThreadState.feed, List.foldl_cons]
      refine ⟨hspc.trans ?_, hdistributed.trans ?_⟩
      · rw [ThreadState.nextByte_spc, if_neg (Ne.symm hbytes.1), List.append_assoc]
        rfl
      · rw [ThreadState.nextByte_distributed, if_neg (fun h => hbytes.1 h.1.symm),
          List.append_nil]

theorem ThreadState.feed_append
    (s : ThreadState)
    (a b : List (UInt8 × Nat)) :
    s.feed (a ++ b) = (s.feed a).feed b :=
  List.foldl_append

/-- The thread that has taken the bytes `fed`; the others lie in the buffer. -/
structure LduReader.FedAs (r : LduReader) (data : List UInt8) (s : ThreadState)
    (fed : List (UInt8 × Nat)) (pending : List UInt8) : Prop where
  holding : r.Holding data
  consumed : fed.map Prod.fst ++ pending = r.consumed
  buffer : (s.feed fed).spc ++ pending = data
  unfinished : 0x0d ∉ (s.feed fed).spc
  distributed : (s.feed fed).distributed = r.distributed
  drained : r.phase ≠ .parsing → pending = []

/-- A step of the reader is a number of steps of the thread. -/
theorem LduReader.FedAs.step
    {s : ThreadState}
    {fed : List (UInt8 × Nat)}
    {pending : List UInt8}
    {a : ReaderAct}
    (h : r.FedAs data s fed pending)
    (hstep : readerStep r a = some r') :
    ∃ data' fed' pending', r'.FedAs data' s fed' pending' := by
  obtain ⟨data', hholding, hmove⟩ := readerStep_moves h.holding hstep
  refine ⟨data', ?_⟩
  cases hmove with
  | arrive bytes hr =>
      subst hr
      exact ⟨fed, pending, hholding, h.consumed, h.buffer, h.unfinished, h.distributed, h.drained⟩
  | skip hnot _ hr _ =>
      subst hr
      exact ⟨fed, pending, hholding, h.consumed, h.buffer, h.unfinished, h.distributed,
        fun _ => h.drained hnot⟩
  | @read n _ _ hphase hn hhead hr =>
      subst hr
      have hpending : pending = [] := by
        refine h.drained ?_
        rw [hphase]
        exact ReaderPhase.noConfusion
      have hconsumed := h.consumed
      have hbuffer := h.buffer
      rw [hpending, List.append_nil] at hconsumed hbuffer
      refine ⟨fed, r.port.take n, hholding, ?_, ?_, h.unfinished, h.distributed, ?_⟩
      · rw [hconsumed]
      · rw [hbuffer]
      · exact fun hne => absurd rfl hne
  | drained hphase hnot hhead hr =>
      subst hr
      have hpending : 0x0d ∉ pending := by
        rw [← h.buffer, List.mem_append, not_or] at hnot
        exact hnot.2
      obtain ⟨hspc, hdistributed⟩ := (s.feed fed).feed_unfinished hpending 0
      refine ⟨fed ++ pending.map fun b => (b, 0), [], hholding, ?_, ?_, ?_, ?_, fun _ => rfl⟩
      · rw [← h.consumed]
        simp [Function.comp_def]
      · rw [ThreadState.feed_append, hspc, List.append_nil, h.buffer]
      · rw [ThreadState.feed_append, hspc, h.buffer]
        exact hnot
      · rw [ThreadState.feed_append, hdistributed, h.distributed]
  | @line body _ _ packetLength hphase hdata hbody _ hr =>
      subst hr
      obtain ⟨more, hmore, hpending⟩ :
          ∃ more, body = (s.feed fed).spc ++ more ∧ pending = more ++ 0x0d :: data' := by
        have hbuffer := h.buffer
        rw [hdata, List.append_eq_append_iff] at hbuffer
        rcases hbuffer with ⟨more, hmore, hpending⟩ | ⟨more, hspc, hrest⟩
        · exact ⟨more, hmore, hpending⟩
        · cases more with
          | nil => exact ⟨[], by simpa using hspc.symm, by simpa using hrest.symm⟩
          | cons c more =>
              obtain rfl := (List.cons.inj hrest).1
              exact absurd (by rw [hspc]; simp) h.unfinished
      have hmore' : 0x0d ∉ more := by
        rw [hmore, List.mem_append, not_or] at hbody
        exact hbody.2
      obtain ⟨hspc, hdistributed⟩ := (s.feed fed).feed_unfinished hmore' packetLength
      set t := (s.feed fed).feed (more.map fun b => (b, packetLength)) with ht
      have hfed : s.feed (fed ++ (more ++ [0x0d]).map fun b => (b, packetLength)) =
          t.nextByte packetLength 0x0d := by
        rw [ThreadState.feed_append, List.map_append, ThreadState.feed_append, ← ht]
        rfl
      refine ⟨fed ++ (more ++ [0x0d]).map fun b => (b, packetLength), data', hholding, ?_, ?_, ?_,
        ?_, ?_⟩
      · rw [← h.consumed, hpending]
        simp [Function.comp_def]
      · rw [hfed, ThreadState.nextByte_spc, if_pos rfl, List.nil_append]
      · rw [hfed, ThreadState.nextByte_spc, if_pos rfl]
        exact List.not_mem_nil
      · rw [hfed, ThreadState.nextByte_distributed, hdistributed, hspc, h.distributed, ← hmore]
        by_cases hshort : body.length + 1 < packetLength
        · rw [if_neg (by omega), if_pos hshort]
        · rw [if_pos ⟨rfl, by omega⟩, if_neg hshort]
      · exact fun hne => absurd hphase hne

/-- The reader stands where the thread stands after some bytes. -/
def LduReader.IsFed (r : LduReader) : Prop :=
  ∃ data fed pending, r.FedAs data ⟨.running, [], []⟩ fed pending

/-- **The reader refines the thread.**  Outside the inner loop it has distributed what
the thread distributes that takes the consumed bytes one at a time, and its buffer holds
the bytes of that thread. -/
theorem reader_refines_thread
    {acts : List ReaderAct}
    (hrun : runSteps readerStep .initial acts = some r)
    (hphase : r.phase ≠ .parsing) :
    ∃ fed : List (UInt8 × Nat), fed.map Prod.fst = r.consumed ∧
      (ThreadState.feed ⟨.running, [], []⟩ fed).distributed = r.distributed ∧
      r.lb.Has (ThreadState.feed ⟨.running, [], []⟩ fed).spc := by
  have hfed : r.IsFed := by
    refine runSteps_keeps ?_ ?_ hrun
    · exact ⟨[], [], [], ⟨initLocbuf_has, fun _ => rfl, fun _ => rfl,
        fun _ => List.not_mem_nil⟩, rfl, rfl, List.not_mem_nil, rfl, fun _ => rfl⟩
    · rintro s a s' ⟨data, fed, pending, h⟩ hstep
      exact h.step hstep
  obtain ⟨data, fed, pending, h⟩ := hfed
  have hconsumed := h.consumed
  have hbuffer := h.buffer
  rw [h.drained hphase, List.append_nil] at hconsumed hbuffer
  exact ⟨fed, hconsumed, h.distributed, by rw [hbuffer]; exact h.holding.has⟩

end Refinement

end Scaled
end MatrixBin
