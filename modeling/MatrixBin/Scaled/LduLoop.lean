import MatrixBin.Library.TransitionRuns
import MatrixBin.Scaled.Locbuf
import MatrixBin.Scaled.ScaleTable

/-!
# The threads of the scales (`ldu_loop.c`, `ldu_raw.c`, the start in `scaled.c`)

`main` starts one thread for each scale.  A thread initializes its terminal, stores the
length of its frames in the global `packet_length`, and then reads its port: it collects
bytes up to CR and discards the lines shorter than `packet_length`; the others are
distributed.  The steps of the threads are interleaved in any order.

`distributes_as_alone_iff` says for which scales and orders of their start a scale
distributes what it distributes alone in the configuration, whatever it sends.
-/

namespace MatrixBin
namespace Scaled

open Library

inductive LduThread
  | lduLoop
  | lduRaw
deriving DecidableEq

inductive ScaleThread
  | ldu (t : LduThread)
  | dis2Loop
  | dis4Loop
deriving DecidableEq

/-- The thread that `main` starts, from the model's name and the data type.  (A terminal
without a model stops the daemon there.) -/
def threadOf (t : ScaleTerm) : Option ScaleThread :=
  t.model.bind fun m =>
    if [0x6c, 0x64, 0x75].isPrefixOf m.model then
      some (.ldu (if t.datatypeRaw then .lduRaw else .lduLoop))
    else if [0x64, 0x69, 0x73, 0x32].isPrefixOf m.model then some .dis2Loop
    else if [0x64, 0x69, 0x73, 0x34].isPrefixOf m.model then some .dis4Loop
    else none

def LduThread.frameLength : LduThread → Nat
  | .lduLoop => 18
  | .lduRaw => 9

/-- The value that a thread stores in `packet_length`. -/
def ScaleThread.packetLength : ScaleThread → Option Nat
  | .ldu t => some t.frameLength
  | .dis2Loop => some 16
  | .dis4Loop => none

inductive ThreadPhase
  | starting
  | running
  | ended
deriving DecidableEq

/-- A thread: the bytes in its local buffer, and the texts that were distributed. -/
structure ThreadState where
  phase : ThreadPhase
  spc : List UInt8
  distributed : List (List UInt8)
deriving DecidableEq

/-- The threads and the global `packet_length`. -/
structure Daemon where
  packetLength : Nat
  thread : Nat → ThreadState

def Daemon.setThread (d : Daemon) (i : Nat) (s : ThreadState) : Daemon :=
  { d with thread := Function.update d.thread i s }

/-- After `loadConfig`, which takes `packet_length` from the file. -/
def Daemon.initial (length : Nat) : Daemon := ⟨length, fun _ => ⟨.starting, [], []⟩⟩

/-- A byte of the port: `next_by_sym` looks for CR, and the line with it is compared
with `packet_length`. -/
def ThreadState.nextByte (s : ThreadState) (packetLength : Nat) (b : UInt8) : ThreadState :=
  let wtmsg := s.spc ++ [b]
  if b ≠ 0x0d then { s with spc := wtmsg }
  else if wtmsg.length < packetLength then { s with spc := [] }
  else { s with spc := [], distributed := s.distributed ++ [wtmsg.dropLast] }

/-- The thread of a scale whose port is open finishes its initialization with the result `m`,
or an LDU thread takes the next byte of its port. -/
inductive DaemonAct
  | init (i : Nat) (m : ℤ)
  | byte (i : Nat) (b : UInt8)

def daemonStep (scales : List ScaleSys) (d : Daemon) : DaemonAct → Option Daemon
  | .init i m =>
      (scales[i]?.bind fun s => threadOf s.terminal).bind fun t =>
        if (d.thread i).phase = .starting then
          if m < 0 then some (d.setThread i { d.thread i with phase := .ended })
          else
            some { d.setThread i { d.thread i with phase := .running } with
              packetLength := t.packetLength.getD d.packetLength }
        else none
  | .byte i b =>
      match scales[i]?.bind fun s => threadOf s.terminal with
      | some (.ldu _) =>
          if (d.thread i).phase = .running ∧ (d.thread i).spc.length < locbufSize then
            some (d.setThread i ((d.thread i).nextByte d.packetLength b))
          else none
      | _ => none

/-! ### What one scale sees of a run -/

/-- A line that a thread reads, with the value of `packet_length` at that time. -/
structure LineRead where
  wtmsg : List UInt8
  packetLength : Nat
deriving DecidableEq

/-- The line that the thread `i` completes in a step. -/
def lineRead (i : Nat) (d : Daemon) : DaemonAct → List LineRead
  | .init _ _ => []
  | .byte j b => if j = i ∧ b = 0x0d then [⟨(d.thread i).spc ++ [b], d.packetLength⟩] else []

/-- The lines that the thread `i` reads in a run. -/
def linesRead (scales : List ScaleSys) (i : Nat) : Daemon → List DaemonAct → List LineRead
  | _, [] => []
  | d, a :: rest =>
      match daemonStep scales d a with
      | none => []
      | some d' => lineRead i d a ++ linesRead scales i d' rest

/-- The steps of the thread `i`, in a configuration where it is the only one. -/
def ownStep (i : Nat) : DaemonAct → Option DaemonAct
  | .init j m => if j = i then some (.init 0 m) else none
  | .byte j b => if j = i then some (.byte 0 b) else none

def ownSteps (i : Nat) (acts : List DaemonAct) : List DaemonAct := acts.filterMap (ownStep i)

/-- The texts of the lines that are not shorter than the length. -/
def texts (keep : LineRead → Bool) (lines : List LineRead) : List (List UInt8) :=
  (lines.filter keep).map fun x => x.wtmsg.dropLast

/-- The filter of the code, and the one with the thread's own frame length. -/
def LineRead.kept (x : LineRead) : Bool := x.packetLength ≤ x.wtmsg.length

def LineRead.keptBy (length : Nat) (x : LineRead) : Bool := length ≤ x.wtmsg.length

@[simp] theorem LineRead.kept_iff
    (x : LineRead) :
    x.kept = true ↔ x.packetLength ≤ x.wtmsg.length :=
  decide_eq_true_iff

@[simp] theorem LineRead.keptBy_iff
    (length : Nat)
    (x : LineRead) :
    x.keptBy length = true ↔ length ≤ x.wtmsg.length :=
  decide_eq_true_iff

@[simp] theorem texts_append
    (keep : LineRead → Bool)
    (l l' : List LineRead) :
    texts keep (l ++ l') = texts keep l ++ texts keep l' := by
  simp [texts]

@[simp] theorem Daemon.setThread_self
    (d : Daemon)
    (i : Nat)
    (s : ThreadState) :
    (d.setThread i s).thread i = s := by
  simp [Daemon.setThread]

theorem Daemon.setThread_of_ne
    {i j : Nat}
    (h : j ≠ i)
    (d : Daemon)
    (s : ThreadState) :
    (d.setThread i s).thread j = d.thread j := by
  simp [Daemon.setThread, h]

theorem ThreadState.nextByte_phase
    (s : ThreadState)
    (packetLength : Nat)
    (b : UInt8) :
    (s.nextByte packetLength b).phase = s.phase := by
  simp only [ThreadState.nextByte]
  split
  · rfl
  · split <;> rfl

theorem ThreadState.nextByte_spc
    (s : ThreadState)
    (packetLength : Nat)
    (b : UInt8) :
    (s.nextByte packetLength b).spc = if b = 0x0d then [] else s.spc ++ [b] := by
  simp only [ThreadState.nextByte]
  by_cases hb : b = 0x0d
  · simp only [hb, ne_eq, not_true, if_false, if_true]
    split <;> rfl
  · simp [hb]

theorem ThreadState.nextByte_distributed
    (s : ThreadState)
    (packetLength : Nat)
    (b : UInt8) :
    (s.nextByte packetLength b).distributed = s.distributed ++
      if b = 0x0d ∧ packetLength ≤ s.spc.length + 1 then [s.spc] else [] := by
  simp only [ThreadState.nextByte, List.length_append, List.length_singleton,
    List.dropLast_concat]
  by_cases hb : b = 0x0d
  · by_cases hlen : s.spc.length + 1 < packetLength
    · simp [hb, hlen]
    · simp [hb, hlen, Nat.le_of_not_lt hlen]
  · simp [hb]

theorem texts_lineRead
    (keep : LineRead → Bool)
    (i : Nat)
    (d : Daemon)
    (b : UInt8) :
    texts keep (lineRead i d (.byte i b)) =
      if b = 0x0d ∧ keep ⟨(d.thread i).spc ++ [b], d.packetLength⟩ then [(d.thread i).spc]
      else [] := by
  by_cases hb : b = 0x0d
  · cases hkeep : keep ⟨(d.thread i).spc ++ [b], d.packetLength⟩ <;>
      simp [lineRead, texts, hb, hb ▸ hkeep]
  · simp [lineRead, texts, hb]

/-! ### One step -/

section OneStep

variable {scales : List ScaleSys} {i : Nat} {s : ScaleSys} {t : LduThread} {d d' e : Daemon}
variable {a : DaemonAct}

/-- The thread `i` of the daemon and the thread of the scale alone are at the same
point; while it runs, `packet_length` is the length of some thread's frames there, and
its own alone. -/
structure AtSamePoint (t : LduThread) (i : Nat) (d d' : Daemon) : Prop where
  phase_eq : (d'.thread 0).phase = (d.thread i).phase
  spc_eq : (d'.thread 0).spc = (d.thread i).spc
  own : (d.thread i).phase = .running → d'.packetLength = t.frameLength
  shared : (d.thread i).phase = .running → 9 ≤ d.packetLength ∧ d.packetLength ≤ 18

theorem packetLength_bounds
    (t : ScaleThread)
    {p : Nat}
    (h : 9 ≤ p ∧ p ≤ 18) :
    9 ≤ t.packetLength.getD p ∧ t.packetLength.getD p ≤ 18 := by
  cases t with
  | ldu t => cases t <;> simp [ScaleThread.packetLength, LduThread.frameLength]
  | dis2Loop => simp [ScaleThread.packetLength]
  | dis4Loop => exact h

/-- What a step does, and when it is possible. -/
theorem daemonStep_cases
    (h : daemonStep scales d a = some e) :
    (∃ j m u, a = .init j m ∧ (scales[j]?.bind fun s => threadOf s.terminal) = some u ∧
      (d.thread j).phase = .starting ∧
      ((m < 0 ∧ e = d.setThread j { d.thread j with phase := .ended }) ∨
        (¬ m < 0 ∧ e = { d.setThread j { d.thread j with phase := .running } with
          packetLength := u.packetLength.getD d.packetLength }))) ∨
    (∃ j b u, a = .byte j b ∧ (scales[j]?.bind fun s => threadOf s.terminal) = some (.ldu u) ∧
      (d.thread j).phase = .running ∧ (d.thread j).spc.length < locbufSize ∧
      e = d.setThread j ((d.thread j).nextByte d.packetLength b)) := by
  cases a with
  | init j m =>
      obtain ⟨u, hu, hstep⟩ := Option.bind_eq_some_iff.mp h
      split at hstep
      · rename_i hphase
        refine Or.inl ⟨j, m, u, rfl, hu, hphase, ?_⟩
        split at hstep
        · rename_i hm
          exact Or.inl ⟨hm, (Option.some.inj hstep).symm⟩
        · rename_i hm
          exact Or.inr ⟨hm, (Option.some.inj hstep).symm⟩
      · simp at hstep
  | byte j b =>
      simp only [daemonStep] at h
      split at h
      · rename_i u hu
        split at h
        · rename_i hready
          exact Or.inr ⟨j, b, u, rfl, hu, hready.1, hready.2, (Option.some.inj h).symm⟩
        · simp at h
      · simp at h

/-- A step of another thread changes nothing but the shared variable. -/
theorem daemonStep_other
    (hstep : daemonStep scales d a = some e)
    (hother : ownStep i a = none) :
    e.thread i = d.thread i ∧ lineRead i d a = [] ∧
      ∃ u : ScaleThread, e.packetLength = u.packetLength.getD d.packetLength := by
  rcases daemonStep_cases hstep with ⟨j, m, u, rfl, -, -, hcase⟩ | ⟨j, b, u, rfl, -, -, -, rfl⟩
  · have hij : i ≠ j := by
      rintro rfl
      simp [ownStep] at hother
    rcases hcase with ⟨-, rfl⟩ | ⟨-, rfl⟩
    · exact ⟨Daemon.setThread_of_ne hij _ _, rfl, .dis4Loop, rfl⟩
    · exact ⟨Daemon.setThread_of_ne hij _ _, rfl, u, rfl⟩
  · have hij : i ≠ j := by
      rintro rfl
      simp [ownStep] at hother
    exact ⟨Daemon.setThread_of_ne hij _ _, by simp [lineRead, hij.symm], .dis4Loop, rfl⟩

theorem AtSamePoint.other
    (h : AtSamePoint t i d d')
    (hstep : daemonStep scales d a = some e)
    (hother : ownStep i a = none) :
    AtSamePoint t i e d' := by
  obtain ⟨hthread, -, u, hlength⟩ := daemonStep_other hstep hother
  refine ⟨?_, ?_, ?_, ?_⟩
  · rw [hthread, h.phase_eq]
  · rw [hthread, h.spc_eq]
  · rw [hthread]
    exact h.own
  · rw [hthread, hlength]
    exact fun hrunning => packetLength_bounds u (h.shared hrunning)

theorem AtSamePoint.init
    {m : ℤ}
    (hscale : scales[i]? = some s)
    (hthread : threadOf s.terminal = some (.ldu t))
    (h : AtSamePoint t i d d')
    (hstep : daemonStep scales d (.init i m) = some e) :
    ∃ e', daemonStep [s] d' (.init 0 m) = some e' ∧ AtSamePoint t i e e' ∧
      (e.thread i).distributed = (d.thread i).distributed ∧
      (e'.thread 0).distributed = (d'.thread 0).distributed := by
  have halone : ([s][0]?.bind fun s => threadOf s.terminal) = some (.ldu t) := hthread
  rcases daemonStep_cases hstep with ⟨j, m', u, hact, hu, hphase, hcase⟩ | ⟨j, b, u, hact, -⟩
  · obtain ⟨rfl, rfl⟩ := DaemonAct.init.inj hact
    obtain rfl : ScaleThread.ldu t = u := by
      rw [hscale, Option.bind_some, hthread] at hu
      exact Option.some.inj hu
    have hphase' : (d'.thread 0).phase = .starting := h.phase_eq.trans hphase
    rcases hcase with ⟨hm, rfl⟩ | ⟨hm, rfl⟩
    · refine ⟨d'.setThread 0 { d'.thread 0 with phase := .ended }, ?_, ⟨?_, ?_, ?_, ?_⟩, ?_⟩
      · simp only [daemonStep, halone, Option.bind_some, hphase', hm, if_true]
      · simp
      · simp [h.spc_eq]
      · simp
      · simp
      · simp
    · refine ⟨{ d'.setThread 0 { d'.thread 0 with phase := .running } with
        packetLength := t.frameLength }, ?_, ⟨?_, ?_, ?_, ?_⟩, ?_, ?_⟩
      · simp only [daemonStep, halone, Option.bind_some, hphase', hm, if_true, if_false]
        rfl
      · simp [Daemon.setThread]
      · simp [Daemon.setThread, h.spc_eq]
      · exact fun _ => rfl
      · intro _
        cases t <;> simp [ScaleThread.packetLength, LduThread.frameLength]
      · simp [Daemon.setThread]
      · simp [Daemon.setThread]
  · cases hact

/-- Each of the two filters the line, if one is completed, with its own length. -/
theorem AtSamePoint.byte
    {b : UInt8}
    (hthread : threadOf s.terminal = some (.ldu t))
    (h : AtSamePoint t i d d')
    (hstep : daemonStep scales d (.byte i b) = some e) :
    ∃ e', daemonStep [s] d' (.byte 0 b) = some e' ∧ AtSamePoint t i e e' ∧
      (e.thread i).distributed =
        (d.thread i).distributed ++ texts LineRead.kept (lineRead i d (.byte i b)) ∧
      (e'.thread 0).distributed = (d'.thread 0).distributed ++
        texts (LineRead.keptBy t.frameLength) (lineRead i d (.byte i b)) ∧
      ∀ x ∈ lineRead i d (.byte i b), 9 ≤ x.packetLength ∧ x.packetLength ≤ 18 := by
  have halone : ([s][0]?.bind fun s => threadOf s.terminal) = some (.ldu t) := hthread
  rcases daemonStep_cases hstep with ⟨j, m, u, hact, -⟩ | ⟨j, b', u, hact, -, hphase, hroom, rfl⟩
  · cases hact
  · obtain ⟨rfl, rfl⟩ := DaemonAct.byte.inj hact
    have hready : (d'.thread 0).phase = .running ∧ (d'.thread 0).spc.length < locbufSize := by
      rw [h.phase_eq, h.spc_eq]
      exact ⟨hphase, hroom⟩
    have hown := h.own hphase
    refine ⟨d'.setThread 0 ((d'.thread 0).nextByte d'.packetLength b), ?_, ⟨?_, ?_, ?_, ?_⟩,
      ?_, ?_, ?_⟩
    · simp only [daemonStep, halone, if_pos hready]
    · simp only [Daemon.setThread_self, ThreadState.nextByte_phase, h.phase_eq]
    · simp only [Daemon.setThread_self, ThreadState.nextByte_spc, h.spc_eq]
    · exact fun _ => hown
    · exact fun _ => h.shared hphase
    · rw [Daemon.setThread_self, ThreadState.nextByte_distributed, texts_lineRead]
      simp
    · rw [Daemon.setThread_self, ThreadState.nextByte_distributed, texts_lineRead, hown, h.spc_eq]
      simp
    · intro x hx
      rw [lineRead] at hx
      split at hx
      · obtain rfl := List.mem_singleton.mp hx
        exact h.shared hphase
      · simp at hx

theorem AtSamePoint.own_step
    {a' : DaemonAct}
    (hscale : scales[i]? = some s)
    (hthread : threadOf s.terminal = some (.ldu t))
    (h : AtSamePoint t i d d')
    (hstep : daemonStep scales d a = some e)
    (hown : ownStep i a = some a') :
    ∃ e', daemonStep [s] d' a' = some e' ∧ AtSamePoint t i e e' ∧
      (e.thread i).distributed =
        (d.thread i).distributed ++ texts LineRead.kept (lineRead i d a) ∧
      (e'.thread 0).distributed = (d'.thread 0).distributed ++
        texts (LineRead.keptBy t.frameLength) (lineRead i d a) ∧
      ∀ x ∈ lineRead i d a, 9 ≤ x.packetLength ∧ x.packetLength ≤ 18 := by
  cases a with
  | init j m =>
      obtain ⟨rfl, rfl⟩ : j = i ∧ DaemonAct.init 0 m = a' := by
        simpa [ownStep] using hown
      obtain ⟨e', hstep', hpoint, hshared, halone⟩ := h.init hscale hthread hstep
      refine ⟨e', hstep', hpoint, ?_, ?_, by simp [lineRead]⟩
      · simpa [lineRead, texts] using hshared
      · simpa [lineRead, texts] using halone
  | byte j b =>
      obtain ⟨rfl, rfl⟩ : j = i ∧ DaemonAct.byte 0 b = a' := by
        simpa [ownStep] using hown
      exact h.byte hthread hstep

end OneStep

/-! ### Whole runs -/

/-- The scale alone takes the same steps; what the two distribute are the lines that
pass the one filter and the other. -/
theorem AtSamePoint.run
    {scales : List ScaleSys}
    {i : Nat}
    {s : ScaleSys}
    {t : LduThread}
    {d d' e : Daemon}
    {acts : List DaemonAct}
    (hscale : scales[i]? = some s)
    (hthread : threadOf s.terminal = some (.ldu t))
    (h : AtSamePoint t i d d')
    (hrun : runSteps (daemonStep scales) d acts = some e) :
    ∃ e', runSteps (daemonStep [s]) d' (ownSteps i acts) = some e' ∧
      (e.thread i).distributed =
        (d.thread i).distributed ++ texts LineRead.kept (linesRead scales i d acts) ∧
      (e'.thread 0).distributed = (d'.thread 0).distributed ++
        texts (LineRead.keptBy t.frameLength) (linesRead scales i d acts) ∧
      ∀ x ∈ linesRead scales i d acts, 9 ≤ x.packetLength ∧ x.packetLength ≤ 18 := by
  induction acts generalizing d d' with
  | nil =>
      obtain rfl := Option.some.inj hrun
      exact ⟨d', rfl, by simp [linesRead, texts], by simp [linesRead, texts], by simp [linesRead]⟩
  | cons a rest ih =>
      rw [runSteps] at hrun
      cases hstep : daemonStep scales d a with
      | none => simp [hstep] at hrun
      | some d₁ =>
          rw [hstep] at hrun
          have hlines : linesRead scales i d (a :: rest) =
              lineRead i d a ++ linesRead scales i d₁ rest := by
            rw [linesRead, hstep]
          cases hown : ownStep i a with
          | none =>
              obtain ⟨hframe, hline, -⟩ := daemonStep_other hstep hown
              obtain ⟨e', hrun', hshared, halone, hbounds⟩ := ih (h.other hstep hown) hrun
              rw [hframe] at hshared
              refine ⟨e', ?_, ?_⟩
              · rw [ownSteps, List.filterMap_cons_none hown]
                exact hrun'
              · rw [hlines, hline, List.nil_append]
                exact ⟨hshared, halone, hbounds⟩
          | some a' =>
              obtain ⟨d₁', hstep', hpoint, hshared₁, halone₁, hbounds₁⟩ :=
                h.own_step hscale hthread hstep hown
              obtain ⟨e', hrun', hshared, halone, hbounds⟩ := ih hpoint hrun
              refine ⟨e', ?_, ?_, ?_, ?_⟩
              · rw [ownSteps, List.filterMap_cons_some hown, runSteps, hstep']
                exact hrun'
              · rw [hshared, hshared₁, hlines, texts_append, List.append_assoc]
              · rw [halone, halone₁, hlines, texts_append, List.append_assoc]
              · rw [hlines]
                intro x hx
                rcases List.mem_append.mp hx with hx | hx
                · exact hbounds₁ x hx
                · exact hbounds x hx

/-- Two filters, one of which keeps less, keep the same number only if they agree. -/
theorem countP_eq_iff
    {keep keep' : LineRead → Bool}
    {lines : List LineRead}
    (hless : ∀ x ∈ lines, keep x = true → keep' x = true) :
    lines.countP keep = lines.countP keep' ↔ ∀ x ∈ lines, keep x = keep' x := by
  induction lines with
  | nil => simp
  | cons x rest ih =>
      have hrest : ∀ y ∈ rest, keep y = true → keep' y = true :=
        fun y hy => hless y (List.mem_cons_of_mem x hy)
      have hle : rest.countP keep ≤ rest.countP keep' := List.countP_mono_left hrest
      have hx := hless x List.mem_cons_self
      rw [List.forall_mem_cons, ← ih hrest, List.countP_cons, List.countP_cons]
      cases hkeep : keep x <;> cases hkeep' : keep' x
      · simp
      · simp only [Bool.false_eq_true, if_false, if_true, false_and, iff_false]
        omega
      · simp [hkeep, hkeep'] at hx
      · simp

theorem texts_eq_iff
    {keep keep' : LineRead → Bool}
    {lines : List LineRead}
    (hless : ∀ x ∈ lines, keep x = true → keep' x = true) :
    texts keep lines = texts keep' lines ↔ ∀ x ∈ lines, keep x = keep' x := by
  constructor
  · intro h
    have hcount := congrArg List.length h
    simp only [texts, List.length_map, ← List.countP_eq_length_filter] at hcount
    exact (countP_eq_iff hless).mp hcount
  · intro h
    rw [texts, texts, List.filter_congr h]

/-- No frame length is above that of `ldu_loop`, and none below that of `ldu_raw`. -/
theorem texts_kept_eq_iff
    {t : LduThread}
    {lines : List LineRead}
    (hbounds : ∀ x ∈ lines, 9 ≤ x.packetLength ∧ x.packetLength ≤ 18) :
    texts LineRead.kept lines = texts (LineRead.keptBy t.frameLength) lines ↔
      ∀ x ∈ lines, x.kept = x.keptBy t.frameLength := by
  cases t with
  | lduLoop =>
      rw [eq_comm, texts_eq_iff]
      · simp only [eq_comm]
      · intro x hx hkept
        have := (hbounds x hx).2
        rw [LineRead.keptBy_iff, LduThread.frameLength] at hkept
        rw [LineRead.kept_iff]
        omega
  | lduRaw =>
      refine texts_eq_iff ?_
      intro x hx hkept
      have := (hbounds x hx).1
      rw [LineRead.kept_iff] at hkept
      rw [LineRead.keptBy_iff, LduThread.frameLength]
      omega

theorem atSamePoint_initial
    (t : LduThread)
    (i length : Nat) :
    AtSamePoint t i (.initial length) (.initial length) where
  phase_eq := rfl
  spc_eq := rfl
  own := by simp [Daemon.initial]
  shared := by simp [Daemon.initial]

/-- What a scale distributes in a run is what it distributes alone exactly if its own length and
the shared one agree on every line that it reads. -/
theorem distributed_eq_alone_iff
    {length i : Nat}
    {scales : List ScaleSys}
    {s : ScaleSys}
    {t : LduThread}
    {acts : List DaemonAct}
    {d : Daemon}
    (hscale : scales[i]? = some s)
    (hthread : threadOf s.terminal = some (.ldu t))
    (hrun : runSteps (daemonStep scales) (.initial length) acts = some d) :
    (∃ d', runSteps (daemonStep [s]) (.initial length) (ownSteps i acts) = some d' ∧
      (d'.thread 0).distributed = (d.thread i).distributed) ↔
      ∀ x ∈ linesRead scales i (.initial length) acts, x.kept = x.keptBy t.frameLength := by
  obtain ⟨d', hrun', hshared, halone, hbounds⟩ :=
    (atSamePoint_initial t i length).run hscale hthread hrun
  rw [← texts_kept_eq_iff hbounds]
  constructor
  · rintro ⟨e', he', heq⟩
    obtain rfl : d' = e' := Option.some.inj (hrun'.symm.trans he')
    rw [halone, hshared] at heq
    exact heq.symm
  · intro heq
    refine ⟨d', hrun', ?_⟩
    rw [halone, hshared, heq]
    rfl

/-! ### The order of the start -/

/-- The initializations of a run, in their order: the scale and the result. -/
def startsOf : List DaemonAct → List (Nat × ℤ)
  | [] => []
  | .init i m :: rest => (i, m) :: startsOf rest
  | .byte _ _ :: rest => startsOf rest

/-- The value that an initialization stores in `packet_length`. -/
def storedLength (scales : List ScaleSys) (start : Nat × ℤ) : Option Nat :=
  if start.2 < 0 then none
  else (scales[start.1]?.bind fun s => threadOf s.terminal).bind ScaleThread.packetLength

/-- Behind a successful initialization of the scale `i`, no other length is stored. -/
def OwnLengthLast (scales : List ScaleSys) (t : LduThread) (i : Nat) :
    List (Nat × ℤ) → Prop
  | [] => True
  | (j, m) :: rest =>
      (j = i → 0 ≤ m → ∀ x ∈ rest, ∀ p ∈ storedLength scales x, p = t.frameLength) ∧
        OwnLengthLast scales t i rest

section StartOrder

variable {scales : List ScaleSys} {i : Nat} {s : ScaleSys} {t : LduThread} {d e : Daemon}

/-- What an initialization does to `packet_length`, and to its thread. -/
theorem daemonStep_init
    {j : Nat}
    {m : ℤ}
    (h : daemonStep scales d (.init j m) = some e) :
    (d.thread j).phase = .starting ∧
      e.packetLength = (storedLength scales (j, m)).getD d.packetLength ∧
      (e.thread j) = { d.thread j with phase := if m < 0 then .ended else .running } ∧
      ∀ k, k ≠ j → e.thread k = d.thread k := by
  rcases daemonStep_cases h with ⟨j', m', u, hact, hu, hphase, hcase⟩ | ⟨j', b, u, hact, -⟩
  · obtain ⟨rfl, rfl⟩ := DaemonAct.init.inj hact
    refine ⟨hphase, ?_⟩
    rcases hcase with ⟨hm, rfl⟩ | ⟨hm, rfl⟩
    · refine ⟨?_, ?_, fun k hk => Daemon.setThread_of_ne hk _ _⟩
      · simp [storedLength, hm, Daemon.setThread]
      · simp [hm]
    · refine ⟨?_, ?_, fun k hk => Daemon.setThread_of_ne hk _ _⟩
      · simp [storedLength, hm, hu]
      · simp [hm, Daemon.setThread]
  · cases hact

/-- Where the scale's own length was stored last, it reads every line with it. -/
theorem linesRead_own
    {order : List (Nat × ℤ)}
    {acts : List DaemonAct}
    (hscale : scales[i]? = some s)
    (hthread : threadOf s.terminal = some (.ldu t))
    (hstarting : (d.thread i).phase = .starting → OwnLengthLast scales t i order)
    (hrunning : (d.thread i).phase = .running → d.packetLength = t.frameLength ∧
      ∀ x ∈ order, ∀ p ∈ storedLength scales x, p = t.frameLength)
    (horder : startsOf acts <+: order) :
    ∀ x ∈ linesRead scales i d acts, x.packetLength = t.frameLength := by
  induction acts generalizing d order with
  | nil => simp [linesRead]
  | cons a rest ih =>
      rw [linesRead]
      cases hstep : daemonStep scales d a with
      | none => simp
      | some d' =>
          intro x hx
          rcases List.mem_append.mp hx with hline | hbehind
          · -- the line is completed while the thread runs
            cases a with
            | init j m => simp [lineRead] at hline
            | byte j b =>
                rw [lineRead] at hline
                split at hline
                · rename_i hown
                  obtain rfl := List.mem_singleton.mp hline
                  rcases daemonStep_cases hstep with ⟨_, _, _, hact, -⟩ | ⟨_, _, _, hact, -, hphase, -⟩
                  · cases hact
                  · obtain ⟨rfl, -⟩ := DaemonAct.byte.inj hact
                    rw [hown.1] at hphase
                    exact (hrunning hphase).1
                · cases hline
          · cases a with
            | byte j b =>
                have hsame : (d'.thread i).phase = (d.thread i).phase ∧
                    d'.packetLength = d.packetLength := by
                  rcases daemonStep_cases hstep with ⟨_, _, _, hact, -⟩ | ⟨k, _, _, hact, -, -, -, rfl⟩
                  · cases hact
                  · refine ⟨?_, rfl⟩
                    by_cases hk : i = k
                    · rw [hk, Daemon.setThread_self, ThreadState.nextByte_phase]
                    · rw [Daemon.setThread_of_ne hk]
                refine ih ?_ ?_ horder x hbehind
                · rw [hsame.1]
                  exact hstarting
                · rw [hsame.1, hsame.2]
                  exact hrunning
            | init j m =>
                obtain ⟨tail, hcons, hrest⟩ : ∃ tail, order = (j, m) :: tail ∧
                    startsOf rest <+: tail := by
                  obtain ⟨behind, heq⟩ := horder
                  exact ⟨startsOf rest ++ behind, heq.symm, List.prefix_append _ _⟩
                subst hcons
                obtain ⟨hphase, hlength, hself, hother⟩ := daemonStep_init hstep
                by_cases hj : i = j
                · subst hj
                  obtain ⟨hlast, -⟩ := hstarting hphase
                  refine ih ?_ ?_ hrest x hbehind
                  · rw [hself]
                    split_ifs <;> simp
                  · rw [hself]
                    intro hphase'
                    have hm : ¬ m < 0 := by
                      intro hm
                      simp [hm] at hphase'
                    have hown : storedLength scales (i, m) = some t.frameLength := by
                      simp [storedLength, hm, hscale, hthread, ScaleThread.packetLength]
                    refine ⟨by rw [hlength, hown]; rfl, hlast rfl (not_lt.mp hm)⟩
                · have hframe := hother i hj
                  refine ih ?_ ?_ hrest x hbehind
                  · rw [hframe]
                    exact fun hphase' => (hstarting hphase').2
                  · rw [hframe]
                    intro hphase'
                    obtain ⟨hown, hlater⟩ := hrunning hphase'
                    refine ⟨?_, fun y hy => hlater y (List.mem_cons_of_mem _ hy)⟩
                    rw [hlength]
                    cases hstored : storedLength scales (j, m) with
                    | none => exact hown
                    | some p => exact hlater (j, m) List.mem_cons_self p hstored

/-- A thread that runs is not touched by the initializations of the others. -/
theorem runSteps_starts
    {starts : List (Nat × ℤ)}
    (hphase : (d.thread i).phase = .running)
    (hrun : runSteps (daemonStep scales) d (starts.map fun x => .init x.1 x.2) = some e) :
    e.thread i = d.thread i := by
  induction starts generalizing d with
  | nil =>
      obtain rfl := Option.some.inj hrun
      rfl
  | cons x rest ih =>
      rw [List.map_cons, runSteps] at hrun
      cases hstep : daemonStep scales d (.init x.1 x.2) with
      | none => simp [hstep] at hrun
      | some d' =>
          rw [hstep] at hrun
          obtain ⟨hstarting, -, -, hother⟩ := daemonStep_init hstep
          have hne : i ≠ x.1 := by
            rintro rfl
            rw [hphase] at hstarting
            cases hstarting
          have hframe := hother i hne
          rw [ih (by rw [hframe]; exact hphase) hrun, hframe]

/-- Initializations read nothing. -/
theorem runSteps_starts_spc
    {starts : List (Nat × ℤ)}
    (hrun : runSteps (daemonStep scales) d (starts.map fun x => .init x.1 x.2) = some e) :
    (e.thread i).spc = (d.thread i).spc := by
  induction starts generalizing d with
  | nil =>
      obtain rfl := Option.some.inj hrun
      rfl
  | cons x rest ih =>
      rw [List.map_cons, runSteps] at hrun
      cases hstep : daemonStep scales d (.init x.1 x.2) with
      | none => simp [hstep] at hrun
      | some d' =>
          rw [hstep] at hrun
          obtain ⟨-, -, hself, hother⟩ := daemonStep_init hstep
          rw [ih hrun]
          by_cases hx : i = x.1
          · rw [hx, hself]
          · rw [hother i hx]

/-- Behind its own initialization and another one, a scale runs with the length of the other. -/
theorem runs_with_other_length
    {before between : List (Nat × ℤ)}
    {m : ℤ}
    {x : Nat × ℤ}
    {p : Nat}
    (hm : 0 ≤ m)
    (hx : storedLength scales x = some p)
    (hrun : runSteps (daemonStep scales) d
      ((before ++ (i, m) :: (between ++ [x])).map fun x => .init x.1 x.2) = some e) :
    (e.thread i).phase = .running ∧ (e.thread i).spc = (d.thread i).spc ∧ e.packetLength = p := by
  have hspc := runSteps_starts_spc (i := i) hrun
  have hsplit : (before ++ (i, m) :: (between ++ [x])).map (fun x => DaemonAct.init x.1 x.2) =
      before.map (fun x => .init x.1 x.2) ++ .init i m ::
        (between.map (fun x => .init x.1 x.2) ++ [.init x.1 x.2]) := by simp
  rw [hsplit, runSteps_append, Option.bind_eq_some_iff] at hrun
  obtain ⟨d₀, -, hrun⟩ := hrun
  rw [runSteps] at hrun
  cases hown : daemonStep scales d₀ (.init i m) with
  | none => simp [hown] at hrun
  | some d₁ =>
      rw [hown] at hrun
      simp only [runSteps_append_singleton, Option.bind_eq_some_iff] at hrun
      obtain ⟨d₂, hbetween, hlast⟩ := hrun
      obtain ⟨-, -, hself, -⟩ := daemonStep_init hown
      have hphase₁ : (d₁.thread i).phase = .running := by
        rw [hself, if_neg (not_lt.mpr hm)]
      have hthread₂ := runSteps_starts hphase₁ hbetween
      obtain ⟨hstarting, hlength, -, hother⟩ := daemonStep_init hlast
      have hne : i ≠ x.1 := by
        rintro rfl
        rw [hthread₂, hphase₁] at hstarting
        cases hstarting
      refine ⟨?_, hspc, ?_⟩
      · rw [hother i hne, hthread₂, hphase₁]
      · rw [hlength, hx, Option.getD_some]

theorem startsOf_starts
    (starts : List (Nat × ℤ)) :
    startsOf (starts.map fun x => .init x.1 x.2) = starts := by
  induction starts with
  | nil => rfl
  | cons x rest ih => rw [List.map_cons, startsOf, ih]

theorem startsOf_append
    (acts acts' : List DaemonAct) :
    startsOf (acts ++ acts') = startsOf acts ++ startsOf acts' := by
  induction acts with
  | nil => rfl
  | cons a rest ih =>
      cases a with
      | init j m => rw [List.cons_append, startsOf, startsOf, ih, List.cons_append]
      | byte j b => rw [List.cons_append, startsOf, startsOf, ih]

theorem startsOf_bytes
    (text : List UInt8) :
    startsOf (text.map (.byte i)) = [] := by
  induction text with
  | nil => rfl
  | cons b rest ih => rw [List.map_cons, startsOf, ih]

theorem linesRead_append
    {acts acts' : List DaemonAct}
    (hrun : runSteps (daemonStep scales) d acts = some e) :
    linesRead scales i d (acts ++ acts') =
      linesRead scales i d acts ++ linesRead scales i e acts' := by
  induction acts generalizing d with
  | nil =>
      obtain rfl := Option.some.inj hrun
      rfl
  | cons a rest ih =>
      rw [runSteps] at hrun
      rw [List.cons_append, linesRead, linesRead]
      cases hstep : daemonStep scales d a with
      | none => simp [hstep] at hrun
      | some d' =>
          rw [hstep] at hrun
          simp only [ih hrun, List.append_assoc]

/-- Any line that fits the buffer can come from the port of a running thread. -/
theorem reads_line
    {text : List UInt8}
    (hscale : scales[i]? = some s)
    (hthread : threadOf s.terminal = some (.ldu t))
    (hphase : (d.thread i).phase = .running)
    (htext : (0x0d : UInt8) ∉ text)
    (hroom : (d.thread i).spc.length + text.length < locbufSize) :
    ∃ d', runSteps (daemonStep scales) d ((text ++ [0x0d]).map (.byte i)) = some d' ∧
      ⟨(d.thread i).spc ++ (text ++ [0x0d]), d.packetLength⟩ ∈
        linesRead scales i d ((text ++ [0x0d]).map (.byte i)) := by
  have hthread' : (scales[i]?.bind fun s => threadOf s.terminal) = some (.ldu t) := by
    rw [hscale, Option.bind_some, hthread]
  induction text generalizing d with
  | nil =>
      have hready : (d.thread i).phase = .running ∧ (d.thread i).spc.length < locbufSize :=
        ⟨hphase, hroom⟩
      have hstep : daemonStep scales d (.byte i 0x0d) =
          some (d.setThread i ((d.thread i).nextByte d.packetLength 0x0d)) := by
        simp only [daemonStep, hthread', if_pos hready]
      refine ⟨_, by rw [List.nil_append, List.map_singleton, runSteps, hstep]; rfl, ?_⟩
      rw [List.nil_append, List.map_singleton, linesRead, hstep]
      simp [lineRead, linesRead]
  | cons b rest ih =>
      obtain ⟨hb, hrest⟩ := not_or.mp (mt List.mem_cons.mpr htext)
      rw [List.length_cons] at hroom
      have hready : (d.thread i).phase = .running ∧ (d.thread i).spc.length < locbufSize :=
        ⟨hphase, by omega⟩
      set d₁ := d.setThread i ((d.thread i).nextByte d.packetLength b) with hd₁
      have hstep : daemonStep scales d (.byte i b) = some d₁ := by
        simp only [daemonStep, hthread', if_pos hready, hd₁]
      have hspc : (d₁.thread i).spc = (d.thread i).spc ++ [b] := by
        rw [hd₁, Daemon.setThread_self, ThreadState.nextByte_spc, if_neg (Ne.symm hb)]
      have hphase₁ : (d₁.thread i).phase = .running := by
        rw [hd₁, Daemon.setThread_self, ThreadState.nextByte_phase, hphase]
      obtain ⟨d', hrun, hline⟩ := ih hphase₁ hrest (by
        rw [hspc, List.length_append, List.length_singleton]
        omega)
      rw [hspc, List.append_assoc, List.singleton_append] at hline
      refine ⟨d', by rw [List.cons_append, List.map_cons, runSteps, hstep]; exact hrun, ?_⟩
      rw [List.cons_append, List.map_cons, linesRead, hstep]
      exact List.mem_append_right _ hline

/-- An order in which another length is stored behind the scale's own. -/
theorem exists_other_length
    {order : List (Nat × ℤ)}
    (h : ¬ OwnLengthLast scales t i order) :
    ∃ before m between x behind p,
      order = before ++ (i, m) :: (between ++ x :: behind) ∧ 0 ≤ m ∧
        storedLength scales x = some p ∧ p ≠ t.frameLength := by
  induction order with
  | nil => exact absurd trivial h
  | cons y rest ih =>
      obtain ⟨j, m⟩ := y
      by_cases hrest : OwnLengthLast scales t i rest
      · have hfirst : ¬ (j = i → 0 ≤ m → ∀ x ∈ rest, ∀ p ∈ storedLength scales x,
            p = t.frameLength) := fun hfirst => h ⟨hfirst, hrest⟩
        push Not at hfirst
        obtain ⟨rfl, hm, x, hx, p, hp, hne⟩ := hfirst
        obtain ⟨between, behind, rfl⟩ := List.append_of_mem hx
        exact ⟨[], m, between, x, behind, p, rfl, hm, hp, hne⟩
      · obtain ⟨before, m', between, x, behind, p, rfl, hm', hp, hne⟩ := ih hrest
        exact ⟨(j, m) :: before, m', between, x, behind, p, rfl, hm', hp, hne⟩

theorem storedLength_bounds
    {x : Nat × ℤ}
    {p : Nat}
    (h : storedLength scales x = some p) :
    9 ≤ p ∧ p ≤ 18 := by
  rw [storedLength] at h
  split at h
  · cases h
  · obtain ⟨u, -, hu⟩ := Option.bind_eq_some_iff.mp h
    cases u with
    | ldu t => cases t <;> simp_all [ScaleThread.packetLength, LduThread.frameLength] <;> omega
    | dis2Loop => simp_all [ScaleThread.packetLength]; omega
    | dis4Loop => cases hu

/-- A scale distributes in every run of the order what it distributes alone. -/
def DistributesAsAlone
    (length : Nat) (scales : List ScaleSys) (i : Nat) (s : ScaleSys) (order : List (Nat × ℤ)) :
    Prop :=
  ∀ (acts : List DaemonAct) (d : Daemon), startsOf acts <+: order →
    runSteps (daemonStep scales) (.initial length) acts = some d →
    ∃ d', runSteps (daemonStep [s]) (.initial length) (ownSteps i acts) = some d' ∧
      (d'.thread 0).distributed = (d.thread i).distributed

/-- **A scale among others.**  In every order in which the threads can be initialized: whatever the
scale sends and whenever it is read, it distributes what it distributes alone, exactly if no other
frame length is stored behind its own initialization. -/
theorem distributes_as_alone_iff
    {length i : Nat}
    {scales : List ScaleSys}
    {s : ScaleSys}
    {t : LduThread}
    {order : List (Nat × ℤ)}
    (hscale : scales[i]? = some s)
    (hthread : threadOf s.terminal = some (.ldu t))
    (horder : (runSteps (daemonStep scales) (.initial length)
      (order.map fun x => .init x.1 x.2)).isSome) :
    DistributesAsAlone length scales i s order ↔ OwnLengthLast scales t i order := by
  constructor
  · intro hall
    by_contra hnot
    obtain ⟨before, m, between, x, behind, p, rfl, hm, hp, hne⟩ := exists_other_length hnot
    -- the run up to the other length, and a line between the two lengths
    set starts := before ++ (i, m) :: (between ++ [x]) with hstarts
    have hsplit : before ++ (i, m) :: (between ++ x :: behind) = starts ++ behind := by
      simp [hstarts]
    rw [hsplit, List.map_append, runSteps_append] at horder
    obtain ⟨d, hd⟩ := Option.isSome_iff_exists.mp (Option.isSome_of_isSome_bind horder)
    obtain ⟨hphase, hspc, hlength⟩ := runs_with_other_length hm hp hd
    have hbounds := storedLength_bounds hp
    have hframe : t.frameLength ≤ 18 := by cases t <;> decide
    set text := List.replicate (max p t.frameLength - 2) (0x41 : UInt8) with htext
    have hlen : text.length = max p t.frameLength - 2 := List.length_replicate
    have hplain : (0x0d : UInt8) ∉ text := by
      intro hmem
      cases List.eq_of_mem_replicate hmem
    have hempty : (d.thread i).spc = [] := hspc
    have hroom : (d.thread i).spc.length + text.length < locbufSize := by
      rw [hempty, hlen, List.length_nil, locbufSize]
      omega
    obtain ⟨d', hread, hline⟩ := reads_line hscale hthread hphase hplain hroom
    have hrun : runSteps (daemonStep scales) (.initial length)
        (starts.map (fun x => .init x.1 x.2) ++ (text ++ [0x0d]).map (.byte i)) = some d' := by
      rw [runSteps_append, hd]
      exact hread
    have hacts : startsOf (starts.map (fun x => DaemonAct.init x.1 x.2) ++
        (text ++ [0x0d]).map (.byte i)) <+: before ++ (i, m) :: (between ++ x :: behind) := by
      rw [startsOf_append, startsOf_starts, startsOf_bytes, List.append_nil, hsplit]
      exact List.prefix_append _ _
    have hfilter := (distributed_eq_alone_iff hscale hthread hrun).mp (hall _ d' hacts hrun) _
      (by
        rw [linesRead_append hd]
        exact List.mem_append_right _ hline)
    rw [Bool.eq_iff_iff, LineRead.kept_iff, LineRead.keptBy_iff, hlength, hempty] at hfilter
    simp only [List.nil_append, List.length_append, hlen, List.length_singleton] at hfilter
    omega
  · intro hlast acts d hacts hrun
    refine (distributed_eq_alone_iff hscale hthread hrun).mpr fun y hy => ?_
    have hown := linesRead_own hscale hthread (d := .initial length) (fun _ => hlast)
      (fun hphase => nomatch hphase) hacts y hy
    rw [Bool.eq_iff_iff, LineRead.kept_iff, LineRead.keptBy_iff, hown]

end StartOrder

/-- The two scales of `scaled12.conf`. -/
def ldu781 : ModelCmd :=
  ⟨[0x6c, 0x64, 0x75, 0x37, 0x38, 0x31],
    #v[none, some [0x53, 0x54, 0x0d], some [0x52, 0x54, 0x0d], none]⟩

def weightScale : ScaleSys := ⟨0, [⟨false, some ldu781⟩], by decide⟩

def rawScale : ScaleSys := ⟨1, [⟨true, some ldu781⟩], by decide⟩

/-- A raw frame of nine bytes. -/
def rawFrame : List UInt8 := [0x52, 0x30, 0x30, 0x31, 0x32, 0x33, 0x34, 0x35, 0x0d]

/-- The two threads are initialized one after the other; then the raw scale sends. -/
def rawFrameAfter (first second : Nat) : List DaemonAct :=
  [.init first 0, .init second 0] ++ rawFrame.map (.byte 1)

/-- The thread of the raw scale is initialized last. -/
theorem distributes_as_alone_raw_last :
    DistributesAsAlone 18 [weightScale, rawScale] 1 rawScale [(0, 0), (1, 0)] := by
  have hscale : [weightScale, rawScale][1]? = some rawScale := rfl
  have hthread : threadOf rawScale.terminal = some (.ldu .lduRaw) := rfl
  have hlast : OwnLengthLast [weightScale, rawScale] .lduRaw 1 [(0, 0), (1, 0)] :=
    ⟨(fun h => nomatch h), (fun _ _ _ hx => nomatch hx), trivial⟩
  exact (distributes_as_alone_iff hscale hthread rfl).mpr hlast

/-- The thread of the weight scale is initialized last: the raw scale distributes
nothing. -/
theorem raw_frame_discarded :
    ∃ d d', runSteps (daemonStep [weightScale, rawScale]) (.initial 18) (rawFrameAfter 1 0) =
        some d ∧
      runSteps (daemonStep [rawScale]) (.initial 18) (ownSteps 1 (rawFrameAfter 1 0)) = some d' ∧
      (d.thread 1).distributed = [] ∧ (d'.thread 0).distributed = [rawFrame.dropLast] :=
  ⟨_, _, rfl, rfl, rfl, rfl⟩

end Scaled
end MatrixBin
