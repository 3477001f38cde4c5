import MatrixBin.Postgres.WriteTrain

/-!
# The durable rows of written trains (`postgreSQL_scales.c`)

None of the exits of `writeTrain` ends the transaction, but none of them leaves a healthy
one behind either: a statement that fails aborts it, and `BEGIN` is refused in an aborted
transaction, so a later call commits nothing of an earlier one.  What a call makes durable is
therefore its train row with all its car rows, or nothing.

The car rows carry the identifier that the server returned for the train: `train.id` is an
`integer`, which an `unsigned` holds.
-/

namespace MatrixBin
namespace Postgres

open Library

/-! ### Rows -/

def InstanceData.durable (inst : InstanceData) : List (List UInt8) :=
  (inst.conn.map Session.durable).getD []

/-- No healthy transaction is open. -/
def InstanceData.Settled (inst : InstanceData) : Prop := ∀ conn ∈ inst.conn, conn.Settled

/-- The identifier in the column that the `INSERT` of the train returns. -/
def returnedId : Answer → Nat
  | .done value => digitsValue value
  | _ => 0

/-- The train row of a call and all its car rows, with a given identifier. -/
def Call.rows (c : Call) (id : Nat) : List (List UInt8) :=
  match c.train with
  | some p => trainSql p :: p.written.map (carSql id)
  | none => []

/-- What a sequence of calls should make durable: for each call that succeeds its train row
with its car rows, which carry the returned identifier. -/
def contributed : InstanceData → List Call → List (List UInt8)
  | _, [] => []
  | inst, c :: later =>
      (if (c.run inst).1 = scalesOk then c.rows (returnedId c.replies.train) else []) ++
        contributed (c.run inst).2 later

/-- What the session promises of the answers: the identifier of a train is the numeral of a
positive `integer`, and a `COMMIT` that fails was not executed. -/
def Call.Served (c : Call) : Prop :=
  (∀ value, c.replies.train = .done value → ∃ id, 0 < id ∧ id < 2 ^ 31 ∧ value = printNat id) ∧
    ∀ message, c.replies.commit ≠ .lost message true

/-- The `unsigned` that the car rows carry is the returned identifier. -/
theorem idCarOf_printNat
    {id : Nat}
    (hid : id < 2 ^ 31) :
    idCarOf (printNat id) = id := by
  have hmax : id ≤ ulongMax := by
    unfold ulongMax
    omega
  have hread : strtoul (printNat id ++ [0]) = some (id, [0]) :=
    strtoul_printNat (by decide) hmax
  simp only [idCarOf, hread, Option.map_some, Option.getD_some]
  exact Nat.mod_eq_of_lt (by omega)

theorem idCarOf_of_served
    {c : Call}
    (h : c.Served)
    {value : List UInt8}
    (hvalue : c.replies.train = .done value) :
    idCarOf value = returnedId c.replies.train := by
  obtain ⟨id, -, hid, rfl⟩ := h.1 value hvalue
  rw [hvalue, idCarOf_printNat hid]
  exact (digitsValue_printNat id).symm

/-! ### One call -/

/-- A call that opened its transaction. -/
theorem rows_of_begun
    {inst : InstanceData}
    {conn begun : Session (List UInt8)}
    {c : Call}
    {p : Train}
    {res : ExecResult}
    (hserved : c.Served)
    (hconn : inst.conn = some conn)
    (halive : conn.alive = true)
    (htrain : c.train = some p)
    (hbegin : conn.exec .begin c.replies.begin = (res, begun))
    (hstatus : res.status = .commandOk)
    (hpending : begun.Pending []) :
    (c.run inst).2.Settled ∧
      (c.run inst).2.durable = begun.durable ++
        if (c.run inst).1 = scalesOk then c.rows (returnedId c.replies.train) else [] := by
  have herror : scalesExecuteError ≠ scalesOk := by decide
  have herror' : scalesTransactionCommitError ≠ scalesOk := by decide
  rcases run_begun_cases hconn halive htrain hbegin hstatus hpending with
    ⟨value, filled, -, htr, hfilled, hsame, hrun⟩ | ⟨failed, hrun, hsame, hend⟩
  · have hsettled := (Session.exec_commit_outside hfilled.1 c.replies.commit).settled
    have hcommit := Session.exec_commit_durable hfilled hserved.2
    have hrows : trainSql p :: p.written.map (carSql (idCarOf value)) =
        c.rows (returnedId c.replies.train) := by
      rw [idCarOf_of_served hserved htr, Call.rows, htrain]
    rw [hrows, hsame] at hcommit
    rw [hrun]
    by_cases hok : (filled.exec .commit c.replies.commit).1.status = .commandOk
    · refine ⟨?_, ?_⟩
      · simpa [hok, InstanceData.Settled] using hsettled
      · simpa [hok, InstanceData.durable] using hcommit
    · refine ⟨?_, ?_⟩
      · simpa [hok, failWith, InstanceData.Settled] using hsettled
      · simpa [hok, failWith, InstanceData.durable, herror'] using hcommit
  · have hsettled : failed.Settled := by
      rcases hend with ⟨-, habort⟩ | ⟨-, hout⟩
      · exact habort.settled
      · exact hout.settled
    rw [hrun]
    refine ⟨?_, ?_⟩
    · simpa [failWith, InstanceData.Settled] using hsettled
    · simpa [failWith, InstanceData.durable, herror] using hsame

/-- A call contributes its rows if it succeeds and nothing if it fails, and leaves no healthy
transaction behind. -/
theorem run_durable
    {inst : InstanceData}
    (hinst : inst.Settled)
    {c : Call}
    (hserved : c.Served) :
    (c.run inst).2.Settled ∧
      (c.run inst).2.durable = inst.durable ++
        if (c.run inst).1 = scalesOk then c.rows (returnedId c.replies.train) else [] := by
  have hparam : scalesParamError ≠ scalesOk := by decide
  have hconnect : scalesConnectError ≠ scalesOk := by decide
  have hbeginError : scalesTransactionBeginError ≠ scalesOk := by decide
  cases htrain : c.train with
  | none => simpa [Call.run, writeTrain, htrain, hparam] using hinst
  | some p =>
      cases hconn : inst.conn with
      | none => simpa [Call.run, writeTrain, htrain, hconn, hparam] using hinst
      | some conn =>
          have hsettled : conn.Settled := hinst conn (by simp [hconn])
          have hdurable : inst.durable = conn.durable := by simp [InstanceData.durable, hconn]
          cases halive : conn.alive with
          | false =>
              have hrun : c.run inst = failWith conn scalesConnectError := by
                simp [Call.run, writeTrain, htrain, hconn, halive]
              rw [hrun, hdurable]
              refine ⟨?_, ?_⟩
              · simpa [failWith, InstanceData.Settled] using hsettled
              · simp [failWith, InstanceData.durable, hconnect]
          | true =>
              have hsame := Session.exec_begin_durable conn c.replies.begin
              obtain ⟨res, begun, hexec⟩ :
                  ∃ res begun, conn.exec .begin c.replies.begin = (res, begun) :=
                ⟨_, _, rfl⟩
              -- the exit after a refused BEGIN
              have hfail : res.status = .fatalError → begun.Settled →
                  (c.run inst).2.Settled ∧
                    (c.run inst).2.durable = inst.durable ++
                      if (c.run inst).1 = scalesOk then c.rows (returnedId c.replies.train)
                      else [] := by
                intro hstatus hbegun
                have hrun : c.run inst = failWith begun scalesTransactionBeginError := by
                  simp [Call.run, writeTrain, htrain, hconn, halive, hexec, hstatus]
                rw [hrun, hdurable]
                refine ⟨?_, ?_⟩
                · simpa [failWith, InstanceData.Settled] using hbegun
                · simpa [failWith, InstanceData.durable, hbeginError, hexec] using hsame
              cases htransaction : conn.transaction with
              | active rows => exact absurd htransaction (hsettled rows)
              | aborted =>
                  have hbegin :=
                    Session.exec_begin_aborted ⟨halive, htransaction⟩ c.replies.begin
                  rw [hexec] at hbegin
                  exact hfail hbegin.1 hbegin.2
              | idle =>
                  have hbegin := Session.exec_begin halive htransaction c.replies.begin
                  simp only [hexec] at hbegin hsame
                  rcases hbegin with ⟨value, -, hstatus, hpending⟩ | ⟨-, hstatus, hout⟩
                  · have hrows :=
                      rows_of_begun hserved hconn halive htrain hexec hstatus hpending
                    rw [hdurable, ← hsame]
                    exact hrows
                  · exact hfail hstatus hout.settled

/-! ### Sequences of calls -/

/-- From a connection without a healthy transaction, a sequence of calls makes durable the
rows of the calls that succeed, and nothing else. -/
theorem durable_afterCalls
    {inst : InstanceData}
    (hinst : inst.Settled)
    {calls : List Call}
    (hserved : ∀ c ∈ calls, c.Served) :
    (afterCalls inst calls).durable = inst.durable ++ contributed inst calls := by
  induction calls generalizing inst with
  | nil => simp [afterCalls, contributed]
  | cons c later ih =>
      obtain ⟨hsettled, hrows⟩ := run_durable hinst (hserved c (by simp))
      have hlater := ih hsettled fun d hd => hserved d (by simp [hd])
      have hstep : afterCalls inst (c :: later) = afterCalls (c.run inst).2 later := rfl
      rw [hstep, hlater, hrows, contributed, List.append_assoc]

/-- A train is written, a car of the next one is refused, and a third call finds the aborted
transaction. -/
theorem durable_afterCalls_refused :
    (afterCalls justConnected
        [oneCarCall (.done []) (.done []), oneCarCall (.done []) (.refused []),
          oneCarCall (.done []) (.done [])]).durable =
      trainSql oneCarTrain :: oneCarTrain.cars.map (carSql 1) := by
  have hinst : justConnected.Settled := by
    rintro conn hconn rows hrows
    cases hconn
    cases hrows
  have hserved : ∀ begin car, (oneCarCall begin car).Served := by
    refine fun begin car => ⟨?_, by simp [oneCarCall]⟩
    rintro value hvalue
    refine ⟨1, by decide, by decide, ?_⟩
    cases hvalue
    decide +kernel
  refine (durable_afterCalls hinst ?_).trans ?_
  · intro c hc
    simp only [List.mem_cons, List.not_mem_nil, or_false] at hc
    rcases hc with rfl | rfl | rfl
    · exact hserved _ _
    · exact hserved _ _
    · exact hserved _ _
  · rfl

end Postgres
end MatrixBin
