import Mathlib.Data.List.Basic

/-!
# Sessions of a transactional database

A client sends statements one at a time over a connection.  `BEGIN` opens a transaction,
inside a transaction it only warns.  A refused statement aborts the open transaction;
from then on everything but `COMMIT` and `ROLLBACK` is refused, and either of them leaves
the transaction without its rows.  `COMMIT` of a healthy transaction makes its rows
durable.  Outside a transaction every statement commits by itself.

What the server makes of a statement is an input (`Answer`).  The connection may also
break, before or after the server executed the statement: the server then discards the
open transaction.  A row is anything an `INSERT` may denote.
-/

namespace MatrixBin
namespace Library

universe u

inductive Statement (Row : Type u)
  | begin
  | insert (row : Row)
  | insertReturning (row : Row)
  | commit
  | rollback

/-- `ExecStatusType` -/
inductive ExecStatus
  | commandOk
  | tuplesOk
  | fatalError
deriving DecidableEq

/-- The fate of one statement; `value` is the text of the returned column. -/
inductive Answer
  | done (value : List UInt8)
  | refused (message : List UInt8)
  | lost (message : List UInt8) (executed : Bool)

inductive Transaction (Row : Type u)
  | idle
  | active (rows : List Row)
  | aborted

structure Session (Row : Type u) where
  alive : Bool
  transaction : Transaction Row
  durable : List Row
  message : List UInt8

structure ExecResult where
  status : ExecStatus
  value : List UInt8

section Sessions

variable {Row : Type u}

/-- The status of a completed statement. -/
def Statement.completed : Statement Row → ExecStatus
  | .insertReturning _ => .tuplesOk
  | _ => .commandOk

/-- The row that an `INSERT` denotes. -/
def Statement.inserted : Statement Row → Option Row
  | .insert row => some row
  | .insertReturning row => some row
  | _ => none

/-- The statements an aborted transaction refuses. -/
def Transaction.ignores : Transaction Row → Statement Row → Bool
  | .aborted, .commit => false
  | .aborted, .rollback => false
  | .aborted, _ => true
  | _, _ => false

/-- An executed statement: the transaction after it and the rows that become durable. -/
def Transaction.execute : Transaction Row → Statement Row → Transaction Row × List Row
  | .idle, .begin => (.active [], [])
  | .idle, .insert row => (.idle, [row])
  | .idle, .insertReturning row => (.idle, [row])
  | .active rows, .begin => (.active rows, [])
  | .active rows, .insert row => (.active (rows ++ [row]), [])
  | .active rows, .insertReturning row => (.active (rows ++ [row]), [])
  | .active rows, .commit => (.idle, rows)
  | .aborted, .begin => (.aborted, [])
  | .aborted, .insert _ => (.aborted, [])
  | .aborted, .insertReturning _ => (.aborted, [])
  | _, _ => (.idle, [])

/-- The transaction after a refused statement. -/
def Transaction.refuse : Transaction Row → Statement Row → Transaction Row
  | _, .commit => .idle
  | _, .rollback => .idle
  | .idle, _ => .idle
  | _, _ => .aborted

def ignoredMessage : List UInt8 :=
  ("ERROR:  current transaction is aborted, " ++
    "commands ignored until end of transaction block\n").toUTF8.toList

def Session.exec (s : Session Row) (statement : Statement Row) (answer : Answer) :
    ExecResult × Session Row :=
  if s.alive then
    match answer with
    | .done value =>
        if s.transaction.ignores statement then
          (⟨.fatalError, []⟩, { s with message := ignoredMessage })
        else
          let executed := s.transaction.execute statement
          (⟨statement.completed, value⟩,
            { s with
              transaction := executed.1
              durable := s.durable ++ executed.2
              message := [] })
    | .refused message =>
        (⟨.fatalError, []⟩,
          { s with transaction := s.transaction.refuse statement, message := message })
    | .lost message executed =>
        (⟨.fatalError, []⟩,
          { alive := false
            transaction := .idle
            durable :=
              if executed then s.durable ++ (s.transaction.execute statement).2 else s.durable
            message := message })
  else
    (⟨.fatalError, []⟩, s)

/-- No transaction is open, healthy or aborted. -/
def Session.Outside (s : Session Row) : Prop := s.transaction = .idle

/-- The connection is there and `rows` wait for the end of a healthy transaction. -/
def Session.Pending (s : Session Row) (rows : List Row) : Prop :=
  s.alive = true ∧ s.transaction = .active rows

/-- The connection is there and only the end of the transaction is accepted. -/
def Session.Aborted (s : Session Row) : Prop := s.alive = true ∧ s.transaction = .aborted

theorem Session.Aborted.not_outside
    {s : Session Row}
    (hs : s.Aborted) :
    ¬ s.Outside := by
  simp [Outside, hs.2]

/-- The first answer that is not a completion, or a completion. -/
def firstTrouble : List Answer → Answer
  | [] => .done []
  | .done _ :: rest => firstTrouble rest
  | answer :: _ => answer

/-- Insert rows until one does not complete. -/
def Session.insertAll (s : Session Row) : List (Row × Answer) → Bool × Session Row
  | [] => (true, s)
  | (row, answer) :: rest =>
      let (result, s') := s.exec (.insert row) answer
      if result.status = .commandOk then s'.insertAll rest else (false, s')

/-- `BEGIN` outside a transaction. -/
theorem Session.exec_begin
    {s : Session Row}
    (hs : s.alive = true)
    (hout : s.Outside)
    (answer : Answer) :
    (∃ value, answer = .done value ∧
      (s.exec .begin answer).1.status = .commandOk ∧
      (s.exec .begin answer).2.Pending []) ∨
    ((∀ value, answer ≠ .done value) ∧
      (s.exec .begin answer).1.status = .fatalError ∧
      (s.exec .begin answer).2.Outside) := by
  have hidle : s.transaction = .idle := hout
  cases answer with
  | done value =>
      refine Or.inl ⟨value, rfl, ?_⟩
      simp [exec, hs, hidle, Transaction.ignores, Transaction.execute, Statement.completed, Pending]
  | refused message =>
      refine Or.inr ⟨by simp, ?_⟩
      simp [exec, hs, hidle, Transaction.refuse, Outside]
  | lost message executed =>
      refine Or.inr ⟨by simp, ?_⟩
      simp [exec, hs, Outside]

/-- An `INSERT` in a healthy transaction. -/
theorem Session.exec_insert
    {s : Session Row}
    {rows : List Row}
    (hs : s.Pending rows)
    (statement : Statement Row)
    {row : Row}
    (hins : statement.inserted = some row)
    (answer : Answer) :
    (∃ value, answer = .done value ∧
      (s.exec statement answer).1 = ⟨statement.completed, value⟩ ∧
      (s.exec statement answer).2.Pending (rows ++ [row])) ∨
    (∃ message, answer = .refused message ∧
      (s.exec statement answer).1.status = .fatalError ∧
      (s.exec statement answer).2.Aborted) ∨
    (∃ message executed, answer = .lost message executed ∧
      (s.exec statement answer).1.status = .fatalError ∧
      (s.exec statement answer).2.Outside) := by
  obtain ⟨halive, hactive⟩ := hs
  have hkind : statement = .insert row ∨ statement = .insertReturning row := by
    cases statement <;> simp_all [Statement.inserted]
  cases answer with
  | done value =>
      refine Or.inl ⟨value, rfl, ?_⟩
      rcases hkind with rfl | rfl <;>
        simp [exec, halive, hactive, Transaction.ignores, Transaction.execute, Pending]
  | refused message =>
      refine Or.inr (Or.inl ⟨message, rfl, ?_⟩)
      rcases hkind with rfl | rfl <;>
        simp [exec, halive, hactive, Transaction.refuse, Aborted]
  | lost message executed =>
      refine Or.inr (Or.inr ⟨message, executed, rfl, ?_⟩)
      simp [exec, halive, Outside]

/-- `COMMIT` leaves the transaction whatever happens. -/
theorem Session.exec_commit_outside
    {s : Session Row}
    (hs : s.alive = true)
    (answer : Answer) :
    (s.exec .commit answer).2.Outside := by
  cases answer with
  | done value =>
      cases htransaction : s.transaction <;>
        simp [exec, hs, htransaction, Transaction.ignores, Transaction.execute, Outside]
  | refused message => simp [exec, hs, Transaction.refuse, Outside]
  | lost message executed => simp [exec, hs, Outside]

theorem Session.exec_commit_done
    {s : Session Row}
    {rows : List Row}
    (hs : s.Pending rows)
    (value : List UInt8) :
    (s.exec .commit (.done value)).1.status = .commandOk ∧
      (s.exec .commit (.done value)).2.durable = s.durable ++ rows := by
  obtain ⟨halive, hactive⟩ := hs
  simp [exec, halive, hactive, Transaction.ignores, Transaction.execute, Statement.completed]

/-- The rows of a list in a healthy transaction: the first trouble decides. -/
theorem Session.insertAll_of_pending
    {s : Session Row}
    {rows : List Row}
    (hs : s.Pending rows)
    (items : List (Row × Answer)) :
    (∃ value, firstTrouble (items.map Prod.snd) = .done value ∧
      (s.insertAll items).1 = true ∧
      (s.insertAll items).2.Pending (rows ++ items.map Prod.fst)) ∨
    (∃ message, firstTrouble (items.map Prod.snd) = .refused message ∧
      (s.insertAll items).1 = false ∧
      (s.insertAll items).2.Aborted) ∨
    (∃ message executed, firstTrouble (items.map Prod.snd) = .lost message executed ∧
      (s.insertAll items).1 = false ∧
      (s.insertAll items).2.Outside) := by
  induction items generalizing s rows with
  | nil => exact Or.inl ⟨[], rfl, rfl, by simpa [insertAll] using hs⟩
  | cons item rest ih =>
      obtain ⟨row, answer⟩ := item
      rcases exec_insert hs (.insert row) rfl answer with
        ⟨value, rfl, hres, hpending⟩ | ⟨message, rfl, hres, habort⟩ |
        ⟨message, executed, rfl, hres, hout⟩
      · have hok : (s.exec (.insert row) (.done value)).1.status = .commandOk := by
          rw [hres]
          rfl
        simpa [insertAll, hok, firstTrouble] using ih hpending
      · refine Or.inr (Or.inl ⟨message, rfl, ?_⟩)
        simp [insertAll, hres, habort]
      · refine Or.inr (Or.inr ⟨message, executed, rfl, ?_⟩)
        simp [insertAll, hres, hout]

/-! ### Durable rows -/

/-- No healthy transaction is open: there is nothing that a `COMMIT` could make durable. -/
def Session.Settled (s : Session Row) : Prop := ∀ rows, s.transaction ≠ .active rows

theorem Session.Outside.settled
    {s : Session Row}
    (hs : s.Outside) :
    s.Settled := by
  intro rows hactive
  rw [Outside, hactive] at hs
  cases hs

theorem Session.Aborted.settled
    {s : Session Row}
    (hs : s.Aborted) :
    s.Settled := by
  intro rows hactive
  rw [Aborted, hactive] at hs
  cases hs.2

theorem Session.exec_begin_durable
    (s : Session Row)
    (answer : Answer) :
    (s.exec .begin answer).2.durable = s.durable := by
  have hnone : (s.transaction.execute .begin).2 = [] := by
    cases s.transaction <;> rfl
  unfold exec
  split
  · cases answer with
    | done value =>
        simp only
        split
        · rfl
        · simp [hnone]
    | refused message => rfl
    | lost message executed => simp [hnone]
  · rfl

/-- `BEGIN` is refused in an aborted transaction, which stays so. -/
theorem Session.exec_begin_aborted
    {s : Session Row}
    (hs : s.Aborted)
    (answer : Answer) :
    (s.exec .begin answer).1.status = .fatalError ∧ (s.exec .begin answer).2.Settled := by
  obtain ⟨halive, haborted⟩ := hs
  cases answer with
  | done value => simp [exec, halive, haborted, Transaction.ignores, Settled]
  | refused message => simp [exec, halive, haborted, Transaction.refuse, Settled]
  | lost message executed => simp [exec, halive, Settled]

theorem Session.exec_insert_durable
    {s : Session Row}
    {rows : List Row}
    (hs : s.Pending rows)
    (statement : Statement Row)
    {row : Row}
    (hins : statement.inserted = some row)
    (answer : Answer) :
    (s.exec statement answer).2.durable = s.durable := by
  obtain ⟨halive, hactive⟩ := hs
  have hnone : (s.transaction.execute statement).2 = [] := by
    rw [hactive]
    cases statement with
    | insert row' => rfl
    | insertReturning row' => rfl
    | begin => cases hins
    | commit => cases hins
    | rollback => cases hins
  cases answer with
  | done value =>
      simp only [exec, halive, if_true]
      split
      · rfl
      · simp [hnone]
  | refused message => simp [exec, halive]
  | lost message executed => simp [exec, halive, hnone]

theorem Session.insertAll_durable
    {s : Session Row}
    {rows : List Row}
    (hs : s.Pending rows)
    (items : List (Row × Answer)) :
    (s.insertAll items).2.durable = s.durable := by
  induction items generalizing s rows with
  | nil => rfl
  | cons item rest ih =>
      obtain ⟨row, answer⟩ := item
      have hdurable := exec_insert_durable hs (.insert row) rfl answer
      rw [insertAll]
      rcases exec_insert hs (.insert row) rfl answer with
        ⟨value, -, hres, hpending⟩ | ⟨message, -, hres, -⟩ | ⟨message, executed, -, hres, -⟩
      · have hok : (s.exec (.insert row) answer).1.status = .commandOk := by
          rw [hres]
          rfl
        simp only [hok, if_true]
        exact (ih hpending).trans hdurable
      · simpa [hres] using hdurable
      · simpa [hres] using hdurable

/-- `COMMIT` of a healthy transaction: its rows become durable exactly when it succeeds, unless
the answer of an executed `COMMIT` is lost. -/
theorem Session.exec_commit_durable
    {s : Session Row}
    {rows : List Row}
    (hs : s.Pending rows)
    {answer : Answer}
    (hknown : ∀ message, answer ≠ .lost message true) :
    (s.exec .commit answer).2.durable =
      s.durable ++ if (s.exec .commit answer).1.status = .commandOk then rows else [] := by
  obtain ⟨halive, hactive⟩ := hs
  cases answer with
  | done value =>
      simp [exec, halive, hactive, Transaction.ignores, Transaction.execute, Statement.completed]
  | refused message => simp [exec, halive]
  | lost message executed =>
      cases executed with
      | true => exact absurd rfl (hknown message)
      | false => simp [exec, halive]

end Sessions

end Library
end MatrixBin
