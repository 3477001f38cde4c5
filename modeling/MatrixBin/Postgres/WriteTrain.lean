import MatrixBin.Library.DecimalText
import MatrixBin.Library.SqlSession

/-!
# Writing a train to the database (`postgreSQL_scales.c`)

`writeTrain` sends `BEGIN`, an `INSERT` for the train, one for each car and `COMMIT` over
the connection of the instance.  Every statement has its own exit on failure, and none of
the exits sends `ROLLBACK`.

The connection is a `Session` whose rows are the texts of the `INSERT` statements, which a
quote in the strings of a train could make into something else.  The answers of the server
are inputs of a call.
-/

namespace MatrixBin
namespace Postgres

open Library

def scalesOk : ℤ := 0
def scalesParamError : ℤ := -2
def scalesConnectError : ℤ := -3
def scalesTransactionBeginError : ℤ := -4
def scalesTransactionCommitError : ℤ := -5
def scalesExecuteError : ℤ := -6

/-- `MAX_STR_SQL` -/
def maxStrSql : Nat := 1024

/-- `struct tm` -/
structure Tm where
  year : ℤ
  mon : ℤ
  mday : ℤ
  hour : ℤ
  min : ℤ
  sec : ℤ

/-- A `float`; an infinity, a NaN and a zero have a sign. -/
inductive Speed
  | finite (value : ℚ)
  | negativeZero
  | infinite (negative : Bool)
  | nan (negative : Bool)

/-- `Car`; `error` is `none` for a null pointer. -/
structure Car where
  num : ℤ
  carType : UInt8
  weight : ℤ
  speed : Speed
  result : ℤ
  error : Option (List UInt8)

/-- `Train`; the array `cars` holds at least `cnt_car` elements. -/
structure Train where
  num : ℤ
  mode : UInt8
  modeAuto : UInt8
  direct : UInt8 × UInt8
  startWeighing : Tm
  finishWeighing : Tm
  typeWeighing : UInt8
  cntCar : ℤ
  weight : ℤ
  result : ℤ
  error : Option (List UInt8)
  cars : List Car
  cars_held : cntCar ≤ cars.length

/-- `InstanceData` -/
structure InstanceData where
  conn : Option (Session (List UInt8))
  strError : Option (List UInt8)

/-! ### The texts -/

def ascii (s : String) : List UInt8 := s.toUTF8.toList

/-- `%u` of an `int`. -/
def printUnsigned (n : ℤ) : List UInt8 := printNat (n % 2 ^ 32).toNat

/-- `%d` -/
def printInt (n : ℤ) : List UInt8 := (if n < 0 then ascii "-" else []) ++ printNat n.natAbs

/-- `%3.1f` -/
def printSpeed : Speed → List UInt8
  | .finite value => printFixed 1 value
  | .negativeZero => ascii "-" ++ printFixed 1 0
  | .infinite negative => (if negative then ascii "-" else []) ++ ascii "inf"
  | .nan negative => (if negative then ascii "-" else []) ++ ascii "nan"

/-- `%04u-%02u-%02u %02u:%02u:%02u` -/
def printTm (t : Tm) : List UInt8 :=
  let field (width : Nat) (n : ℤ) := printPadded width (n % 2 ^ 32).toNat
  field 4 (t.year + 1900) ++ ascii "-" ++ field 2 (t.mon + 1) ++ ascii "-" ++ field 2 t.mday ++
    ascii " " ++ field 2 t.hour ++ ascii ":" ++ field 2 t.min ++ ascii ":" ++ field 2 t.sec

/-- What a reader of `char str_sql[MAX_STR_SQL]` finds after `snprintf`. -/
def strSql (text : List UInt8) : List UInt8 := (text.take (maxStrSql - 1)).takeWhile (· ≠ 0)

def trainSql (p : Train) : List UInt8 :=
  strSql <|
    ascii "INSERT INTO train (num,mode,mode_auto,direct,start_weighing,finish_weighing," ++
    ascii "type_weighing,cnt_car,weight,result,error) VALUES (" ++
    printUnsigned p.num ++ ascii ",'" ++ [p.mode] ++ ascii "','" ++ [p.modeAuto] ++ ascii "','" ++
    [p.direct.1, p.direct.2] ++ ascii "','" ++ printTm p.startWeighing ++ ascii "','" ++
    printTm p.finishWeighing ++ ascii "','" ++ [p.typeWeighing] ++ ascii "'," ++
    printUnsigned p.cntCar ++ ascii "," ++ printInt p.weight ++ ascii "," ++ printInt p.result ++
    ascii ",'" ++ p.error.getD [] ++ ascii "') RETURNING id"

def carSql (idCar : Nat) (c : Car) : List UInt8 :=
  strSql <|
    ascii "INSERT INTO car (train_id,num,car_type,weight,speed,result,error) VALUES (" ++
    printNat idCar ++ ascii "," ++ printUnsigned c.num ++ ascii ",'" ++ [c.carType] ++
    ascii "'," ++ printInt c.weight ++ ascii "," ++ printSpeed c.speed ++ ascii "," ++
    printInt c.result ++ ascii ",'" ++ c.error.getD [] ++ ascii "')"

/-! ### The call -/

/-- The answers to the statements of one call. -/
structure Replies where
  begin : Answer
  train : Answer
  car : Nat → Answer
  commit : Answer

/-- `(unsigned)strtoul( PQgetvalue( res, 0, 0), NULL, 0)`; the text of an integer column
is its decimal numeral. -/
def idCarOf (value : List UInt8) : Nat :=
  ((strtoul (value ++ [0])).map Prod.fst).getD 0 % 2 ^ 32

/-- The cars the loop visits. -/
def Train.written (p : Train) : List Car := p.cars.take p.cntCar.toNat

/-- The loop over the cars from the index `i` on. -/
def insertCars (idCar : Nat) (car : Nat → Answer) :
    Nat → List Car → Session (List UInt8) → Bool × Session (List UInt8)
  | _, [], conn => (true, conn)
  | i, c :: rest, conn =>
      let (res, conn) := conn.exec (.insert (carSql idCar c)) (car i)
      if res.status ≠ .commandOk then (false, conn) else insertCars idCar car (i + 1) rest conn

/-- A failed exit: the message of the connection is kept, the transaction is not ended. -/
def failWith (conn : Session (List UInt8)) (rc : ℤ) : ℤ × InstanceData :=
  (rc, { conn := some conn, strError := some conn.message })

/-- `writeTrain`; `pInstanceData` is dereferenced first, so there is an instance. -/
def writeTrain (inst : InstanceData) (pParam : Option Train) (replies : Replies) :
    ℤ × InstanceData :=
  match pParam, inst.conn with
  | some p, some conn =>
      if conn.alive = false then
        failWith conn scalesConnectError
      else
        let (res, conn) := conn.exec .begin replies.begin
        if res.status ≠ .commandOk then
          failWith conn scalesTransactionBeginError
        else
          let (res, conn) := conn.exec (.insertReturning (trainSql p)) replies.train
          if res.status ≠ .tuplesOk then
            failWith conn scalesExecuteError
          else
            let idCar := idCarOf res.value
            let (inserted, conn) := insertCars idCar replies.car 0 p.written conn
            if inserted = false then
              failWith conn scalesExecuteError
            else
              let (res, conn) := conn.exec .commit replies.commit
              if res.status ≠ .commandOk then
                failWith conn scalesTransactionCommitError
              else
                (scalesOk, { inst with conn := some conn })
  | _, _ => (scalesParamError, inst)

/-- The strings of a train contain no quote. -/
def Train.Plain (p : Train) : Prop :=
  (∀ text ∈ p.error, 0x27 ∉ text) ∧ ∀ c ∈ p.cars, ∀ text ∈ c.error, 0x27 ∉ text

/-- One call of a sequence. -/
structure Call where
  train : Option Train
  replies : Replies
  plain : ∀ p ∈ train, p.Plain

def Call.run (c : Call) (inst : InstanceData) : ℤ × InstanceData :=
  writeTrain inst c.train c.replies

/-- The instance after a sequence of calls. -/
def afterCalls (inst : InstanceData) (calls : List Call) : InstanceData :=
  calls.foldl (fun inst c => (c.run inst).2) inst

/-- The session is outside any transaction. -/
def InstanceData.Outside (inst : InstanceData) : Prop := ∀ conn ∈ inst.conn, conn.Outside

/-- The answers to the `INSERT` statements of a call. -/
def Call.insertAnswers (c : Call) (p : Train) : List Answer :=
  c.replies.train :: (List.range p.written.length).map c.replies.car

/-- A call with a train to which the server refuses nothing. -/
def Call.Valid (c : Call) : Prop :=
  c.train.isSome = true ∧ (∃ value, c.replies.begin = .done value) ∧
    (∀ p ∈ c.train, ∀ answer ∈ c.insertAnswers p, ∃ value, answer = .done value) ∧
    ∃ value, c.replies.commit = .done value

/-- The session is outside any transaction, and if the connection is there a call with
valid data succeeds. -/
def InstanceData.Restored (inst : InstanceData) : Prop :=
  inst.Outside ∧
    ∀ conn ∈ inst.conn, conn.alive = true → ∀ next : Call, next.Valid →
      (next.run inst).1 = scalesOk

/-- Whenever a call of the sequence returns an error it leaves the instance restored. -/
def ErrorsRestore (inst : InstanceData) (calls : List Call) : Prop :=
  ∀ past c later, calls = past ++ c :: later →
    (c.run (afterCalls inst past)).1 ≠ scalesOk → (c.run (afterCalls inst past)).2.Restored

/-- The call finds a connection and opens its transaction, and the first of its `INSERT`
statements that is not completed is refused. -/
def InsertRefused (inst : InstanceData) (c : Call) : Prop :=
  ∃ conn p message, inst.conn = some conn ∧ conn.alive = true ∧ c.train = some p ∧
    (∃ value, c.replies.begin = .done value) ∧
    firstTrouble (c.insertAnswers p) = .refused message

/-! ### One call -/

theorem insertCars_eq_insertAll
    (idCar : Nat)
    (car : Nat → Answer)
    (i : Nat)
    (cars : List Car)
    (conn : Session (List UInt8)) :
    insertCars idCar car i cars conn =
      conn.insertAll
        ((cars.map (carSql idCar)).zip ((List.range' i cars.length).map car)) := by
  induction cars generalizing i conn with
  | nil => rfl
  | cons c rest ih =>
      simp only [insertCars, List.map_cons, List.length_cons, List.range'_succ, List.zip_cons_cons,
        Session.insertAll]
      by_cases hok : (conn.exec (.insert (carSql idCar c)) (car i)).1.status = .commandOk
      · simp [hok, ih]
      · simp [hok]

/-- The loop over the cars in a healthy transaction. -/
theorem insertCars_of_pending
    {conn : Session (List UInt8)}
    {rows : List (List UInt8)}
    (hconn : conn.Pending rows)
    (idCar : Nat)
    (car : Nat → Answer)
    (cars : List Car) :
    (∃ value, firstTrouble ((List.range cars.length).map car) = .done value ∧
      (insertCars idCar car 0 cars conn).1 = true ∧
      (insertCars idCar car 0 cars conn).2.Pending (rows ++ cars.map (carSql idCar))) ∨
    (∃ message, firstTrouble ((List.range cars.length).map car) = .refused message ∧
      (insertCars idCar car 0 cars conn).1 = false ∧
      (insertCars idCar car 0 cars conn).2.Aborted) ∨
    (∃ message executed,
      firstTrouble ((List.range cars.length).map car) = .lost message executed ∧
      (insertCars idCar car 0 cars conn).1 = false ∧
      (insertCars idCar car 0 cars conn).2.Outside) := by
  have hitems :=
    Session.insertAll_of_pending hconn
      ((cars.map (carSql idCar)).zip ((List.range' 0 cars.length).map car))
  rw [List.map_snd_zip (by simp), List.map_fst_zip (by simp), ← insertCars_eq_insertAll,
    ← List.range_eq_range'] at hitems
  exact hitems

@[simp] theorem failWith_fst
    (conn : Session (List UInt8))
    (rc : ℤ) :
    (failWith conn rc).1 = rc := by
  rfl

@[simp] theorem failWith_outside
    (conn : Session (List UInt8))
    (rc : ℤ) :
    (failWith conn rc).2.Outside ↔ conn.Outside := by
  simp [failWith, InstanceData.Outside]

theorem insertCars_durable
    {conn : Session (List UInt8)}
    {rows : List (List UInt8)}
    (hconn : conn.Pending rows)
    (idCar : Nat)
    (car : Nat → Answer)
    (cars : List Car) :
    (insertCars idCar car 0 cars conn).2.durable = conn.durable := by
  rw [insertCars_eq_insertAll]
  exact Session.insertAll_durable hconn _

section Begun

variable {inst : InstanceData} {conn begun : Session (List UInt8)} {c : Call} {p : Train}
  {res : ExecResult}

/-- What a call does that opened its transaction: every `INSERT` completes and `COMMIT` is
sent, or the first one that does not complete ends the call. -/
theorem run_begun_cases
    (hconn : inst.conn = some conn)
    (halive : conn.alive = true)
    (htrain : c.train = some p)
    (hbegin : conn.exec .begin c.replies.begin = (res, begun))
    (hstatus : res.status = .commandOk)
    (hpending : begun.Pending []) :
    (∃ (value : List UInt8) (filled : Session (List UInt8)),
      (∃ last, firstTrouble (c.insertAnswers p) = .done last) ∧
      c.replies.train = .done value ∧
      filled.Pending (trainSql p :: p.written.map (carSql (idCarOf value))) ∧
      filled.durable = begun.durable ∧
      c.run inst =
        if (filled.exec .commit c.replies.commit).1.status ≠ .commandOk then
          failWith (filled.exec .commit c.replies.commit).2 scalesTransactionCommitError
        else (scalesOk, { inst with conn := some (filled.exec .commit c.replies.commit).2 })) ∨
    (∃ failed : Session (List UInt8),
      c.run inst = failWith failed scalesExecuteError ∧ failed.durable = begun.durable ∧
      ((∃ message, firstTrouble (c.insertAnswers p) = .refused message) ∧ failed.Aborted ∨
        (∃ message executed, firstTrouble (c.insertAnswers p) = .lost message executed) ∧
          failed.Outside)) := by
  obtain ⟨res', written, hexec⟩ :
      ∃ res' written, begun.exec (.insertReturning (trainSql p)) c.replies.train = (res', written) :=
    ⟨_, _, rfl⟩
  have hinsert := Session.exec_insert hpending (.insertReturning (trainSql p)) rfl c.replies.train
  have hdurable :=
    Session.exec_insert_durable hpending (.insertReturning (trainSql p)) rfl c.replies.train
  simp only [hexec] at hinsert hdurable
  rcases hinsert with
    ⟨value, htr, rfl, hpending'⟩ | ⟨message, htr, hres, habort⟩ | ⟨message, executed, htr, hres, hout⟩
  · obtain ⟨inserted, filled, hloop⟩ :
        ∃ inserted filled,
          insertCars (idCarOf value) c.replies.car 0 p.written written = (inserted, filled) :=
      ⟨_, _, rfl⟩
    have hcars := insertCars_of_pending hpending' (idCarOf value) c.replies.car p.written
    have hsame := insertCars_durable hpending' (idCarOf value) c.replies.car p.written
    simp only [hloop] at hcars hsame
    have hrun :
        c.run inst =
          if inserted = false then failWith filled scalesExecuteError
          else
            if (filled.exec .commit c.replies.commit).1.status ≠ .commandOk then
              failWith (filled.exec .commit c.replies.commit).2 scalesTransactionCommitError
            else (scalesOk, { inst with conn := some (filled.exec .commit c.replies.commit).2 }) := by
      simp [Call.run, writeTrain, htrain, hconn, halive, hbegin, hstatus, hexec, hloop,
        Statement.completed]
    have htrouble :
        firstTrouble (c.insertAnswers p) =
          firstTrouble ((List.range p.written.length).map c.replies.car) := by
      simp [Call.insertAnswers, htr, firstTrouble]
    rw [htrouble]
    rcases hcars with
      ⟨last, hfirst, rfl, hfilled⟩ | ⟨message, hfirst, rfl, habort⟩ |
      ⟨message, executed, hfirst, rfl, hout⟩
    · exact Or.inl ⟨value, filled, ⟨last, hfirst⟩, htr, hfilled, hsame.trans hdurable, hrun⟩
    · exact Or.inr ⟨filled, hrun, hsame.trans hdurable, Or.inl ⟨⟨message, hfirst⟩, habort⟩⟩
    · exact Or.inr ⟨filled, hrun, hsame.trans hdurable,
        Or.inr ⟨⟨message, executed, hfirst⟩, hout⟩⟩
  · have hrun : c.run inst = failWith written scalesExecuteError := by
      simp [Call.run, writeTrain, htrain, hconn, halive, hbegin, hstatus, hexec, hres]
    have hfirst : firstTrouble (c.insertAnswers p) = .refused message := by
      simp [Call.insertAnswers, htr, firstTrouble]
    exact Or.inr ⟨written, hrun, hdurable, Or.inl ⟨⟨message, hfirst⟩, habort⟩⟩
  · have hrun : c.run inst = failWith written scalesExecuteError := by
      simp [Call.run, writeTrain, htrain, hconn, halive, hbegin, hstatus, hexec, hres]
    have hfirst : firstTrouble (c.insertAnswers p) = .lost message executed := by
      simp [Call.insertAnswers, htr, firstTrouble]
    exact Or.inr ⟨written, hrun, hdurable, Or.inr ⟨⟨message, executed, hfirst⟩, hout⟩⟩

/-- A call that opened its transaction: the first trouble with an `INSERT` decides. -/
theorem run_of_begun
    (hconn : inst.conn = some conn)
    (halive : conn.alive = true)
    (htrain : c.train = some p)
    (hbegin : conn.exec .begin c.replies.begin = (res, begun))
    (hstatus : res.status = .commandOk)
    (hpending : begun.Pending []) :
    ((∃ value, firstTrouble (c.insertAnswers p) = .done value) ∧ (c.run inst).2.Outside ∧
      ((∃ value, c.replies.commit = .done value) → (c.run inst).1 = scalesOk)) ∨
    ((∃ message, firstTrouble (c.insertAnswers p) = .refused message) ∧
      (c.run inst).1 = scalesExecuteError ∧ ¬ (c.run inst).2.Outside) ∨
    ((∃ message executed, firstTrouble (c.insertAnswers p) = .lost message executed) ∧
      (c.run inst).2.Outside) := by
  rcases run_begun_cases hconn halive htrain hbegin hstatus hpending with
    ⟨value, filled, hfirst, -, hfilled, -, hrun⟩ |
    ⟨failed, hrun, -, ⟨hfirst, habort⟩ | ⟨hfirst, hout⟩⟩
  · have hend := Session.exec_commit_outside hfilled.1 c.replies.commit
    refine Or.inl ⟨hfirst, ?_, ?_⟩
    · rw [hrun]
      by_cases hcommit : (filled.exec .commit c.replies.commit).1.status = .commandOk
      · simpa [hcommit, InstanceData.Outside] using hend
      · simpa [hcommit] using hend
    · rintro ⟨answer, hanswer⟩
      have hcommit := (Session.exec_commit_done hfilled answer).1
      rw [hrun]
      simp [hanswer, hcommit]
  · refine Or.inr (Or.inl ⟨hfirst, ?_, ?_⟩)
    · rw [hrun, failWith_fst]
    · rw [hrun, failWith_outside]
      exact habort.not_outside
  · refine Or.inr (Or.inr ⟨hfirst, ?_⟩)
    rw [hrun, failWith_outside]
    exact hout

end Begun

/-- A call outside a transaction stays outside unless an `INSERT` is refused. -/
theorem run_of_outside
    {inst : InstanceData}
    (hinst : inst.Outside)
    (c : Call) :
    (InsertRefused inst c ∧ (c.run inst).1 = scalesExecuteError ∧ ¬ (c.run inst).2.Outside) ∨
    (¬ InsertRefused inst c ∧ (c.run inst).2.Outside) := by
  cases htrain : c.train with
  | none => exact Or.inr ⟨by simp [InsertRefused, htrain], by simpa [Call.run, writeTrain, htrain]⟩
  | some p =>
      cases hconn : inst.conn with
      | none =>
          exact Or.inr ⟨by simp [InsertRefused, hconn], by simpa [Call.run, writeTrain, htrain, hconn]⟩
      | some conn =>
          have hout : conn.Outside := hinst conn (by simp [hconn])
          cases halive : conn.alive with
          | false =>
              refine Or.inr ⟨by simp [InsertRefused, hconn, halive], ?_⟩
              simpa [Call.run, writeTrain, htrain, hconn, halive] using hout
          | true =>
              have hbegin := Session.exec_begin halive hout c.replies.begin
              obtain ⟨res, begun, hexec⟩ :
                  ∃ res begun, conn.exec .begin c.replies.begin = (res, begun) :=
                ⟨_, _, rfl⟩
              simp only [hexec] at hbegin
              rcases hbegin with ⟨value, hdone, hstatus, hpending⟩ | ⟨hnot, hstatus, hbegun⟩
              · rcases run_of_begun hconn halive htrain hexec hstatus hpending with
                  ⟨⟨value', hfirst⟩, hrun, -⟩ | ⟨⟨message, hfirst⟩, hrc, hrun⟩ |
                  ⟨⟨message, executed, hfirst⟩, hrun⟩
                · exact Or.inr ⟨by simp [InsertRefused, hconn, htrain, hfirst], hrun⟩
                · exact
                    Or.inl
                      ⟨⟨conn, p, message, hconn, halive, htrain, ⟨value, hdone⟩, hfirst⟩, hrc, hrun⟩
                · exact Or.inr ⟨by simp [InsertRefused, hconn, htrain, hfirst], hrun⟩
              · refine Or.inr ⟨by simp [InsertRefused, hnot], ?_⟩
                simpa [Call.run, writeTrain, htrain, hconn, halive, hexec, hstatus] using hbegun

theorem firstTrouble_of_done
    {answers : List Answer}
    (hdone : ∀ answer ∈ answers, ∃ value, answer = .done value) :
    ∃ value, firstTrouble answers = .done value := by
  induction answers with
  | nil => exact ⟨[], rfl⟩
  | cons answer rest ih =>
      obtain ⟨value, rfl⟩ := hdone answer (by simp)
      simpa [firstTrouble] using ih fun later hlater => hdone later (by simp [hlater])

/-- Outside a transaction a call with valid data on a live connection succeeds. -/
theorem run_valid
    {inst : InstanceData}
    {conn : Session (List UInt8)}
    {c : Call}
    (hinst : inst.Outside)
    (hconn : inst.conn = some conn)
    (halive : conn.alive = true)
    (hvalid : c.Valid) :
    (c.run inst).1 = scalesOk := by
  obtain ⟨hsome, ⟨value, hbegin⟩, hinserts, hcommit⟩ := hvalid
  obtain ⟨p, htrain⟩ := Option.isSome_iff_exists.mp hsome
  obtain ⟨value', hfirst⟩ := firstTrouble_of_done (hinserts p htrain)
  obtain ⟨res, begun, hexec⟩ : ∃ res begun, conn.exec .begin c.replies.begin = (res, begun) :=
    ⟨_, _, rfl⟩
  have hbegun := Session.exec_begin halive (hinst conn hconn) c.replies.begin
  simp only [hexec] at hbegun
  rcases hbegun with ⟨_, -, hstatus, hpending⟩ | ⟨hnot, -, -⟩
  · rcases run_of_begun hconn halive htrain hexec hstatus hpending with
      ⟨-, -, hok⟩ | ⟨⟨message, htrouble⟩, -⟩ | ⟨⟨message, executed, htrouble⟩, -⟩
    · exact hok hcommit
    · rw [hfirst] at htrouble
      cases htrouble
    · rw [hfirst] at htrouble
      cases htrouble
  · exact absurd hbegin (hnot value)

theorem InstanceData.Outside.restored
    {inst : InstanceData}
    (hinst : inst.Outside) :
    inst.Restored := by
  exact ⟨hinst, fun conn hconn halive next hvalid => run_valid hinst hconn halive hvalid⟩

/-! ### Sequences of calls -/

theorem afterCalls_append_singleton
    (inst : InstanceData)
    (past : List Call)
    (c : Call) :
    afterCalls inst (past ++ [c]) = (c.run (afterCalls inst past)).2 := by
  simp [afterCalls]

/-- While no `INSERT` is refused the calls start outside a transaction. -/
theorem outside_afterCalls
    {inst : InstanceData}
    (hinst : inst.Outside)
    {past : List Call}
    (hkeeps :
      ∀ before c after, past = before ++ c :: after →
        (afterCalls inst before).Outside → (c.run (afterCalls inst before)).2.Outside) :
    (afterCalls inst past).Outside := by
  induction past using List.reverseRecOn with
  | nil => exact hinst
  | append_singleton past c ih =>
      have hpast : (afterCalls inst past).Outside := by
        apply ih
        intro before d after hsplit
        exact hkeeps before d (after ++ [c]) (by simp [hsplit])
      rw [afterCalls_append_singleton]
      exact hkeeps past c [] rfl hpast

/-- The errors of a sequence restore the session exactly when no call has an `INSERT`
refused over a connection that stays up. -/
theorem errorsRestore_iff
    (inst : InstanceData)
    (hinst : inst.Outside)
    (calls : List Call) :
    ErrorsRestore inst calls ↔
      ∀ past c later, calls = past ++ c :: later → ¬ InsertRefused (afterCalls inst past) c := by
  constructor
  · intro hrestore past c later hcalls hrefused
    have hout : (afterCalls inst past).Outside := by
      apply outside_afterCalls hinst
      intro before d after hsplit hbefore
      rcases run_of_outside hbefore d with ⟨-, hrc, -⟩ | ⟨-, hrun⟩
      · have herror : (d.run (afterCalls inst before)).1 ≠ scalesOk := by
          rw [hrc]
          decide
        exact (hrestore before d (after ++ c :: later) (by simp [hcalls, hsplit]) herror).1
      · exact hrun
    rcases run_of_outside hout c with ⟨-, hrc, hrun⟩ | ⟨hnot, -⟩
    · have herror : (c.run (afterCalls inst past)).1 ≠ scalesOk := by
        rw [hrc]
        decide
      exact hrun (hrestore past c later hcalls herror).1
    · exact hnot hrefused
  · intro hnone past c later hcalls _
    have hkeeps :
        ∀ before d after, past ++ [c] = before ++ d :: after →
          (afterCalls inst before).Outside → (d.run (afterCalls inst before)).2.Outside := by
      intro before d after hsplit hbefore
      rcases run_of_outside hbefore d with ⟨hrefused, -⟩ | ⟨-, hrun⟩
      · refine absurd hrefused (hnone before d (after ++ later) ?_)
        rw [hcalls, ← List.singleton_append, ← List.append_assoc, hsplit]
        simp
      · exact hrun
    have hafter := outside_afterCalls hinst hkeeps
    rw [afterCalls_append_singleton] at hafter
    exact hafter.restored

/-- A connection just opened. -/
def justConnected : InstanceData where
  conn := some { alive := true, transaction := .idle, durable := [], message := [] }
  strError := none

def noon : Tm := ⟨116, 11, 14, 12, 0, 0⟩

/-- A train with one car. -/
def oneCarTrain : Train where
  num := 7
  mode := 0x53
  modeAuto := 0x41
  direct := (0x4c, 0x52)
  startWeighing := noon
  finishWeighing := noon
  typeWeighing := 0x42
  cntCar := 1
  weight := 80000
  result := 0
  error := none
  cars := [⟨1, 0x42, 80000, .finite 0, 0, none⟩]
  cars_held := by decide

def oneCarCall (begin car : Answer) : Call where
  train := some oneCarTrain
  replies := ⟨begin, .done [0x31], fun _ => car, .done []⟩
  plain := by simp [Train.Plain, oneCarTrain]

/-- `BEGIN` is refused, then a train is written. -/
theorem begin_refused_restores :
    justConnected.Outside ∧
      ErrorsRestore justConnected
        [oneCarCall (.refused []) (.done []), oneCarCall (.done []) (.done [])] := by
  have hout : justConnected.Outside := by
    intro conn hconn
    cases hconn
    rfl
  refine ⟨hout, (errorsRestore_iff _ hout _).mpr ?_⟩
  rintro past c later hcalls ⟨conn, p, message, -, -, hp, -, hfirst⟩
  have hc : c ∈ [oneCarCall (.refused []) (.done []), oneCarCall (.done []) (.done [])] := by
    simp [hcalls]
  obtain ⟨begin, rfl⟩ : ∃ begin, c = oneCarCall begin (.done []) := by
    rcases List.mem_pair.mp hc with rfl | rfl
    · exact ⟨_, rfl⟩
    · exact ⟨_, rfl⟩
  cases hp
  cases hfirst

/-- The `INSERT` of a car is refused: the next call cannot begin. -/
theorem car_refused_blocks :
    ((oneCarCall (.done []) (.refused [])).run justConnected).1 = scalesExecuteError ∧
    ((oneCarCall (.done []) (.done [])).run
      ((oneCarCall (.done []) (.refused [])).run justConnected).2).1 =
        scalesTransactionBeginError ∧
    ¬ ErrorsRestore justConnected [oneCarCall (.done []) (.refused [])] := by
  refine ⟨rfl, rfl, fun hrestore => ?_⟩
  have herror :
      ((oneCarCall (.done []) (.refused [])).run (afterCalls justConnected [])).1 ≠ scalesOk := by
    decide
  have hrestored := hrestore [] _ [] rfl herror
  cases hrestored.1 _ rfl

end Postgres
end MatrixBin
