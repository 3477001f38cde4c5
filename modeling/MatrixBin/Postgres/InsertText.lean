import MatrixBin.Library.SqlLiteral
import MatrixBin.Postgres.WriteTrain

/-!
# The texts of the `INSERT` statements (`postgreSQL_scales.c`)

`writeTrain` prints the fields of a train, and of each car, into the text of a statement.  The
formats put the characters and the error texts between quotes as they are, print every `int` of
a `%u` as an unsigned number, and `snprintf` cuts what does not fit into `str_sql`.

`insertTexts_iff` says for every train and every car when the text is one complete statement,
with one value for each column that denotes the field.  A time is denoted by its six numbers, a
speed by a number that differs by half a decimal at most.
-/

namespace MatrixBin
namespace Postgres

open Library

/-- The value of a finite `float`. -/
def Speed.value : Speed → Option ℚ
  | .finite value => some value
  | .negativeZero => some 0
  | .infinite _ => none
  | .nan _ => none

/-- The numbers of a time. -/
def Tm.numbers (t : Tm) : List ℤ := [t.year + 1900, t.mon + 1, t.mday, t.hour, t.min, t.sec]

/-- The bytes between the numbers. -/
def tmSeparators : List UInt8 := [0x2d, 0x2d, 0x20, 0x3a, 0x3a]

/-- A value of a statement: a number that is printed as it is, one for `%u`, a speed, bytes
between quotes, or a time between quotes. -/
inductive Column
  | number (n : ℤ)
  | unsigned (n : ℤ)
  | speed (value : Speed)
  | quoted (bytes : List UInt8)
  | time (t : Tm)

def Column.print : Column → List UInt8
  | .number n => printInt n
  | .unsigned n => printUnsigned n
  | .speed value => printSpeed value
  | .quoted bytes => sqlQuote :: (bytes ++ [sqlQuote])
  | .time t => sqlQuote :: (printTm t ++ [sqlQuote])

def printColumns : List Column → List UInt8
  | [] => []
  | [c] => c.print ++ [sqlClose]
  | c :: d :: rest => c.print ++ sqlComma :: printColumns (d :: rest)

def trainColumns (p : Train) : List Column :=
  [.unsigned p.num, .quoted [p.mode], .quoted [p.modeAuto], .quoted [p.direct.1, p.direct.2],
    .time p.startWeighing, .time p.finishWeighing, .quoted [p.typeWeighing], .unsigned p.cntCar,
    .number p.weight, .number p.result, .quoted (p.error.getD [])]

def carColumns (idCar : Nat) (c : Car) : List Column :=
  [.number idCar, .unsigned c.num, .quoted [c.carType], .number c.weight, .speed c.speed,
    .number c.result, .quoted (c.error.getD [])]

/-- What stands in front of the values, and behind them. -/
def trainHead : List UInt8 :=
  ascii "INSERT INTO train (num,mode,mode_auto,direct,start_weighing,finish_weighing," ++
    ascii "type_weighing,cnt_car,weight,result,error) VALUES ("

def trainTail : List UInt8 := ascii " RETURNING id"

def carHead : List UInt8 :=
  ascii "INSERT INTO car (train_id,num,car_type,weight,speed,result,error) VALUES ("

/-! ### What a text says -/

/-- The value denotes the field. -/
def Column.DenotedBy : Column → SqlLiteral → Prop
  | .number n, .number v => v = n
  | .unsigned n, .number v => v = n
  | .speed value, .number v => ∃ q, value.value = some q ∧ |v - q| ≤ 1 / (2 * 10 ^ 1)
  | .quoted bytes, .text s => s = bytes
  | .time t, .text s => ∃ ns, readRuns tmSeparators s = some ns ∧ ns.map Nat.cast = t.numbers
  | _, _ => False

/-- The text is one statement whose values denote the fields. -/
def IsInsert (head tail : List UInt8) (columns : List Column) (text : List UInt8) : Prop :=
  ∃ body values, text = head ++ body ∧ readLiterals columns.length body = some (values, tail) ∧
    List.Forall₂ Column.DenotedBy columns values

/-- A number that `%u` prints as it is. -/
def IsUnsigned (n : ℤ) : Prop := 0 ≤ n ∧ n < 2 ^ 32

/-- A byte that may stand between quotes. -/
def IsPlain (b : UInt8) : Prop := b ≠ sqlQuote ∧ b ≠ 0

/-- The format can spell the value. -/
def Column.Spelled : Column → Prop
  | .number _ => True
  | .unsigned n => IsUnsigned n
  | .speed value => ∃ q, value.value = some q
  | .quoted bytes => ∀ b ∈ bytes, IsPlain b
  | .time t => ∀ n ∈ t.numbers, IsUnsigned n

/-- The format can spell the train, and the statement fits into the buffer. -/
structure Train.Spelled (p : Train) : Prop where
  plain : ∀ b ∈ [p.mode, p.modeAuto, p.direct.1, p.direct.2, p.typeWeighing] ++ p.error.getD [],
    IsPlain b
  unsigned : ∀ n ∈ [p.num, p.cntCar] ++ p.startWeighing.numbers ++ p.finishWeighing.numbers,
    IsUnsigned n
  room : (printUnsigned p.num).length + (printTm p.startWeighing).length +
    (printTm p.finishWeighing).length + (printUnsigned p.cntCar).length +
    (printInt p.weight).length + (printInt p.result).length + (p.error.getD []).length ≤ 853

/-- The same for a car. -/
structure Car.Spelled (c : Car) (idCar : Nat) : Prop where
  plain : ∀ b ∈ c.carType :: c.error.getD [], IsPlain b
  unsigned : IsUnsigned c.num
  finite : ∃ q, c.speed.value = some q
  room : (printNat idCar).length + (printUnsigned c.num).length + (printInt c.weight).length +
    (printSpeed c.speed).length + (printInt c.result).length + (c.error.getD []).length ≤ 937

section InsertText

variable {c : Column} {columns : List Column} {b : UInt8} {head tail rest r : List UInt8}

/-! ### The texts are printed columns -/

theorem ascii_minus : ascii "-" = [0x2d] := by decide +kernel

theorem ascii_space : ascii " " = [0x20] := by decide +kernel

theorem ascii_colon : ascii ":" = [0x3a] := by decide +kernel

theorem ascii_comma : ascii "," = [sqlComma] := by decide +kernel

theorem ascii_open : ascii ",'" = [sqlComma, sqlQuote] := by decide +kernel

theorem ascii_close : ascii "'," = [sqlQuote, sqlComma] := by decide +kernel

theorem printColumns_cons
    (hne : columns ≠ [])
    (c : Column) :
    printColumns (c :: columns) = c.print ++ sqlComma :: printColumns columns := by
  obtain ⟨d, rest, rfl⟩ := List.exists_cons_of_ne_nil hne
  rfl

theorem trainSql_eq
    (p : Train) :
    trainSql p = strSql (trainHead ++ printColumns (trainColumns p) ++ trainTail) := by
  have hbetween : ascii "','" = [sqlQuote, sqlComma, sqlQuote] := by decide +kernel
  have htail : ascii "') RETURNING id" = sqlQuote :: sqlClose :: trainTail := by decide +kernel
  rw [trainSql, ascii_open, hbetween, ascii_close, ascii_comma, htail]
  simp [printColumns, trainColumns, Column.print, trainHead]

theorem carSql_eq
    (idCar : Nat)
    (c : Car) :
    carSql idCar c = strSql (carHead ++ printColumns (carColumns idCar c) ++ []) := by
  have htail : ascii "')" = [sqlQuote, sqlClose] := by decide +kernel
  have hid : printInt idCar = printNat idCar := by simp [printInt]
  rw [carSql, ascii_open, ascii_close, ascii_comma, htail, ← hid]
  simp [printColumns, carColumns, Column.print, carHead]

/-! ### Reading a printed value -/

/-- What ends a value neither continues a number nor a text. -/
theorem ends_value
    (hb : b = sqlComma ∨ b = sqlClose) :
    isDigit b = false ∧ b ≠ 0x2e ∧ b ≠ sqlQuote := by
  rcases hb with rfl | rfl
  · decide
  · decide

theorem readLiteral_printNat
    (hb : b = sqlComma ∨ b = sqlClose)
    (n : Nat) :
    readLiteral (printNat n ++ b :: rest) = some (.number n, b :: rest) := by
  obtain ⟨hdigit, hpoint, -⟩ := ends_value hb
  have hread := readLiteral_digits false (printNat_ne_nil n)
    (fun _ => isDigit_of_mem_printNat) hdigit hpoint rest
  simpa [digitsValue_printNat] using hread

theorem readLiteral_printInt
    (hb : b = sqlComma ∨ b = sqlClose)
    (n : ℤ) :
    readLiteral (printInt n ++ b :: rest) = some (.number n, b :: rest) := by
  obtain ⟨hdigit, hpoint, -⟩ := ends_value hb
  have hread := readLiteral_digits (decide (n < 0)) (printNat_ne_nil n.natAbs)
    (fun _ => isDigit_of_mem_printNat) hdigit hpoint rest
  rw [digitsValue_printNat] at hread
  have htext : printInt n ++ b :: rest =
      (if decide (n < 0) then [0x2d] else []) ++ (printNat n.natAbs ++ b :: rest) := by
    rw [printInt, ascii_minus, List.append_assoc]
    simp
  rw [htext, hread]
  congr 3
  by_cases hneg : n < 0
  · rw [if_pos (decide_eq_true hneg), Nat.cast_natAbs, abs_of_neg hneg]
    simp
  · rw [if_neg (by simpa using hneg), Nat.cast_natAbs, abs_of_nonneg (not_lt.mp hneg)]

/-- A finite speed, and one that is not. -/
theorem readLiteral_printSpeed
    (hb : b = sqlComma ∨ b = sqlClose)
    (value : Speed)
    (rest : List UInt8) :
    (∃ q v, value.value = some q ∧ |v - q| ≤ 1 / (2 * 10 ^ 1) ∧
      readLiteral (printSpeed value ++ b :: rest) = some (.number v, b :: rest)) ∨
    value.value = none ∧ readLiteral (printSpeed value ++ b :: rest) = none := by
  obtain ⟨hdigit, -, -⟩ := ends_value hb
  have hinf : ascii "inf" = [0x69, 0x6e, 0x66] := by decide +kernel
  have hnan : ascii "nan" = [0x6e, 0x61, 0x6e] := by decide +kernel
  cases value with
  | finite q =>
      obtain ⟨v, hread, hclose⟩ := readLiteral_printFixed Nat.one_pos q hdigit rest
      exact Or.inl ⟨q, v, rfl, hclose, hread⟩
  | negativeZero =>
      have htext : printFixed 1 0 = [0x30, 0x2e, 0x30] := by
        simp [printFixed, roundHalfEven, printNat, printPadded]
      refine Or.inl ⟨0, 0, rfl, by simp, ?_⟩
      have hparts : numberParts ([0x2d] ++ [0x30, 0x2e, 0x30] ++ b :: rest) =
          ⟨true, [0x30], [0x30], b :: rest⟩ := by
        simp [numberParts, isSpace, readSign, isDigit_iff, readFraction, hdigit]
      rw [printSpeed, ascii_minus, htext, readLiteral_of_whole (by rw [hparts]; simp), hparts]
      have hzero : digitsValue [0x30, 0x30] = 0 := digitsValue_zeros 2
      simp [NumberParts.value, hzero]
  | infinite negative =>
      refine Or.inr ⟨rfl, ?_⟩
      rw [printSpeed, ascii_minus, hinf]
      cases negative <;>
        simp [readLiteral, numberParts, sqlQuote, isSpace, readSign, isDigit]
  | nan negative =>
      refine Or.inr ⟨rfl, ?_⟩
      rw [printSpeed, ascii_minus, hnan]
      cases negative <;>
        simp [readLiteral, numberParts, sqlQuote, isSpace, readSign, isDigit]

theorem readLiteral_quoted
    (s : List UInt8) :
    readLiteral (sqlQuote :: (s ++ [sqlQuote]) ++ b :: rest) =
      (readQuoted (s ++ sqlQuote :: b :: rest)).map fun u => (.text u.1, u.2) := by
  rw [List.cons_append, readLiteral, if_pos rfl, List.append_assoc, List.singleton_append]

/-! ### Times -/

theorem mem_printTm
    {t : Tm}
    (hb : b ∈ printTm t) :
    isDigit b = true ∨ b ∈ tmSeparators := by
  rw [printTm, ascii_minus, ascii_space, ascii_colon] at hb
  simp only [List.mem_append, List.mem_singleton] at hb
  by_cases hdigit : isDigit b = true
  · exact Or.inl hdigit
  · have hfield : ∀ width n, b ∉ printPadded width n := fun _ _ hmem =>
      hdigit (isDigit_of_mem_printPadded hmem)
    simp only [hfield, false_or, or_false] at hb
    refine Or.inr ?_
    simp only [tmSeparators, List.mem_cons, List.not_mem_nil, or_false]
    tauto

theorem readRuns_printTm
    (t : Tm) :
    readRuns tmSeparators (printTm t) =
      some (t.numbers.map fun n => (n % 2 ^ 32).toNat) := by
  rw [printTm, ascii_minus, ascii_space, ascii_colon, tmSeparators]
  simp only [List.append_assoc, List.cons_append, List.nil_append]
  rw [readRuns_printPadded rfl, readRuns_printPadded rfl, readRuns_printPadded rfl,
    readRuns_printPadded rfl, readRuns_printPadded rfl, readRuns_last]
  rfl

theorem isUnsigned_iff
    (n : ℤ) :
    IsUnsigned n ↔ ((n % 2 ^ 32).toNat : ℤ) = n := by
  rw [IsUnsigned]
  omega

theorem numbers_unsigned_iff
    (t : Tm) :
    (∀ n ∈ t.numbers, IsUnsigned n) ↔
      (t.numbers.map fun n => (n % 2 ^ 32).toNat).map Nat.cast = t.numbers := by
  have hall : ∀ ns : List ℤ, (∀ n ∈ ns, IsUnsigned n) ↔
      (ns.map fun n => (n % 2 ^ 32).toNat).map (Nat.cast : ℕ → ℤ) = ns := by
    intro ns
    induction ns with
    | nil => simp
    | cons n ns ih =>
        rw [List.forall_mem_cons, ih, isUnsigned_iff, List.map_cons, List.map_cons, List.cons.injEq]
  exact hall t.numbers

theorem not_quote_mem_printTm
    (t : Tm) :
    sqlQuote ∉ printTm t := by
  intro hmem
  rcases mem_printTm hmem with hdigit | hsep
  · exact absurd hdigit (by decide)
  · exact absurd hsep (by decide)

/-! ### One value -/

/-- A value that the format can spell is read, and denotes the field. -/
theorem Column.exists_read
    (hb : b = sqlComma ∨ b = sqlClose)
    (h : c.Spelled)
    (rest : List UInt8) :
    ∃ v, readLiteral (c.print ++ b :: rest) = some (v, b :: rest) ∧ c.DenotedBy v := by
  have hquote := (ends_value hb).2.2
  cases c with
  | number n => exact ⟨_, readLiteral_printInt hb n, rfl⟩
  | unsigned n =>
      refine ⟨_, readLiteral_printNat hb _, ?_⟩
      have hn : ((n % 2 ^ 32).toNat : ℚ) = n := by exact_mod_cast (isUnsigned_iff n).mp h
      exact hn
  | speed value =>
      rcases readLiteral_printSpeed hb value rest with ⟨q, v, hq, hclose, hread⟩ | ⟨hno, -⟩
      · exact ⟨_, hread, q, hq, hclose⟩
      · obtain ⟨q, hq⟩ := h
        exact absurd (hno.symm.trans hq) (by simp)
  | quoted bytes =>
      have hplain : sqlQuote ∉ bytes := fun hmem => (h _ hmem).1 rfl
      refine ⟨.text bytes, ?_, rfl⟩
      rw [Column.print, readLiteral_quoted, readQuoted_plain hplain hquote, Option.map_some]
  | time t =>
      refine ⟨.text (printTm t), ?_, _, readRuns_printTm t, (numbers_unsigned_iff t).mp h⟩
      rw [Column.print, readLiteral_quoted, readQuoted_plain (not_quote_mem_printTm t) hquote,
        Option.map_some]

/-- A value that is read and denotes the field is one that the format can spell. -/
theorem Column.of_read
    (hb : b = sqlComma ∨ b = sqlClose)
    {v : SqlLiteral}
    (hread : readLiteral (c.print ++ b :: rest) = some (v, r))
    (hdenotes : c.DenotedBy v) :
    r = b :: rest ∧ (0 ∉ c.print → c.Spelled) := by
  have hquote := (ends_value hb).2.2
  cases c with
  | number n =>
      rw [Column.print, readLiteral_printInt hb n] at hread
      obtain ⟨rfl, rfl⟩ := Prod.mk.inj (Option.some.inj hread)
      exact ⟨rfl, fun _ => trivial⟩
  | unsigned n =>
      rw [Column.print, printUnsigned, readLiteral_printNat hb] at hread
      obtain ⟨rfl, rfl⟩ := Prod.mk.inj (Option.some.inj hread)
      refine ⟨rfl, fun _ => (isUnsigned_iff n).mpr ?_⟩
      have hn : ((n % 2 ^ 32).toNat : ℚ) = n := hdenotes
      exact_mod_cast hn
  | speed value =>
      rcases readLiteral_printSpeed hb value rest with ⟨q, w, hq, -, hread'⟩ | ⟨-, hread'⟩
      · obtain ⟨-, rfl⟩ := Prod.mk.inj (Option.some.inj (hread'.symm.trans hread))
        exact ⟨rfl, fun _ => ⟨q, hq⟩⟩
      · exact absurd (hread'.symm.trans hread) (by simp)
  | quoted bytes =>
      rw [Column.print, readLiteral_quoted] at hread
      obtain ⟨⟨s, u⟩, hs, hnext⟩ := Option.map_eq_some_iff.mp hread
      obtain ⟨rfl, rfl⟩ := Prod.mk.inj hnext
      obtain rfl : s = bytes := hdenotes
      obtain ⟨hplain, hrest⟩ := (readQuoted_eq_iff hquote).mp hs
      refine ⟨hrest, fun hzero a ha => ⟨fun heq => hplain (heq ▸ ha), fun heq => hzero ?_⟩⟩
      rw [Column.print, ← heq]
      exact List.mem_cons_of_mem _ (List.mem_append_left _ ha)
  | time t =>
      rw [Column.print, readLiteral_quoted, readQuoted_plain (not_quote_mem_printTm t) hquote]
        at hread
      obtain ⟨rfl, rfl⟩ := Prod.mk.inj (Option.some.inj hread)
      obtain ⟨ns, hns, hnumbers⟩ := hdenotes
      obtain rfl := Option.some.inj ((readRuns_printTm t).symm.trans hns)
      exact ⟨rfl, fun _ => (numbers_unsigned_iff t).mpr hnumbers⟩

theorem zero_not_mem_printSpeed
    (value : Speed) :
    0 ∉ printSpeed value := by
  have hfixed : ∀ q, 0 ∉ printFixed 1 q := by
    intro q hmem
    rcases mem_printFixed hmem with hdigit | hminus | hpoint
    · exact absurd hdigit (by decide)
    · exact absurd hminus (by decide)
    · exact absurd hpoint (by decide)
  have hsign : ∀ negative, 0 ∉ if negative = true then ascii "-" else [] := by
    intro negative
    rw [ascii_minus]
    cases negative <;> decide
  cases value with
  | finite q => exact hfixed q
  | negativeZero =>
      rw [printSpeed, ascii_minus, List.mem_append, not_or]
      exact ⟨by decide, hfixed 0⟩
  | infinite negative =>
      rw [printSpeed, List.mem_append, not_or]
      exact ⟨hsign negative, by decide +kernel⟩
  | nan negative =>
      rw [printSpeed, List.mem_append, not_or]
      exact ⟨hsign negative, by decide +kernel⟩

theorem Column.zero_not_mem
    (h : c.Spelled) :
    0 ∉ c.print := by
  have hnat : ∀ n, 0 ∉ printNat n := fun n hmem =>
    absurd (isDigit_of_mem_printNat hmem) (by decide)
  have hquoted : ∀ s : List UInt8, 0 ∉ s → 0 ∉ sqlQuote :: (s ++ [sqlQuote]) := by
    intro s hs
    simpa [sqlQuote] using hs
  cases c with
  | number n =>
      rw [Column.print, printInt, ascii_minus, List.mem_append, not_or]
      exact ⟨by split <;> decide, hnat _⟩
  | unsigned n => exact hnat _
  | speed value => exact zero_not_mem_printSpeed value
  | quoted bytes => exact hquoted bytes fun hmem => (h 0 hmem).2 rfl
  | time t =>
      refine hquoted _ fun hmem => ?_
      rcases mem_printTm hmem with hdigit | hsep
      · exact absurd hdigit (by decide)
      · exact absurd hsep (by decide)

/-! ### The values of a statement -/

theorem exists_readLiterals
    (hne : columns ≠ [])
    (h : ∀ c ∈ columns, c.Spelled)
    (tail : List UInt8) :
    ∃ values, readLiterals columns.length (printColumns columns ++ tail) = some (values, tail) ∧
      List.Forall₂ Column.DenotedBy columns values := by
  induction columns with
  | nil => exact absurd rfl hne
  | cons c columns ih =>
      obtain ⟨hc, hmore⟩ := List.forall_mem_cons.mp h
      by_cases hlast : columns = []
      · subst hlast
        obtain ⟨v, hread, hdenotes⟩ := c.exists_read (Or.inr rfl) hc tail
        refine ⟨[v], ?_, .cons hdenotes .nil⟩
        rw [printColumns, List.append_assoc, List.singleton_append]
        exact readLiterals_close hread
      · obtain ⟨values, hvalues, hdenote⟩ := ih hlast hmore
        obtain ⟨v, hread, hdenotes⟩ :=
          c.exists_read (Or.inl rfl) hc (printColumns columns ++ tail)
        refine ⟨v :: values, ?_, .cons hdenotes hdenote⟩
        rw [printColumns_cons hlast, List.append_assoc, List.cons_append, List.length_cons,
          readLiterals_comma hread, hvalues, Option.map_some]

theorem of_readLiterals
    (hne : columns ≠ [])
    {values : List SqlLiteral}
    (hread : readLiterals columns.length (printColumns columns ++ tail) = some (values, r))
    (hdenote : List.Forall₂ Column.DenotedBy columns values) :
    r = tail ∧ (0 ∉ printColumns columns → ∀ c ∈ columns, c.Spelled) := by
  induction hdenote generalizing r with
  | nil => exact absurd rfl hne
  | @cons c v columns values hdenotes hdenote ih =>
      obtain ⟨w, b, t, hw, hend⟩ := readLiterals_cases hread
      by_cases hlast : columns = []
      · subst hlast
        rw [printColumns, List.append_assoc, List.singleton_append] at hw
        rcases hend with ⟨-, more, hnone, -⟩ | ⟨-, hvalue, rfl⟩
        · exact absurd hnone (by simp [readLiterals])
        · obtain ⟨rfl, -⟩ := List.cons.inj hvalue
          obtain ⟨htail, hc⟩ := c.of_read (Or.inr rfl) hw hdenotes
          refine ⟨(List.cons.inj htail).2, fun hzero => List.forall_mem_singleton.mpr (hc ?_)⟩
          exact fun hmem => hzero (List.mem_append_left _ hmem)
      · rw [printColumns_cons hlast, List.append_assoc, List.cons_append] at hw
        rcases hend with ⟨-, more, hmore, hvalue⟩ | ⟨rfl, hvalue, -⟩
        · obtain ⟨rfl, rfl⟩ := List.cons.inj hvalue
          obtain ⟨hrest, hc⟩ := c.of_read (Or.inl rfl) hw hdenotes
          rw [(List.cons.inj hrest).2] at hmore
          obtain ⟨htail, hcolumns⟩ := ih hlast hmore
          refine ⟨htail, fun hzero => ?_⟩
          rw [printColumns_cons hlast, List.mem_append, not_or, List.mem_cons, not_or] at hzero
          exact List.forall_mem_cons.mpr ⟨hc hzero.1, hcolumns hzero.2.2⟩
        · obtain ⟨rfl, -⟩ := List.cons.inj hvalue
          obtain ⟨hrest, -⟩ := c.of_read (Or.inl rfl) hw hdenotes
          exact absurd (List.cons.inj hrest).1 (by decide)

theorem zero_not_mem_printColumns
    (h : ∀ c ∈ columns, c.Spelled) :
    0 ∉ printColumns columns := by
  induction columns with
  | nil => exact List.not_mem_nil
  | cons c columns ih =>
      obtain ⟨hc, hmore⟩ := List.forall_mem_cons.mp h
      by_cases hlast : columns = []
      · subst hlast
        rw [printColumns, List.mem_append, not_or]
        exact ⟨c.zero_not_mem hc, by decide⟩
      · rw [printColumns_cons hlast, List.mem_append, not_or, List.mem_cons, not_or]
        exact ⟨c.zero_not_mem hc, by decide, ih hmore⟩

theorem length_printColumns
    (columns : List Column) :
    (printColumns columns).length = (columns.map fun c => c.print.length + 1).sum := by
  induction columns with
  | nil => rfl
  | cons c columns ih =>
      by_cases hlast : columns = []
      · subst hlast
        simp [printColumns]
      · rw [printColumns_cons hlast, List.length_append, List.length_cons, ih, List.map_cons,
          List.sum_cons]
        omega

/-! ### The text in the buffer -/

theorem exists_cut
    (text : List UInt8) :
    ∃ cut, text = strSql text ++ cut := by
  obtain ⟨cut, hcut⟩ :=
    (List.takeWhile_prefix (· ≠ 0)).trans (List.take_prefix (maxStrSql - 1) text)
  exact ⟨cut, hcut.symm⟩

theorem strSql_eq_self_iff
    (text : List UInt8) :
    strSql text = text ↔ text.length < maxStrSql ∧ 0 ∉ text := by
  constructor
  · intro h
    refine ⟨?_, ?_⟩
    · have hlen : (strSql text).length ≤ maxStrSql - 1 :=
        (List.takeWhile_prefix _).length_le.trans (List.length_take_le _ _)
      rw [h] at hlen
      have hpos : 0 < maxStrSql := by decide
      omega
    · rw [← h]
      intro hmem
      exact absurd (List.mem_takeWhile_imp hmem) (by simp)
  · rintro ⟨hlen, hzero⟩
    rw [strSql, List.take_of_length_le (Nat.le_sub_one_of_lt hlen), List.takeWhile_eq_self_iff]
    intro b hb
    exact decide_eq_true fun heq => hzero (heq ▸ hb)

/-- A statement is complete, and its values denote the fields, exactly if the format can spell
all of them and the text fits into the buffer. -/
theorem isInsert_iff
    (hhead : 0 ∉ head)
    (htail : 0 ∉ tail)
    (hne : columns ≠ []) :
    IsInsert head tail columns (strSql (head ++ printColumns columns ++ tail)) ↔
      (∀ c ∈ columns, c.Spelled) ∧
        head.length + (columns.map fun c => c.print.length + 1).sum + tail.length < maxStrSql := by
  have hlen : (head ++ printColumns columns ++ tail).length =
      head.length + (columns.map fun c => c.print.length + 1).sum + tail.length := by
    rw [List.length_append, List.length_append, length_printColumns]
  rw [← hlen]
  constructor
  · rintro ⟨body, values, htext, hread, hdenote⟩
    obtain ⟨cut, hcut⟩ := exists_cut (head ++ printColumns columns ++ tail)
    -- what was cut away comes behind the last value
    have hbody : printColumns columns ++ tail = body ++ cut := by
      rw [htext, List.append_assoc, List.append_assoc] at hcut
      exact List.append_cancel_left hcut
    have hfull := readLiterals_append hread cut
    rw [← hbody] at hfull
    obtain ⟨hnone, hspelled⟩ := of_readLiterals hne hfull hdenote
    have hwhole : cut = [] := List.append_right_eq_self.mp hnone
    rw [hwhole, List.append_nil] at hcut
    obtain ⟨hroom, hzero⟩ := (strSql_eq_self_iff _).mp hcut.symm
    refine ⟨hspelled fun hmem => hzero ?_, hroom⟩
    exact List.mem_append_left _ (List.mem_append_right _ hmem)
  · rintro ⟨hspelled, hroom⟩
    have hzero : 0 ∉ head ++ printColumns columns ++ tail := by
      rw [List.mem_append, List.mem_append, not_or, not_or]
      exact ⟨⟨hhead, zero_not_mem_printColumns hspelled⟩, htail⟩
    obtain ⟨values, hread, hdenote⟩ := exists_readLiterals hne hspelled tail
    refine ⟨_, values, ?_, hread, hdenote⟩
    rw [(strSql_eq_self_iff _).mpr ⟨hroom, hzero⟩, List.append_assoc]

/-! ### Trains and cars -/

theorem trainColumns_spelled_iff
    (p : Train) :
    (∀ c ∈ trainColumns p, c.Spelled) ↔
      (∀ b ∈ [p.mode, p.modeAuto, p.direct.1, p.direct.2, p.typeWeighing] ++ p.error.getD [],
        IsPlain b) ∧
      ∀ n ∈ [p.num, p.cntCar] ++ p.startWeighing.numbers ++ p.finishWeighing.numbers,
        IsUnsigned n := by
  simp only [trainColumns, List.forall_mem_cons, List.forall_mem_append, Column.Spelled,
    List.not_mem_nil, false_imp_iff, implies_true, and_true]
  tauto

theorem carColumns_spelled_iff
    (idCar : Nat)
    (c : Car) :
    (∀ d ∈ carColumns idCar c, d.Spelled) ↔
      (∀ b ∈ c.carType :: c.error.getD [], IsPlain b) ∧ IsUnsigned c.num ∧
        ∃ q, c.speed.value = some q := by
  simp only [carColumns, List.forall_mem_cons, Column.Spelled, List.not_mem_nil, false_imp_iff,
    implies_true, and_true, true_and]
  tauto

theorem trainSql_isInsert_iff
    (p : Train) :
    IsInsert trainHead trainTail (trainColumns p) (trainSql p) ↔ p.Spelled := by
  have hhead : 0 ∉ trainHead := by decide +kernel
  have htail : 0 ∉ trainTail := by decide +kernel
  have hfixed : trainHead.length = 127 ∧ trainTail.length = 13 := by decide +kernel
  have hroom : trainHead.length + ((trainColumns p).map fun c => c.print.length + 1).sum +
      trainTail.length < maxStrSql ↔
      (printUnsigned p.num).length + (printTm p.startWeighing).length +
        (printTm p.finishWeighing).length + (printUnsigned p.cntCar).length +
        (printInt p.weight).length + (printInt p.result).length + (p.error.getD []).length ≤ 853 := by
    rw [hfixed.1, hfixed.2]
    simp only [trainColumns, Column.print, maxStrSql, List.map_cons, List.map_nil, List.sum_cons,
      List.sum_nil, List.length_cons, List.length_append, List.length_nil]
    omega
  have hne : trainColumns p ≠ [] := List.cons_ne_nil _ _
  rw [trainSql_eq, isInsert_iff hhead htail hne, trainColumns_spelled_iff, hroom]
  exact ⟨fun h => ⟨h.1.1, h.1.2, h.2⟩, fun h => ⟨⟨h.plain, h.unsigned⟩, h.room⟩⟩

theorem carSql_isInsert_iff
    (idCar : Nat)
    (c : Car) :
    IsInsert carHead [] (carColumns idCar c) (carSql idCar c) ↔ c.Spelled idCar := by
  have hhead : 0 ∉ carHead := by decide +kernel
  have hfixed : carHead.length = 74 := by decide +kernel
  have hid : printInt idCar = printNat idCar := by simp [printInt]
  have hroom : carHead.length + ((carColumns idCar c).map fun d => d.print.length + 1).sum +
      ([] : List UInt8).length < maxStrSql ↔
      (printNat idCar).length + (printUnsigned c.num).length + (printInt c.weight).length +
        (printSpeed c.speed).length + (printInt c.result).length + (c.error.getD []).length ≤
          937 := by
    rw [hfixed]
    simp only [carColumns, Column.print, maxStrSql, List.map_cons, List.map_nil, List.sum_cons,
      List.sum_nil, List.length_cons, List.length_append, List.length_nil, hid]
    omega
  have hne : carColumns idCar c ≠ [] := List.cons_ne_nil _ _
  rw [carSql_eq, isInsert_iff hhead List.not_mem_nil hne, carColumns_spelled_iff, hroom]
  exact ⟨fun h => ⟨h.1.1, h.1.2.1, h.1.2.2, h.2⟩,
    fun h => ⟨⟨h.plain, h.unsigned, h.finite⟩, h.room⟩⟩

/-- **The statements of a train.**  For every train, and every identifier that the server may
return, the text of the train and the text of each car that is written are one complete
statement whose values denote the fields exactly if the format can spell them. -/
theorem insertTexts_iff
    (p : Train) :
    (IsInsert trainHead trainTail (trainColumns p) (trainSql p) ↔ p.Spelled) ∧
      ∀ c ∈ p.written, ∀ idCar,
        IsInsert carHead [] (carColumns idCar c) (carSql idCar c) ↔ c.Spelled idCar :=
  ⟨trainSql_isInsert_iff p, fun c _ idCar => carSql_isInsert_iff idCar c⟩

/-- The error text of a train is one quote; and the error text of a car has a thousand bytes. -/
theorem error_texts_break :
    ¬ IsInsert trainHead trainTail (trainColumns { oneCarTrain with error := some [0x27] })
        (trainSql { oneCarTrain with error := some [0x27] }) ∧
      ¬ IsInsert carHead []
        (carColumns 5 ⟨1, 0x42, 80000, .finite 0, 0, some (List.replicate 1000 0x41)⟩)
        (carSql 5 ⟨1, 0x42, 80000, .finite 0, 0, some (List.replicate 1000 0x41)⟩) := by
  constructor
  · intro h
    have hplain := ((trainSql_isInsert_iff _).mp h).plain sqlQuote (by simp [sqlQuote])
    exact hplain.1 rfl
  · intro h
    have hroom := ((carSql_isInsert_iff _ _).mp h).room
    simp only [Option.getD_some, List.length_replicate] at hroom
    omega

end InsertText

end Postgres
end MatrixBin
