import MatrixBin.Library.NumberEnd
import Mathlib.Data.List.Induction

/-!
# The values of an SQL statement

A server reads the values of an `INSERT` from its text: a number, or a text in quotes, where two
quotes stand for one and a backslash is a byte like any other.  A comma separates two values, and
a parenthesis ends the list.

Bytes that are put between quotes are read as they are if there is no quote among them, and never
otherwise, as long as something other than a quote follows (`readQuoted_eq_iff`).  What is read
before the list has ended does not depend on what follows it (`readLiterals_append`).
-/

namespace MatrixBin
namespace Library

def sqlQuote : UInt8 := 0x27
def sqlComma : UInt8 := 0x2c
def sqlClose : UInt8 := 0x29

inductive SqlLiteral
  | number (value : ℚ)
  | text (bytes : List UInt8)

/-- A text behind its first quote, and what follows it. -/
def readQuoted : List UInt8 → Option (List UInt8 × List UInt8)
  | [] => none
  | [b] => if b = sqlQuote then some ([], []) else none
  | b :: c :: s =>
      if b = sqlQuote then
        if c = sqlQuote then (readQuoted s).map fun r => (sqlQuote :: r.1, r.2)
        else some ([], c :: s)
      else (readQuoted (c :: s)).map fun r => (b :: r.1, r.2)

def readLiteral : List UInt8 → Option (SqlLiteral × List UInt8)
  | [] => none
  | b :: s =>
      if b = sqlQuote then (readQuoted s).map fun r => (.text r.1, r.2)
      else if (numberParts (b :: s)).whole = [] then none
      else some (.number (numberParts (b :: s)).value, (numberParts (b :: s)).rest)

/-- A list of values, which ends with a parenthesis; it has so many values at most. -/
def readLiterals : Nat → List UInt8 → Option (List SqlLiteral × List UInt8)
  | 0, _ => none
  | n + 1, s =>
      (readLiteral s).bind fun first =>
        match first.2 with
        | [] => none
        | b :: t =>
            if b = sqlComma then (readLiterals n t).map fun r => (first.1 :: r.1, r.2)
            else if b = sqlClose then some ([first.1], t)
            else none

/-- Numbers with these bytes between them, as in a timestamp. -/
def readRuns : List UInt8 → List UInt8 → Option (List Nat)
  | [], s => if s ≠ [] ∧ s.all isDigit then some [digitsValue s] else none
  | sep :: seps, s =>
      match s.dropWhile isDigit with
      | [] => none
      | b :: t =>
          if s.takeWhile isDigit ≠ [] ∧ b = sep then
            (readRuns seps t).map (digitsValue (s.takeWhile isDigit) :: ·)
          else none

section SqlLiterals

variable {s t r rest more : List UInt8} {b : UInt8}

/-! ### Texts in quotes -/

theorem readQuoted_cons
    (hb : b ≠ sqlQuote)
    (s : List UInt8) :
    readQuoted (b :: s) = (readQuoted s).map fun r => (b :: r.1, r.2) := by
  cases s with
  | nil => simp [readQuoted, hb]
  | cons c s => rw [readQuoted, if_neg hb]

/-- The first byte of a text, if it is no quote. -/
theorem readQuoted_head
    (hb : b ≠ sqlQuote)
    (h : readQuoted (b :: s) = some (t, r)) :
    t.head? = some b := by
  rw [readQuoted_cons hb] at h
  obtain ⟨u, -, hu⟩ := Option.map_eq_some_iff.mp h
  obtain ⟨rfl, -⟩ := Prod.mk.inj hu
  rfl

/-- A text that has ended in front of something. -/
theorem readQuoted_append
    (h : readQuoted s = some (t, r))
    (hr : r ≠ [])
    (more : List UInt8) :
    readQuoted (s ++ more) = some (t, r ++ more) := by
  induction s using List.twoStepInduction generalizing t with
  | nil => exact absurd h (by simp [readQuoted])
  | singleton b =>
      rw [readQuoted] at h
      split at h
      · obtain ⟨-, rfl⟩ := Prod.mk.inj (Option.some.inj h)
        exact absurd rfl hr
      · exact absurd h (by simp)
  | cons_cons b c s ih ih' =>
      by_cases hb : b = sqlQuote
      · subst hb
        rw [readQuoted, if_pos rfl] at h
        rw [List.cons_append, List.cons_append, readQuoted, if_pos rfl]
        split_ifs at h ⊢ with hc
        · obtain ⟨u, hu, hnext⟩ := Option.map_eq_some_iff.mp h
          obtain ⟨rfl, rfl⟩ := Prod.mk.inj hnext
          rw [ih hu, Option.map_some]
        · obtain ⟨rfl, rfl⟩ := Prod.mk.inj (Option.some.inj h)
          rfl
      · rw [readQuoted_cons hb] at h
        obtain ⟨u, hu, hnext⟩ := Option.map_eq_some_iff.mp h
        obtain ⟨rfl, rfl⟩ := Prod.mk.inj hnext
        rw [List.cons_append, readQuoted_cons hb, ih' c hu, Option.map_some]

/-- Bytes without a quote are read as they are. -/
theorem readQuoted_plain
    (hplain : sqlQuote ∉ s)
    (hb : b ≠ sqlQuote) :
    readQuoted (s ++ sqlQuote :: b :: rest) = some (s, b :: rest) := by
  induction s with
  | nil => rw [List.nil_append, readQuoted, if_pos rfl, if_neg hb]
  | cons c s ih =>
      rw [List.mem_cons, not_or] at hplain
      rw [List.cons_append, readQuoted_cons (Ne.symm hplain.1), ih hplain.2, Option.map_some]

/-- From a quote on the reader falls behind: it owes one quote more for each two that it takes,
and never finds them. -/
theorem readQuoted_ne
    (hb : b ≠ sqlQuote)
    {k : Nat}
    (hquote : (List.replicate k sqlQuote ++ s).head? = some sqlQuote) :
    readQuoted (s ++ sqlQuote :: b :: rest) ≠ some (List.replicate k sqlQuote ++ s, r) := by
  induction s using List.twoStepInduction generalizing k with
  | nil =>
      rw [List.nil_append, readQuoted, if_pos rfl, if_neg hb]
      intro hread
      rw [← (Prod.mk.inj (Option.some.inj hread)).1] at hquote
      exact absurd hquote (by simp)
  | singleton c =>
      by_cases hc : c = sqlQuote
      · subst hc
        rw [List.singleton_append, readQuoted, if_pos rfl, if_pos rfl]
        intro hread
        obtain ⟨u, hu, hnext⟩ := Option.map_eq_some_iff.mp hread
        have hdebt : sqlQuote :: u.1 = sqlQuote :: List.replicate k sqlQuote := by
          rw [(Prod.mk.inj hnext).1, ← List.replicate_succ', List.replicate_succ]
        have hfirst := readQuoted_head (t := u.1) (r := u.2) hb hu
        rw [(List.cons.inj hdebt).2] at hfirst
        exact hb (List.eq_of_mem_replicate (List.mem_of_mem_head? hfirst))
      · exact fun hread => hc (Option.some.inj ((readQuoted_head hc hread).symm.trans hquote))
  | cons_cons c d s ih ih' =>
      by_cases hc : c = sqlQuote
      · subst hc
        rw [List.cons_append, List.cons_append, readQuoted, if_pos rfl]
        split_ifs with hd
        · subst hd
          intro hread
          obtain ⟨u, hu, hnext⟩ := Option.map_eq_some_iff.mp hread
          have hdebt : sqlQuote :: u.1 =
              sqlQuote :: (List.replicate (k + 1) sqlQuote ++ s) := by
            rw [(Prod.mk.inj hnext).1, List.append_cons, ← List.replicate_succ', List.append_cons,
              ← List.replicate_succ', List.replicate_succ, List.cons_append]
          refine ih (k := k + 1) rfl (hu.trans ?_)
          rw [← (List.cons.inj hdebt).2, ← (Prod.mk.inj hnext).2]
        · intro hread
          have hnone := (Prod.mk.inj (Option.some.inj hread)).1
          exact absurd hnone.symm (by simp)
      · exact fun hread => hc (Option.some.inj ((readQuoted_head hc hread).symm.trans hquote))

/-- **Texts in quotes.**  They are read as they are exactly if they have no quote. -/
theorem readQuoted_eq_iff
    (hb : b ≠ sqlQuote) :
    readQuoted (s ++ sqlQuote :: b :: rest) = some (s, r) ↔ sqlQuote ∉ s ∧ r = b :: rest := by
  constructor
  · intro hread
    have hplain : sqlQuote ∉ s := by
      induction s with
      | nil => exact List.not_mem_nil
      | cons c s ih =>
          by_cases hc : c = sqlQuote
          · subst hc
            exact absurd hread (readQuoted_ne (k := 0) hb rfl)
          · rw [List.cons_append, readQuoted_cons hc] at hread
            obtain ⟨u, hu, hnext⟩ := Option.map_eq_some_iff.mp hread
            obtain ⟨htext, hrest⟩ := Prod.mk.inj hnext
            rw [← (List.cons.inj htext).2, List.mem_cons, not_or]
            refine ⟨Ne.symm hc, ?_⟩
            rw [(List.cons.inj htext).2]
            exact ih (hu.trans (congrArg some (Prod.ext (List.cons.inj htext).2 hrest)))
    rw [readQuoted_plain hplain hb] at hread
    exact ⟨hplain, (Prod.mk.inj (Option.some.inj hread)).2.symm⟩
  · rintro ⟨hplain, rfl⟩
    exact readQuoted_plain hplain hb

/-! ### Numbers -/

section Numbers

variable {ds : List UInt8}

theorem numberParts_digits
    (neg : Bool)
    (hne : ds ≠ [])
    (hds : ∀ d ∈ ds, isDigit d = true)
    (hb : isDigit b = false)
    (hpoint : b ≠ 0x2e)
    (rest : List UInt8) :
    numberParts ((if neg then [0x2d] else []) ++ (ds ++ b :: rest)) =
      ⟨neg, ds, [], b :: rest⟩ := by
  rw [numberParts, readSign_printed hne hds]
  simp only [takeWhile_digits hds hb, dropWhile_digits hds hb, readFraction, if_neg hpoint]

theorem numberParts_printFixed
    (places : Nat)
    (q : ℚ)
    (hb : isDigit b = false)
    (rest : List UInt8) :
    numberParts (printFixed places q ++ b :: rest) =
      ⟨q < 0, printNat (roundHalfEven (|q| * 10 ^ places) / 10 ^ places),
        printPadded places (roundHalfEven (|q| * 10 ^ places) % 10 ^ places), b :: rest⟩ := by
  set m := roundHalfEven (|q| * 10 ^ places) with hm
  have hwhole : ∀ d ∈ printNat (m / 10 ^ places), isDigit d = true :=
    fun _ => isDigit_of_mem_printNat
  have hpad : ∀ d ∈ printPadded places (m % 10 ^ places), isDigit d = true :=
    fun _ => isDigit_of_mem_printPadded
  have hpoint : isDigit 0x2e = false := by decide
  rw [printFixed_append, ← hm, numberParts, readSign_printed (printNat_ne_nil _) hwhole]
  simp only [takeWhile_digits hwhole hpoint, dropWhile_digits hwhole hpoint, readFraction, if_true,
    takeWhile_digits hpad hb, dropWhile_digits hpad hb]

/-- A printed number is the number, rounded to its decimals. -/
theorem value_printFixed
    {places : Nat}
    (hplaces : 0 < places)
    (q : ℚ)
    (hb : isDigit b = false)
    (rest : List UInt8) :
    |(numberParts (printFixed places q ++ b :: rest)).value - q| ≤ 1 / (2 * 10 ^ places) := by
  rw [numberParts_printFixed places q hb, NumberParts.value]
  set m := roundHalfEven (|q| * 10 ^ places) with hm
  have hpow : (0 : ℚ) < 10 ^ places := by positivity
  have hfrac : (printPadded places (m % 10 ^ places)).length = places :=
    length_printPadded hplaces (Nat.mod_lt _ (by positivity))
  have hvalue : digitsValue
      (printNat (m / 10 ^ places) ++ printPadded places (m % 10 ^ places)) = m := by
    rw [digitsValue_append, hfrac, digitsValue_printNat, digitsValue_printPadded]
    exact Nat.div_add_mod' m (10 ^ places)
  have hround : |(m : ℚ) - |q| * 10 ^ places| ≤ 1 / 2 :=
    abs_roundHalfEven_sub_le (by positivity)
  have hclose : |(m : ℚ) / 10 ^ places - (|q|)| ≤ 1 / (2 * 10 ^ places) := by
    have hdiv : (m : ℚ) / 10 ^ places - |q| = (m - |q| * 10 ^ places) / 10 ^ places := by
      field_simp
    rw [hdiv, abs_div, abs_of_pos hpow, div_le_div_iff₀ hpow (by positivity)]
    calc |(m : ℚ) - |q| * 10 ^ places| * (2 * 10 ^ places)
        ≤ 1 / 2 * (2 * 10 ^ places) := mul_le_mul_of_nonneg_right hround (by positivity)
      _ = 1 * 10 ^ places := by ring
  simp only [hvalue, hfrac, decide_eq_true_eq]
  split_ifs with hneg
  · rw [abs_of_neg hneg] at hclose
    rw [← abs_neg]
    convert hclose using 2
    ring
  · rw [abs_of_nonneg (not_lt.mp hneg)] at hclose
    exact hclose

/-- A value that begins as a number. -/
theorem readLiteral_of_whole
    (h : (numberParts s).whole ≠ []) :
    readLiteral s = some (.number (numberParts s).value, (numberParts s).rest) := by
  cases s with
  | nil => exact absurd rfl h
  | cons b s =>
      have hb : b ≠ sqlQuote := by
        rintro rfl
        exact h (by simp [numberParts, sqlQuote, isSpace, readSign, isDigit])
      rw [readLiteral, if_neg hb, if_neg h]

theorem readLiteral_digits
    (neg : Bool)
    (hne : ds ≠ [])
    (hds : ∀ d ∈ ds, isDigit d = true)
    (hb : isDigit b = false)
    (hpoint : b ≠ 0x2e)
    (rest : List UInt8) :
    readLiteral ((if neg then [0x2d] else []) ++ (ds ++ b :: rest)) =
      some (.number (if neg then -(digitsValue ds : ℚ) else digitsValue ds), b :: rest) := by
  have hparts := numberParts_digits neg hne hds hb hpoint rest
  rw [readLiteral_of_whole (by rw [hparts]; exact hne), hparts]
  simp [NumberParts.value]

theorem readLiteral_printFixed
    {places : Nat}
    (hplaces : 0 < places)
    (q : ℚ)
    (hb : isDigit b = false)
    (rest : List UInt8) :
    ∃ v, readLiteral (printFixed places q ++ b :: rest) = some (.number v, b :: rest) ∧
      |v - q| ≤ 1 / (2 * 10 ^ places) := by
  have hparts := numberParts_printFixed places q hb rest
  refine ⟨_, ?_, value_printFixed hplaces q hb rest⟩
  rw [readLiteral_of_whole (by rw [hparts]; exact printNat_ne_nil _), hparts]

end Numbers

/-! ### Lists of values -/

theorem readLiteral_append
    {v : SqlLiteral}
    (h : readLiteral s = some (v, r))
    (hr : r ≠ [])
    (more : List UInt8) :
    readLiteral (s ++ more) = some (v, r ++ more) := by
  cases s with
  | nil => exact absurd h (by simp [readLiteral])
  | cons b s =>
      rw [readLiteral] at h
      rw [List.cons_append, readLiteral]
      by_cases hb : b = sqlQuote
      · rw [if_pos hb] at h ⊢
        obtain ⟨u, hu, hnext⟩ := Option.map_eq_some_iff.mp h
        obtain ⟨rfl, rfl⟩ := Prod.mk.inj hnext
        rw [readQuoted_append hu hr more, Option.map_some]
      · rw [if_neg hb] at h ⊢
        split_ifs at h with hwhole
        obtain ⟨rfl, rfl⟩ := Prod.mk.inj (Option.some.inj h)
        rw [← List.cons_append, numberParts_append hr]
        exact if_neg hwhole

/-- The first value of a list, and what comes behind it. -/
theorem readLiterals_cases
    {n : Nat}
    {values : List SqlLiteral}
    (h : readLiterals (n + 1) s = some (values, r)) :
    ∃ v b t, readLiteral s = some (v, b :: t) ∧
      (b = sqlComma ∧ (∃ more, readLiterals n t = some (more, r) ∧ values = v :: more) ∨
        b = sqlClose ∧ values = [v] ∧ r = t) := by
  rw [readLiterals] at h
  obtain ⟨⟨v, u⟩, hv, hend⟩ := Option.bind_eq_some_iff.mp h
  cases u with
  | nil => exact absurd hend (by simp)
  | cons b t =>
      refine ⟨v, b, t, hv, ?_⟩
      simp only at hend
      split_ifs at hend with hcomma hclose
      · obtain ⟨⟨more, u⟩, hmore, hnext⟩ := Option.map_eq_some_iff.mp hend
        obtain ⟨rfl, rfl⟩ := Prod.mk.inj hnext
        exact Or.inl ⟨hcomma, more, hmore, rfl⟩
      · obtain ⟨rfl, rfl⟩ := Prod.mk.inj (Option.some.inj hend)
        exact Or.inr ⟨hclose, rfl, rfl⟩

theorem readLiterals_comma
    {n : Nat}
    {v : SqlLiteral}
    (h : readLiteral s = some (v, sqlComma :: t)) :
    readLiterals (n + 1) s = (readLiterals n t).map fun r => (v :: r.1, r.2) := by
  rw [readLiterals, h, Option.bind_some]
  exact if_pos rfl

theorem readLiterals_close
    {n : Nat}
    {v : SqlLiteral}
    (h : readLiteral s = some (v, sqlClose :: t)) :
    readLiterals (n + 1) s = some ([v], t) := by
  rw [readLiterals, h, Option.bind_some]
  rfl

/-- A list that has ended does not depend on what follows it. -/
theorem readLiterals_append
    {n : Nat}
    {values : List SqlLiteral}
    (h : readLiterals n s = some (values, r))
    (more : List UInt8) :
    readLiterals n (s ++ more) = some (values, r ++ more) := by
  induction n generalizing s values with
  | zero => exact absurd h (by simp [readLiterals])
  | succ n ih =>
      obtain ⟨v, b, t, hv, hend⟩ := readLiterals_cases h
      have hv' := readLiteral_append hv (List.cons_ne_nil b t) more
      rw [List.cons_append] at hv'
      rcases hend with ⟨rfl, later, hlater, rfl⟩ | ⟨rfl, rfl, rfl⟩
      · rw [readLiterals_comma hv', ih hlater, Option.map_some]
      · exact readLiterals_close hv'

/-! ### Timestamps -/

theorem printPadded_ne_nil
    (width n : Nat) :
    printPadded width n ≠ [] := by
  simp [printPadded, printNat_ne_nil]

theorem readRuns_printPadded
    {sep : UInt8}
    (hsep : isDigit sep = false)
    (seps rest : List UInt8)
    (width n : Nat) :
    readRuns (sep :: seps) (printPadded width n ++ sep :: rest) =
      (readRuns seps rest).map (n :: ·) := by
  have hds : ∀ d ∈ printPadded width n, isDigit d = true := fun _ => isDigit_of_mem_printPadded
  rw [readRuns, dropWhile_digits hds hsep, takeWhile_digits hds hsep]
  refine (if_pos ⟨printPadded_ne_nil width n, rfl⟩).trans ?_
  rw [digitsValue_printPadded]

theorem readRuns_last
    (width n : Nat) :
    readRuns [] (printPadded width n) = some [n] := by
  have hall : (printPadded width n).all isDigit = true :=
    List.all_eq_true.mpr fun _ => isDigit_of_mem_printPadded
  rw [readRuns, if_pos ⟨printPadded_ne_nil width n, hall⟩, digitsValue_printPadded]

end SqlLiterals

end Library
end MatrixBin
