import MatrixBin.Library.DecimalText
import Mathlib.Data.List.TakeWhile

/-!
# Where a decimal number ends in a text

`strtod` takes the longest number that a text begins with.  `numberParts` gives the parts of
that number and what follows it.  When something follows, the number is settled: whatever is
appended to the text, the reader returns the same value (`atof_append`).  When nothing
follows, one more digit and an exponent make the value as large as one wants
(`atof_append_power`).

The texts have none of the letters `e`, `x`, `i`, `n`, so that there is no exponent, no
hexadecimal form, no `inf` and no `nan`.
-/

namespace MatrixBin
namespace Library

/-- The letters that a number can have: `e` of an exponent, `x` of `0x`, `i` of `inf` and `n`
of `nan`, small and capital. -/
def isNumberLetter (b : UInt8) : Bool := b ∈ [0x65, 0x45, 0x78, 0x58, 0x69, 0x49, 0x6e, 0x4e]

/-- The sign, the digits before and behind the point, and what follows the number. -/
structure NumberParts where
  neg : Bool
  whole : List UInt8
  frac : List UInt8
  rest : List UInt8

def numberParts (s : List UInt8) : NumberParts :=
  let t := readSign (s.dropWhile isSpace)
  let r := readFraction (t.2.dropWhile isDigit)
  ⟨t.1, t.2.takeWhile isDigit, r.1, r.2⟩

def NumberParts.value (n : NumberParts) : ℚ :=
  let magnitude : ℚ := digitsValue (n.whole ++ n.frac) / 10 ^ n.frac.length
  if n.neg then -magnitude else magnitude

/-! ### Appending to a part that has ended -/

section Append

variable {s more : List UInt8}

theorem takeWhile_append_of_rest
    {p : UInt8 → Bool}
    (h : s.dropWhile p ≠ []) :
    (s ++ more).takeWhile p = s.takeWhile p := by
  rw [List.takeWhile_append, if_neg]
  intro hlen
  have hsplit := congrArg List.length (List.takeWhile_append_dropWhile (p := p) (l := s))
  rw [List.length_append] at hsplit
  exact h (List.length_eq_zero_iff.mp (by omega))

theorem dropWhile_append_of_rest
    {p : UInt8 → Bool}
    (h : s.dropWhile p ≠ []) :
    (s ++ more).dropWhile p = s.dropWhile p ++ more := by
  rw [List.dropWhile_append, if_neg]
  simpa using h

theorem readSign_append
    (h : s ≠ []) :
    readSign (s ++ more) = ((readSign s).1, (readSign s).2 ++ more) := by
  obtain ⟨b, s, rfl⟩ := List.exists_cons_of_ne_nil h
  simp only [List.cons_append, readSign]
  split
  · rfl
  · split <;> rfl

theorem readFraction_append
    (h : (readFraction s).2 ≠ []) :
    readFraction (s ++ more) = ((readFraction s).1, (readFraction s).2 ++ more) := by
  cases s with
  | nil => exact absurd rfl h
  | cons b s =>
      simp only [List.cons_append, readFraction] at h ⊢
      split at h
      · rename_i hb
        simp only [if_pos hb, takeWhile_append_of_rest h, dropWhile_append_of_rest h]
      · rename_i hb
        simp only [if_neg hb, List.cons_append]

/-- A number with something behind it keeps its parts. -/
theorem numberParts_append
    (h : (numberParts s).rest ≠ []) :
    numberParts (s ++ more) =
      { numberParts s with rest := (numberParts s).rest ++ more } := by
  have hdigits : (readSign (s.dropWhile isSpace)).2.dropWhile isDigit ≠ [] := by
    intro hnil
    simp only [numberParts, hnil, readFraction] at h
    exact h rfl
  have hsign : (readSign (s.dropWhile isSpace)).2 ≠ [] := by
    intro hnil
    rw [hnil] at hdigits
    exact hdigits rfl
  have hspace : s.dropWhile isSpace ≠ [] := by
    intro hnil
    rw [hnil] at hsign
    exact hsign rfl
  simp only [numberParts] at h ⊢
  rw [dropWhile_append_of_rest hspace, readSign_append hspace]
  simp only [takeWhile_append_of_rest hdigits, dropWhile_append_of_rest hdigits,
    readFraction_append h]

end Append

/-! ### Appending to a number that has not ended -/

section Open

variable {s : List UInt8} {b : UInt8} {more : List UInt8}

theorem dropWhile_append_of_stop
    {p : UInt8 → Bool}
    (hb : p b = false) :
    (s ++ b :: more).dropWhile p = s.dropWhile p ++ b :: more := by
  rw [List.dropWhile_append]
  split
  · rename_i hnil
    rw [List.isEmpty_iff.mp hnil, List.dropWhile_cons, hb]
    rfl
  · rfl

theorem takeWhile_append_of_stop
    {p : UInt8 → Bool}
    (hb : p b = false) :
    (s ++ b :: more).takeWhile p = s.takeWhile p := by
  induction s with
  | nil => simp [hb]
  | cons c s ih =>
      rw [List.cons_append, List.takeWhile_cons, List.takeWhile_cons, ih]

theorem readSign_append_of_no_sign
    (hb : b ≠ 0x2d ∧ b ≠ 0x2b) :
    readSign (s ++ b :: more) = ((readSign s).1, (readSign s).2 ++ b :: more) := by
  cases s with
  | nil => simp [readSign, hb]
  | cons c s => exact readSign_append (List.cons_ne_nil c s)

/-- A byte that belongs to no decimal number ends any of them. -/
theorem numberParts_append_stop
    (hspace : isSpace b = false)
    (hdigit : isDigit b = false)
    (hsign : b ≠ 0x2d ∧ b ≠ 0x2b)
    (hpoint : b ≠ 0x2e) :
    numberParts (s ++ b :: more) =
      { numberParts s with rest := (numberParts s).rest ++ b :: more } := by
  simp only [numberParts, dropWhile_append_of_stop hspace, readSign_append_of_no_sign hsign,
    dropWhile_append_of_stop hdigit, takeWhile_append_of_stop hdigit]
  cases (readSign (s.dropWhile isSpace)).2.dropWhile isDigit with
  | nil => simp [readFraction, hpoint]
  | cons c q =>
      simp only [List.cons_append, readFraction]
      split
      · simp only [dropWhile_append_of_stop hdigit, takeWhile_append_of_stop hdigit]
      · rfl

theorem all_of_dropWhile_nil
    {p : UInt8 → Bool}
    (h : s.dropWhile p = []) :
    s.takeWhile p = s ∧ ∀ c ∈ s, p c = true :=
  ⟨by simpa [h] using List.takeWhile_append_dropWhile (p := p) (l := s),
    List.dropWhile_eq_nil_iff.mp h⟩

/-- A digit behind a number that nothing follows belongs to the number. -/
theorem numberParts_append_digit
    (h : (numberParts s).rest = [])
    (hb : isDigit b = true) :
    (numberParts s).frac = [] ∧
        numberParts (s ++ [b]) =
          { numberParts s with whole := (numberParts s).whole ++ [b] } ∨
      numberParts (s ++ [b]) =
        { numberParts s with frac := (numberParts s).frac ++ [b] } := by
  have hrange := (isDigit_iff b).mp hb
  have hspace : isSpace b = false := by
    simp only [isSpace, Bool.or_eq_false_iff, Bool.and_eq_false_iff, decide_eq_false_iff_not,
      UInt8.le_iff_toNat_le, ← UInt8.toNat_inj, UInt8.reduceToNat]
    omega
  have hsign : b ≠ 0x2d ∧ b ≠ 0x2b := by
    constructor <;> rintro rfl <;> exact absurd hrange (by decide)
  simp only [numberParts] at h ⊢
  simp only [dropWhile_append_of_stop hspace, readSign_append_of_no_sign hsign]
  generalize (readSign (s.dropWhile isSpace)).1 = neg
  generalize (readSign (s.dropWhile isSpace)).2 = t at h ⊢
  cases hq : t.dropWhile isDigit with
  | nil =>
      obtain ⟨hwhole, hall⟩ := all_of_dropWhile_nil hq
      refine Or.inl ⟨rfl, ?_⟩
      rw [List.takeWhile_append_of_pos hall, List.dropWhile_append_of_pos hall, hwhole]
      simp [hb, readFraction]
  | cons c q =>
      have hne : t.dropWhile isDigit ≠ [] := by
        rw [hq]
        exact List.cons_ne_nil c q
      rw [hq, readFraction] at h
      split at h
      · rename_i hc
        obtain ⟨hfrac, hall⟩ := all_of_dropWhile_nil h
        refine Or.inr ?_
        rw [takeWhile_append_of_rest hne, dropWhile_append_of_rest hne, hq]
        simp only [List.cons_append, readFraction, if_pos hc, h, hfrac,
          List.takeWhile_append_of_pos hall, List.dropWhile_append_of_pos hall]
        simp [hb]
      · exact absurd h (List.cons_ne_nil c q)

end Open

/-! ### The readers -/

/-- The letters of the forms that `strtod` leaves out, without the exponent. -/
def isFormLetter (b : UInt8) : Bool := b ∈ [0x78, 0x58, 0x69, 0x49, 0x6e, 0x4e]

section Readers

variable {s more : List UInt8}

theorem otherForm_of_no_form_letters
    (h : ∀ b ∈ s, isFormLetter b = false) :
    otherForm s = false := by
  have hletters : ∀ b ∈ s, b ∉ [(0x69 : UInt8), 0x49, 0x6e, 0x4e] ∧
      b ∉ [(0x78 : UInt8), 0x58] := by
    intro b hb
    have hb := h b hb
    simp only [isFormLetter, decide_eq_false_iff_not, List.mem_cons, List.not_mem_nil, or_false,
      not_or] at hb ⊢
    tauto
  match s with
  | [] => rfl
  | [b] => simpa [otherForm] using (hletters b (by simp)).1
  | b :: c :: s =>
      have hb := (hletters b (by simp)).1
      have hc := (hletters c (by simp)).2
      simp [otherForm] at hb hc ⊢
      tauto

theorem isFormLetter_of_not_letter
    {b : UInt8}
    (h : isNumberLetter b = false) :
    isFormLetter b = false := by
  simp only [isNumberLetter, isFormLetter, decide_eq_false_iff_not, List.mem_cons,
    List.not_mem_nil, or_false, not_or] at h ⊢
  tauto

theorem otherForm_of_no_letters
    (h : ∀ b ∈ s, isNumberLetter b = false) :
    otherForm s = false :=
  otherForm_of_no_form_letters fun b hb => isFormLetter_of_not_letter (h b hb)

/-- `strtod` in terms of the parts. -/
theorem strtod_eq_parts
    {b : UInt8}
    {rest : List UInt8}
    (hother : otherForm (readSign (s.dropWhile isSpace)).2 = false)
    (hrest : (numberParts s).rest = b :: rest)
    (hb : isNumberLetter b = false) :
    (strtod s).map Prod.fst = some (numberParts s).value := by
  have hexp : ¬ (b = 0x65 ∨ b = 0x45) := by
    rintro (rfl | rfl) <;> exact absurd hb (by decide)
  simp only [numberParts] at hrest ⊢
  simp only [strtod, hother, Bool.false_eq_true, if_false, hrest, readExponent, if_neg hexp,
    NumberParts.value]
  split
  · rename_i hnone
    rw [hnone.1, hnone.2]
    simp [digitsValue]
  · simp

/-- The bytes behind the spaces and the sign. -/
theorem mem_of_mem_readSign
    {b : UInt8}
    (hb : b ∈ (readSign (s.dropWhile isSpace)).2) :
    b ∈ s := by
  have hdrop : ∀ c ∈ s.dropWhile isSpace, c ∈ s := fun c hc =>
    (List.dropWhile_suffix isSpace).subset hc
  generalize s.dropWhile isSpace = u at hb hdrop
  cases u with
  | nil => simp [readSign] at hb
  | cons c u =>
      refine hdrop b ?_
      rw [readSign] at hb
      split at hb
      · exact List.mem_cons_of_mem c hb
      · split at hb
        · exact List.mem_cons_of_mem c hb
        · exact hb

theorem rest_mem
    {b : UInt8}
    (hb : b ∈ (numberParts s).rest) :
    b ∈ s := by
  refine mem_of_mem_readSign ((List.dropWhile_suffix isDigit).subset ?_)
  rw [numberParts] at hb
  simp only at hb
  generalize (readSign (s.dropWhile isSpace)).2.dropWhile isDigit = q at hb
  cases q with
  | nil => exact hb
  | cons c q =>
      rw [readFraction] at hb
      split at hb
      · exact List.mem_cons_of_mem c ((List.dropWhile_suffix isDigit).subset hb)
      · exact hb

/-- With something behind the number, what is appended does not make it another form. -/
theorem otherForm_append
    (hletters : ∀ b ∈ s, isNumberLetter b = false)
    (h : (numberParts s).rest ≠ []) :
    otherForm (readSign ((s ++ more).dropWhile isSpace)).2 = false := by
  have hdigits : (readSign (s.dropWhile isSpace)).2.dropWhile isDigit ≠ [] := by
    intro hnil
    simp only [numberParts, hnil, readFraction] at h
    exact h rfl
  have hspace : s.dropWhile isSpace ≠ [] := by
    intro hnil
    rw [hnil] at hdigits
    exact hdigits rfl
  have hnone : ∀ b ∈ (readSign (s.dropWhile isSpace)).2, isNumberLetter b = false :=
    fun b hb => hletters b (mem_of_mem_readSign hb)
  rw [dropWhile_append_of_rest hspace, readSign_append hspace]
  simp only
  generalize (readSign (s.dropWhile isSpace)).2 = t at hdigits hnone
  rcases t with _ | ⟨b, _ | ⟨c, t⟩⟩
  · exact absurd rfl hdigits
  · -- a single byte that is no digit
    have hb : isDigit b = false := by
      by_contra hdigit
      rw [Bool.not_eq_false] at hdigit
      rw [List.dropWhile_cons, hdigit] at hdigits
      exact hdigits rfl
    have hzero : b ≠ 0x30 := by
      rintro rfl
      exact absurd hb (by decide)
    have hform := otherForm_of_no_letters hnone
    cases more with
    | nil => simpa using hform
    | cons c more => simpa [otherForm, hzero] using hform
  · have hform : otherForm [b, c] = false := otherForm_of_no_letters fun d hd =>
      hnone d (by
        rcases List.mem_cons.mp hd with rfl | hd
        · simp
        · rw [List.mem_singleton.mp hd]
          simp)
    exact hform

/-- The value of a text without these letters. -/
theorem atof_eq_parts
    (hletters : ∀ b ∈ s, isNumberLetter b = false) :
    atof s = (numberParts s).value := by
  have hzero : ∀ b ∈ s ++ [0], isNumberLetter b = false := by
    intro b hb
    rcases List.mem_append.mp hb with hb | hb
    · exact hletters b hb
    · rw [List.mem_singleton.mp hb]
      decide
  have hparts : numberParts (s ++ [0]) =
      { numberParts s with rest := (numberParts s).rest ++ [0] } :=
    numberParts_append_stop (by decide) (by decide) (by decide) (by decide)
  obtain ⟨b, rest, hrest⟩ : ∃ b rest, (numberParts (s ++ [0])).rest = b :: rest :=
    List.exists_cons_of_ne_nil (by simp [hparts])
  have hb : b ∈ s ++ [0] := rest_mem (by simp [hrest])
  have hvalue := strtod_eq_parts
    (otherForm_of_no_letters fun c hc => hzero c (mem_of_mem_readSign hc)) hrest (hzero b hb)
  rw [atof, hvalue, hparts, Option.getD_some]
  rfl

/-- **A number that has ended.**  Nothing that is appended changes it. -/
theorem atof_append
    (hletters : ∀ b ∈ s, isNumberLetter b = false)
    (h : (numberParts s).rest ≠ []) :
    atof (s ++ more) = atof s := by
  obtain ⟨b, rest, hrest⟩ := List.exists_cons_of_ne_nil h
  have hparts : numberParts (s ++ (more ++ [0])) =
      { numberParts s with rest := (numberParts s).rest ++ (more ++ [0]) } := numberParts_append h
  have hrest' : (numberParts (s ++ (more ++ [0]))).rest = b :: (rest ++ (more ++ [0])) := by
    rw [hparts, hrest]
    rfl
  have hb : isNumberLetter b = false := hletters b (rest_mem (by simp [hrest]))
  have hvalue := strtod_eq_parts (otherForm_append hletters h) hrest' hb
  rw [atof_eq_parts hletters, atof, List.append_assoc, hvalue, hparts, Option.getD_some]
  rfl

/-- With an exponent behind the parts. -/
theorem strtod_eq_power
    {rest : List UInt8}
    (hother : otherForm (readSign (s.dropWhile isSpace)).2 = false)
    (hdigits : (numberParts s).whole ≠ [] ∨ (numberParts s).frac ≠ [])
    (hrest : (numberParts s).rest = 0x65 :: rest)
    {exponent : ℤ}
    {behind : List UInt8}
    (hexp : readExponent (0x65 :: rest) = some (exponent, behind)) :
    (strtod s).map Prod.fst = some ((numberParts s).value * 10 ^ exponent) := by
  simp only [numberParts] at hrest hdigits ⊢
  have hnone : ¬ ((readSign (s.dropWhile isSpace)).2.takeWhile isDigit = [] ∧
      (readFraction ((readSign (s.dropWhile isSpace)).2.dropWhile isDigit)).1 = []) :=
    not_and_or.mpr hdigits
  simp only [strtod, hother, Bool.false_eq_true, if_false, if_neg hnone, hrest, hexp,
    Option.map_some, NumberParts.value]
  split <;> simp

/-- The digit 1 and the exponent 30. -/
def oneAndPower : List UInt8 := [0x31, 0x65, 0x33, 0x30]

/-- **A number that has not ended.**  One more digit and an exponent belong to it. -/
theorem atof_append_power
    (hletters : ∀ b ∈ s, isNumberLetter b = false)
    (h : (numberParts s).rest = []) :
    atof (s ++ oneAndPower) = (numberParts (s ++ [0x31])).value * 10 ^ 30 := by
  have hshape : s ++ oneAndPower ++ [0] = (s ++ [0x31]) ++ 0x65 :: [0x33, 0x30, 0] := by
    simp [oneAndPower]
  have hparts : numberParts ((s ++ [0x31]) ++ 0x65 :: [0x33, 0x30, 0]) =
      { numberParts (s ++ [0x31]) with
        rest := (numberParts (s ++ [0x31])).rest ++ 0x65 :: [0x33, 0x30, 0] } :=
    numberParts_append_stop (by decide) (by decide) (by decide) (by decide)
  have hform : ∀ b ∈ (s ++ [0x31]) ++ 0x65 :: [0x33, 0x30, 0], isFormLetter b = false := by
    intro b hb
    rw [List.append_assoc, List.mem_append] at hb
    rcases hb with hb | hb
    · exact isFormLetter_of_not_letter (hletters b hb)
    · simp only [List.singleton_append, List.mem_cons, List.not_mem_nil, or_false] at hb
      rcases hb with rfl | rfl | rfl | rfl | rfl <;> decide
  have hdigit := numberParts_append_digit (s := s) (b := 0x31) h (by decide)
  have hopen : (numberParts (s ++ [0x31])).rest = [] := by
    rcases hdigit with ⟨-, hwhole⟩ | hmore
    · rw [hwhole, h]
    · rw [hmore, h]
  have hsome : (numberParts (s ++ [0x31])).whole ≠ [] ∨ (numberParts (s ++ [0x31])).frac ≠ [] := by
    rcases hdigit with ⟨-, hwhole⟩ | hmore
    · exact .inl (by simp [hwhole])
    · exact .inr (by simp [hmore])
  have hexp : readExponent (0x65 :: [0x33, 0x30, 0]) = some (30, [0]) := by decide
  have hvalue := strtod_eq_power (s := (s ++ [0x31]) ++ 0x65 :: [0x33, 0x30, 0])
    (otherForm_of_no_form_letters fun c hc => hform c (mem_of_mem_readSign hc))
    (by rwa [hparts]) (by rw [hparts, hopen]; rfl) hexp
  rw [atof, hshape, hvalue, hparts, Option.getD_some]
  rfl

end Readers

/-! ### Sizes -/

section Sizes

variable {s : List UInt8}

theorem length_readSign_le :
    (readSign s).2.length ≤ s.length := by
  cases s with
  | nil => rfl
  | cons b s =>
      rw [readSign]
      split_ifs <;> simp

/-- The parts are disjoint, and the point takes a byte. -/
theorem length_numberParts_le
    (s : List UInt8) :
    (numberParts s).whole.length + (numberParts s).frac.length + (numberParts s).rest.length ≤
        s.length ∧
      ((numberParts s).frac ≠ [] →
        (numberParts s).frac.length + (numberParts s).rest.length < s.length) := by
  have hsign : (readSign (s.dropWhile isSpace)).2.length ≤ s.length :=
    length_readSign_le.trans (List.dropWhile_suffix isSpace).length_le
  simp only [numberParts]
  generalize (readSign (s.dropWhile isSpace)).2 = t at hsign ⊢
  have hwhole := congrArg List.length (List.takeWhile_append_dropWhile (p := isDigit) (l := t))
  rw [List.length_append] at hwhole
  cases hbehind : t.dropWhile isDigit with
  | nil =>
      rw [hbehind, List.length_nil] at hwhole
      simp only [readFraction, List.length_nil]
      exact ⟨by omega, fun h => absurd rfl h⟩
  | cons b u =>
      rw [hbehind, List.length_cons] at hwhole
      have hfrac := congrArg List.length (List.takeWhile_append_dropWhile (p := isDigit) (l := u))
      rw [List.length_append] at hfrac
      rw [readFraction]
      split_ifs
      · exact ⟨by simp only; omega, fun _ => by simp only; omega⟩
      · simp only [List.length_nil, List.length_cons]
        exact ⟨by omega, fun h => absurd rfl h⟩

theorem isDigit_of_mem_numberParts
    {b : UInt8}
    (hb : b ∈ (numberParts s).whole ++ (numberParts s).frac) :
    isDigit b = true := by
  rcases List.mem_append.mp hb with hb | hb
  · exact List.mem_takeWhile_imp hb
  · simp only [numberParts] at hb
    generalize (readSign (s.dropWhile isSpace)).2.dropWhile isDigit = u at hb
    cases u with
    | nil => exact absurd hb List.not_mem_nil
    | cons c u =>
        rw [readFraction] at hb
        split_ifs at hb
        · exact List.mem_takeWhile_imp hb
        · exact absurd hb List.not_mem_nil

theorem HasDecimals.neg
    {places : Nat}
    {q : ℚ}
    (h : HasDecimals places q) :
    HasDecimals places (-q) := by
  obtain ⟨k, hk⟩ := h
  exact ⟨-k, by rw [neg_mul, hk, Int.cast_neg]⟩

theorem HasDecimals.sub
    {places : Nat}
    {p q : ℚ}
    (hp : HasDecimals places p)
    (hq : HasDecimals places q) :
    HasDecimals places (p - q) := by
  obtain ⟨k, hk⟩ := hp
  obtain ⟨l, hl⟩ := hq
  exact ⟨k - l, by rw [sub_mul, hk, hl, Int.cast_sub]⟩

theorem NumberParts.value_decimals
    {n : NumberParts}
    {places : Nat}
    (h : n.frac.length ≤ places) :
    HasDecimals places n.value := by
  have hmagnitude : HasDecimals places
      ((digitsValue (n.whole ++ n.frac) : ℚ) / 10 ^ n.frac.length) := by
    obtain ⟨more, rfl⟩ := Nat.exists_eq_add_of_le h
    refine ⟨digitsValue (n.whole ++ n.frac) * 10 ^ more, ?_⟩
    rw [pow_add, ← mul_assoc, div_mul_cancel₀ _ (by positivity)]
    push_cast
    rfl
  rw [NumberParts.value]
  split
  · exact hmagnitude.neg
  · exact hmagnitude

theorem abs_value_numberParts_lt
    (s : List UInt8) :
    |(numberParts s).value| < 10 ^ (numberParts s).whole.length := by
  have hdigits := digitsValue_lt fun b hb => isDigit_of_mem_numberParts (s := s) hb
  rw [List.length_append, pow_add] at hdigits
  have hmagnitude : (digitsValue ((numberParts s).whole ++ (numberParts s).frac) : ℚ) /
      10 ^ (numberParts s).frac.length < 10 ^ (numberParts s).whole.length := by
    rw [div_lt_iff₀ (by positivity)]
    exact_mod_cast hdigits
  rw [NumberParts.value]
  split
  · rwa [abs_neg, abs_of_nonneg (by positivity)]
  · rwa [abs_of_nonneg (by positivity)]

/-- A number that ends in the digit 1 is not small. -/
theorem le_abs_value_append_one
    (h : (numberParts s).rest = []) :
    1 / 10 ^ (s.length + 1) ≤ |(numberParts (s ++ [0x31])).value| := by
  obtain ⟨n, hn, hfrac, hone⟩ : ∃ n, numberParts (s ++ [0x31]) = n ∧
      n.frac.length ≤ s.length + 1 ∧ 1 ≤ digitsValue (n.whole ++ n.frac) := by
    refine ⟨_, rfl, ?_, ?_⟩
    · obtain ⟨hsizes, -⟩ := length_numberParts_le (s ++ [0x31])
      rw [List.length_append, List.length_singleton] at hsizes
      omega
    · have hdigit (ds : List UInt8) : 1 ≤ digitsValue (ds ++ [0x31]) := by
        rw [digitsValue_append]
        exact Nat.le_add_left 1 _
      rcases numberParts_append_digit (s := s) (b := 0x31) h (by decide) with ⟨hnil, hwhole⟩ | hmore
      · rw [hwhole, hnil, List.append_nil]
        exact hdigit _
      · rw [hmore, ← List.append_assoc]
        exact hdigit _
  have hmagnitude : (1 : ℚ) / 10 ^ (s.length + 1) ≤
      digitsValue (n.whole ++ n.frac) / 10 ^ n.frac.length := by
    have hpow : (10 : ℚ) ^ n.frac.length ≤ 10 ^ (s.length + 1) :=
      pow_le_pow_right₀ (by norm_num) hfrac
    have hvalue : (1 : ℚ) ≤ digitsValue (n.whole ++ n.frac) := by exact_mod_cast hone
    exact div_le_div₀ (by positivity) hvalue (by positivity) hpow
  rw [hn, NumberParts.value]
  split
  · rwa [abs_neg, abs_of_nonneg (by positivity)]
  · rwa [abs_of_nonneg (by positivity)]

end Sizes

end Library
end MatrixBin
