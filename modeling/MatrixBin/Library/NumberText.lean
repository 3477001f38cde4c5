import MatrixBin.Library.JsonText
import MatrixBin.Library.NumberEnd

/-!
# `strtod` on terminated texts

Before the terminating zero the reader always stops (`strtod_terminated`), and a number of the
grammar is read to its end, with its exact value (`strtod_number`).
-/

namespace MatrixBin
namespace Library

section Terminated

variable {s : List UInt8}

theorem mem_dropWhile
    {p : UInt8 → Bool}
    (hp : p 0 = false)
    (h : (0 : UInt8) ∈ s) :
    (0 : UInt8) ∈ s.dropWhile p := by
  induction s with
  | nil => exact h
  | cons b s ih =>
      by_cases hb : p b = true
      · rw [List.dropWhile_cons_of_pos hb]
        refine ih ((List.mem_cons.mp h).resolve_left ?_)
        rintro rfl
        rw [hp] at hb
        exact Bool.false_ne_true hb
      · rwa [List.dropWhile_cons_of_neg hb]

theorem mem_readSign
    (h : (0 : UInt8) ∈ s) :
    (0 : UInt8) ∈ (readSign s).2 := by
  cases s with
  | nil => exact h
  | cons b s =>
      simp only [readSign]
      split_ifs with hminus hplus
      · exact (List.mem_cons.mp h).resolve_left (by rintro rfl; exact absurd hminus (by decide))
      · exact (List.mem_cons.mp h).resolve_left (by rintro rfl; exact absurd hplus (by decide))
      · exact h

theorem mem_readFraction
    (h : (0 : UInt8) ∈ s) :
    (0 : UInt8) ∈ (readFraction s).2 := by
  cases s with
  | nil => exact h
  | cons b s =>
      simp only [readFraction]
      split_ifs with hpoint
      · refine mem_dropWhile rfl ((List.mem_cons.mp h).resolve_left ?_)
        rintro rfl
        exact absurd hpoint (by decide)
      · exact h

theorem length_readFraction_le :
    (readFraction s).2.length ≤ s.length := by
  cases s with
  | nil => exact le_rfl
  | cons b s =>
      simp only [readFraction]
      split_ifs
      · exact Nat.le_succ_of_le (List.length_dropWhile_le _ _)
      · exact le_rfl

/-- The exponent is read to an end in front of the terminator. -/
theorem readExponent_terminated
    (h : (0 : UInt8) ∈ s) :
    ∃ exponent rest, readExponent s = some (exponent, rest) ∧ rest.length ≤ s.length := by
  cases s with
  | nil => exact absurd h (by simp)
  | cons b s =>
      by_cases he : b = 0x65 ∨ b = 0x45
      · have hs : (0 : UInt8) ∈ s := by
          refine (List.mem_cons.mp h).resolve_left ?_
          rintro rfl
          exact absurd he (by decide)
        have hrest := mem_dropWhile (p := isDigit) rfl (mem_readSign hs)
        have hlen : ((readSign s).2.dropWhile isDigit).length ≤ s.length :=
          (List.length_dropWhile_le _ _).trans length_readSign_le
        obtain ⟨c, rest, hd⟩ := List.exists_cons_of_ne_nil (List.ne_nil_of_mem hrest)
        rw [hd] at hlen
        simp only [readExponent, if_pos he, hd]
        by_cases hdigits : (readSign s).2.takeWhile isDigit = []
        · exact ⟨0, b :: s, by rw [if_pos hdigits], le_rfl⟩
        · exact ⟨_, c :: rest, by rw [if_neg hdigits], Nat.le_succ_of_le hlen⟩
      · exact ⟨0, b :: s, by simp only [readExponent, if_neg he], le_rfl⟩

/-- `strtod` comes to an end in front of the terminator, on a text without the letters of the
forms it leaves out. -/
theorem strtod_terminated
    (h : (0 : UInt8) ∈ s)
    (hother : otherForm (readSign (s.dropWhile isSpace)).2 = false) :
    ∃ value rest, strtod s = some (value, rest) ∧ rest.length ≤ s.length := by
  have ht := mem_readSign (mem_dropWhile (p := isSpace) rfl h)
  have hrest := mem_readFraction (mem_dropWhile (p := isDigit) rfl ht)
  have hlen : (readFraction ((readSign (s.dropWhile isSpace)).2.dropWhile isDigit)).2.length ≤
      s.length :=
    length_readFraction_le.trans ((List.length_dropWhile_le _ _).trans
      (length_readSign_le.trans (List.length_dropWhile_le _ _)))
  obtain ⟨exponent, rest, hexp, hle⟩ := readExponent_terminated hrest
  simp only [strtod, hother, Bool.false_eq_true, if_false, hexp, Option.map_some]
  by_cases hnone : (readSign (s.dropWhile isSpace)).2.takeWhile isDigit = [] ∧
      (readFraction ((readSign (s.dropWhile isSpace)).2.dropWhile isDigit)).1 = []
  · rw [if_pos hnone, if_neg (List.ne_nil_of_mem hrest)]
    exact ⟨0, s, rfl, le_rfl⟩
  · rw [if_neg hnone]
    exact ⟨_, rest, rfl, hle.trans hlen⟩

end Terminated

/-! ### Numbers of the grammar -/

namespace JsonText

/-- The letters of numbers: digits, signs, the point and the exponent. -/
def isNumberChar (b : UInt8) : Bool := isDigit b || b ∈ [0x2b, 0x2d, 0x65, 0x45, 0x2e]

/-- Of the forms that `strtod` leaves out, none is made of these letters and a terminator. -/
theorem otherForm_numberChars
    {t : List UInt8}
    (h : ∀ b ∈ t, isNumberChar b = true ∨ b = 0) :
    otherForm t = false := by
  have hletters : ∀ b ∈ t, b ∉ [(0x69 : UInt8), 0x49, 0x6e, 0x4e] ∧
      b ∉ [(0x78 : UInt8), 0x58] := by
    intro b hb
    constructor
    · intro hmem
      simp only [List.mem_cons, List.not_mem_nil, or_false] at hmem
      rcases hmem with rfl | rfl | rfl | rfl <;> exact absurd (h _ hb) (by decide)
    · intro hmem
      simp only [List.mem_cons, List.not_mem_nil, or_false] at hmem
      rcases hmem with rfl | rfl <;> exact absurd (h _ hb) (by decide)
  rcases t with _ | ⟨b, _ | ⟨c, t⟩⟩
  · rfl
  · simpa [otherForm] using (hletters b (by simp)).1
  · have hb := (hletters b (by simp)).1
    have hc := (hletters c (by simp)).2
    simp only [otherForm, hb, hc, decide_false, Bool.and_false, Bool.or_false]

/-- Where the digits of the fraction and the exponent are looked for. -/
theorem Exponent.head
    {exponent : ℤ} {text : List UInt8}
    (h : Exponent exponent text) :
    ∃ b rest, text ++ [0] = b :: rest ∧ isDigit b = false ∧ b ≠ 0x2e := by
  cases h with
  | none => exact ⟨0, [], rfl, rfl, by decide⟩
  | @some e neg sign digits he hsign hne hdigits =>
      refine ⟨e, sign ++ digits ++ [0], by simp, ?_, ?_⟩ <;> rcases he with rfl | rfl <;> decide

theorem readExponent_exponent
    {exponent : ℤ} {text : List UInt8}
    (h : Exponent exponent text) :
    readExponent (text ++ [0]) = some (exponent, [0]) := by
  cases h with
  | none => rfl
  | @some e neg sign digits he hsign hne hdigits =>
      have hsigned : readSign (sign ++ (digits ++ [0])) = (neg, digits ++ [0]) := by
        obtain ⟨d, ds, rfl⟩ := List.exists_cons_of_ne_nil hne
        have hd := hdigits d (by simp)
        cases hsign with
        | none =>
            have hminus : d ≠ 0x2d := by rintro rfl; exact absurd hd (by decide)
            have hplus : d ≠ 0x2b := by rintro rfl; exact absurd hd (by decide)
            simp [readSign, hminus, hplus]
        | plus => rfl
        | minus => rfl
      have hshape : e :: sign ++ digits ++ [0] = e :: (sign ++ (digits ++ [0])) := by simp
      rw [hshape]
      simp only [readExponent, if_pos he, hsigned, takeWhile_digits hdigits (show isDigit 0 = false from rfl),
        dropWhile_digits hdigits (show isDigit 0 = false from rfl), if_neg hne]

theorem readFraction_fraction
    {frac fraction exponentText : List UInt8} {exponent : ℤ}
    (hfrac : Fraction frac fraction)
    (hexp : Exponent exponent exponentText) :
    readFraction (fraction ++ (exponentText ++ [0])) = (frac, exponentText ++ [0]) := by
  obtain ⟨b, rest, heq, hdigit, hpoint⟩ := hexp.head
  rw [heq]
  cases hfrac with
  | none => simp [readFraction, hpoint]
  | some hne hdigits =>
      simp only [List.cons_append, readFraction, if_true, takeWhile_digits hdigits hdigit,
        dropWhile_digits hdigits hdigit]

theorem Fraction.head
    {frac fraction exponentText : List UInt8} {exponent : ℤ}
    (hfrac : Fraction frac fraction)
    (hexp : Exponent exponent exponentText) :
    ∃ b rest, fraction ++ (exponentText ++ [0]) = b :: rest ∧ isDigit b = false := by
  cases hfrac with
  | none =>
      obtain ⟨b, rest, heq, hdigit, -⟩ := hexp.head
      exact ⟨b, rest, heq, hdigit⟩
  | some hne hdigits => exact ⟨0x2e, _, rfl, rfl⟩

theorem isNumberChar_of_digits
    {digits : List UInt8}
    (h : ∀ b ∈ digits, isDigit b = true) :
    ∀ b ∈ digits, isNumberChar b = true := by
  intro b hb
  simp [isNumberChar, h b hb]

/-- A number is made of the letters of numbers. -/
theorem Number.chars
    {q : ℚ} {text : List UInt8}
    (h : Number q text) :
    ∀ b ∈ text, isNumberChar b = true := by
  obtain ⟨neg, hint, hfrac, hexp⟩ := h
  intro b hb
  rw [List.mem_append, List.mem_append, List.mem_append] at hb
  rcases hb with ((hb | hb) | hb) | hb
  · cases neg <;> simp at hb
    subst hb
    rfl
  · exact isNumberChar_of_digits hint.2.1 b hb
  · cases hfrac with
    | none => simp at hb
    | some hne hdigits =>
        rcases List.mem_cons.mp hb with rfl | hb
        · rfl
        · exact isNumberChar_of_digits hdigits b hb
  · cases hexp with
    | none => simp at hb
    | some he hsign hne hdigits =>
        rw [List.cons_append, List.mem_cons, List.mem_append] at hb
        rcases hb with rfl | hb | hb
        · rcases he with rfl | rfl <;> rfl
        · cases hsign <;> simp at hb <;> subst hb <;> rfl
        · exact isNumberChar_of_digits hdigits b hb

/-- A number in front of a terminator is read whole, with its exact value. -/
theorem strtod_number
    {q : ℚ} {text : List UInt8}
    (h : Number q text) :
    strtod (text ++ [0]) = some (q, [0]) := by
  have hchars := h.chars
  obtain ⟨neg, hint, hfrac, hexp⟩ := h
  rename_i int frac fraction exponentText exponent
  obtain ⟨hne, hdigits, -⟩ := hint
  obtain ⟨b, rest, heq, hb⟩ := hfrac.head hexp
  have hother : otherForm (int ++ (fraction ++ (exponentText ++ [0]))) = false := by
    refine otherForm_numberChars fun c hc => ?_
    simp only [List.mem_append, List.mem_singleton] at hc hchars
    rcases hc with hc | hc | hc | hc
    · exact .inl (hchars c (.inl (.inl (.inr hc))))
    · exact .inl (hchars c (.inl (.inr hc)))
    · exact .inl (hchars c (.inr hc))
    · exact .inr hc
  have hshape : (if neg then [(0x2d : UInt8)] else []) ++ int ++ fraction ++ exponentText ++ [0] =
      (if neg then [0x2d] else []) ++ (int ++ (fraction ++ (exponentText ++ [0]))) := by simp
  have htake : (int ++ (fraction ++ (exponentText ++ [0]))).takeWhile isDigit = int := by
    rw [heq, takeWhile_digits hdigits hb]
  have hdrop : (int ++ (fraction ++ (exponentText ++ [0]))).dropWhile isDigit =
      fraction ++ (exponentText ++ [0]) := by
    rw [heq, dropWhile_digits hdigits hb]
  rw [hshape]
  simp only [strtod, readSign_printed hne hdigits, htake, hdrop, hother, Bool.false_eq_true,
    if_false, readFraction_fraction hfrac hexp, hne, false_and, readExponent_exponent hexp,
    Option.map_some]

/-! ### No zero in a document -/

theorem HexDigit.ne_zero
    {b : UInt8} {d : Nat}
    (h : HexDigit b d) :
    b ≠ 0 := by
  cases h with
  | decimal hd => interval_cases d <;> decide
  | upper hd => rename_i d; interval_cases d <;> decide
  | lower hd => rename_i d; interval_cases d <;> decide

theorem CodeUnit.zero_not_mem
    {digits : List UInt8} {u : Nat}
    (h : CodeUnit digits u) :
    (0 : UInt8) ∉ digits := by
  obtain ⟨h₁, h₂, h₃, h₄⟩ := h
  simp [h₁.ne_zero.symm, h₂.ne_zero.symm, h₃.ne_zero.symm, h₄.ne_zero.symm]

theorem Written.zero_not_mem
    {bytes text : List UInt8}
    (h : Written bytes text) :
    (0 : UInt8) ∉ text := by
  cases h with
  | plain hspace _ _ =>
      intro hzero
      rw [← List.mem_singleton.mp hzero] at hspace
      exact absurd hspace (by decide)
  | short h =>
      rename_i c b
      have hletter : b ≠ 0 := by
        rintro rfl
        simp [shortEscapes] at h
      simp [hletter.symm]
  | unit h => simp [h.zero_not_mem]
  | pair _ hhigh hlow => simp [hhigh.zero_not_mem, hlow.zero_not_mem]

theorem Literal.zero_not_mem
    {bytes text : List UInt8}
    (h : Literal bytes text) :
    (0 : UInt8) ∉ quoted text := by
  suffices htext : (0 : UInt8) ∉ text by simp [quoted, htext]
  induction h with
  | nil => exact List.not_mem_nil
  | cons first _ ih => simp [first.zero_not_mem, ih]

theorem Number.zero_not_mem
    {q : ℚ} {text : List UInt8}
    (h : Number q text) :
    (0 : UInt8) ∉ text := fun hzero => absurd (h.chars 0 hzero) (by decide)

theorem Blank.zero_not_mem
    {bytes : List UInt8}
    (h : Blank bytes) :
    (0 : UInt8) ∉ bytes := fun hzero => absurd (h 0 hzero) (by decide)

theorem Derives.zero_not_mem
    {n : Nat} {node : Node} {text : List UInt8}
    (h : Derives n node text) :
    (0 : UInt8) ∉ text := by
  induction h with
  | null => rw [utf8_null]; decide
  | bool b =>
      cases b with
      | false => rw [if_neg Bool.false_ne_true, utf8_false]; decide
      | true => rw [if_pos rfl, utf8_true]; decide
  | number h => exact h.zero_not_mem
  | string h => exact h.zero_not_mem
  | emptyArray h => simp [h.zero_not_mem]
  | array _ ih => simp [ih]
  | emptyObject h => simp [h.zero_not_mem]
  | object _ ih => simp [ih]
  | item hbefore hbehind _ ih => simp [hbefore.zero_not_mem, hbehind.zero_not_mem, ih]
  | items hbefore hbehind _ _ ihValue ihMore =>
      simp [hbefore.zero_not_mem, hbehind.zero_not_mem, ihValue, ihMore]
  | member hname hbefore hcolon hspace hbehind _ ih =>
      simp [hname.zero_not_mem, hbefore.zero_not_mem, hcolon.zero_not_mem, hspace.zero_not_mem,
        hbehind.zero_not_mem, ih]
  | members hname hbefore hcolon hspace hbehind _ _ ihValue ihMore =>
      simp [hname.zero_not_mem, hbefore.zero_not_mem, hcolon.zero_not_mem, hspace.zero_not_mem,
        hbehind.zero_not_mem, ihValue, ihMore]

/-- A document is a C string. -/
theorem Document.zero_not_mem
    {n : Nat} {v : Json} {text : List UInt8}
    (h : Document n v text) :
    (0 : UInt8) ∉ text := by
  obtain ⟨before, inside, behind, hbefore, hbehind, hinside, rfl⟩ := h
  simp [hbefore.zero_not_mem, hinside.zero_not_mem, hbehind.zero_not_mem]

end JsonText

end Library
end MatrixBin
