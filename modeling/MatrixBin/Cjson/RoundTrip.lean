import MatrixBin.Cjson.ParseDocument
import MatrixBin.Cjson.ParseResult
import MatrixBin.Cjson.Render

/-!
# What is printed is parsed again

The printed text is a text of the grammar (`render_derives`), so the parser gives the value back
(`parse_print`).  Every document whose numbers are values of an `int` is therefore read the same
after it was read and printed once (`parse_print_parse`).
-/

namespace MatrixBin
namespace Cjson

open Library Library.JsonText

/-! ### Escapes -/

theorem char_toNat_ofNat
    {n : Nat}
    (h : n < 0x80) :
    (Char.ofNat n).toNat = n := by
  rw [Char.ofNat, dif_pos (Or.inl (by omega))]
  rfl

theorem utf8EncodeChar_ascii
    {b : UInt8}
    (h : b.toNat < 0x80) :
    String.utf8EncodeChar (Char.ofNat b.toNat) = [b] := by
  rw [utf8EncodeChar_eq, char_toNat_ofNat h, if_pos (by omega), UInt8.ofNat_toNat]

/-- The letters are those of the grammar. -/
theorem escapeLetter_short
    {b letter : UInt8}
    (h : escapeLetter b = some letter) :
    ∃ c, (c, letter) ∈ shortEscapes ∧ String.utf8EncodeChar c = [b] := by
  unfold escapeLetter at h
  split_ifs at h with h₁ h₂ h₃ h₄ h₅ h₆ h₇ <;> obtain rfl := Option.some.inj h
  · exact ⟨'\\', by decide, by rw [h₁]; rfl⟩
  · exact ⟨'"', by decide, by rw [h₂]; rfl⟩
  · exact ⟨'\x08', by decide, by rw [h₃]; rfl⟩
  · exact ⟨'\x0c', by decide, by rw [h₄]; rfl⟩
  · exact ⟨'\n', by decide, by rw [h₅]; rfl⟩
  · exact ⟨'\r', by decide, by rw [h₆]; rfl⟩
  · exact ⟨'\t', by decide, by rw [h₇]; rfl⟩

theorem hexDigit_lower
    {d : Nat}
    (h : d < 16) :
    HexDigit (UInt8.ofNat (if d < 10 then 0x30 + d else 0x57 + d)) d := by
  by_cases hd : d < 10
  · rw [if_pos hd]
    exact .decimal hd
  · obtain ⟨e, rfl⟩ := Nat.exists_eq_add_of_le (Nat.not_lt.mp hd)
    rw [if_neg hd, show 0x57 + (10 + e) = 0x61 + e by omega]
    exact .lower (by omega)

/-- `u%04x` is a code unit. -/
theorem codeUnit_unicodeEscape
    (b : UInt8) :
    ∃ digits, unicodeEscape b = 0x75 :: digits ∧ CodeUnit digits b.toNat := by
  have hlt := b.toNat_lt
  refine ⟨_, rfl, ?_⟩
  have hunit := CodeUnit.mk (.decimal (d := 0) (by decide)) (.decimal (d := 0) (by decide))
    (hexDigit_lower (d := b.toNat / 16) (by omega))
    (hexDigit_lower (d := b.toNat % 16) (by omega))
  have hvalue : ((0 * 16 + 0) * 16 + b.toNat / 16) * 16 + b.toNat % 16 = b.toNat := by omega
  rwa [hvalue] at hunit

theorem written_escapeByte
    (b : UInt8) :
    Written [b] (escapeByte b) := by
  unfold escapeByte
  cases hletter : escapeLetter b with
  | some letter =>
      obtain ⟨c, hmem, hc⟩ := escapeLetter_short hletter
      exact hc ▸ .short hmem
  | none =>
      by_cases hspace : 31 < b
      · simp only [if_pos hspace]
        refine .plain ?_ ?_ ?_
        · rw [UInt8.lt_iff_toNat_lt] at hspace
          rw [UInt8.le_iff_toNat_le]
          exact hspace
        · rintro rfl
          exact absurd hletter (by decide)
        · rintro rfl
          exact absurd hletter (by decide)
      · simp only [if_neg hspace]
        simp only [UInt8.lt_iff_toNat_lt, UInt8.reduceToNat] at hspace
        obtain ⟨digits, heq, hunit⟩ := codeUnit_unicodeEscape b
        have hascii : b.toNat < 0x80 := by omega
        rw [heq, ← utf8EncodeChar_ascii hascii]
        exact .unit (by rwa [char_toNat_ofNat hascii])

/-- The escaped text stands for the text. -/
theorem literal_escapeText
    (text : List UInt8) :
    Literal text (escapeText text) := by
  induction text with
  | nil => exact .nil
  | cons b text ih => exact Literal.cons (written_escapeByte b) ih

/-! ### Numbers -/

theorem isInt_printNat
    (n : Nat) :
    IsInt (printNat n) := by
  refine ⟨printNat_ne_nil n, fun _ => isDigit_of_mem_printNat, fun hhead => ?_⟩
  unfold printNat at hhead ⊢
  split_ifs at hhead ⊢ with hn
  · rfl
  · -- The first digit of a number is not 0.
    rw [List.head?_reverse, List.getLast?_map] at hhead
    obtain ⟨d, hlast, hd⟩ := Option.map_eq_some_iff.mp hhead
    have hne : Nat.digits 10 n ≠ [] := Nat.digits_ne_nil_iff_ne_zero.mpr hn
    rw [List.getLast?_eq_some_getLast hne] at hlast
    have hzero := Nat.getLast_digit_ne_zero 10 hn
    have hlt := Nat.digits_lt_base (by decide) (List.getLast_mem hne)
    rw [Option.some.inj hlast] at hzero hlt
    interval_cases d
    all_goals first
      | exact absurd rfl hzero
      | exact absurd hd (by decide)

theorem number_printInt
    {q : ℚ}
    (h : q.den = 1) :
    Number q (printInt q.num) := by
  have hmk := Number.mk (decide (q.num < 0)) (isInt_printNat q.num.natAbs) .none .none
  simp only [List.append_nil, digitsValue_printNat, List.length_nil, pow_zero, div_one, zpow_zero,
    mul_one, decide_eq_true_eq] at hmk
  have hvalue : (if q.num < 0 then -(q.num.natAbs : ℚ) else q.num.natAbs) = q := by
    have hq : (q.num : ℚ) = q := Rat.coe_int_num_of_den_eq_one h
    by_cases hneg : q.num < 0
    · rw [if_pos hneg, Nat.cast_natAbs, abs_of_neg hneg, Int.cast_neg, neg_neg, hq]
    · rw [if_neg hneg, Nat.cast_natAbs, abs_of_nonneg (not_lt.mp hneg), hq]
  rwa [hvalue] at hmk

/-- The value of an `int` is a double. -/
theorem round_int
    {q : ℚ}
    (h : IsInt32 (.finite q)) :
    FloatFormat.binary64.round q = .finite q := by
  obtain ⟨hden, hlow, hhigh⟩ := h
  have hq : (q.num : ℚ) = q := Rat.coe_int_num_of_den_eq_one hden
  have hround := FloatFormat.round_intCast (F := FloatFormat.binary64) (k := 31) (n := q.num)
    hlow (by omega) (by decide)
  have hgrid : FloatFormat.binary64.OnGrid (q.num : ℚ) := by
    refine FloatFormat.onGrid_intCast (abs_lt.mpr ?_)
    have hprecision : (2 : ℤ) ^ 31 < 2 ^ FloatFormat.binary64.precision := by decide
    exact ⟨by omega, by omega⟩
  rwa [FloatFormat.nearest_eq hgrid, hq] at hround

/-- The text of an `int` has room, whatever is done with the other numbers. -/
theorem numberFits_int
    {v : FloatValue}
    (h : IsInt32 v)
    (general : Nat → ℚ → List UInt8) :
    NumberFits general v := by
  rcases v with _ | _ | q
  · exact h.elim
  · exact h.elim
  have hlen : (printNat q.num.natAbs).length ≤ 10 :=
    (length_printNat_le_iff (by decide)).mpr (by have := h.2; omega)
  have hdigits : ∀ b ∈ printNat q.num.natAbs, b ≠ 0 := by
    rintro b hb rfl
    exact absurd (isDigit_of_mem_printNat hb) (by decide)
  have htext : numberText general (.finite q) = printInt q.num := if_pos h
  rw [NumberFits, htext, printInt]
  constructor
  · split_ifs <;> simp <;> omega
  · split_ifs
    · simpa using fun hzero => hdigits 0 hzero rfl
    · simpa using fun hzero => hdigits 0 hzero rfl

/-! ### Values -/

section Derives

variable {format : Bool} {general : Nat → ℚ → List UInt8}

/-- The text of a node is derived, with blanks around it where the printer puts some. -/
def NodeDerives (format : Bool) (general : Nat → ℚ → List UInt8) (n : Nat) : Node → Prop
  | .value v => ∀ depth, Derives n (.value v) (render format general depth v)
  | .items vs => vs ≠ [] → ∀ depth before, Blank before →
      Derives n (.items vs) (before ++ renderItems format general depth vs)
  | .members ms => ms ≠ [] → ∀ depth before behind, Blank before → Blank behind →
      Derives n (.members ms) (before ++ (renderMembers format general depth ms ++ behind))

theorem derives_array
    {n : Nat} {vs : List Json}
    (ih : NodeDerives format general n (.items vs)) :
    NodeDerives format general (n + 1) (.value (.array vs)) := by
  intro depth
  simp only [render]
  cases vs with
  | nil =>
      simp only [renderItems]
      have hspace : Blank ([] : List UInt8) := .nil
      exact .emptyArray hspace
  | cons v vs => exact .array (ih (by simp) (depth + 1) [] .nil)

theorem derives_object
    {n : Nat} {ms : List (List UInt8 × Json)}
    (ih : NodeDerives format general n (.members ms)) :
    NodeDerives format general (n + 1) (.value (.object ms)) := by
  intro depth
  simp only [render]
  have hopening : (if format = true then [(0x7b : UInt8), 0x0a] else [0x7b]) =
      0x7b :: (if format = true then [0x0a] else []) := by split_ifs <;> rfl
  have hnewline : Blank (if format = true then [0x0a] else []) := .ite (.single (by decide))
  have htabs : Blank (if format = true then List.replicate depth 0x09 else []) :=
    .ite (.tabs depth)
  rw [hopening]
  cases ms with
  | nil =>
      simp only [renderMembers]
      have hderives := Derives.emptyObject (n := n) (hnewline.append htabs)
      simpa using hderives
  | cons m ms =>
      have hderives := Derives.object (ih (by simp) (depth + 1) _ _ hnewline htabs)
      simpa using hderives

theorem derives_items
    {n : Nat} {v : Json} {rest : List Json}
    (ihValue : NodeDerives format general n (.value v))
    (ihRest : NodeDerives format general n (.items rest)) :
    NodeDerives format general n (.items (v :: rest)) := by
  intro _ depth before hbefore
  simp only [renderItems]
  by_cases hrest : rest = []
  · subst hrest
    have hderives := Derives.item hbefore .nil (ihValue depth)
    simpa using hderives
  · have hcomma : (if format = true then [(0x2c : UInt8), 0x20] else [0x2c]) =
        0x2c :: (if format = true then [0x20] else []) := by split_ifs <;> rfl
    have hspace : Blank (if format = true then [0x20] else []) := .ite (.single (by decide))
    have hderives := Derives.items hbefore .nil (ihValue depth) (ihRest hrest depth _ hspace)
    rw [if_neg hrest, hcomma]
    simpa using hderives

theorem derives_members
    {n : Nat} {name : List UInt8} {v : Json} {rest : List (List UInt8 × Json)}
    (hname : 0 ∉ name)
    (ihValue : NodeDerives format general n (.value v))
    (ihRest : NodeDerives format general n (.members rest)) :
    NodeDerives format general n (.members ((name, v) :: rest)) := by
  intro _ depth before behind hbefore hbehind
  simp only [renderMembers, renderMember]
  have htabs : Blank (if format = true then List.replicate depth 0x09 else []) :=
    .ite (.tabs depth)
  have hnewline : Blank (if format = true then [0x0a] else []) := .ite (.single (by decide))
  have hcolon : (if format = true then [(0x3a : UInt8), 0x09] else [0x3a]) =
      0x3a :: (if format = true then [0x09] else []) := by split_ifs <;> rfl
  have hspace : Blank (if format = true then [0x09] else []) := .ite (.single (by decide))
  have hstring := stringAt_of_not_mem hname
  have hliteral := literal_escapeText name
  rw [hcolon]
  by_cases hrest : rest = []
  · subst hrest
    have hderives := Derives.member hliteral (hbefore.append htabs) .nil hspace
      (hnewline.append hbehind) (ihValue depth)
    rw [hstring] at hderives
    simpa [renderMembers] using hderives
  · have hmore := ihRest hrest depth _ _ hnewline hbehind
    have hderives := Derives.members hliteral (hbefore.append htabs) .nil hspace .nil
      (ihValue depth) hmore
    rw [hstring] at hderives
    simpa [if_neg hrest] using hderives

/-- **The printed text is a text of the grammar.** -/
theorem render_derives
    {n : Nat} {node : Node}
    (h : Fits IsInt32 n node) :
    NodeDerives format general n node := by
  induction h with
  | null => intro depth; simp only [render]; exact .null
  | bool b =>
      intro depth
      cases b with
      | false => simp only [render]; exact .bool false
      | true => simp only [render]; exact .bool true
  | @number n v hq =>
      intro depth
      rcases v with _ | _ | q
      · exact hq.elim
      · exact hq.elim
      · simp only [render, numberText]
        rw [if_pos hq, ← round_int hq]
        exact .number (number_printInt hq.1)
  | @string n text htext =>
      intro depth
      simp only [render]
      have hderives := Derives.string (n := n) (literal_escapeText text)
      rwa [stringAt_of_not_mem htext] at hderives
  | array inside ih => exact derives_array ih
  | object inside ih => exact derives_object ih
  | noItems => exact fun h => absurd rfl h
  | items first more ihFirst ihMore => exact derives_items ihFirst ihMore
  | noMembers => exact fun h => absurd rfl h
  | members hname first more ihFirst ihMore => exact derives_members hname ihFirst ihMore

/-- What is printed is a document of the value. -/
theorem print_document
    {n : Nat} {v : Json}
    (h : Fits IsInt32 n (.value v))
    (hlen : (render format general 0 v).length + 2 ≤ intMax)
    (fresh : Bytes) :
    ∃ text, print format general fresh v = some (some text) ∧ Document n v text := by
  have hfits : Fits (NumberFits general) n (.value v) :=
    h.mono fun q hq => numberFits_int hq general
  have hdocument : Document n v (render format general 0 v) :=
    ⟨[], render format general 0 v, [], .nil, .nil, render_derives h 0, by simp⟩
  refine ⟨render format general 0 v, ?_, hdocument⟩
  rcases print_outcome (printNode_prints hfits) fresh with heq | ⟨-, hbig⟩
  · exact heq
  · exact absurd hbig (Nat.not_lt.mpr hlen)

/-- **What is printed is parsed again**, with the value it was printed for. -/
theorem parse_print
    {n : Nat} {v : Json}
    (h : Fits IsInt32 n (.value v))
    (hn : n ≤ nestingLimit)
    (hlen : (render format general 0 v).length + 2 ≤ intMax)
    (fresh : Bytes)
    (requireNullTerminated : Bool) :
    ∃ text, print format general fresh v = some (some text) ∧
      parseWithLengthOpts (text ++ [0]) requireNullTerminated = some (some v) ∧
      parseWithLengthOpts text false = some (some v) := by
  obtain ⟨text, hprint, hdocument⟩ := print_document h hlen fresh
  have hparse := parseWithLengthOpts_document hdocument hn (.inl rfl) requireNullTerminated
  exact ⟨text, hprint, hparse, parseWithLengthOpts_unterminated hdocument hn⟩

/-- The array `["A"]`. -/
theorem parse_print_letter :
    ∃ text, print true (fun _ _ => []) (fun _ => 0) (.array [.string [0x41]]) = some (some text) ∧
      parseWithLengthOpts (text ++ [0]) true = some (some (.array [.string [0x41]])) ∧
      parseWithLengthOpts text false = some (some (.array [.string [0x41]])) := by
  have hletter : Fits IsInt32 0 (.value (.string [0x41])) := .string (by decide)
  refine parse_print (.array (.items hletter .noItems)) (by decide) ?_ (fun _ => 0) true
  decide

/-- **A document whose numbers are values of an `int` survives being read, printed and read
again.** -/
theorem parse_print_parse
    {n : Nat} {v : Json} {content : List UInt8} {requireNullTerminated : Bool}
    (hparse : parseWithLengthOpts content requireNullTerminated = some (some v))
    (h : Fits IsInt32 n (.value v))
    (hlen : (render format general 0 v).length + 2 ≤ intMax)
    (fresh : Bytes) :
    ∃ text, print format general fresh v = some (some text) ∧ parse text = some v := by
  obtain ⟨text, hprint, hdocument⟩ := print_document (h.depth (parse_fits hparse)) hlen fresh
  have hagain := parseWithLengthOpts_document hdocument le_rfl (.inl rfl) false
  exact ⟨text, hprint, by rw [parse, ← List.nil_append text, hagain]; rfl⟩

/-- The bytes ` ["A"]`, printed without the blank. -/
theorem parse_print_parse_letter :
    ∃ text, print false (fun _ _ => []) (fun _ => 0) (.array [.string [0x41]]) = some (some text) ∧
      parse text = some (.array [.string [0x41]]) := by
  have hliteral : Literal [0x41] [0x41] := .cons (.plain (by decide) (by decide) (by decide)) .nil
  have hitem : Derives 1 (.value (.string [0x41])) (quoted [0x41]) := .string hliteral
  have hdocument : Document 2 (.array [.string [0x41]]) [0x20, 0x5b, 0x22, 0x41, 0x22, 0x5d] :=
    ⟨[0x20], _, [], by simp [Blank], .nil, .array (.item .nil .nil hitem), rfl⟩
  have hletter : Fits IsInt32 0 (.value (.string [0x41])) := .string (by decide)
  exact parse_print_parse (parseWithLengthOpts_unterminated hdocument (by decide))
    (.array (.items hletter .noItems)) (by decide) fun _ => 0

end Derives

end Cjson
end MatrixBin
