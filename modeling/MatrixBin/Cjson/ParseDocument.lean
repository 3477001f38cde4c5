import MatrixBin.Cjson.Parse
import MatrixBin.Cjson.StringLiteral

/-!
# What the parser makes of a JSON document

Every text of the grammar is accepted, with its value, as long as its arrays and objects are
nested no deeper than the limit (`accepts_document`).  The induction is on the derivation; what it
says of a value is said for any text behind it that no number can go on with.
-/

namespace MatrixBin
namespace Cjson

open Library Library.JsonText

/-! ### White space -/

theorem isBlank_of_blank
    {bytes : List UInt8}
    (h : Blank bytes) :
    ∀ b ∈ bytes, isBlank b = true := by
  intro b hb
  have := h b hb
  simp only [List.mem_cons, List.not_mem_nil, or_false] at this
  rcases this with rfl | rfl | rfl | rfl <;> rfl

theorem skipWhitespace_blank
    {bytes : List UInt8} {b : UInt8}
    (h : Blank bytes)
    (hb : isBlank b = false)
    (rest : List UInt8) :
    skipWhitespace (bytes ++ b :: rest) = b :: rest := by
  have hdrop : (bytes ++ b :: rest).dropWhile isBlank = b :: rest := by
    simp [List.dropWhile_append_of_pos (isBlank_of_blank h), hb]
  simp only [skipWhitespace, hdrop]

theorem skipWhitespace_self
    {b : UInt8}
    (hb : isBlank b = false)
    (rest : List UInt8) :
    skipWhitespace (b :: rest) = b :: rest :=
  skipWhitespace_blank .nil hb rest

/-! ### Values by their first byte -/

theorem parseValue_null
    (fuel depth : Nat)
    (rest : List UInt8) :
    parseValue (fuel + 1) depth (utf8 "null" ++ rest) = some (some (.null, rest)) := by
  simp [parseValue, utf8_null]

theorem parseValue_false
    (fuel depth : Nat)
    (rest : List UInt8) :
    parseValue (fuel + 1) depth (utf8 "false" ++ rest) = some (some (.bool false, rest)) := by
  simp [parseValue, utf8_null, utf8_false]

theorem parseValue_true
    (fuel depth : Nat)
    (rest : List UInt8) :
    parseValue (fuel + 1) depth (utf8 "true" ++ rest) = some (some (.bool true, rest)) := by
  simp [parseValue, utf8_null, utf8_false, utf8_true]

/-- Behind the three words the first byte decides. -/
theorem parseValue_other
    {b : UInt8}
    (hb : b ∉ [(0x6e : UInt8), 0x66, 0x74])
    (fuel depth : Nat)
    (rest : List UInt8) :
    parseValue (fuel + 1) depth (b :: rest) =
      if b = quote then
        (parseString (b :: rest)).andThen fun text rest =>
          some (some (.string (stringAt text), rest))
      else if b = 0x2d ∨ isDigit b then parseNumber (b :: rest)
      else if b = 0x5b then parseArray (parseItems fuel) depth (b :: rest)
      else if b = 0x7b then parseObject (parseMembers fuel) depth (b :: rest)
      else some none := by
  simp only [List.mem_cons, List.not_mem_nil, or_false, not_or] at hb
  obtain ⟨hn, hf, ht⟩ := hb
  simp only [parseValue, utf8_null, utf8_false, utf8_true, List.isPrefixOf_cons_cons,
    Bool.and_eq_true, beq_iff_eq, Ne.symm hn, Ne.symm hf, Ne.symm ht, false_and, if_false]

theorem parseValue_array
    (fuel depth : Nat)
    (rest : List UInt8) :
    parseValue (fuel + 1) depth (0x5b :: rest) = parseArray (parseItems fuel) depth (0x5b :: rest) :=
  parseValue_other (by decide) fuel depth rest

theorem parseValue_object
    (fuel depth : Nat)
    (rest : List UInt8) :
    parseValue (fuel + 1) depth (0x7b :: rest) =
      parseObject (parseMembers fuel) depth (0x7b :: rest) :=
  parseValue_other (by decide) fuel depth rest

theorem parseValue_string
    {bytes text : List UInt8}
    (h : Literal bytes text)
    (fuel depth : Nat)
    (rest : List UInt8) :
    parseValue (fuel + 1) depth (quoted text ++ rest) =
      some (some (.string (stringAt bytes), rest)) := by
  have hother := parseValue_other (b := quote) (by decide) fuel depth (text ++ [0x22] ++ rest)
  rw [if_pos rfl] at hother
  have hstring := parseString_literal h rest
  change parseValue (fuel + 1) depth (quote :: (text ++ [0x22] ++ rest)) = _
  change parseString (quote :: (text ++ [0x22] ++ rest)) = _ at hstring
  rw [hother, hstring]
  exact congrArg (fun s => some (some (Json.string s, rest))) (stringAt_append_zero _)

/-- A text that no number can go on with. -/
def Ends (rest : List UInt8) : Prop := ∀ b ∈ rest.head?, isNumberChar b = false

theorem number_head
    {q : ℚ} {text : List UInt8}
    (h : Number q text) :
    ∃ b rest, text = b :: rest ∧ (b = 0x2d ∨ isDigit b = true) := by
  obtain ⟨neg, hint, -, -⟩ := h
  rename_i int frac fraction exponentText exponent
  obtain ⟨hne, hdigits, -⟩ := hint
  obtain ⟨d, int, rfl⟩ := List.exists_cons_of_ne_nil hne
  cases neg with
  | true => exact ⟨0x2d, _, by simp; rfl, .inl rfl⟩
  | false => exact ⟨d, int ++ fraction ++ exponentText, by simp, .inr (hdigits d (by simp))⟩

theorem parseNumber_number
    {q : ℚ} {text rest : List UInt8}
    (h : Number q text)
    (hrest : Ends rest) :
    parseNumber (text ++ rest) =
      some (some (.number (FloatFormat.binary64.round q), rest)) := by
  have htake : (text ++ rest).takeWhile isNumberChar = text := by
    rw [List.takeWhile_append_of_pos h.chars]
    cases rest with
    | nil => simp
    | cons b rest => simp [hrest b (by simp)]
  obtain ⟨b, tail, htext, -⟩ := number_head h
  have hpos : 0 < text.length := by rw [htext]; simp
  simp only [parseNumber, htake, strtod_number h, Option.map_some, List.length_singleton]
  rw [if_neg (by omega), Nat.add_sub_cancel, List.drop_left]

theorem parseValue_number
    {q : ℚ} {text rest : List UInt8}
    (h : Number q text)
    (hrest : Ends rest)
    (fuel depth : Nat) :
    parseValue (fuel + 1) depth (text ++ rest) =
      some (some (.number (FloatFormat.binary64.round q), rest)) := by
  have hnumber := parseNumber_number h hrest
  obtain ⟨b, tail, rfl, hb⟩ := number_head h
  have hwords : b ∉ [(0x6e : UInt8), 0x66, 0x74] := by
    intro hmem
    simp only [List.mem_cons, List.not_mem_nil, or_false] at hmem
    rcases hmem with rfl | rfl | rfl <;> revert hb <;> decide
  have hquote : b ≠ quote := by
    rintro rfl
    revert hb
    decide
  rw [List.cons_append] at hnumber ⊢
  rw [parseValue_other hwords, if_neg hquote, if_pos hb, hnumber]

/-! ### Derivations -/

/-- The first byte of a value. -/
theorem value_head
    {n : Nat} {v : Json} {text : List UInt8}
    (h : Derives n (.value v) text) :
    ∃ b rest, text = b :: rest ∧ isBlank b = false ∧ b ≠ 0x5d ∧ b ≠ 0x7d ∧ b ≠ 0xEF := by
  cases h with
  | null => exact ⟨0x6e, _, utf8_null, by decide⟩
  | bool b =>
      cases b with
      | false => exact ⟨0x66, _, utf8_false, by decide⟩
      | true => exact ⟨0x74, _, utf8_true, by decide⟩
  | number h =>
      obtain ⟨b, rest, rfl, hb⟩ := number_head h
      refine ⟨b, rest, rfl, ?_, ?_, ?_, ?_⟩
      · rcases hb with rfl | hb
        · rfl
        · rw [isDigit_iff] at hb
          simp only [isBlank, decide_eq_false_iff_not, UInt8.le_iff_toNat_le, UInt8.reduceToNat]
          omega
      all_goals
        rintro rfl
        revert hb
        decide
  | string h => exact ⟨0x22, _, rfl, by decide⟩
  | emptyArray h => exact ⟨0x5b, _, rfl, by decide⟩
  | array h => exact ⟨0x5b, _, rfl, by decide⟩
  | emptyObject h => exact ⟨0x7b, _, rfl, by decide⟩
  | object h => exact ⟨0x7b, _, rfl, by decide⟩

/-- The functions of the parser read a text of the grammar, in front of what ends it. -/
def Parsed (n : Nat) (node : Node) (text : List UInt8) : Prop :=
  ∀ fuel depth rest, depth + n ≤ nestingLimit →
    match node with
    | .value v => 2 * text.length ≤ fuel → Ends rest →
        parseValue fuel depth (text ++ rest) = some (some (v, rest))
    | .items vs => 2 * text.length + 1 ≤ fuel →
        parseItems fuel depth (text ++ 0x5d :: rest) = some (some (vs, rest))
    | .members ms => 2 * text.length + 1 ≤ fuel →
        parseMembers fuel depth (text ++ 0x7d :: rest) = some (some (ms, rest))

/-- The first byte of the first item. -/
theorem items_head
    {n : Nat} {vs : List Json} {text : List UInt8}
    (h : Derives n (.items vs) text) :
    ∃ before b rest, text = before ++ b :: rest ∧ Blank before ∧ isBlank b = false ∧ b ≠ 0x5d := by
  cases h with
  | item hbefore hbehind value =>
      obtain ⟨b, rest, rfl, hblank, hclose, -⟩ := value_head value
      exact ⟨_, b, _, rfl, hbefore, hblank, hclose⟩
  | items hbefore hbehind value more =>
      obtain ⟨b, rest, rfl, hblank, hclose, -⟩ := value_head value
      exact ⟨_, b, _, rfl, hbefore, hblank, hclose⟩

/-- The quote of the first name. -/
theorem members_head
    {n : Nat} {ms : List (List UInt8 × Json)} {text : List UInt8}
    (h : Derives n (.members ms) text) :
    ∃ before rest, text = before ++ 0x22 :: rest ∧ Blank before := by
  cases h with
  | member hname hbefore => exact ⟨_, _, rfl, hbefore⟩
  | members hname hbefore => exact ⟨_, _, rfl, hbefore⟩

/-- Blanks in front of the first item make no difference. -/
theorem parseItems_blank
    {before : List UInt8} {b : UInt8}
    (h : Blank before)
    (hb : isBlank b = false)
    (fuel depth : Nat)
    (rest : List UInt8) :
    parseItems fuel depth (before ++ b :: rest) = parseItems fuel depth (b :: rest) := by
  cases fuel with
  | zero => rw [parseItems, parseItems]
  | succ fuel =>
      rw [parseItems, parseItems, skipWhitespace_blank h hb, skipWhitespace_self hb]

theorem parseMembers_blank
    {before : List UInt8} {b : UInt8}
    (h : Blank before)
    (hb : isBlank b = false)
    (fuel depth : Nat)
    (rest : List UInt8) :
    parseMembers fuel depth (before ++ b :: rest) = parseMembers fuel depth (b :: rest) := by
  cases fuel with
  | zero => rw [parseMembers, parseMembers]
  | succ fuel =>
      rw [parseMembers, parseMembers, skipWhitespace_blank h hb, skipWhitespace_self hb,
        if_neg (by simp), if_neg (by simp)]

/-- `parse_array` in front of an item. -/
theorem parseArray_items
    {before : List UInt8} {b : UInt8} {depth : Nat}
    (h : Blank before)
    (hb : isBlank b = false)
    (hclose : b ≠ 0x5d)
    (hdepth : depth < nestingLimit)
    (fuel : Nat)
    (rest : List UInt8) :
    parseArray (parseItems fuel) depth (0x5b :: (before ++ b :: rest)) =
      (parseItems fuel (depth + 1) (before ++ b :: rest)).andThen fun items rest =>
        some (some (.array items, rest)) := by
  unfold parseArray
  rw [if_neg (Nat.not_le.mpr hdepth)]
  simp only [ne_eq, not_true_eq_false, if_false, skipWhitespace_blank h hb, if_neg hclose,
    parseItems_blank h hb]

/-- `parse_object` in front of a member. -/
theorem parseObject_members
    {before : List UInt8} {b : UInt8} {depth : Nat}
    (h : Blank before)
    (hb : isBlank b = false)
    (hclose : b ≠ 0x7d)
    (hdepth : depth < nestingLimit)
    (fuel : Nat)
    (rest : List UInt8) :
    parseObject (parseMembers fuel) depth (0x7b :: (before ++ b :: rest)) =
      (parseMembers fuel (depth + 1) (before ++ b :: rest)).andThen fun members rest =>
        some (some (.object members, rest)) := by
  unfold parseObject
  rw [if_neg (Nat.not_le.mpr hdepth)]
  simp only [ne_eq, not_true_eq_false, if_false, skipWhitespace_blank h hb, if_neg hclose,
    parseMembers_blank h hb]

theorem parsed_emptyArray
    {n : Nat} {space : List UInt8}
    (h : Blank space) :
    Parsed (n + 1) (.value (.array [])) (0x5b :: (space ++ [0x5d])) := by
  intro fuel depth rest hdepth hfuel _
  obtain ⟨fuel, rfl⟩ := Nat.exists_eq_add_of_le' (show 1 ≤ fuel by simp at hfuel; omega)
  have hshape : 0x5b :: (space ++ [0x5d]) ++ rest = 0x5b :: (space ++ 0x5d :: rest) := by simp
  rw [hshape, parseValue_array, parseArray, if_neg (by omega)]
  simp only [ne_eq, not_true_eq_false, if_false, skipWhitespace_blank h (show isBlank 0x5d = false from rfl),
    if_true]

theorem parsed_emptyObject
    {n : Nat} {space : List UInt8}
    (h : Blank space) :
    Parsed (n + 1) (.value (.object [])) (0x7b :: (space ++ [0x7d])) := by
  intro fuel depth rest hdepth hfuel _
  obtain ⟨fuel, rfl⟩ := Nat.exists_eq_add_of_le' (show 1 ≤ fuel by simp at hfuel; omega)
  have hshape : 0x7b :: (space ++ [0x7d]) ++ rest = 0x7b :: (space ++ 0x7d :: rest) := by simp
  rw [hshape, parseValue_object, parseObject, if_neg (by omega)]
  simp only [ne_eq, not_true_eq_false, if_false, skipWhitespace_blank h (show isBlank 0x7d = false from rfl),
    if_true]

theorem parsed_array
    {n : Nat} {vs : List Json} {text : List UInt8}
    (inside : Derives n (.items vs) text)
    (ih : Parsed n (.items vs) text) :
    Parsed (n + 1) (.value (.array vs)) (0x5b :: (text ++ [0x5d])) := by
  intro fuel depth rest hdepth hfuel _
  obtain ⟨fuel, rfl⟩ := Nat.exists_eq_add_of_le' (show 1 ≤ fuel by simp at hfuel; omega)
  have hitems := ih fuel (depth + 1) rest (by omega) (by simp at hfuel; omega)
  obtain ⟨before, b, tail, rfl, hbefore, hb, hclose⟩ := items_head inside
  have hshape : 0x5b :: (before ++ b :: tail ++ [0x5d]) ++ rest =
      0x5b :: (before ++ b :: (tail ++ 0x5d :: rest)) := by simp
  rw [List.append_assoc, List.cons_append] at hitems
  rw [hshape, parseValue_array, parseArray_items hbefore hb hclose (by omega), hitems]
  rfl

theorem parsed_object
    {n : Nat} {ms : List (List UInt8 × Json)} {text : List UInt8}
    (inside : Derives n (.members ms) text)
    (ih : Parsed n (.members ms) text) :
    Parsed (n + 1) (.value (.object ms)) (0x7b :: (text ++ [0x7d])) := by
  intro fuel depth rest hdepth hfuel _
  obtain ⟨fuel, rfl⟩ := Nat.exists_eq_add_of_le' (show 1 ≤ fuel by simp at hfuel; omega)
  have hmembers := ih fuel (depth + 1) rest (by omega) (by simp at hfuel; omega)
  obtain ⟨before, tail, rfl, hbefore⟩ := members_head inside
  have hshape : 0x7b :: (before ++ 0x22 :: tail ++ [0x7d]) ++ rest =
      0x7b :: (before ++ 0x22 :: (tail ++ 0x7d :: rest)) := by simp
  rw [List.append_assoc, List.cons_append] at hmembers
  rw [hshape, parseValue_object,
    parseObject_members hbefore rfl (by decide) (by omega), hmembers]
  rfl

theorem not_number_of_blank
    {bytes : List UInt8}
    (h : Blank bytes) :
    ∀ b ∈ bytes, isNumberChar b = false := by
  intro b hb
  have := h b hb
  simp only [List.mem_cons, List.not_mem_nil, or_false] at this
  rcases this with rfl | rfl | rfl | rfl <;> rfl

theorem ends_of_blank
    {behind : List UInt8}
    (h : Blank behind) :
    Ends behind :=
  fun b hb => not_number_of_blank h b (List.mem_of_mem_head? hb)

/-- Blanks and then the character that ends a value. -/
theorem ends_blank
    {behind : List UInt8} {c : UInt8}
    (h : Blank behind)
    (hc : isNumberChar c = false)
    (rest : List UInt8) :
    Ends (behind ++ c :: rest) := by
  intro b hb
  cases behind with
  | nil =>
      obtain rfl : c = b := by simpa using hb
      exact hc
  | cons d behind =>
      obtain rfl : d = b := by simpa using hb
      exact not_number_of_blank h d (by simp)

/-- A round of the loop of `parse_array`. -/
theorem parseItems_round
    {n : Nat} {v : Json} {before text behind : List UInt8} {c : UInt8}
    (hbefore : Blank before)
    (hbehind : Blank behind)
    (value : Derives n (.value v) text)
    (ih : Parsed n (.value v) text)
    (hc : isBlank c = false ∧ isNumberChar c = false)
    (fuel : Nat)
    {depth : Nat}
    (hdepth : depth + n ≤ nestingLimit)
    (hfuel : 2 * text.length ≤ fuel)
    (rest : List UInt8) :
    parseItems (fuel + 1) depth (before ++ (text ++ (behind ++ c :: rest))) =
      if c = 0x2c then
        (parseItems fuel depth rest).andThen fun items rest => some (some (v :: items, rest))
      else if c = 0x5d then some (some ([v], rest))
      else some none := by
  have hvalue := ih fuel depth (behind ++ c :: rest) hdepth hfuel (ends_blank hbehind hc.2 rest)
  obtain ⟨b, tail, rfl, hb, -⟩ := value_head value
  rw [List.cons_append] at hvalue ⊢
  rw [parseItems, skipWhitespace_blank hbefore hb, hvalue]
  simp only [Reading.andThen, Option.bind_some, skipWhitespace_blank hbehind hc.1]

/-- A round of the loop of `parse_object`. -/
theorem parseMembers_round
    {n : Nat} {v : Json} {c : UInt8}
    {bytes before name colon space text behind : List UInt8}
    (hname : Literal bytes name)
    (hbefore : Blank before)
    (hcolon : Blank colon)
    (hspace : Blank space)
    (hbehind : Blank behind)
    (value : Derives n (.value v) text)
    (ih : Parsed n (.value v) text)
    (hc : isBlank c = false ∧ isNumberChar c = false)
    (fuel : Nat)
    {depth : Nat}
    (hdepth : depth + n ≤ nestingLimit)
    (hfuel : 2 * text.length ≤ fuel)
    (rest : List UInt8) :
    parseMembers (fuel + 1) depth
        (before ++ (quoted name ++ (colon ++ 0x3a :: (space ++ (text ++ (behind ++ c :: rest)))))) =
      if c = 0x2c then
        (parseMembers fuel depth rest).andThen fun members rest =>
          some (some ((stringAt bytes, v) :: members, rest))
      else if c = 0x7d then some (some ([(stringAt bytes, v)], rest))
      else some none := by
  have hvalue := ih fuel depth (behind ++ c :: rest) hdepth hfuel (ends_blank hbehind hc.2 rest)
  have hstring := parseString_literal hname
    (colon ++ 0x3a :: (space ++ (text ++ (behind ++ c :: rest))))
  obtain ⟨b, tail, rfl, hb, -⟩ := value_head value
  rw [List.cons_append] at hvalue hstring ⊢
  have hskip := skipWhitespace_blank hbefore (show isBlank 0x22 = false from rfl)
    (name ++ [0x22] ++ (colon ++ 0x3a :: (space ++ b :: (tail ++ (behind ++ c :: rest)))))
  change parseString (0x22 :: (name ++ [0x22] ++ _)) = _ at hstring
  change parseMembers (fuel + 1) depth (before ++ 0x22 :: (name ++ [0x22] ++ _)) = _
  rw [parseMembers, if_neg (by simp), hskip, hstring]
  simp only [Reading.andThen, Option.bind_some, skipWhitespace_blank hcolon (show isBlank 0x3a = false from rfl),
    ne_eq, not_true_eq_false, if_false, skipWhitespace_blank hspace hb, hvalue,
    skipWhitespace_blank hbehind hc.1, stringAt_append_zero]

theorem parsed
    {n : Nat} {node : Node} {text : List UInt8}
    (h : Derives n node text) :
    Parsed n node text := by
  induction h with
  | null =>
      intro fuel depth rest _ hfuel _
      rw [utf8_null] at hfuel
      obtain ⟨fuel, rfl⟩ := Nat.exists_eq_add_of_le' (show 1 ≤ fuel by simp at hfuel; omega)
      exact parseValue_null fuel depth rest
  | bool b =>
      intro fuel depth rest _ hfuel _
      cases b with
      | false =>
          simp only [Bool.false_eq_true, if_false, utf8_false] at hfuel ⊢
          obtain ⟨fuel, rfl⟩ := Nat.exists_eq_add_of_le' (show 1 ≤ fuel by simp at hfuel; omega)
          rw [← utf8_false]
          exact parseValue_false fuel depth rest
      | true =>
          simp only [if_true, utf8_true] at hfuel ⊢
          obtain ⟨fuel, rfl⟩ := Nat.exists_eq_add_of_le' (show 1 ≤ fuel by simp at hfuel; omega)
          rw [← utf8_true]
          exact parseValue_true fuel depth rest
  | number h =>
      intro fuel depth rest _ hfuel hends
      obtain ⟨b, tail, rfl, -⟩ := number_head h
      obtain ⟨fuel, rfl⟩ := Nat.exists_eq_add_of_le' (show 1 ≤ fuel by simp at hfuel; omega)
      exact parseValue_number h hends fuel depth
  | string h =>
      intro fuel depth rest _ hfuel _
      obtain ⟨fuel, rfl⟩ := Nat.exists_eq_add_of_le' (show 1 ≤ fuel by simp [quoted] at hfuel; omega)
      exact parseValue_string h fuel depth rest
  | emptyArray h => exact parsed_emptyArray h
  | array inside ih => exact parsed_array inside ih
  | emptyObject h => exact parsed_emptyObject h
  | object inside ih => exact parsed_object inside ih
  | item hbefore hbehind value ih =>
      intro fuel depth rest hdepth hfuel
      simp only [List.length_append] at hfuel
      obtain ⟨fuel, rfl⟩ := Nat.exists_eq_add_of_le' (show 1 ≤ fuel by omega)
      have hround := parseItems_round hbefore hbehind value ih (c := 0x5d) ⟨rfl, rfl⟩ fuel
        hdepth (by omega) rest
      simpa using hround
  | items hbefore hbehind value more ihValue ihMore =>
      intro fuel depth rest hdepth hfuel
      simp only [List.length_append, List.length_cons] at hfuel
      obtain ⟨fuel, rfl⟩ := Nat.exists_eq_add_of_le' (show 1 ≤ fuel by omega)
      rename_i text behind tail
      have hmore := ihMore fuel depth rest hdepth (by omega)
      have hround := parseItems_round hbefore hbehind value ihValue (c := 0x2c) ⟨rfl, rfl⟩ fuel
        hdepth (by omega) (tail ++ 0x5d :: rest)
      rw [if_pos rfl, hmore] at hround
      simpa [Reading.andThen] using hround
  | member hname hbefore hcolon hspace hbehind value ih =>
      intro fuel depth rest hdepth hfuel
      simp only [List.length_append, List.length_cons] at hfuel
      obtain ⟨fuel, rfl⟩ := Nat.exists_eq_add_of_le' (show 1 ≤ fuel by omega)
      have hround := parseMembers_round hname hbefore hcolon hspace hbehind value ih (c := 0x7d)
        ⟨rfl, rfl⟩ fuel hdepth (by omega) rest
      simpa using hround
  | members hname hbefore hcolon hspace hbehind value more ihValue ihMore =>
      intro fuel depth rest hdepth hfuel
      simp only [List.length_append, List.length_cons] at hfuel
      obtain ⟨fuel, rfl⟩ := Nat.exists_eq_add_of_le' (show 1 ≤ fuel by omega)
      rename_i text behind tail
      have hmore := ihMore fuel depth rest hdepth (by omega)
      have hround := parseMembers_round hname hbefore hcolon hspace hbehind value ihValue
        (c := 0x2c) ⟨rfl, rfl⟩ fuel hdepth (by omega) (tail ++ 0x7d :: rest)
      rw [if_pos rfl, hmore] at hround
      simpa [Reading.andThen] using hround

theorem skipUtf8Bom_self
    {before : List UInt8} {b : UInt8}
    (h : Blank before)
    (hb : b ≠ 0xEF)
    (rest : List UInt8) :
    skipUtf8Bom (before ++ b :: rest) = before ++ b :: rest := by
  refine if_neg ?_
  rintro ⟨-, heq⟩
  cases before with
  | nil => exact hb (List.cons.inj heq).1
  | cons c before =>
      have hc := h c (by simp)
      rw [(List.cons.inj heq).1] at hc
      revert hc
      decide

theorem skipUtf8Bom_mark
    (rest : List UInt8)
    (h : 2 ≤ rest.length) :
    skipUtf8Bom ([0xEF, 0xBB, 0xBF] ++ rest) = rest :=
  if_pos ⟨by simp; omega, rfl⟩

theorem skipWhitespace_end
    {behind : List UInt8}
    (h : Blank behind) :
    skipWhitespace (behind ++ [0]) = [0] := by
  have hdrop : (behind ++ [0]).dropWhile isBlank = [] := by
    rw [List.dropWhile_append_of_pos (isBlank_of_blank h)]
    rfl
  simp [skipWhitespace, hdrop]

/-- The value of a document, behind its blanks and in front of what ends the buffer. -/
theorem parseValue_document
    {n : Nat} {v : Json} {before inside : List UInt8}
    (hbefore : Blank before)
    (hinside : Derives n (.value v) inside)
    (hn : n ≤ nestingLimit)
    (fuel : Nat)
    (hfuel : 2 * inside.length ≤ fuel)
    {rest : List UInt8}
    (hrest : Ends rest) :
    parseValue fuel 0 (skipWhitespace (before ++ (inside ++ rest))) = some (some (v, rest)) := by
  have hvalue := parsed hinside fuel 0 rest (by omega) hfuel hrest
  obtain ⟨b, tail, rfl, hb, -⟩ := value_head hinside
  rw [List.cons_append] at hvalue ⊢
  rw [skipWhitespace_blank hbefore hb, hvalue]

/-- A document in front of a terminator is accepted, with or without a byte order mark. -/
theorem parseWithLengthOpts_document
    {n : Nat} {v : Json} {text bom : List UInt8}
    (h : Document n v text)
    (hn : n ≤ nestingLimit)
    (hbom : bom = [] ∨ bom = [0xEF, 0xBB, 0xBF])
    (requireNullTerminated : Bool) :
    parseWithLengthOpts (bom ++ text ++ [0]) requireNullTerminated = some (some v) := by
  obtain ⟨before, inside, behind, hbefore, hbehind, hinside, rfl⟩ := h
  have hvalue := parseValue_document hbefore hinside hn
    (2 * (bom ++ (before ++ (inside ++ behind)) ++ [0]).length + 1) (by simp; omega)
    (ends_blank hbehind (c := 0) rfl [])
  have hskipBom : skipUtf8Bom (bom ++ (before ++ (inside ++ behind)) ++ [0]) =
      before ++ (inside ++ (behind ++ [0])) := by
    obtain ⟨b, tail, rfl, -, -, -, hmark⟩ := value_head hinside
    rcases hbom with rfl | rfl
    · simpa using skipUtf8Bom_self hbefore hmark (tail ++ (behind ++ [0]))
    · simpa using skipUtf8Bom_mark (before ++ b :: (tail ++ (behind ++ [0])))
        (by simp; omega)
  unfold parseWithLengthOpts
  rw [if_neg (by simp), hskipBom, hvalue]
  simp only [Option.bind_some]
  cases requireNullTerminated with
  | false => rfl
  | true =>
      -- White space up to the end: the skip steps back to the terminating zero.
      simp only [if_true, skipWhitespace_end hbehind]

/-- `cJSON_ParseWithLength` needs no terminator behind the document. -/
theorem parseWithLengthOpts_unterminated
    {n : Nat} {v : Json} {text : List UInt8}
    (h : Document n v text)
    (hn : n ≤ nestingLimit) :
    parseWithLengthOpts text false = some (some v) := by
  obtain ⟨before, inside, behind, hbefore, hbehind, hinside, rfl⟩ := h
  have hvalue := parseValue_document hbefore hinside hn
    (2 * (before ++ (inside ++ behind)).length + 1) (by simp; omega) (ends_of_blank hbehind)
  obtain ⟨b, tail, rfl, -, -, -, hmark⟩ := value_head hinside
  rw [List.cons_append] at hvalue ⊢
  unfold parseWithLengthOpts
  rw [if_neg (by simp), skipUtf8Bom_self hbefore hmark, hvalue]
  rfl

/-- `cJSON_Parse` of the C string in a buffer that a document has been copied to. -/
theorem parse_document
    {n : Nat} {v : Json} {text : List UInt8}
    (h : Document n v text)
    (hn : n ≤ nestingLimit) :
    parse (stringAt text) = some v := by
  have hparse := parseWithLengthOpts_document h hn (.inl rfl) false
  rw [List.nil_append] at hparse
  rw [stringAt_of_not_mem h.zero_not_mem, parse, hparse]
  rfl

/-- **A JSON document is accepted with its value**, the numbers as the nearest doubles, if it is
nested no deeper than the limit: by `cJSON_ParseWithOpts` with or without a byte order mark, and by
`cJSON_ParseWithLength` without a terminator. -/
theorem accepts_document
    {n : Nat} {v : Json} {text : List UInt8}
    (h : Document n v text)
    (hn : n ≤ nestingLimit) :
    (∀ bom requireNullTerminated, bom = [] ∨ bom = [0xEF, 0xBB, 0xBF] →
      parseWithLengthOpts (bom ++ text ++ [0]) requireNullTerminated = some (some v)) ∧
    parseWithLengthOpts text false = some (some v) :=
  ⟨fun _ requireNullTerminated hbom => parseWithLengthOpts_document h hn hbom requireNullTerminated,
    parseWithLengthOpts_unterminated h hn⟩

/-- The document `[ "A" ]`. -/
theorem accepts_document_letter :
    parseWithLengthOpts [0x5b, 0x20, 0x22, 0x41, 0x22, 0x5d] false =
      some (some (.array [.string [0x41]])) := by
  have hliteral : Literal [0x41] [0x41] :=
    .cons (.plain (by decide) (by decide) (by decide)) .nil
  have hitem : Derives 1 (.value (.string [0x41])) (quoted [0x41]) := .string hliteral
  have hspace : Blank [0x20] := by simp [Blank]
  exact (accepts_document ⟨[], _, [], .nil, .nil, .array (.item hspace .nil hitem), rfl⟩
    (by decide)).2

/-- The first integer that is no double. -/
example :
    (parse (utf8 "9007199254740993")).map Json.getNumberValue =
      some (.finite 9007199254740992) := by
  decide +kernel

end Cjson
end MatrixBin
