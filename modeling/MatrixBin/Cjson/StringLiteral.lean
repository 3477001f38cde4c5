import MatrixBin.Cjson.ParseString
import MatrixBin.Library.JsonText
import Mathlib.Tactic.IntervalCases

/-!
# What `parse_string` makes of a string literal

A literal of the grammar is decoded to the bytes it stands for, however a character is written
(`parseString_literal`).  The scan takes a literal for what it is (`Passed.literal`), and
`utf16_literal_to_utf8` joins surrogate pairs and encodes like UTF-8 (`encodeUtf8_char`).
-/

namespace MatrixBin
namespace Cjson

open Library Library.JsonText

/-! ### Code units -/

theorem hexDigit_eq
    {b : UInt8} {d : Nat}
    (h : HexDigit b d) :
    hexDigit b = some d ∧ d < 16 := by
  cases h with
  | decimal hd => interval_cases d <;> exact ⟨rfl, by omega⟩
  | @upper d hd => interval_cases d <;> exact ⟨rfl, by omega⟩
  | @lower d hd => interval_cases d <;> exact ⟨rfl, by omega⟩

theorem hexFrom_codeUnit
    {digits : List UInt8} {v : Nat}
    (h : CodeUnit digits v) :
    hexFrom 0 digits = v ∧ v < 0x10000 := by
  obtain ⟨h₁, h₂, h₃, h₄⟩ := h
  obtain ⟨e₁, l₁⟩ := hexDigit_eq h₁
  obtain ⟨e₂, l₂⟩ := hexDigit_eq h₂
  obtain ⟨e₃, l₃⟩ := hexDigit_eq h₃
  obtain ⟨e₄, l₄⟩ := hexDigit_eq h₄
  refine ⟨?_, by omega⟩
  simp only [hexFrom, e₁, e₂, e₃, e₄]
  ring

theorem codeUnit_digits
    {digits : List UInt8} {v : Nat}
    (h : CodeUnit digits v) :
    digits.length = 4 ∧ ∀ b ∈ digits, b ≠ backslash ∧ b ≠ quote := by
  obtain ⟨h₁, h₂, h₃, h₄⟩ := h
  refine ⟨rfl, fun b hb => ?_⟩
  have hhex : ∃ d, hexDigit b = some d := by
    simp only [List.mem_cons, List.not_mem_nil, or_false] at hb
    rcases hb with rfl | rfl | rfl | rfl
    · exact ⟨_, (hexDigit_eq h₁).1⟩
    · exact ⟨_, (hexDigit_eq h₂).1⟩
    · exact ⟨_, (hexDigit_eq h₃).1⟩
    · exact ⟨_, (hexDigit_eq h₄).1⟩
  obtain ⟨d, hd⟩ := hhex
  constructor
  · rintro rfl
    simp [hexDigit, backslash] at hd
  · rintro rfl
    simp [hexDigit, quote] at hd

/-! ### UTF-8 -/

/-- A byte behind the first one: the marked low six bits. -/
theorem marked_low
    (v : Nat) :
    (v ||| 0x80) &&& 0xBF = v % 0x40 + 0x80 := by
  have hlow : ∀ r < 256, (r ||| 0x80) &&& 0xBF = r % 0x40 + 0x80 := by decide +kernel
  calc (v ||| 0x80) &&& 0xBF
      = (v ||| 0x80) &&& ((2 ^ 8 - 1) &&& 0xBF) := rfl
    _ = ((v ||| 0x80) &&& (2 ^ 8 - 1)) &&& 0xBF := (Nat.and_assoc _ _ _).symm
    _ = (v % 2 ^ 8 ||| 0x80) &&& 0xBF := by
        rw [Nat.and_two_pow_sub_one_eq_mod, Nat.or_mod_two_pow]
    _ = v % 2 ^ 8 % 0x40 + 0x80 := hlow _ (Nat.mod_lt _ (by decide))
    _ = v % 0x40 + 0x80 := by omega

theorem char_toNat_lt
    (c : Char) :
    c.toNat < 0x110000 := by
  rcases c.valid with h | h
  · exact Nat.lt_trans h (by decide)
  · exact h.2

theorem char_no_surrogate
    (c : Char) :
    c.toNat < 0xD800 ∨ 0xDFFF < c.toNat := by
  rcases c.valid with h | h
  · exact .inl h
  · exact .inr h.1

theorem utf8EncodeChar_eq
    (c : Char) :
    String.utf8EncodeChar c =
      if c.toNat ≤ 0x7f then [UInt8.ofNat c.toNat]
      else if c.toNat ≤ 0x7ff then
        [UInt8.ofNat (c.toNat / 64 % 0x20 + 0xc0), UInt8.ofNat (c.toNat % 0x40 + 0x80)]
      else if c.toNat ≤ 0xffff then
        [UInt8.ofNat (c.toNat / 4096 % 0x10 + 0xe0), UInt8.ofNat (c.toNat / 64 % 0x40 + 0x80),
          UInt8.ofNat (c.toNat % 0x40 + 0x80)]
      else
        [UInt8.ofNat (c.toNat / 262144 % 0x08 + 0xf0), UInt8.ofNat (c.toNat / 4096 % 0x40 + 0x80),
          UInt8.ofNat (c.toNat / 64 % 0x40 + 0x80), UInt8.ofNat (c.toNat % 0x40 + 0x80)] :=
  rfl

/-- The bytes are those of UTF-8. -/
theorem encodeUtf8_char
    (c : Char) :
    encodeUtf8 c.toNat = some (String.utf8EncodeChar c) := by
  have hlt := char_toNat_lt c
  have hascii : ∀ r < 0x80, r &&& 0x7F = r := by decide +kernel
  have htwo : ∀ r < 0x20, (r ||| 0xC0) &&& 0xFF = r + 0xC0 := by decide
  have hthree : ∀ r < 0x10, (r ||| 0xE0) &&& 0xFF = r + 0xE0 := by decide
  have hfour : ∀ r < 0x08, (r ||| 0xF0) &&& 0xFF = r + 0xF0 := by decide
  rw [utf8EncodeChar_eq]
  generalize c.toNat = v at hlt
  unfold encodeUtf8
  by_cases h₁ : v < 0x80
  · rw [if_pos h₁, if_pos (by omega), hascii v h₁]
  rw [if_neg h₁, if_neg (show ¬ v ≤ 0x7f by omega)]
  by_cases h₂ : v < 0x800
  · rw [if_pos h₂, if_pos (by omega)]
    simp only [markedBytes, continuation, marked_low, Nat.shiftRight_eq_div_pow, List.nil_append]
    rw [htwo _ (by omega), show v / 2 ^ 6 = v / 64 % 0x20 by omega]
  rw [if_neg h₂, if_neg (show ¬ v ≤ 0x7ff by omega)]
  by_cases h₃ : v < 0x10000
  · rw [if_pos h₃, if_pos (by omega)]
    simp only [markedBytes, continuation, marked_low, Nat.shiftRight_eq_div_pow, List.nil_append,
      List.cons_append]
    rw [hthree _ (by omega), show v / 2 ^ 6 / 2 ^ 6 = v / 4096 % 0x10 by omega,
      show v / 2 ^ 6 = v / 64 by omega]
  rw [if_neg h₃, if_neg (show ¬ v ≤ 0xffff by omega), if_pos (by omega)]
  simp only [markedBytes, continuation, marked_low, Nat.shiftRight_eq_div_pow, List.nil_append,
    List.cons_append]
  rw [hfour _ (by omega), show v / 2 ^ 6 / 2 ^ 6 / 2 ^ 6 = v / 262144 % 0x08 by omega,
    show v / 2 ^ 6 / 2 ^ 6 = v / 4096 by omega, show v / 2 ^ 6 = v / 64 by omega]

/-- A surrogate pair stands for its character. -/
theorem surrogates
    {x : Nat}
    (hx : x < 0x100000) :
    ((0xD800 + x / 0x400) &&& 0x3FF) <<< 10 ||| ((0xDC00 + x % 0x400) &&& 0x3FF) = x := by
  have hmask : ∀ n : Nat, n &&& 0x3FF = n % 2 ^ 10 := fun n => Nat.and_two_pow_sub_one_eq_mod n 10
  rw [hmask, hmask, ← Nat.shiftLeft_add_eq_or_of_lt (Nat.mod_lt _ (by decide)),
    Nat.shiftLeft_eq]
  omega

/-! ### The scan -/

/-- The bytes that the scan passes over, however it goes on. -/
def Passed (text : List UInt8) : Prop :=
  ∀ rest len skipped, scanEnd rest = some (len, skipped) →
    ∃ skipped', scanEnd (text ++ rest) = some (text.length + len, skipped')

theorem Passed.nil : Passed [] := fun _ len skipped h => ⟨skipped, by simpa using h⟩

theorem Passed.append
    {text more : List UInt8}
    (htext : Passed text)
    (hmore : Passed more) :
    Passed (text ++ more) := by
  intro rest len skipped h
  obtain ⟨s₁, h₁⟩ := hmore rest len skipped h
  obtain ⟨s₂, h₂⟩ := htext _ _ _ h₁
  exact ⟨s₂, by simpa [Nat.add_assoc] using h₂⟩

theorem Passed.plain
    {text : List UInt8}
    (h : ∀ b ∈ text, b ≠ backslash ∧ b ≠ quote) :
    Passed text := by
  induction text with
  | nil => exact .nil
  | cons b text ih =>
      intro rest len skipped hrest
      obtain ⟨hb, hq⟩ := h b (by simp)
      obtain ⟨s, hs⟩ := ih (fun c hc => h c (by simp [hc])) rest len skipped hrest
      refine ⟨s, ?_⟩
      rw [List.cons_append, scanEnd.eq_def]
      simp [hb, hq, hs, Nat.add_right_comm]

theorem Passed.escape
    (b : UInt8) :
    Passed [backslash, b] := by
  intro rest len skipped hrest
  refine ⟨skipped + 1, ?_⟩
  rw [List.cons_append, List.singleton_append, scanEnd.eq_def]
  simp [hrest, backslash, quote, Nat.add_comm]

theorem Passed.unit
    {digits : List UInt8} {v : Nat}
    (h : CodeUnit digits v) :
    Passed (backslash :: 0x75 :: digits) :=
  (Passed.escape 0x75).append (.plain (codeUnit_digits h).2)

theorem Passed.written
    {bytes text : List UInt8}
    (h : Written bytes text) :
    Passed text := by
  cases h with
  | plain hspace hquote hbackslash => exact .plain (by simp [hquote, hbackslash, quote, backslash])
  | @short c b h => exact .escape b
  | unit h => exact .unit h
  | pair hc hhigh hlow => exact (Passed.unit hhigh).append (.unit hlow)

theorem Passed.literal
    {bytes text : List UInt8}
    (h : Literal bytes text) :
    Passed text := by
  induction h with
  | nil => exact .nil
  | cons first behind ih => exact (Passed.written first).append ih

/-! ### The loop -/

/-- Unless it leaves its memory, the loop makes these bytes of a text in front of others, and
goes on. -/
def Gives (text bytes : List UInt8) : Prop :=
  ∀ left room rest outcome, decode (text.length + left) room (text ++ rest) = some outcome →
    ∃ room' outcome', decode left room' rest = some outcome' ∧
      outcome = outcome'.map (bytes ++ ·)

theorem put_eq_some
    {room : Nat} {bytes : List UInt8} {next : Nat → Option (Option (List UInt8))}
    {outcome : Option (List UInt8)}
    (h : put room bytes next = some outcome) :
    ∃ room' outcome', next room' = some outcome' ∧ outcome = outcome'.map (bytes ++ ·) := by
  unfold put at h
  split_ifs at h with hroom
  obtain ⟨outcome', hnext, heq⟩ := Option.map_eq_some_iff.mp h
  exact ⟨_, outcome', hnext, heq.symm⟩

namespace Gives

theorem nil : Gives [] [] := by
  intro left room rest outcome h
  exact ⟨room, outcome, by simpa using h, by cases outcome <;> rfl⟩

theorem append
    {text more bytes moreBytes : List UInt8}
    (htext : Gives text bytes)
    (hmore : Gives more moreBytes) :
    Gives (text ++ more) (bytes ++ moreBytes) := by
  intro left room rest outcome h
  rw [List.length_append, List.append_assoc, Nat.add_assoc] at h
  obtain ⟨room₁, outcome₁, h₁, rfl⟩ := htext _ _ _ _ h
  obtain ⟨room₂, outcome₂, h₂, rfl⟩ := hmore _ _ _ _ h₁
  exact ⟨room₂, outcome₂, h₂, by cases outcome₂ <;> simp⟩

theorem plain
    {text : List UInt8}
    (h : ∀ b ∈ text, b ≠ backslash) :
    Gives text text := by
  induction text with
  | nil => exact .nil
  | cons b text ih =>
      have hfirst : Gives [b] [b] := ?_
      · exact hfirst.append (ih fun c hc => h c (by simp [hc]))
      intro left room rest outcome hdecode
      rw [List.length_singleton, Nat.add_comm, List.singleton_append,
        decode_plain (h b (by simp))] at hdecode
      exact put_eq_some hdecode

theorem escape
    {b e : UInt8}
    (hb : b ≠ 0x75)
    (h : simpleEscape b = some e) :
    Gives [backslash, b] [e] := by
  intro left room rest outcome hdecode
  have hleft : [backslash, b].length + left = (left + 1) + 1 := by simp; omega
  rw [hleft, List.cons_append, List.singleton_append, decode_escape hb, h] at hdecode
  exact put_eq_some hdecode

/-- Literals for one character. -/
theorem literal
    {text bytes : List UInt8}
    (htext : text.head? = some backslash ∧ text[1]? = some 0x75)
    (h : ∀ left rest, utf16LiteralToUtf8 (text.length + left) (text ++ rest) =
      some (some (text.length, bytes))) :
    Gives text bytes := by
  intro left room rest outcome hdecode
  obtain ⟨behind, rfl⟩ : ∃ behind, text = backslash :: 0x75 :: behind := by
    rcases text with _ | ⟨a, _ | ⟨b, behind⟩⟩ <;> simp at htext
    exact ⟨behind, by rw [htext.1, htext.2]⟩
  have hlen : (backslash :: 0x75 :: behind).length + left = behind.length + 1 + left + 1 := by
    simp; omega
  have hgives := h left rest
  rw [hlen, List.cons_append, List.cons_append] at hdecode hgives
  rw [decode_literal hgives (by simp)] at hdecode
  obtain ⟨room', outcome', hnext, rfl⟩ := put_eq_some hdecode
  refine ⟨room', outcome', ?_, rfl⟩
  rw [← hlen, Nat.add_sub_cancel_left, ← List.cons_append, ← List.cons_append,
    List.drop_left] at hnext
  exact hnext

theorem unit
    {c : Char} {digits : List UInt8}
    (h : CodeUnit digits c.toNat) :
    Gives (backslash :: 0x75 :: digits) (String.utf8EncodeChar c) := by
  obtain ⟨hlen, -⟩ := codeUnit_digits h
  obtain ⟨hcode, -⟩ := hexFrom_codeUnit h
  have hvalid := char_no_surrogate c
  obtain ⟨d₁, d₂, d₃, d₄, rfl⟩ := List.length_eq_four.mp hlen
  refine literal ⟨rfl, rfl⟩ fun left rest => ?_
  unfold utf16LiteralToUtf8
  rw [if_neg (by simp)]
  simp only [List.cons_append, List.nil_append, parseHex4_two, hcode, Option.bind_some]
  rw [if_neg (by omega), if_neg (by omega), encodeUtf8_char]
  rfl

theorem pair
    {c : Char} {high low : List UInt8}
    (hc : 0x10000 ≤ c.toNat)
    (hhigh : CodeUnit high (0xD800 + (c.toNat - 0x10000) / 0x400))
    (hlow : CodeUnit low (0xDC00 + (c.toNat - 0x10000) % 0x400)) :
    Gives (backslash :: 0x75 :: high ++ backslash :: 0x75 :: low) (String.utf8EncodeChar c) := by
  have hlt := char_toNat_lt c
  have hencode := encodeUtf8_char c
  obtain ⟨x, hx⟩ := Nat.exists_eq_add_of_le hc
  rw [hx, Nat.add_sub_cancel_left] at hhigh hlow
  rw [hx] at hlt hencode
  obtain ⟨hlenHigh, -⟩ := codeUnit_digits hhigh
  obtain ⟨hlenLow, -⟩ := codeUnit_digits hlow
  obtain ⟨hfirst, -⟩ := hexFrom_codeUnit hhigh
  obtain ⟨hsecond, -⟩ := hexFrom_codeUnit hlow
  obtain ⟨d₁, d₂, d₃, d₄, rfl⟩ := List.length_eq_four.mp hlenHigh
  obtain ⟨e₁, e₂, e₃, e₄, rfl⟩ := List.length_eq_four.mp hlenLow
  refine literal ⟨rfl, rfl⟩ fun left rest => ?_
  unfold utf16LiteralToUtf8
  rw [if_neg (by simp; omega)]
  simp only [List.cons_append, List.nil_append, parseHex4_two, parseHex4_eight, hfirst, hsecond,
    Option.bind_some, List.getElem?_cons_succ, List.getElem?_cons_zero]
  rw [if_neg (by omega), if_pos (by omega), if_neg (by simp), if_neg (by simp),
    if_neg (by omega), surrogates (by omega), hencode]
  rfl

/-- The escapes are those of the grammar. -/
theorem short
    {c : Char} {b : UInt8}
    (h : (c, b) ∈ shortEscapes) :
    Gives [backslash, b] (String.utf8EncodeChar c) := by
  simp only [shortEscapes, List.mem_cons, List.not_mem_nil, or_false, Prod.mk.injEq] at h
  rcases h with ⟨rfl, rfl⟩ | ⟨rfl, rfl⟩ | ⟨rfl, rfl⟩ | ⟨rfl, rfl⟩ | ⟨rfl, rfl⟩ | ⟨rfl, rfl⟩ |
    ⟨rfl, rfl⟩ | ⟨rfl, rfl⟩
  all_goals exact escape (by decide) rfl

theorem written
    {bytes text : List UInt8}
    (h : Written bytes text) :
    Gives text bytes := by
  cases h with
  | plain hspace hquote hbackslash => exact .plain (by simpa [backslash] using hbackslash)
  | short h => exact .short h
  | unit h => exact .unit h
  | pair hc hhigh hlow => exact .pair hc hhigh hlow

theorem ofLiteral
    {bytes text : List UInt8}
    (h : Literal bytes text) :
    Gives text bytes := by
  induction h with
  | nil => exact .nil
  | cons first behind ih => exact (Gives.written first).append ih

end Gives

/-- A literal of the grammar gives the bytes it stands for. -/
theorem parseString_literal
    {bytes text : List UInt8}
    (h : Literal bytes text)
    (behind : List UInt8) :
    parseString (quoted text ++ behind) = some (some (bytes ++ [0], behind)) := by
  have hshape : quoted text ++ behind = quote :: (text ++ quote :: behind) := by
    simp [quoted, quote]
  obtain ⟨skipped, hscan⟩ := Passed.literal h (quote :: behind) 0 0 (by rw [scanEnd.eq_def]; rfl)
  rw [Nat.add_zero] at hscan
  have hsafe := parseString_isSome (List.cons_ne_nil quote (text ++ quote :: behind))
  rw [hshape]
  simp only [parseString, ne_eq, not_true_eq_false, if_false, hscan] at hsafe ⊢
  rw [Option.isSome_map] at hsafe
  obtain ⟨outcome, houtcome⟩ := Option.isSome_iff_exists.mp hsafe
  obtain ⟨room, outcome', hend, rfl⟩ := Gives.ofLiteral h 0 _ _ _ houtcome
  rw [decode_zero] at hend
  obtain ⟨-, outcome'', hlast, rfl⟩ := put_eq_some hend
  rw [Nat.add_zero] at houtcome
  obtain rfl : outcome'' = some [] := (Option.some.inj hlast).symm
  rw [houtcome]
  simp

end Cjson
end MatrixBin
