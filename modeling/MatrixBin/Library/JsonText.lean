import MatrixBin.Library.ByteBuffer
import MatrixBin.Library.FloatFormat
import MatrixBin.Library.JsonDocument

/-!
# The grammar of JSON texts

The grammar over bytes, with what a text means: a byte of a text stands for itself, an escape for
the UTF-8 of its character, which may be written behind a backslash or by its UTF-16 code units in
hexadecimal digits; a number stands for the nearest double, infinite behind the end of the range.
`Derives n` limits the nesting of arrays and objects to `n`.

A text of the document is a C string: it ends at its first zero byte (`stringAt`).
-/

namespace MatrixBin
namespace Library
namespace JsonText

/-! ### Texts -/

/-- The hexadecimal digits, of either case. -/
inductive HexDigit : UInt8 → Nat → Prop
  | decimal
      {d : Nat}
      (hd : d < 10) :
      HexDigit (UInt8.ofNat (0x30 + d)) d
  | upper
      {d : Nat}
      (hd : d < 6) :
      HexDigit (UInt8.ofNat (0x41 + d)) (10 + d)
  | lower
      {d : Nat}
      (hd : d < 6) :
      HexDigit (UInt8.ofNat (0x61 + d)) (10 + d)

/-- A 16-bit code unit in four digits. -/
inductive CodeUnit : List UInt8 → Nat → Prop
  | mk
      {b₁ b₂ b₃ b₄ : UInt8} {d₁ d₂ d₃ d₄ : Nat}
      (h₁ : HexDigit b₁ d₁)
      (h₂ : HexDigit b₂ d₂)
      (h₃ : HexDigit b₃ d₃)
      (h₄ : HexDigit b₄ d₄) :
      CodeUnit [b₁, b₂, b₃, b₄] (((d₁ * 16 + d₂) * 16 + d₃) * 16 + d₄)

/-- The characters with an escape of their own. -/
def shortEscapes : List (Char × UInt8) :=
  [('"', 0x22), ('\\', 0x5c), ('/', 0x2f), ('\x08', 0x62), ('\x0c', 0x66), ('\n', 0x6e),
    ('\r', 0x72), ('\t', 0x74)]

/-- What stands for bytes inside quotes. -/
inductive Written : List UInt8 → List UInt8 → Prop
  | plain
      {b : UInt8}
      (hspace : 0x20 ≤ b)
      (hquote : b ≠ 0x22)
      (hbackslash : b ≠ 0x5c) :
      Written [b] [b]
  | short
      {c : Char} {b : UInt8}
      (h : (c, b) ∈ shortEscapes) :
      Written (String.utf8EncodeChar c) [0x5c, b]
  | unit
      {c : Char} {digits : List UInt8}
      (h : CodeUnit digits c.toNat) :
      Written (String.utf8EncodeChar c) (0x5c :: 0x75 :: digits)
  | pair
      {c : Char} {high low : List UInt8}
      (hc : 0x10000 ≤ c.toNat)
      (hhigh : CodeUnit high (0xD800 + (c.toNat - 0x10000) / 0x400))
      (hlow : CodeUnit low (0xDC00 + (c.toNat - 0x10000) % 0x400)) :
      Written (String.utf8EncodeChar c) (0x5c :: 0x75 :: high ++ 0x5c :: 0x75 :: low)

/-- What may stand between the quotes. -/
inductive Literal : List UInt8 → List UInt8 → Prop
  | nil : Literal [] []
  | cons
      {bytes more text rest : List UInt8}
      (first : Written bytes text)
      (behind : Literal more rest) :
      Literal (bytes ++ more) (text ++ rest)

/-- A text without escapes stands for itself. -/
theorem Literal.of_plain
    {text : List UInt8}
    (h : ∀ b ∈ text, 0x20 ≤ b ∧ b ≠ 0x22 ∧ b ≠ 0x5c) :
    Literal text text := by
  induction text with
  | nil => exact .nil
  | cons b text ih =>
      obtain ⟨hspace, hquote, hbackslash⟩ := h b List.mem_cons_self
      have hrest : ∀ c ∈ text, 0x20 ≤ c ∧ c ≠ 0x22 ∧ c ≠ 0x5c := fun c hc =>
        h c (List.mem_cons_of_mem b hc)
      exact .cons (.plain hspace hquote hbackslash) (ih hrest)

/-! ### Numbers -/

/-- The digits in front of the point: no zero in front of another digit. -/
def IsInt (digits : List UInt8) : Prop :=
  digits ≠ [] ∧ (∀ b ∈ digits, isDigit b = true) ∧ (digits.head? = some 0x30 → digits = [0x30])

/-- The digits behind the point. -/
inductive Fraction : List UInt8 → List UInt8 → Prop
  | none : Fraction [] []
  | some
      {digits : List UInt8}
      (hne : digits ≠ [])
      (hdigits : ∀ b ∈ digits, isDigit b = true) :
      Fraction digits (0x2e :: digits)

/-- The signs of an exponent. -/
inductive Sign : Bool → List UInt8 → Prop
  | none : Sign false []
  | plus : Sign false [0x2b]
  | minus : Sign true [0x2d]

inductive Exponent : ℤ → List UInt8 → Prop
  | none : Exponent 0 []
  | some
      {e : UInt8} {neg : Bool} {sign digits : List UInt8}
      (he : e = 0x65 ∨ e = 0x45)
      (hsign : Sign neg sign)
      (hne : digits ≠ [])
      (hdigits : ∀ b ∈ digits, isDigit b = true) :
      Exponent (if neg then -(digitsValue digits : ℤ) else digitsValue digits)
        (e :: sign ++ digits)

/-- The exact number of a text. -/
inductive Number : ℚ → List UInt8 → Prop
  | mk
      {int frac fraction exponentText : List UInt8} {exponent : ℤ}
      (neg : Bool)
      (hint : IsInt int)
      (hfrac : Fraction frac fraction)
      (hexp : Exponent exponent exponentText) :
      Number
        (if neg then -(digitsValue (int ++ frac) / 10 ^ frac.length * 10 ^ exponent)
          else digitsValue (int ++ frac) / 10 ^ frac.length * 10 ^ exponent)
        ((if neg then [0x2d] else []) ++ int ++ fraction ++ exponentText)

/-! ### Values -/

/-- Space, tabs and ends of lines. -/
def Blank (bytes : List UInt8) : Prop := ∀ b ∈ bytes, b ∈ [(0x20 : UInt8), 0x09, 0x0a, 0x0d]

namespace Blank

theorem nil : Blank [] := by simp [Blank]

theorem single
    {b : UInt8}
    (h : b ∈ [(0x20 : UInt8), 0x09, 0x0a, 0x0d]) :
    Blank [b] := by
  rintro c hc
  rwa [List.mem_singleton.mp hc]

theorem append
    {a b : List UInt8}
    (ha : Blank a)
    (hb : Blank b) :
    Blank (a ++ b) := by
  intro c hc
  rcases List.mem_append.mp hc with hc | hc
  · exact ha c hc
  · exact hb c hc

theorem tabs
    (n : Nat) :
    Blank (List.replicate n 0x09) := by
  intro b hb
  rw [List.eq_of_mem_replicate hb]
  decide

/-- Blanks that a formatted text has and another one has not. -/
theorem ite
    {c : Prop} [Decidable c] {bytes : List UInt8}
    (h : Blank bytes) :
    Blank (if c then bytes else []) := by
  split_ifs
  · exact h
  · exact nil

end Blank

/-- What a text can stand for: a value, or the inside of an array or an object. -/
inductive Node
  | value (v : Json)
  | items (vs : List Json)
  | members (ms : List (List UInt8 × Json))

/-- A text in quotes. -/
def quoted (text : List UInt8) : List UInt8 := 0x22 :: (text ++ [0x22])

inductive Derives : Nat → Node → List UInt8 → Prop
  | null
      {n : Nat} :
      Derives n (.value .null) (utf8 "null")
  | bool
      {n : Nat}
      (b : Bool) :
      Derives n (.value (.bool b)) (utf8 (if b then "true" else "false"))
  | number
      {n : Nat} {q : ℚ} {text : List UInt8}
      (h : Number q text) :
      Derives n (.value (.number (FloatFormat.binary64.round q))) text
  | string
      {n : Nat} {bytes text : List UInt8}
      (h : Literal bytes text) :
      Derives n (.value (.string (stringAt bytes))) (quoted text)
  | emptyArray
      {n : Nat} {space : List UInt8}
      (h : Blank space) :
      Derives (n + 1) (.value (.array [])) (0x5b :: (space ++ [0x5d]))
  | array
      {n : Nat} {vs : List Json} {text : List UInt8}
      (inside : Derives n (.items vs) text) :
      Derives (n + 1) (.value (.array vs)) (0x5b :: (text ++ [0x5d]))
  | emptyObject
      {n : Nat} {space : List UInt8}
      (h : Blank space) :
      Derives (n + 1) (.value (.object [])) (0x7b :: (space ++ [0x7d]))
  | object
      {n : Nat} {ms : List (List UInt8 × Json)} {text : List UInt8}
      (inside : Derives n (.members ms) text) :
      Derives (n + 1) (.value (.object ms)) (0x7b :: (text ++ [0x7d]))
  | item
      {n : Nat} {v : Json} {before text behind : List UInt8}
      (hbefore : Blank before)
      (hbehind : Blank behind)
      (value : Derives n (.value v) text) :
      Derives n (.items [v]) (before ++ (text ++ behind))
  | items
      {n : Nat} {v : Json} {vs : List Json} {before text behind rest : List UInt8}
      (hbefore : Blank before)
      (hbehind : Blank behind)
      (value : Derives n (.value v) text)
      (more : Derives n (.items vs) rest) :
      Derives n (.items (v :: vs)) (before ++ (text ++ (behind ++ 0x2c :: rest)))
  | member
      {n : Nat} {v : Json}
      {bytes before name colon space text behind : List UInt8}
      (hname : Literal bytes name)
      (hbefore : Blank before)
      (hcolon : Blank colon)
      (hspace : Blank space)
      (hbehind : Blank behind)
      (value : Derives n (.value v) text) :
      Derives n (.members [(stringAt bytes, v)])
        (before ++ (quoted name ++ (colon ++ 0x3a :: (space ++ (text ++ behind)))))
  | members
      {n : Nat} {v : Json} {ms : List (List UInt8 × Json)}
      {bytes before name colon space text behind rest : List UInt8}
      (hname : Literal bytes name)
      (hbefore : Blank before)
      (hcolon : Blank colon)
      (hspace : Blank space)
      (hbehind : Blank behind)
      (value : Derives n (.value v) text)
      (more : Derives n (.members ms) rest) :
      Derives n (.members ((stringAt bytes, v) :: ms))
        (before ++ (quoted name ++ (colon ++ 0x3a :: (space ++ (text ++ (behind ++ 0x2c :: rest))))))

theorem utf8_null : utf8 "null" = [0x6e, 0x75, 0x6c, 0x6c] := by decide +kernel

theorem utf8_false : utf8 "false" = [0x66, 0x61, 0x6c, 0x73, 0x65] := by decide +kernel

theorem utf8_true : utf8 "true" = [0x74, 0x72, 0x75, 0x65] := by decide +kernel

/-- A whole text, with blanks around the value. -/
def Document (n : Nat) (v : Json) (text : List UInt8) : Prop :=
  ∃ before inside behind, Blank before ∧ Blank behind ∧ Derives n (.value v) inside ∧
    text = before ++ (inside ++ behind)

/-- A tree of C strings, nested no deeper than `n`, with numbers of a kind. -/
inductive Fits (kind : FloatValue → Prop) : Nat → Node → Prop
  | null
      {n : Nat} :
      Fits kind n (.value .null)
  | bool
      {n : Nat}
      (b : Bool) :
      Fits kind n (.value (.bool b))
  | number
      {n : Nat} {q : FloatValue}
      (h : kind q) :
      Fits kind n (.value (.number q))
  | string
      {n : Nat} {text : List UInt8}
      (h : (0 : UInt8) ∉ text) :
      Fits kind n (.value (.string text))
  | array
      {n : Nat} {vs : List Json}
      (inside : Fits kind n (.items vs)) :
      Fits kind (n + 1) (.value (.array vs))
  | object
      {n : Nat} {ms : List (List UInt8 × Json)}
      (inside : Fits kind n (.members ms)) :
      Fits kind (n + 1) (.value (.object ms))
  | noItems
      {n : Nat} :
      Fits kind n (.items [])
  | items
      {n : Nat} {v : Json} {vs : List Json}
      (first : Fits kind n (.value v))
      (more : Fits kind n (.items vs)) :
      Fits kind n (.items (v :: vs))
  | noMembers
      {n : Nat} :
      Fits kind n (.members [])
  | members
      {n : Nat} {name : List UInt8} {v : Json} {ms : List (List UInt8 × Json)}
      (hname : (0 : UInt8) ∉ name)
      (first : Fits kind n (.value v))
      (more : Fits kind n (.members ms)) :
      Fits kind n (.members ((name, v) :: ms))

theorem Fits.mono
    {kind kind' : FloatValue → Prop} {n : Nat} {node : Node}
    (hkind : ∀ q, kind q → kind' q)
    (h : Fits kind n node) :
    Fits kind' n node := by
  induction h with
  | null => exact .null
  | bool b => exact .bool b
  | number h => exact .number (hkind _ h)
  | string h => exact .string h
  | array inside ih => exact .array ih
  | object inside ih => exact .object ih
  | noItems => exact .noItems
  | items first more ihFirst ihMore => exact .items ihFirst ihMore
  | noMembers => exact .noMembers
  | members hname first more ihFirst ihMore => exact .members hname ihFirst ihMore

/-- The depth of one tree and the numbers of another one are those of the tree they share. -/
theorem Fits.depth
    {kind kind' : FloatValue → Prop} {n m : Nat} {node : Node}
    (h : Fits kind n node)
    (hdepth : Fits kind' m node) :
    Fits kind m node := by
  induction hdepth generalizing n with
  | null => exact .null
  | bool b => exact .bool b
  | number hq =>
      cases h with
      | number h => exact .number h
  | string htext => exact .string htext
  | array inside ih =>
      cases h with
      | array h => exact .array (ih h)
  | object inside ih =>
      cases h with
      | object h => exact .object (ih h)
  | noItems => exact .noItems
  | items first more ihFirst ihMore =>
      cases h with
      | items hfirst hmore => exact .items (ihFirst hfirst) (ihMore hmore)
  | noMembers => exact .noMembers
  | members hname first more ihFirst ihMore =>
      cases h with
      | members hname hfirst hmore => exact .members hname (ihFirst hfirst) (ihMore hmore)

end JsonText
end Library
end MatrixBin
