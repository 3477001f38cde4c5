import MatrixBin.Cjson.ParseString
import MatrixBin.Library.ByteBuffer
import MatrixBin.Library.JsonText

/-!
# The printer of cJSON (`cJSON_Print`, `cJSON_PrintUnformatted`)

The printer writes into a buffer that grows (`ensure`).  Most of what it writes ends with a zero
that the next text overwrites; `update_offset` looks for it.  An outer `none` is a write or a
read outside the buffer, an inner one a failure.  `realloc` succeeds, and leaves the bytes behind
the old ones as they are in the function that stands for the memory.

What `sprintf` makes of a number that is no `int`, with `%1.15g` or `%1.17g`, is a parameter.
-/

namespace MatrixBin
namespace Cjson

open Library Library.JsonText

/-- `INT_MAX` -/
def intMax : Nat := 2 ^ 31 - 1

/-- `printbuffer`, without its hooks and the flags. -/
structure Printbuffer where
  buffer : Bytes
  length : Nat
  offset : Nat
  depth : Nat

/-- What a function of the printer gives. -/
abbrev Printing := Option (Option Printbuffer)

/-- The rest of a function behind a call that may fail. -/
def Printing.andThen (printing : Printing) (next : Printbuffer → Printing) : Printing :=
  printing.bind fun
    | none => some none
    | some p => next p

namespace Printbuffer

/-- `ensure` -/
def ensure (p : Printbuffer) (needed : Nat) : Option Printbuffer :=
  if 0 < p.length ∧ p.length ≤ p.offset then none
  else if intMax < needed then none
  else if needed + p.offset + 1 ≤ p.length then some p
  else if intMax / 2 < needed + p.offset + 1 then
    if needed + p.offset + 1 ≤ intMax then some { p with length := intMax } else none
  else some { p with length := (needed + p.offset + 1) * 2 }

/-- Goes on where there is room. -/
def ensured (p : Printbuffer) (needed : Nat) (next : Printbuffer → Printing) : Printing :=
  match p.ensure needed with
  | none => some none
  | some p => next p

def write (p : Printbuffer) (pos : Nat) (bytes : List UInt8) : Option Printbuffer :=
  (store p.length p.buffer pos bytes).map fun buffer => { p with buffer := buffer }

def advance (p : Printbuffer) (n : Nat) : Printbuffer := { p with offset := p.offset + n }

/-- `update_offset` -/
def updateOffset (p : Printbuffer) : Option Printbuffer :=
  (strlen p.length p.buffer p.offset).map p.advance

end Printbuffer

/-! ### Numbers and texts -/

/-- `%d` -/
def printInt (n : ℤ) : List UInt8 := (if n < 0 then [0x2d] else []) ++ printNat n.natAbs

/-- A number that `valueint` holds. -/
def IsInt32 : FloatValue → Prop
  | .finite q => q.den = 1 ∧ -2 ^ 31 ≤ q.num ∧ q.num ≤ 2 ^ 31 - 1
  | _ => False

instance (v : FloatValue) : Decidable (IsInt32 v) :=
  match v with
  | .finite _ => inferInstanceAs (Decidable (_ ∧ _ ∧ _))
  | .infinite _ => inferInstanceAs (Decidable False)
  | .nan => inferInstanceAs (Decidable False)

/-- `compare_double`: equal up to the relative error `DBL_EPSILON`, in doubles. -/
def compareDouble (a b : FloatValue) : Bool :=
  let maxVal := if a.abs.leb b.abs then b.abs else a.abs
  (@FloatValue.sub FloatFormat.binary64.rounding a b).abs.leb
    (@FloatValue.mul FloatFormat.binary64.rounding maxVal (.finite (2 ^ (-52 : ℤ))))

/-- The number in the text is read back with `sscanf`. -/
def readsBack (text : List UInt8) (v : FloatValue) : Bool :=
  match strtod (text ++ [0]) with
  | some (number, rest) =>
      rest.length ≤ text.length && compareDouble (FloatFormat.binary64.round number) v
  | none => false

/-- The letter of a one character escape. -/
def escapeLetter (b : UInt8) : Option UInt8 :=
  if b = backslash then some backslash
  else if b = quote then some quote
  else if b = 0x08 then some 0x62
  else if b = 0x0c then some 0x66
  else if b = 0x0a then some 0x6e
  else if b = 0x0d then some 0x72
  else if b = 0x09 then some 0x74
  else none

/-- `u%04x` of a byte -/
def unicodeEscape (b : UInt8) : List UInt8 :=
  let digit (d : Nat) : UInt8 := UInt8.ofNat (if d < 10 then 0x30 + d else 0x57 + d)
  [0x75, 0x30, 0x30, digit (b.toNat / 16), digit (b.toNat % 16)]

/-- How many more characters a byte takes. -/
def escapeCharacters (b : UInt8) : Nat :=
  if (escapeLetter b).isSome then 1 else if b < 32 then 5 else 0

/-- The loop of `print_string_ptr` that counts. -/
def countEscapes : List UInt8 → Nat
  | [] => 0
  | b :: rest => escapeCharacters b + countEscapes rest

/-- The loop of `print_string_ptr` that copies the string, from a position of the buffer on. -/
def copyEscaped (p : Printbuffer) (pos : Nat) : List UInt8 → Option Printbuffer
  | [] => some p
  | b :: rest =>
      if 31 < b ∧ b ≠ quote ∧ b ≠ backslash then
        (p.write pos [b]).bind fun p => copyEscaped p (pos + 1) rest
      else
        (p.write pos [backslash]).bind fun p =>
          match escapeLetter b with
          | some c => (p.write (pos + 1) [c]).bind fun p => copyEscaped p (pos + 2) rest
          | none =>
              -- sprintf writes its terminator, too.
              (p.write (pos + 1) (unicodeEscape b ++ [0])).bind fun p =>
                copyEscaped p (pos + 6) rest

/-- `print_string_ptr` of a C string -/
def printStringPtr (input : List UInt8) (p : Printbuffer) : Printing :=
  let escapes := countEscapes input
  let outputLength := input.length + escapes
  p.ensured (outputLength + 3) fun p =>
    if escapes = 0 then
      (p.write p.offset (quote :: input ++ [quote, 0])).map some
    else
      (p.write p.offset [quote]).bind fun p =>
        (copyEscaped p (p.offset + 1) input).bind fun p =>
          (p.write (p.offset + outputLength + 1) [quote, 0]).map some

/-- A text with its terminator, where there is room for it. -/
def printTerminated (text : List UInt8) (p : Printbuffer) : Printing :=
  p.ensured (text.length + 1) fun p => (p.write p.offset (text ++ [0])).map some

section Printer

variable (format : Bool) (general : Nat → ℚ → List UInt8)

/-- The text of a number in `print_number`: 15 digits, or 17 where these are not read back. -/
def numberText : FloatValue → List UInt8
  | .finite q =>
      if IsInt32 (.finite q) then printInt q.num
      else if readsBack (general 15 q) (.finite q) then general 15 q
      else general 17 q
  | _ => utf8 "null"

/-- `print_number` -/
def printNumber (v : FloatValue) (p : Printbuffer) : Printing :=
  if 25 < (numberText general v).length then some none
  else printTerminated (numberText general v) p

/-! ### Values -/

mutual

/-- `print_value` -/
def printValue (p : Printbuffer) : Json → Printing
  | .null => printTerminated (utf8 "null") p
  | .bool false => printTerminated (utf8 "false") p
  | .bool true => printTerminated (utf8 "true") p
  | .number v => printNumber general v p
  | .string text => printStringPtr text p
  | .array items =>
      -- print_array
      p.ensured 1 fun p =>
        (p.write p.offset [0x5b]).bind fun p =>
          (printItems { p.advance 1 with depth := p.depth + 1 } items).andThen fun p =>
            p.ensured 2 fun p =>
              (p.write p.offset [0x5d, 0]).map fun p => some { p with depth := p.depth - 1 }
  | .object members =>
      -- print_object
      let opening : List UInt8 := if format then [0x7b, 0x0a] else [0x7b]
      p.ensured (opening.length + 1) fun p =>
        (p.write p.offset opening).bind fun p =>
          (printMembers { p.advance opening.length with depth := p.depth + 1 } members).andThen
            fun p =>
              p.ensured (if format then p.depth + 1 else 2) fun p =>
                (p.write p.offset
                  ((if format then List.replicate (p.depth - 1) 0x09 else []) ++ [0x7d, 0])).map
                    fun p => some { p with depth := p.depth - 1 }

/-- The loop of `print_array`. -/
def printItems (p : Printbuffer) : List Json → Printing
  | [] => some (some p)
  | v :: rest =>
      (printValue p v).andThen fun p =>
        p.updateOffset.bind fun p =>
          if rest = [] then some (some p)
          else
            let comma : List UInt8 := if format then [0x2c, 0x20] else [0x2c]
            p.ensured (comma.length + 1) fun p =>
              (p.write p.offset (comma ++ [0])).bind fun p =>
                printItems (p.advance comma.length) rest

/-- The loop of `print_object`. -/
def printMembers (p : Printbuffer) : List (List UInt8 × Json) → Printing
  | [] => some (some p)
  | m :: rest =>
      (printMember p m).andThen fun p =>
        let ending : List UInt8 :=
          (if rest = [] then [] else [0x2c]) ++ (if format then [0x0a] else [])
        p.ensured (ending.length + 1) fun p =>
          (p.write p.offset (ending ++ [0])).bind fun p =>
            printMembers (p.advance ending.length) rest

/-- A name and its value, in the loop of `print_object`. -/
def printMember (p : Printbuffer) : List UInt8 × Json → Printing
  | (name, v) =>
      let tabs : Printing :=
        if format then
          p.ensured p.depth fun p =>
            (p.write p.offset (List.replicate p.depth 0x09)).map fun p => some (p.advance p.depth)
        else some (some p)
      tabs.andThen fun p =>
        (printStringPtr name p).andThen fun p =>
          p.updateOffset.bind fun p =>
            let colon : List UInt8 := if format then [0x3a, 0x09] else [0x3a]
            p.ensured colon.length fun p =>
              (p.write p.offset colon).bind fun p =>
                (printValue (p.advance colon.length) v).andThen fun p => p.updateOffset.map some

end

/-- `print`: the bytes of the string that is given back, from a first buffer of any contents. -/
def print (fresh : Bytes) (item : Json) : Option (Option (List UInt8)) :=
  (printValue format general ⟨fresh, 256, 0, 0⟩ item).bind fun
    | none => some none
    | some p => p.updateOffset.bind fun p => (load p.length p.buffer 0 p.offset).map some

end Printer

end Cjson
end MatrixBin
