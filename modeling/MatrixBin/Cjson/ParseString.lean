import Mathlib.Data.List.Basic
import Mathlib.Data.Nat.Bitwise
import Mathlib.Tactic.Positivity
import Mathlib.Tactic.Ring

/-!
# The string literals of cJSON (`parse_string`, `utf16_literal_to_utf8`)

`parse_string` first looks for the closing quote, counting the backslashes it skips over, and
allocates what the text can take at most; then it goes over the literal again and writes the
text.  An outer `none` is a read outside the buffer or a write outside the allocation; an inner
one is a text that is refused.  Allocations succeed.

The two passes do not always agree: the digits behind `\u` are not checked, and may be the first
half of another escape.  `parseString_isSome` says that the writes fit all the same.
-/

namespace MatrixBin
namespace Cjson

/-- What a function of the parser gives: a value and what is left of the buffer. -/
abbrev Reading (α : Type) := Option (Option (α × List UInt8))

/-- The rest of a function behind a call that may refuse the text. -/
def Reading.andThen {α β : Type} (reading : Reading α) (next : α → List UInt8 → Reading β) :
    Reading β :=
  reading.bind fun
    | none => some none
    | some (a, rest) => next a rest

def backslash : UInt8 := 0x5c

def quote : UInt8 := 0x22

/-! ### Characters beyond ASCII -/

/-- A digit of `parse_hex4`. -/
def hexDigit (b : UInt8) : Option Nat :=
  if 0x30 ≤ b ∧ b ≤ 0x39 then some (b.toNat - 0x30)
  else if 0x41 ≤ b ∧ b ≤ 0x46 then some (10 + b.toNat - 0x41)
  else if 0x61 ≤ b ∧ b ≤ 0x66 then some (10 + b.toNat - 0x61)
  else none

/-- The loop of `parse_hex4` over the digits left; an invalid digit makes the result 0. -/
def hexFrom (h : Nat) : List UInt8 → Nat
  | [] => h
  | b :: rest =>
      match hexDigit b with
      | some d => hexFrom (16 * h + d) rest
      | none => 0

/-- `parse_hex4` at a position of the input. -/
def parseHex4 (input : List UInt8) (pos : Nat) : Option Nat :=
  let digits := (input.drop pos).take 4
  if digits.length = 4 then some (hexFrom 0 digits) else none

/-- The loop over the bytes behind the first one, the last byte first: what is left of the code
point, and the bytes. -/
def continuation : Nat → Nat → Nat × List UInt8
  | 0, codepoint => (codepoint, [])
  | n + 1, codepoint =>
      let (left, bytes) := continuation n (codepoint >>> 6)
      (left, bytes ++ [UInt8.ofNat ((codepoint ||| 0x80) &&& 0xBF)])

/-- A code point in `n + 1` bytes. -/
def markedBytes (n mark codepoint : Nat) : List UInt8 :=
  let (left, bytes) := continuation n codepoint
  UInt8.ofNat ((left ||| mark) &&& 0xFF) :: bytes

/-- The bytes of a code point, if it is valid. -/
def encodeUtf8 (codepoint : Nat) : Option (List UInt8) :=
  if codepoint < 0x80 then some [UInt8.ofNat (codepoint &&& 0x7F)]
  else if codepoint < 0x800 then some (markedBytes 1 0xC0 codepoint)
  else if codepoint < 0x10000 then some (markedBytes 2 0xE0 codepoint)
  else if codepoint ≤ 0x10FFFF then some (markedBytes 3 0xF0 codepoint)
  else none

/-- `utf16_literal_to_utf8`, with so many bytes in front of the closing quote: the length of the
literals and the bytes, or a failure. -/
def utf16LiteralToUtf8 (left : Nat) (input : List UInt8) : Option (Option (Nat × List UInt8)) :=
  if left < 6 then some none
  else
    (parseHex4 input 2).bind fun firstCode =>
      if 0xDC00 ≤ firstCode ∧ firstCode ≤ 0xDFFF then some none
      else if 0xD800 ≤ firstCode ∧ firstCode ≤ 0xDBFF then
        if left < 12 then some none
        else
          input[6]?.bind fun b => input[7]?.bind fun c =>
            if b ≠ backslash ∨ c ≠ 0x75 then some none
            else
              (parseHex4 input 8).bind fun secondCode =>
                if secondCode < 0xDC00 ∨ 0xDFFF < secondCode then some none
                else
                  some ((encodeUtf8
                    (0x10000 + (((firstCode &&& 0x3FF) <<< 10) ||| (secondCode &&& 0x3FF)))).map
                      fun bytes => (12, bytes))
      else some ((encodeUtf8 firstCode).map fun bytes => (6, bytes))

/-! ### The two passes -/

/-- The closing quote: how far it is, and how many backslashes are skipped in front of it. -/
def scanEnd : List UInt8 → Option (Nat × Nat)
  | [] => none
  | b :: rest =>
      if b = quote then some (0, 0)
      else if b = backslash then
        match rest with
        | [] => none
        | _ :: rest => (scanEnd rest).map fun (len, skipped) => (len + 2, skipped + 1)
      else (scanEnd rest).map fun (len, skipped) => (len + 1, skipped)

/-- The escapes of one character. -/
def simpleEscape (b : UInt8) : Option UInt8 :=
  if b = 0x62 then some 0x08
  else if b = 0x66 then some 0x0c
  else if b = 0x6e then some 0x0a
  else if b = 0x72 then some 0x0d
  else if b = 0x74 then some 0x09
  else if b = quote ∨ b = backslash ∨ b = 0x2f then some b
  else none

/-- Writes bytes where there is room for so many, and goes on. -/
def put (room : Nat) (bytes : List UInt8) (next : Nat → Option (Option (List UInt8))) :
    Option (Option (List UInt8)) :=
  if bytes.length ≤ room then (next (room - bytes.length)).map (Option.map (bytes ++ ·)) else none

/-- The loop through the literal, with so many bytes in front of the closing quote. -/
def decode (left : Nat) (room : Nat) (input : List UInt8) : Option (Option (List UInt8)) :=
  if left = 0 then put room [0] fun _ => some (some [])
  else
    match input with
    | [] => none
    | b :: rest =>
        if b ≠ backslash then put room [b] fun room => decode (left - 1) room rest
        else
          match rest with
          | [] => none
          | c :: behind =>
              if c = 0x75 then
                (utf16LiteralToUtf8 left input).bind fun
                  | none => some none
                  | some (len, bytes) =>
                      put room bytes fun room =>
                        if len = 0 then none else decode (left - len) room (input.drop len)
              else
                match simpleEscape c with
                | none => some none
                | some e => put room [e] fun room => decode (left - 2) room behind
termination_by left

/-- `parse_string`: the bytes written, the last one the terminating zero, and what follows the
literal. -/
def parseString (buffer : List UInt8) : Reading (List UInt8) :=
  match buffer with
  | [] => none
  | b :: input =>
      if b ≠ quote then some none
      else
        match scanEnd input with
        | none => some none
        | some (len, skipped) =>
            (decode len (len + 1 - skipped + 1) input).map
              (Option.map fun text => (text, input.drop (len + 1)))

/-! ### The room for the text

`Counted inPair body n`: from a byte behind a backslash, or not, the scan counts `n` bytes of
text to the closing quote.  The loop through the literal may be at the second byte of what the
scan took for one escape; `n` bounds what it writes from there. -/

inductive Counted : Bool → List UInt8 → Nat → Prop
  | nil : Counted false [] 0
  | plain
      {b : UInt8} {rest : List UInt8} {n : Nat}
      (hb : b ≠ backslash)
      (next : Counted false rest n) :
      Counted false (b :: rest) (n + 1)
  | escape
      {rest : List UInt8} {n : Nat}
      (next : Counted true rest n) :
      Counted false (backslash :: rest) n
  | escaped
      {b : UInt8} {rest : List UInt8} {n : Nat}
      (next : Counted false rest n) :
      Counted true (b :: rest) (n + 1)

/-- What the scan counts, in front of the closing quote it finds. -/
theorem counted_of_scanEnd
    {input : List UInt8}
    {len skipped : Nat}
    (h : scanEnd input = some (len, skipped)) :
    ∃ body rest, input = body ++ quote :: rest ∧ body.length = len ∧ skipped ≤ len ∧
      Counted false body (len - skipped) := by
  induction input using scanEnd.induct generalizing len skipped with
  | case1 => simp [scanEnd] at h
  | case2 rest =>
      rw [scanEnd.eq_def] at h
      obtain ⟨rfl, rfl⟩ := Prod.mk.inj (Option.some.inj h)
      exact ⟨[], rest, rfl, rfl, le_rfl, .nil⟩
  | case3 hq => simp [scanEnd, hq] at h
  | case4 b rest hq ih =>
      obtain ⟨⟨l, s⟩, hl, hlen⟩ : ∃ r, scanEnd rest = some r ∧ (r.1 + 2, r.2 + 1) = (len, skipped) := by
        simpa [scanEnd, hq] using h
      obtain ⟨body, tail, rfl, rfl, hs, hc⟩ := ih hl
      obtain ⟨rfl, rfl⟩ := Prod.mk.inj hlen
      refine ⟨backslash :: b :: body, tail, rfl, by simp, by omega, .escape ?_⟩
      have hn : body.length + 2 - (s + 1) = body.length - s + 1 := by omega
      exact hn ▸ .escaped hc
  | case5 b rest hq hb ih =>
      obtain ⟨⟨l, s⟩, hl, hlen⟩ : ∃ r, scanEnd rest = some r ∧ (r.1 + 1, r.2) = (len, skipped) := by
        rw [scanEnd.eq_def] at h
        simpa [hq, hb] using h
      obtain ⟨body, tail, rfl, rfl, hs, hc⟩ := ih hl
      obtain ⟨rfl, rfl⟩ := Prod.mk.inj hlen
      refine ⟨b :: body, tail, rfl, by simp, by omega, ?_⟩
      have hn : body.length + 1 - s = body.length - s + 1 := by omega
      exact hn ▸ .plain hb hc

namespace Counted

/-- One byte further. -/
theorem tail
    {inPair : Bool} {b : UInt8} {rest : List UInt8} {n : Nat}
    (h : Counted inPair (b :: rest) n) :
    ∃ inPair' n', Counted inPair' rest n' ∧ n' ≤ n := by
  cases h with
  | plain hb next => exact ⟨false, _, next, by omega⟩
  | escape next => exact ⟨true, _, next, le_rfl⟩
  | escaped next => exact ⟨false, _, next, by omega⟩

/-- One byte further that is no backslash. -/
theorem tail_plain
    {inPair : Bool} {b : UInt8} {rest : List UInt8} {n : Nat}
    (h : Counted inPair (b :: rest) n)
    (hb : b ≠ backslash) :
    ∃ n', Counted false rest n' ∧ n' + 1 = n := by
  cases h with
  | plain hb next => exact ⟨_, next, rfl⟩
  | escape next => exact absurd rfl hb
  | escaped next => exact ⟨_, next, rfl⟩

/-- Two bytes further: one of them counts. -/
theorem tail_two
    {inPair : Bool} {b c : UInt8} {rest : List UInt8} {n : Nat}
    (h : Counted inPair (b :: c :: rest) n) :
    ∃ inPair' n', Counted inPair' rest n' ∧ n' + 1 ≤ n := by
  cases h with
  | plain hb next =>
      obtain ⟨p, n', h', hle⟩ := next.tail
      exact ⟨p, n', h', by omega⟩
  | escape next =>
      cases next with
      | escaped next => exact ⟨false, _, next, le_rfl⟩
  | escaped next =>
      obtain ⟨p, n', h', hle⟩ := next.tail
      exact ⟨p, n', h', by omega⟩

/-- Over bytes that are no backslashes. -/
theorem append_plain
    {inPair : Bool} {bytes rest : List UInt8} {n : Nat}
    (h : Counted inPair (bytes ++ rest) n)
    (hbytes : ∀ b ∈ bytes, b ≠ backslash) :
    ∃ inPair' n', Counted inPair' rest n' ∧ n' + bytes.length = n := by
  induction bytes generalizing inPair n with
  | nil => exact ⟨inPair, n, h, by simp⟩
  | cons b bytes ih =>
      obtain ⟨n', h', hn'⟩ := h.tail_plain (hbytes b (by simp))
      obtain ⟨p, n'', h'', hn''⟩ := ih h' fun c hc => hbytes c (by simp [hc])
      exact ⟨p, n'', h'', by simp; omega⟩

end Counted

/-! ### The sizes of what is written -/

theorem hexDigit_lt
    {b : UInt8} {d : Nat}
    (h : hexDigit b = some d) :
    d < 16 := by
  unfold hexDigit at h
  simp only [UInt8.le_iff_toNat_le, UInt8.reduceToNat] at h
  split_ifs at h <;> simp only [Option.some.injEq] at h <;> omega

theorem hexDigit_ne_backslash
    {b : UInt8}
    (h : (hexDigit b).isSome) :
    b ≠ backslash := by
  rintro rfl
  simp [hexDigit, backslash] at h

/-- A code other than 0 has digits only. -/
theorem hexDigit_of_hexFrom_ne_zero
    {h : Nat} {digits : List UInt8}
    (hne : hexFrom h digits ≠ 0) :
    ∀ b ∈ digits, (hexDigit b).isSome := by
  induction digits generalizing h with
  | nil => simp
  | cons b digits ih =>
      unfold hexFrom at hne
      cases hb : hexDigit b with
      | none => simp [hb] at hne
      | some d =>
          rw [hb] at hne
          intro c hc
          rcases List.mem_cons.mp hc with rfl | hc
          · simp [hb]
          · exact ih hne c hc

theorem hexFrom_lt
    (h : Nat)
    (digits : List UInt8) :
    hexFrom h digits < (h + 1) * 16 ^ digits.length := by
  induction digits generalizing h with
  | nil => simp [hexFrom]
  | cons b digits ih =>
      unfold hexFrom
      cases hb : hexDigit b with
      | none =>
          simp only
          positivity
      | some d =>
          have hd := hexDigit_lt hb
          calc hexFrom (16 * h + d) digits
              < (16 * h + d + 1) * 16 ^ digits.length := ih _
            _ ≤ ((h + 1) * 16) * 16 ^ digits.length := Nat.mul_le_mul_right _ (by omega)
            _ = (h + 1) * 16 ^ (digits.length + 1) := by ring

theorem length_continuation
    (n codepoint : Nat) :
    (continuation n codepoint).2.length = n := by
  induction n generalizing codepoint with
  | zero => rfl
  | succ n ih => simp [continuation, ih]

theorem length_markedBytes
    (n mark codepoint : Nat) :
    (markedBytes n mark codepoint).length = n + 1 := by
  simp [markedBytes, length_continuation]

theorem length_encodeUtf8_le
    {codepoint : Nat} {bytes : List UInt8}
    (h : encodeUtf8 codepoint = some bytes) :
    bytes.length ≤ 4 ∧ (codepoint < 0x10000 → bytes.length ≤ 3) ∧ (codepoint < 0x80 → bytes.length = 1) := by
  unfold encodeUtf8 at h
  split_ifs at h <;> simp only [Option.some.injEq] at h <;> subst h <;>
    simp [length_markedBytes] <;> omega

/-! ### The loop through the literal -/

theorem parseHex4_two
    (a b d₁ d₂ d₃ d₄ : UInt8)
    (rest : List UInt8) :
    parseHex4 (a :: b :: d₁ :: d₂ :: d₃ :: d₄ :: rest) 2 = some (hexFrom 0 [d₁, d₂, d₃, d₄]) :=
  rfl

theorem parseHex4_eight
    (a b d₁ d₂ d₃ d₄ a' b' e₁ e₂ e₃ e₄ : UInt8)
    (rest : List UInt8) :
    parseHex4 (a :: b :: d₁ :: d₂ :: d₃ :: d₄ :: a' :: b' :: e₁ :: e₂ :: e₃ :: e₄ :: rest) 8 =
      some (hexFrom 0 [e₁, e₂, e₃, e₄]) :=
  rfl

/-- Four digits of a code other than 0 are bytes that the scan counts. -/
theorem Counted.digits
    {inPair : Bool} {rest : List UInt8} {n : Nat}
    (digits : List UInt8)
    (h : Counted inPair (digits ++ rest) n)
    (hne : hexFrom 0 digits ≠ 0) :
    ∃ inPair' n', Counted inPair' rest n' ∧ n' + digits.length = n :=
  h.append_plain fun b hb => hexDigit_ne_backslash (hexDigit_of_hexFrom_ne_zero hne b hb)

/-- Behind the first literal, and the room it leaves. -/
theorem Counted.literal
    {inPair : Bool} {a b d₁ d₂ d₃ d₄ : UInt8} {rest : List UInt8} {n : Nat}
    (h : Counted inPair (a :: b :: d₁ :: d₂ :: d₃ :: d₄ :: rest) n) :
    ∃ inPair' n', Counted inPair' rest n' ∧ n' + 1 ≤ n ∧
      (hexFrom 0 [d₁, d₂, d₃, d₄] ≠ 0 → n' + 5 ≤ n) := by
  obtain ⟨p, m, hm, hle⟩ := h.tail_two
  by_cases hzero : hexFrom 0 [d₁, d₂, d₃, d₄] = 0
  · obtain ⟨p₁, m₁, h₁, hle₁⟩ := hm.tail_two
    obtain ⟨p₂, m₂, h₂, hle₂⟩ := h₁.tail_two
    exact ⟨p₂, m₂, h₂, by omega, fun hne => absurd hzero hne⟩
  · obtain ⟨p₁, m₁, h₁, hlen⟩ := Counted.digits [d₁, d₂, d₃, d₄] hm hzero
    simp only [List.length_cons, List.length_nil] at hlen
    exact ⟨p₁, m₁, h₁, by omega, fun _ => by omega⟩

/-- The literals are read inside the buffer, and what they give fits. -/
theorem utf16LiteralToUtf8_counted
    {inPair : Bool} {body : List UInt8} {n : Nat}
    (h : Counted inPair body n)
    (behind : List UInt8) :
    ∃ result, utf16LiteralToUtf8 body.length (body ++ behind) = some result ∧
      ∀ len bytes, result = some (len, bytes) →
        0 < len ∧ len ≤ body.length ∧
          ∃ inPair' n', Counted inPair' (body.drop len) n' ∧ n' + bytes.length ≤ n := by
  by_cases hshort : body.length < 6
  · exact ⟨none, by simp [utf16LiteralToUtf8, hshort], by simp⟩
  obtain ⟨a, b, d₁, d₂, d₃, d₄, rest, rfl⟩ :
      ∃ a b d₁ d₂ d₃ d₄ rest, body = a :: b :: d₁ :: d₂ :: d₃ :: d₄ :: rest := by
    rcases body with _ | ⟨a, _ | ⟨b, _ | ⟨d₁, _ | ⟨d₂, _ | ⟨d₃, _ | ⟨d₄, rest⟩⟩⟩⟩⟩⟩ <;>
      simp at hshort ⊢
  obtain ⟨p, m, hm, hle, hfive⟩ := h.literal
  generalize hcode : hexFrom 0 [d₁, d₂, d₃, d₄] = firstCode at hfive
  have hlt : firstCode < 0x10000 := by
    have := hexFrom_lt 0 [d₁, d₂, d₃, d₄]
    simp only [List.length_cons, List.length_nil] at this
    omega
  simp only [utf16LiteralToUtf8, hshort, if_false, List.cons_append, parseHex4_two, hcode,
    Option.bind_some]
  by_cases hlow : 0xDC00 ≤ firstCode ∧ firstCode ≤ 0xDFFF
  · exact ⟨none, by simp [hlow], by simp⟩
  rw [if_neg hlow]
  by_cases hhigh : 0xD800 ≤ firstCode ∧ firstCode ≤ 0xDBFF
  · rw [if_pos hhigh]
    by_cases hone : (a :: b :: d₁ :: d₂ :: d₃ :: d₄ :: rest).length < 12
    · exact ⟨none, by rw [if_pos hone], by simp⟩
    rw [if_neg hone]
    obtain ⟨a', b', e₁, e₂, e₃, e₄, rest, rfl⟩ :
        ∃ a' b' e₁ e₂ e₃ e₄ rest', rest = a' :: b' :: e₁ :: e₂ :: e₃ :: e₄ :: rest' := by
      rcases rest with _ | ⟨a', _ | ⟨b', _ | ⟨e₁, _ | ⟨e₂, _ | ⟨e₃, _ | ⟨e₄, rest⟩⟩⟩⟩⟩⟩ <;>
        simp at hone ⊢
    obtain ⟨p', m', hm', hle', -⟩ := hm.literal
    simp only [List.cons_append, parseHex4_eight, List.getElem?_cons_succ, List.getElem?_cons_zero,
      Option.bind_some]
    by_cases hu : a' ≠ backslash ∨ b' ≠ 0x75
    · exact ⟨none, by rw [if_pos hu], by simp⟩
    rw [if_neg hu]
    by_cases hsecond : hexFrom 0 [e₁, e₂, e₃, e₄] < 0xDC00 ∨ 0xDFFF < hexFrom 0 [e₁, e₂, e₃, e₄]
    · exact ⟨none, by rw [if_pos hsecond], by simp⟩
    rw [if_neg hsecond]
    refine ⟨_, rfl, fun len bytes hbytes => ?_⟩
    obtain ⟨bytes, hutf8, heq⟩ := Option.map_eq_some_iff.mp hbytes
    obtain ⟨rfl, rfl⟩ := Prod.mk.inj heq
    have hlen := (length_encodeUtf8_le hutf8).1
    have hroom := hfive (by omega)
    exact ⟨by omega, by simp, p', m', hm', by omega⟩
  · rw [if_neg hhigh]
    refine ⟨_, rfl, fun len bytes hbytes => ?_⟩
    obtain ⟨bytes, hutf8, heq⟩ := Option.map_eq_some_iff.mp hbytes
    obtain ⟨rfl, rfl⟩ := Prod.mk.inj heq
    obtain ⟨-, hthree, hascii⟩ := length_encodeUtf8_le hutf8
    refine ⟨by omega, by simp, p, m, hm, ?_⟩
    by_cases hzero : firstCode = 0
    · rw [hascii (by omega)]
      omega
    · have hroom := hfive hzero
      have := hthree hlt
      omega

theorem put_isSome
    {room : Nat} {bytes : List UInt8} {next : Nat → Option (Option (List UInt8))}
    (hroom : bytes.length ≤ room)
    (hnext : (next (room - bytes.length)).isSome) :
    (put room bytes next).isSome := by
  simp [put, hroom, hnext]

theorem decode_zero
    (room : Nat)
    (input : List UInt8) :
    decode 0 room input = put room [0] fun _ => some (some []) := by
  rw [decode.eq_def, if_pos rfl]

theorem decode_plain
    {b : UInt8}
    (hb : b ≠ backslash)
    (left room : Nat)
    (rest : List UInt8) :
    decode (left + 1) room (b :: rest) = put room [b] fun room => decode left room rest := by
  rw [decode.eq_def, if_neg (Nat.succ_ne_zero left)]
  exact if_pos hb

theorem decode_escape
    {c : UInt8}
    (hc : c ≠ 0x75)
    (left room : Nat)
    (behind : List UInt8) :
    decode (left + 1) room (backslash :: c :: behind) =
      match simpleEscape c with
      | none => some none
      | some e => put room [e] fun room => decode (left - 1) room behind := by
  rw [decode.eq_def, if_neg (Nat.succ_ne_zero left)]
  simp only [ne_eq, not_true_eq_false, if_false, if_neg hc]
  rfl

theorem decode_literal_none
    {left : Nat} {behind : List UInt8}
    (h : utf16LiteralToUtf8 (left + 1) (backslash :: 0x75 :: behind) = some none)
    (room : Nat) :
    decode (left + 1) room (backslash :: 0x75 :: behind) = some none := by
  rw [decode.eq_def, if_neg (Nat.succ_ne_zero left)]
  change (utf16LiteralToUtf8 (left + 1) (backslash :: 0x75 :: behind)).bind _ = _
  rw [h]
  rfl

theorem decode_literal
    {left len : Nat} {behind bytes : List UInt8}
    (h : utf16LiteralToUtf8 (left + 1) (backslash :: 0x75 :: behind) = some (some (len, bytes)))
    (hlen : 0 < len)
    (room : Nat) :
    decode (left + 1) room (backslash :: 0x75 :: behind) =
      put room bytes fun room =>
        decode (left + 1 - len) room ((backslash :: 0x75 :: behind).drop len) := by
  rw [decode.eq_def, if_neg (Nat.succ_ne_zero left)]
  change (utf16LiteralToUtf8 (left + 1) (backslash :: 0x75 :: behind)).bind _ = _
  rw [h]
  exact congrArg (put room bytes) (funext fun room => if_neg (by omega))

/-- The loop stays inside the literal with its closing quote and inside the allocation. -/
theorem decode_isSome
    {body : List UInt8} {inPair : Bool} {n room : Nat}
    (h : Counted inPair body n)
    (hroom : n + 1 ≤ room)
    (behind : List UInt8) :
    (decode body.length room (body ++ quote :: behind)).isSome := by
  induction hk : body.length using Nat.strong_induction_on generalizing body inPair n room with
  | _ k ih =>
    subst hk
    have hnext : ∀ {rest : List UInt8} {p : Bool} {m room' : Nat}, Counted p rest m →
        rest.length < body.length → m + 1 ≤ room' →
          (decode rest.length room' (rest ++ quote :: behind)).isSome :=
      fun hc hlt hle => ih _ hlt hc hle rfl
    cases body with
    | nil =>
        rw [List.length_nil, decode_zero]
        exact put_isSome (show 1 ≤ room by omega) rfl
    | cons b rest =>
        by_cases hb : b = backslash
        · subst hb
          cases rest with
          | nil =>
              -- The byte behind a backslash that ends the literal is the closing quote.
              cases h with
              | plain hb next => exact absurd rfl hb
              | escape next => cases next
              | escaped next =>
                  rw [List.length_singleton, List.singleton_append, decode_escape (by decide)]
                  refine put_isSome (show 1 ≤ room by omega) ?_
                  rw [Nat.zero_sub, decode_zero]
                  exact put_isSome (show 1 ≤ room - 1 by omega) rfl
          | cons c rest =>
              by_cases hc : c = 0x75
              · subst hc
                obtain ⟨result, hresult, hspec⟩ :=
                  utf16LiteralToUtf8_counted h (quote :: behind)
                rw [List.length_cons] at hresult hspec ⊢
                rw [List.cons_append, List.cons_append] at hresult ⊢
                cases result with
                | none => rw [decode_literal_none hresult]; rfl
                | some result =>
                    obtain ⟨len, bytes⟩ := result
                    obtain ⟨hpos, hlen, p, m, hm, hle⟩ := hspec len bytes rfl
                    have hdrop := hnext hm (by simp; omega)
                      (show m + 1 ≤ room - bytes.length by omega)
                    rw [decode_literal hresult hpos]
                    refine put_isSome (show bytes.length ≤ room by omega) ?_
                    rw [← List.cons_append, ← List.cons_append,
                      List.drop_append_of_le_length (by simpa using hlen)]
                    rw [List.length_drop] at hdrop
                    exact hdrop
              · obtain ⟨p, m, hm, hle⟩ := h.tail_two
                rw [List.length_cons, List.cons_append, List.cons_append, decode_escape hc]
                cases simpleEscape c with
                | none => rfl
                | some e =>
                    refine put_isSome (show 1 ≤ room by omega) ?_
                    exact hnext hm (by simp only [List.length_cons]; omega)
                      (show m + 1 ≤ room - 1 by omega)
        · obtain ⟨m, hm, hle⟩ := h.tail_plain hb
          rw [List.length_cons, List.cons_append, decode_plain hb]
          exact put_isSome (show 1 ≤ room by omega)
            (hnext hm (by simp) (show m + 1 ≤ room - 1 by omega))

/-- `parse_string` stays inside the buffer and the allocation. -/
theorem parseString_isSome
    {buffer : List UInt8}
    (hne : buffer ≠ []) :
    (parseString buffer).isSome := by
  cases buffer with
  | nil => exact absurd rfl hne
  | cons b input =>
      unfold parseString
      by_cases hb : b = quote
      · simp only [hb, ne_eq, not_true_eq_false, if_false]
        cases hscan : scanEnd input with
        | none => rfl
        | some found =>
            obtain ⟨len, skipped⟩ := found
            obtain ⟨body, behind, rfl, rfl, hle, hcounted⟩ := counted_of_scanEnd hscan
            have := decode_isSome hcounted
              (show body.length - skipped + 1 ≤ body.length + 1 - skipped + 1 by omega) behind
            simpa using this
      · simp [hb]

end Cjson
end MatrixBin
