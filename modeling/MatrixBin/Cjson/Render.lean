import MatrixBin.Cjson.Print

/-!
# The printer writes the text of the value

`render` is the text that is meant.  The buffer is open behind a text (`Open`) when the next one
is to be written there; a function of the printer leaves it closed with a longer text (`Closed`),
with the terminator that `update_offset` looks for.  `printValue_prints` is the induction on the
value; `print_eq_render` says that the printer gives the text, unless it is too long for it, and
never leaves its buffer.
-/

namespace MatrixBin
namespace Cjson

open Library Library.JsonText

/-! ### The text -/

/-- A byte of a text between quotes. -/
def escapeByte (b : UInt8) : List UInt8 :=
  match escapeLetter b with
  | some c => [backslash, c]
  | none => if 31 < b then [b] else backslash :: unicodeEscape b

def escapeText (text : List UInt8) : List UInt8 := text.flatMap escapeByte

section Render

variable (format : Bool) (general : Nat → ℚ → List UInt8)

mutual

/-- The text of a value, so deep in the document. -/
def render (depth : Nat) : Json → List UInt8
  | .null => utf8 "null"
  | .bool false => utf8 "false"
  | .bool true => utf8 "true"
  | .number v => numberText general v
  | .string text => quoted (escapeText text)
  | .array items => 0x5b :: (renderItems (depth + 1) items ++ [0x5d])
  | .object members =>
      (if format then [0x7b, 0x0a] else [0x7b]) ++ (renderMembers (depth + 1) members ++
        ((if format then List.replicate depth 0x09 else []) ++ [0x7d]))

def renderItems (depth : Nat) : List Json → List UInt8
  | [] => []
  | v :: rest =>
      render depth v ++
        (if rest = [] then [] else
          (if format then [0x2c, 0x20] else [0x2c]) ++ renderItems depth rest)

def renderMembers (depth : Nat) : List (List UInt8 × Json) → List UInt8
  | [] => []
  | m :: rest =>
      renderMember depth m ++
        (((if rest = [] then [] else [0x2c]) ++ (if format then [0x0a] else [])) ++
          renderMembers depth rest)

def renderMember (depth : Nat) : List UInt8 × Json → List UInt8
  | (name, v) =>
      (if format then List.replicate depth 0x09 else []) ++
        (quoted (escapeText name) ++ ((if format then [0x3a, 0x09] else [0x3a]) ++ render depth v))

end

end Render

/-! ### The buffer -/

/-- The buffer holds a text, and what comes next is written behind it. -/
structure Open (p : Printbuffer) (text : List UInt8) (depth : Nat) : Prop where
  offset_eq : p.offset = text.length
  holds : p.buffer.Holds 0 text
  room : text.length < p.length
  depth_eq : p.depth = depth

/-- The buffer holds a text with a terminator; the offset may be in front of its end. -/
structure Closed (p : Printbuffer) (text : List UInt8) (depth : Nat) : Prop where
  offset_le : p.offset ≤ text.length
  holds : p.buffer.Holds 0 (text ++ [0])
  nonzero : 0 ∉ text.drop p.offset
  room : text.length < p.length
  depth_eq : p.depth = depth

/-- A function of the printer ends with this text, or fails because it is too long. -/
inductive Prints (text : List UInt8) (depth : Nat) : Printing → Prop
  | failed
      (h : intMax < text.length + 2) :
      Prints text depth (some none)
  | closed
      {p : Printbuffer}
      (h : Closed p text depth) :
      Prints text depth (some (some p))

/-- The same for what the next text is written behind. -/
inductive Opens (text : List UInt8) (depth : Nat) : Printing → Prop
  | failed
      (h : intMax < text.length + 2) :
      Opens text depth (some none)
  | opened
      {p : Printbuffer}
      (h : Open p text depth) :
      Opens text depth (some (some p))

/-- A write right behind what the buffer holds. -/
theorem write_behind
    {p : Printbuffer} {before : List UInt8}
    (bytes : List UInt8)
    (h : p.buffer.Holds 0 before)
    (hroom : before.length + bytes.length ≤ p.length) :
    ∃ m : Bytes, p.write before.length bytes = some { p with buffer := m } ∧
      m.Holds 0 (before ++ bytes) := by
  obtain ⟨m, hstore, hholds⟩ := h.store_behind (b := bytes) hroom
  exact ⟨m, by rw [Printbuffer.write, hstore]; rfl, hholds⟩

namespace Open

variable {p : Printbuffer} {text : List UInt8} {depth : Nat}

/-- What `ensure` promises. -/
theorem ensured
    (h : Open p text depth)
    {needed : Nat} {outcome : Printing → Prop} {next : Printbuffer → Printing}
    (hfailed : intMax < needed + text.length + 1 → outcome (some none))
    (hnext : ∀ p, Open p text depth → needed + text.length + 1 ≤ p.length → outcome (next p)) :
    outcome (p.ensured needed next) := by
  obtain ⟨hoffset, hholds, hroom, hdepth⟩ := h
  unfold Printbuffer.ensured Printbuffer.ensure
  rw [if_neg (by omega), hoffset]
  by_cases hbig : intMax < needed
  · rw [if_pos hbig]
    exact hfailed (by omega)
  rw [if_neg hbig]
  by_cases hfits : needed + text.length + 1 ≤ p.length
  · rw [if_pos hfits]
    exact hnext p ⟨hoffset, hholds, hroom, hdepth⟩ (by omega)
  rw [if_neg hfits]
  by_cases hhalf : intMax / 2 < needed + text.length + 1
  · rw [if_pos hhalf]
    by_cases hmax : needed + text.length + 1 ≤ intMax
    · rw [if_pos hmax]
      exact hnext _ ⟨rfl, hholds, show text.length < intMax by omega, hdepth⟩ hmax
    · rw [if_neg hmax]
      exact hfailed (by omega)
  · rw [if_neg hhalf]
    exact hnext _
      ⟨rfl, hholds, show text.length < (needed + text.length + 1) * 2 by omega, hdepth⟩
      (show needed + text.length + 1 ≤ (needed + text.length + 1) * 2 by omega)

/-- Bytes are written right behind the text. -/
theorem write
    (h : Open p text depth)
    (bytes : List UInt8)
    (hroom : text.length + bytes.length ≤ p.length) :
    ∃ m : Bytes, p.write p.offset bytes = some { p with buffer := m } ∧
      m.Holds 0 (text ++ bytes) := by
  obtain ⟨m, hwrite, hholds⟩ := write_behind bytes h.holds hroom
  rw [← h.offset_eq] at hwrite
  exact ⟨m, hwrite, hholds⟩

/-- Written, and the offset moved behind a part of it. -/
theorem extend
    (h : Open p text depth)
    (bytes extra : List UInt8)
    (hroom : text.length + bytes.length + extra.length ≤ p.length)
    (hspare : text.length + bytes.length < p.length) :
    ∃ p', p.write p.offset (bytes ++ extra) = some p' ∧
      Open (p'.advance bytes.length) (text ++ bytes) depth := by
  obtain ⟨m, hwrite, hholds⟩ := h.write (bytes ++ extra) (by simp; omega)
  rw [← List.append_assoc, Bytes.holds_append] at hholds
  exact ⟨_, hwrite, by simp [Printbuffer.advance, h.offset_eq], hholds.1,
    show (text ++ bytes).length < p.length by simpa using hspare, h.depth_eq⟩

/-- Written with a terminator. -/
theorem close
    (h : Open p text depth)
    (bytes : List UInt8)
    (hroom : text.length + bytes.length < p.length)
    (hbytes : 0 ∉ bytes) :
    ∃ p', p.write p.offset (bytes ++ [0]) = some p' ∧ Closed p' (text ++ bytes) depth := by
  obtain ⟨m, hwrite, hholds⟩ := h.write (bytes ++ [0]) (by simp; omega)
  rw [← List.append_assoc] at hholds
  refine ⟨_, hwrite, by simp [h.offset_eq], hholds, ?_, by simpa using hroom, h.depth_eq⟩
  simpa [h.offset_eq] using hbytes

end Open

/-- `update_offset` finds the terminator. -/
theorem Closed.updateOffset
    {p : Printbuffer} {text : List UInt8} {depth : Nat}
    (h : Closed p text depth) :
    ∃ p', p.updateOffset = some p' ∧ Open p' text depth := by
  obtain ⟨hoffset, hholds, hnonzero, hroom, hdepth⟩ := h
  have hsplit := hholds
  rw [← List.take_append_drop p.offset text, List.append_assoc, Bytes.holds_append,
    List.length_take, Nat.min_eq_left hoffset, Nat.zero_add] at hsplit
  have hlen := strlen_of_holds hsplit.2 hnonzero
    (show _ < p.length by rw [List.length_drop]; omega)
  refine ⟨p.advance (text.drop p.offset).length, by rw [Printbuffer.updateOffset, hlen]; rfl,
    ?_, (Bytes.holds_append.mp hholds).1, hroom, hdepth⟩
  simp only [Printbuffer.advance, List.length_drop]
  omega

section Sequences

variable {text : List UInt8} {depth : Nat} {printing : Printing}

theorem Prints.andThen
    {outcome : Printing → Prop} {next : Printbuffer → Printing}
    (h : Prints text depth printing)
    (hfailed : intMax < text.length + 2 → outcome (some none))
    (hnext : ∀ p, Closed p text depth → outcome (next p)) :
    outcome (printing.andThen next) := by
  cases h with
  | failed h => exact hfailed h
  | closed h => exact hnext _ h

theorem Opens.andThen
    {outcome : Printing → Prop} {next : Printbuffer → Printing}
    (h : Opens text depth printing)
    (hfailed : intMax < text.length + 2 → outcome (some none))
    (hnext : ∀ p, Open p text depth → outcome (next p)) :
    outcome (printing.andThen next) := by
  cases h with
  | failed h => exact hfailed h
  | opened h => exact hnext _ h

end Sequences

/-! ### Texts -/

theorem printTerminated_prints
    {p : Printbuffer} {text word : List UInt8} {depth : Nat}
    (h : Open p text depth)
    (hword : 0 ∉ word) :
    Prints (text ++ word) depth (printTerminated word p) := by
  refine h.ensured (fun hbig => .failed (by simp; omega)) fun p h hroom => ?_
  obtain ⟨p', hwrite, hclosed⟩ := h.close word (by omega) hword
  rw [hwrite]
  exact .closed hclosed

theorem length_escapeByte
    (b : UInt8) :
    (escapeByte b).length = 1 + escapeCharacters b := by
  unfold escapeByte escapeCharacters
  cases escapeLetter b with
  | some c => rfl
  | none =>
      by_cases hb : 31 < b
      · have : ¬ b < 32 := by
          rw [UInt8.lt_iff_toNat_lt] at hb ⊢
          simp only [UInt8.reduceToNat] at hb ⊢
          omega
        simp [hb, this]
      · have : b < 32 := by
          rw [UInt8.lt_iff_toNat_lt] at hb ⊢
          simp only [UInt8.reduceToNat] at hb ⊢
          omega
        simp [hb, this, unicodeEscape]

theorem length_escapeText
    (text : List UInt8) :
    (escapeText text).length = text.length + countEscapes text := by
  induction text with
  | nil => rfl
  | cons b text ih =>
      unfold escapeText at ih ⊢
      simp only [List.flatMap_cons, List.length_append, length_escapeByte, ih, List.length_cons,
        countEscapes]
      omega

/-- Without anything to escape the text is copied as it is. -/
theorem escapeText_of_no_escapes
    {text : List UInt8}
    (h : countEscapes text = 0) :
    escapeText text = text := by
  induction text with
  | nil => rfl
  | cons b text ih =>
      simp only [countEscapes, Nat.add_eq_zero_iff] at h
      have hlen := length_escapeByte b
      have hb : escapeByte b = [b] := by
        unfold escapeByte at hlen ⊢
        cases hletter : escapeLetter b with
        | some c => simp [hletter, h.1] at hlen
        | none =>
            by_cases hspace : 31 < b
            · simp [hspace]
            · simp [hletter, hspace, h.1, unicodeEscape] at hlen
      unfold escapeText at ih ⊢
      rw [List.flatMap_cons, hb, ih h.2]
      rfl

/-- Escapes have no zeros. -/
theorem zero_not_mem_escapeText
    {text : List UInt8}
    (h : 0 ∉ text) :
    0 ∉ escapeText text := by
  intro hmem
  obtain ⟨b, hb, hzero⟩ := List.mem_flatMap.mp hmem
  have hletter : ∀ c, escapeLetter b = some c → c ≠ 0 := by
    intro c hc
    unfold escapeLetter at hc
    split_ifs at hc <;> obtain rfl := Option.some.inj hc <;> decide
  have hdigit : ∀ d < 16, UInt8.ofNat (if d < 10 then 0x30 + d else 0x57 + d) ≠ 0 := by decide
  unfold escapeByte at hzero
  cases hcase : escapeLetter b with
  | some c =>
      simp only [hcase, List.mem_cons, List.not_mem_nil, or_false] at hzero
      rcases hzero with hzero | hzero
      · exact absurd hzero (by decide)
      · exact hletter c hcase hzero.symm
  | none =>
      simp only [hcase] at hzero
      split_ifs at hzero with hspace
      · exact h (List.mem_singleton.mp hzero ▸ hb)
      · have hlt := b.toNat_lt
        simp only [unicodeEscape, List.mem_cons, List.not_mem_nil, or_false] at hzero
        rcases hzero with hzero | hzero | hzero | hzero | hzero | hzero
        · exact absurd hzero (by decide)
        · exact absurd hzero (by decide)
        · exact absurd hzero (by decide)
        · exact absurd hzero (by decide)
        · exact hdigit _ (by omega) hzero.symm
        · exact hdigit _ (by omega) hzero.symm

theorem escapeLetter_of_plain
    {b : UInt8}
    (h : 31 < b ∧ b ≠ quote ∧ b ≠ backslash) :
    escapeLetter b = none := by
  obtain ⟨hspace, hquote, hbackslash⟩ := h
  have hne : ∀ c ≤ 31, b ≠ c := by
    rintro c hc rfl
    exact absurd hspace (UInt8.not_lt.mpr hc)
  simp [escapeLetter, hquote, hbackslash, hne]

theorem escapeByte_plain
    {b : UInt8}
    (h : 31 < b ∧ b ≠ quote ∧ b ≠ backslash) :
    escapeByte b = [b] := by
  simp [escapeByte, escapeLetter_of_plain h, h.1]

theorem escapeByte_unicode
    {b : UInt8}
    (h : ¬ (31 < b ∧ b ≠ quote ∧ b ≠ backslash))
    (hletter : escapeLetter b = none) :
    escapeByte b = backslash :: unicodeEscape b := by
  have hspace : ¬ 31 < b := by
    intro hspace
    refine h ⟨hspace, ?_, ?_⟩ <;> rintro rfl <;> simp [escapeLetter, quote, backslash] at hletter
  simp [escapeByte, hletter, hspace]

/-- The copying loop writes the escaped text. -/
theorem copyEscaped_holds
    {before : List UInt8} {p : Printbuffer}
    (input : List UInt8)
    (hholds : p.buffer.Holds 0 before)
    (hroom : before.length + (escapeText input).length + 1 ≤ p.length) :
    ∃ m : Bytes, copyEscaped p before.length input = some { p with buffer := m } ∧
      m.Holds 0 (before ++ escapeText input) := by
  induction input generalizing before p with
  | nil => exact ⟨p.buffer, rfl, by simpa [escapeText] using hholds⟩
  | cons b rest ih =>
      have hstep : escapeText (b :: rest) = escapeByte b ++ escapeText rest := List.flatMap_cons
      rw [hstep, List.length_append] at hroom
      rw [hstep]
      have hnext : ∀ {m : Bytes}, m.Holds 0 (before ++ escapeByte b) →
          ∃ m' : Bytes, copyEscaped { p with buffer := m } (before.length + (escapeByte b).length)
            rest = some { p with buffer := m' } ∧
            m'.Holds 0 (before ++ (escapeByte b ++ escapeText rest)) := by
        intro m hm
        obtain ⟨m', hcopy, hm'⟩ := ih (p := { p with buffer := m }) hm (by simp; omega)
        rw [List.length_append] at hcopy
        rw [List.append_assoc] at hm'
        exact ⟨m', hcopy, hm'⟩
      unfold copyEscaped
      by_cases hplain : 31 < b ∧ b ≠ quote ∧ b ≠ backslash
      · have hb := escapeByte_plain hplain
        rw [if_pos hplain]
        rw [hb] at hroom hnext ⊢
        obtain ⟨m, hwrite, hm⟩ := write_behind [b] hholds (by simp at hroom ⊢; omega)
        rw [hwrite]
        exact hnext hm
      rw [if_neg hplain]
      obtain ⟨m, hwrite, hm⟩ := write_behind [backslash] hholds
        (by have := length_escapeByte b; simp; omega)
      rw [hwrite, Option.bind_some]
      cases hletter : escapeLetter b with
      | some c =>
          have hb : escapeByte b = [backslash, c] := by simp [escapeByte, hletter]
          rw [hb] at hroom hnext ⊢
          obtain ⟨m', hwrite', hm'⟩ := write_behind (p := { p with buffer := m }) [c] hm
            (by simp at hroom ⊢; omega)
          rw [List.length_append, List.length_singleton] at hwrite'
          simp only [hwrite', Option.bind_some]
          exact hnext (by simpa using hm')
      | none =>
          have hb := escapeByte_unicode hplain hletter
          rw [hb] at hroom hnext ⊢
          obtain ⟨m', hwrite', hm'⟩ := write_behind (p := { p with buffer := m })
            (unicodeEscape b ++ [0]) hm (by simp [unicodeEscape] at hroom ⊢; omega)
          rw [List.length_append, List.length_singleton] at hwrite'
          simp only [hwrite', Option.bind_some]
          rw [← List.append_assoc, Bytes.holds_append] at hm'
          exact hnext (by simpa using hm'.1)

/-- `print_string_ptr` writes the text between quotes: the room it counted is what it takes. -/
theorem printStringPtr_prints
    {p : Printbuffer} {text input : List UInt8} {depth : Nat}
    (h : Open p text depth)
    (hinput : 0 ∉ input) :
    Prints (text ++ quoted (escapeText input)) depth (printStringPtr input p) := by
  have hlen := length_escapeText input
  have hzero := zero_not_mem_escapeText hinput
  have hquoted : 0 ∉ quoted (escapeText input) := by
    simpa [quoted] using hzero
  refine h.ensured (fun hbig => .failed (by simp [quoted]; omega)) fun p h hroom => ?_
  by_cases hnone : countEscapes input = 0
  · rw [if_pos hnone]
    have hplain := escapeText_of_no_escapes hnone
    obtain ⟨p', hwrite, hclosed⟩ := h.close (quoted (escapeText input))
      (by simp [quoted]; omega) hquoted
    have hbytes : quote :: input ++ [quote, 0] = quoted (escapeText input) ++ [0] := by
      simp [quoted, hplain, quote]
    rw [hbytes, hwrite]
    exact .closed hclosed
  · rw [if_neg hnone]
    obtain ⟨m, hwrite, hm⟩ := h.write [quote] (by simp; omega)
    obtain ⟨m', hcopy, hm'⟩ := copyEscaped_holds (p := { p with buffer := m }) input
      hm (by simp; omega)
    obtain ⟨m'', hend, hm''⟩ := write_behind (p := { p with buffer := m' }) [quote, 0]
      hm' (by simp; omega)
    have hpos : (text ++ [quote]).length = p.offset + 1 := by simp [h.offset_eq]
    have hposEnd : (text ++ [quote] ++ escapeText input).length =
        p.offset + (input.length + countEscapes input) + 1 := by
      simp [h.offset_eq, hlen]
      omega
    rw [hpos] at hcopy
    rw [hposEnd] at hend
    simp only [hwrite, Option.bind_some, hcopy, hend, Option.map_some]
    refine .closed ⟨?_, ?_, ?_, ?_, h.depth_eq⟩
    · simp [h.offset_eq]
    · simpa [quoted, quote] using hm''
    · simpa [h.offset_eq] using hquoted
    · simp [quoted]
      omega

section Values

variable {format : Bool} {general : Nat → ℚ → List UInt8}

/-- A number whose text has room in the buffer of `print_number`. -/
def NumberFits (general : Nat → ℚ → List UInt8) (v : FloatValue) : Prop :=
  (numberText general v).length ≤ 25 ∧ 0 ∉ numberText general v

/-- What the functions of the printer do for a value, or for the inside of an array or object. -/
def NodePrints (format : Bool) (general : Nat → ℚ → List UInt8) (node : Node) : Prop :=
  ∀ p text depth, Open p text depth →
    match node with
    | .value v =>
        Prints (text ++ render format general depth v) depth (printValue format general p v)
    | .items vs =>
        Opens (text ++ renderItems format general depth vs) depth
          (printItems format general p vs)
    | .members ms =>
        Opens (text ++ renderMembers format general depth ms) depth
          (printMembers format general p ms)

theorem Open.deeper
    {p : Printbuffer} {text : List UInt8} {depth : Nat}
    (h : Open p text depth) :
    Open { p with depth := p.depth + 1 } text (depth + 1) :=
  ⟨h.offset_eq, h.holds, h.room, congrArg (· + 1) h.depth_eq⟩

theorem Closed.higher
    {p : Printbuffer} {text : List UInt8} {depth : Nat}
    (h : Closed p text (depth + 1)) :
    Closed { p with depth := p.depth - 1 } text depth :=
  ⟨h.offset_le, h.holds, h.nonzero, h.room, by simp [h.depth_eq]⟩

theorem printArray_prints
    {vs : List Json}
    (ih : NodePrints format general (.items vs)) :
    NodePrints format general (.value (.array vs)) := by
  intro p text depth h
  simp only [printValue, render]
  refine h.ensured (fun hbig => .failed (by simp; omega)) fun p h hroom => ?_
  obtain ⟨p', hwrite, hopen⟩ := h.extend [0x5b] [] (by simp; omega)
    (by simp; omega)
  rw [List.append_nil] at hwrite
  rw [hwrite, Option.bind_some]
  have hitems := ih _ _ _ hopen.deeper
  refine hitems.andThen (fun hbig => .failed (by simp at hbig ⊢; omega)) fun q hq => ?_
  refine hq.ensured (fun hbig => .failed (by simp at hbig ⊢; omega)) fun q hq hroom => ?_
  obtain ⟨q', hend, hclosed⟩ := hq.close [0x5d] (by simp at hroom ⊢; omega) (by decide)
  rw [List.singleton_append] at hend
  rw [hend, Option.map_some]
  have := hclosed.higher
  simpa using Prints.closed this

theorem printObject_prints
    {ms : List (List UInt8 × Json)}
    (ih : NodePrints format general (.members ms)) :
    NodePrints format general (.value (.object ms)) := by
  intro p text depth h
  simp only [printValue, render]
  generalize hopening : (if format = true then [(0x7b : UInt8), 0x0a] else [0x7b]) = opening
  have hbound : 1 ≤ opening.length := by subst hopening; split_ifs <;> simp
  refine h.ensured (fun hbig => .failed (by simp; omega)) fun p h hroom => ?_
  obtain ⟨p', hwrite, hopen⟩ := h.extend opening [] (by simp; omega)
    (by omega)
  rw [List.append_nil] at hwrite
  rw [hwrite, Option.bind_some]
  have hmembers := ih _ _ _ hopen.deeper
  refine hmembers.andThen (fun hbig => .failed (by simp at hbig ⊢; omega)) fun q hq => ?_
  generalize htabs : (if format = true then List.replicate depth (0x09 : UInt8) else []) = tabs
  have hneeded : (if format = true then q.depth + 1 else 2) = tabs.length + 2 := by
    subst htabs
    split_ifs <;> simp [hq.depth_eq]
  have hzero : 0 ∉ tabs ++ [0x7d] := by
    subst htabs
    split_ifs <;> simp
  rw [hneeded]
  refine hq.ensured (fun hbig => .failed (by simp at hbig ⊢; omega)) fun r hr hroom => ?_
  obtain ⟨r', hend, hclosed⟩ := hr.close (tabs ++ [0x7d]) (by simp at hroom ⊢; omega) hzero
  have hbytes : (if format = true then List.replicate (r.depth - 1) (0x09 : UInt8) else []) ++
      [0x7d, 0] = tabs ++ [0x7d] ++ [0] := by
    rw [hr.depth_eq, Nat.add_sub_cancel, htabs]
    simp
  rw [hbytes, hend, Option.map_some]
  have := hclosed.higher
  simpa using Prints.closed this

theorem printItems_prints
    {v : Json} {rest : List Json}
    (ihValue : NodePrints format general (.value v))
    (ihRest : NodePrints format general (.items rest)) :
    NodePrints format general (.items (v :: rest)) := by
  intro p text depth h
  simp only [printItems, renderItems]
  have hvalue := ihValue p text depth h
  refine hvalue.andThen (fun hbig => .failed (by simp at hbig ⊢; omega)) fun q hq => ?_
  obtain ⟨q', hoffset, hq'⟩ := hq.updateOffset
  rw [hoffset, Option.bind_some]
  by_cases hrest : rest = []
  · simp only [if_pos hrest, List.append_nil]
    exact .opened hq'
  · simp only [if_neg hrest]
    generalize hcomma : (if format = true then [(0x2c : UInt8), 0x20] else [0x2c]) = comma
    refine hq'.ensured (fun hbig => .failed (by simp at hbig ⊢; omega)) fun r hr hroom => ?_
    obtain ⟨r', hwrite, hopen⟩ := hr.extend comma [0]
      (by simp at hroom ⊢; omega) (by simp at hroom ⊢; omega)
    rw [hwrite, Option.bind_some]
    have := ihRest _ _ _ hopen
    simpa using this

theorem printTabs_opens
    (format : Bool)
    {p : Printbuffer} {text : List UInt8} {depth : Nat}
    (h : Open p text depth) :
    Opens (text ++ if format then List.replicate depth 0x09 else []) depth
      (if format then
        p.ensured p.depth fun p =>
          (p.write p.offset (List.replicate p.depth 0x09)).map fun p => some (p.advance p.depth)
      else some (some p)) := by
  cases format with
  | false => exact .opened (by simpa using h)
  | true =>
      simp only [if_true]
      rw [h.depth_eq]
      refine h.ensured (fun hbig => .failed (by simp; omega)) fun q hq hroom => ?_
      obtain ⟨q', hwrite, hopen⟩ := hq.extend (List.replicate depth 0x09) []
        (by simp; omega) (by simp; omega)
      have hdepth : q'.depth = depth := hopen.depth_eq
      rw [List.append_nil] at hwrite
      rw [List.length_replicate] at hopen
      rw [hq.depth_eq, hwrite, Option.map_some, hdepth]
      exact .opened hopen

theorem printMember_prints
    {name : List UInt8} {v : Json}
    (hname : 0 ∉ name)
    (ih : NodePrints format general (.value v))
    {p : Printbuffer} {text : List UInt8} {depth : Nat}
    (h : Open p text depth) :
    Opens (text ++ renderMember format general depth (name, v)) depth
      (printMember format general p (name, v)) := by
  simp only [printMember, renderMember]
  have htabs := printTabs_opens format h
  generalize (if format = true then List.replicate depth (0x09 : UInt8) else []) = tabs at htabs ⊢
  generalize (if format = true then [(0x3a : UInt8), 0x09] else [0x3a]) = colon
  refine htabs.andThen (fun hbig => .failed (by simp at hbig ⊢; omega)) fun q hq => ?_
  have hstring := printStringPtr_prints hq hname
  refine hstring.andThen (fun hbig => .failed (by simp at hbig ⊢; omega)) fun q hq => ?_
  obtain ⟨q', hoffset, hq'⟩ := hq.updateOffset
  rw [hoffset, Option.bind_some]
  refine hq'.ensured (fun hbig => .failed (by simp at hbig ⊢; omega)) fun r hr hroom => ?_
  obtain ⟨r', hwrite, hopen⟩ := hr.extend colon []
    (by simp at hroom ⊢; omega) (by simp at hroom ⊢; omega)
  rw [List.append_nil] at hwrite
  rw [hwrite, Option.bind_some]
  have hvalue := ih _ _ _ hopen
  refine hvalue.andThen (fun hbig => .failed (by simp at hbig ⊢; omega)) fun s hs => ?_
  obtain ⟨s', hoffset, hs'⟩ := hs.updateOffset
  rw [hoffset, Option.map_some]
  exact .opened (by simpa using hs')

theorem printMembers_prints
    {name : List UInt8} {v : Json} {rest : List (List UInt8 × Json)}
    (hname : 0 ∉ name)
    (ihValue : NodePrints format general (.value v))
    (ihRest : NodePrints format general (.members rest)) :
    NodePrints format general (.members ((name, v) :: rest)) := by
  intro p text depth h
  simp only [printMembers, renderMembers]
  generalize (if rest = [] then ([] : List UInt8) else [0x2c]) ++
    (if format = true then [0x0a] else []) = ending
  have hmember := printMember_prints hname ihValue h
  refine hmember.andThen (fun hbig => .failed (by simp at hbig ⊢; omega)) fun q hq => ?_
  refine hq.ensured (fun hbig => .failed (by simp at hbig ⊢; omega)) fun r hr hroom => ?_
  obtain ⟨r', hwrite, hopen⟩ := hr.extend ending [0]
    (by simp at hroom ⊢; omega) (by simp at hroom ⊢; omega)
  rw [hwrite, Option.bind_some]
  have := ihRest _ _ _ hopen
  simpa using this

/-- Every value is printed: the induction on the tree. -/
theorem printNode_prints
    {n : Nat} {node : Node}
    (h : Fits (NumberFits general) n node) :
    NodePrints format general node := by
  induction h with
  | null =>
      intro p text depth h
      simp only [printValue, render]
      exact printTerminated_prints h (by rw [utf8_null]; decide)
  | bool b =>
      intro p text depth h
      cases b with
      | false =>
          simp only [printValue, render]
          exact printTerminated_prints h (by rw [utf8_false]; decide)
      | true =>
          simp only [printValue, render]
          exact printTerminated_prints h (by rw [utf8_true]; decide)
  | number hq =>
      intro p text depth h
      simp only [printValue, render, printNumber]
      rw [if_neg (Nat.not_lt.mpr hq.1)]
      exact printTerminated_prints h hq.2
  | string htext =>
      intro p text depth h
      simp only [printValue, render]
      exact printStringPtr_prints h htext
  | array inside ih => exact printArray_prints ih
  | object inside ih => exact printObject_prints ih
  | noItems =>
      intro p text depth h
      simp only [printItems, renderItems, List.append_nil]
      exact .opened h
  | items first more ihFirst ihMore => exact printItems_prints ihFirst ihMore
  | noMembers =>
      intro p text depth h
      simp only [printMembers, renderMembers, List.append_nil]
      exact .opened h
  | members hname first more ihFirst ihMore => exact printMembers_prints hname ihFirst ihMore

/-- What `print` gives. -/
theorem print_outcome
    {v : Json}
    (h : NodePrints format general (.value v))
    (fresh : Bytes) :
    print format general fresh v = some (some (render format general 0 v)) ∨
      print format general fresh v = some none ∧
        intMax < (render format general 0 v).length + 2 := by
  have hopen : Open ⟨fresh, 256, 0, 0⟩ [] 0 :=
    ⟨rfl, Bytes.holds_nil, show 0 < 256 by decide, rfl⟩
  have hprints := h _ _ _ hopen
  simp only [List.nil_append] at hprints
  unfold print
  generalize printValue format general ⟨fresh, 256, 0, 0⟩ v = printing at hprints ⊢
  cases hprints with
  | failed hbig => exact .inr ⟨rfl, hbig⟩
  | closed hclosed =>
      obtain ⟨p', hoffset, hopen⟩ := hclosed.updateOffset
      left
      simp only [Option.bind_some, hoffset, hopen.offset_eq]
      rw [load_eq hopen.holds (by simpa using Nat.le_of_lt hopen.room)]
      rfl

/-- **The printer gives the text of the value**, or nothing where the text is too long, and never
writes or reads outside its buffer. -/
theorem print_eq_render
    {n : Nat} {v : Json}
    (h : Fits (NumberFits general) n (.value v))
    (fresh : Bytes) :
    print format general fresh v = some (some (render format general 0 v)) ∨
      print format general fresh v = some none ∧
        intMax < (render format general 0 v).length + 2 :=
  print_outcome (printNode_prints h) fresh

/-- The array `[0.5,7]`. -/
theorem print_eq_render_half :
    print false (fun _ _ => [0x30, 0x2e, 0x35]) (fun _ => 0)
          (.array [.number (.finite (1 / 2)), .number 7]) =
        some (some (render false (fun _ _ => [0x30, 0x2e, 0x35]) 0
          (.array [.number (.finite (1 / 2)), .number 7]))) ∨
      print false (fun _ _ => [0x30, 0x2e, 0x35]) (fun _ => 0)
          (.array [.number (.finite (1 / 2)), .number 7]) = some none ∧
        intMax < (render false (fun _ _ => [0x30, 0x2e, 0x35]) 0
          (.array [.number (.finite (1 / 2)), .number 7])).length + 2 := by
  have hhalf : Fits (NumberFits fun _ _ => [0x30, 0x2e, 0x35]) 0
      (.value (.number (.finite (1 / 2)))) := .number ⟨by decide +kernel, by decide +kernel⟩
  have hseven : Fits (NumberFits fun _ _ => [0x30, 0x2e, 0x35]) 0 (.value (.number 7)) :=
    .number ⟨by decide +kernel, by decide +kernel⟩
  exact print_eq_render (.array (.items hhalf (.items hseven .noItems))) fun _ => 0

end Values

end Cjson
end MatrixBin
