import MatrixBin.Cjson.ParseString
import MatrixBin.Library.NumberText

/-!
# The parser of cJSON (`cJSON_Parse`, `parse_value`, `parse_array`, `parse_object`)

A `parse_buffer` is what is left of its content behind the offset; the depth is a number.  As in
`parse_string`, an outer `none` is a read outside the buffer, and an inner one a text that is
refused.

The functions call each other; each call passes on one unit of fuel less.  `parseValue_isSome`
says that twice the length of the buffer is enough, and that nothing is read outside.
-/

namespace MatrixBin
namespace Cjson

open Library Library.JsonText

/-- `CJSON_NESTING_LIMIT` -/
def nestingLimit : Nat := 1000

def isBlank (b : UInt8) : Bool := b ≤ 32

/-- `buffer_skip_whitespace`; at the end it steps back to the last byte. -/
def skipWhitespace (buffer : List UInt8) : List UInt8 :=
  match buffer.dropWhile isBlank with
  | [] => buffer.drop (buffer.length - 1)
  | b :: rest => b :: rest

/-- `skip_utf8_bom` -/
def skipUtf8Bom (buffer : List UInt8) : List UInt8 :=
  if 4 < buffer.length ∧ buffer.take 3 = [0xEF, 0xBB, 0xBF] then buffer.drop 3 else buffer

/-- `parse_number`: the digits, signs, points and letters `e` and `E` are copied for `strtod`,
which gives the nearest double. -/
def parseNumber (buffer : List UInt8) : Reading Json :=
  let text := buffer.takeWhile isNumberChar
  (strtod (text ++ [0])).map fun (number, afterEnd) =>
    if afterEnd.length = text.length + 1 then none
    else
      some (.number (FloatFormat.binary64.round number),
        buffer.drop (text.length + 1 - afterEnd.length))

/-- `parse_array`, with its loop behind the bracket. -/
def parseArray
    (loop : Nat → List UInt8 → Reading (List Json)) (depth : Nat) (buffer : List UInt8) :
    Reading Json :=
  if nestingLimit ≤ depth then some none
  else
    match buffer with
    | [] => none
    | b :: rest =>
        if b ≠ 0x5b then some none
        else
          match skipWhitespace rest with
          | [] => some none
          | c :: inside =>
              if c = 0x5d then some (some (.array [], inside))
              else
                (loop (depth + 1) (c :: inside)).andThen fun items rest =>
                  some (some (.array items, rest))

/-- `parse_object`, with its loop behind the brace. -/
def parseObject
    (loop : Nat → List UInt8 → Reading (List (List UInt8 × Json))) (depth : Nat)
    (buffer : List UInt8) :
    Reading Json :=
  if nestingLimit ≤ depth then some none
  else
    match buffer with
    | [] => some none
    | b :: rest =>
        if b ≠ 0x7b then some none
        else
          match skipWhitespace rest with
          | [] => some none
          | c :: inside =>
              if c = 0x7d then some (some (.object [], inside))
              else
                (loop (depth + 1) (c :: inside)).andThen fun members rest =>
                  some (some (.object members, rest))

mutual

/-- `parse_value` -/
def parseValue (fuel : Nat) (depth : Nat) (buffer : List UInt8) : Reading Json :=
  match fuel with
  | 0 => none
  | fuel + 1 =>
      if (utf8 "null").isPrefixOf buffer then some (some (.null, buffer.drop 4))
      else if (utf8 "false").isPrefixOf buffer then some (some (.bool false, buffer.drop 5))
      else if (utf8 "true").isPrefixOf buffer then some (some (.bool true, buffer.drop 4))
      else
        match buffer with
        | [] => some none
        | b :: _ =>
            if b = quote then
              (parseString buffer).andThen fun text rest =>
                some (some (.string (stringAt text), rest))
            else if b = 0x2d ∨ isDigit b then parseNumber buffer
            else if b = 0x5b then parseArray (parseItems fuel) depth buffer
            else if b = 0x7b then parseObject (parseMembers fuel) depth buffer
            else some none

/-- The loop of `parse_array`, behind the bracket or a comma. -/
def parseItems (fuel : Nat) (depth : Nat) (buffer : List UInt8) : Reading (List Json) :=
  match fuel with
  | 0 => none
  | fuel + 1 =>
      (parseValue fuel depth (skipWhitespace buffer)).andThen fun item rest =>
        match skipWhitespace rest with
        | [] => some none
        | b :: rest =>
            if b = 0x2c then
              (parseItems fuel depth rest).andThen fun items rest =>
                some (some (item :: items, rest))
            else if b = 0x5d then some (some ([item], rest))
            else some none

/-- The loop of `parse_object`, behind the brace or a comma. -/
def parseMembers (fuel : Nat) (depth : Nat) (buffer : List UInt8) :
    Reading (List (List UInt8 × Json)) :=
  match fuel with
  | 0 => none
  | fuel + 1 =>
      if buffer = [] then some none
      else
        (parseString (skipWhitespace buffer)).andThen fun name rest =>
          match skipWhitespace rest with
          | [] => some none
          | b :: rest =>
              if b ≠ 0x3a then some none
              else
                (parseValue fuel depth (skipWhitespace rest)).andThen fun item rest =>
                  match skipWhitespace rest with
                  | [] => some none
                  | b :: rest =>
                      if b = 0x2c then
                        (parseMembers fuel depth rest).andThen fun members rest =>
                          some (some ((stringAt name, item) :: members, rest))
                      else if b = 0x7d then some (some ([(stringAt name, item)], rest))
                      else some none

end

/-- `cJSON_ParseWithLengthOpts` on the bytes of its buffer. -/
def parseWithLengthOpts (content : List UInt8) (requireNullTerminated : Bool) :
    Option (Option Json) :=
  if content = [] then some none
  else
    (parseValue (2 * content.length + 1) 0 (skipWhitespace (skipUtf8Bom content))).bind fun
      | none => some none
      | some (item, rest) =>
          if requireNullTerminated then
            match skipWhitespace rest with
            | [] => some none
            | b :: _ => some (if b = 0 then some item else none)
          else some (some item)

/-- `cJSON_Parse` on a C string. -/
def parse (value : List UInt8) : Option Json := (parseWithLengthOpts (value ++ [0]) false).join

/-! ### Inside the buffer -/

/-- A function comes to an end, and what it leaves of the buffer is that short. -/
inductive Reads {α : Type} (bound : Nat) : Reading α → Prop
  | refused : Reads bound (some none)
  | read
      {a : α} {rest : List UInt8}
      (h : rest.length ≤ bound) :
      Reads bound (some (some (a, rest)))

namespace Reads

variable {α β : Type} {bound : Nat}

theorem isSome
    {reading : Reading α}
    (h : Reads bound reading) :
    reading.isSome := by
  cases h <;> rfl

theorem mono
    {bound' : Nat} {reading : Reading α}
    (h : Reads bound reading)
    (hle : bound ≤ bound') :
    Reads bound' reading := by
  cases h with
  | refused => exact .refused
  | read h => exact .read (h.trans hle)

theorem andThen
    {bound' : Nat} {reading : Reading α} {next : α → List UInt8 → Reading β}
    (h : Reads bound reading)
    (hnext : ∀ a rest, rest.length ≤ bound → Reads bound' (next a rest)) :
    Reads bound' (reading.andThen next) := by
  cases h with
  | refused => exact .refused
  | read h => exact hnext _ _ h

end Reads

theorem length_skipWhitespace_le
    (buffer : List UInt8) :
    (skipWhitespace buffer).length ≤ buffer.length := by
  have hle := List.length_dropWhile_le isBlank buffer
  unfold skipWhitespace
  cases h : buffer.dropWhile isBlank with
  | nil => simp
  | cons b rest => rwa [h] at hle

theorem skipWhitespace_ne_nil
    {buffer : List UInt8}
    (hne : buffer ≠ []) :
    skipWhitespace buffer ≠ [] := by
  unfold skipWhitespace
  cases h : buffer.dropWhile isBlank with
  | nil =>
      have := List.length_pos_of_ne_nil hne
      exact List.ne_nil_of_length_pos (by simp; omega)
  | cons b rest => simp

theorem reads_parseString
    {buffer : List UInt8}
    (hne : buffer ≠ []) :
    Reads (buffer.length - 1) (parseString buffer) := by
  obtain ⟨outcome, houtcome⟩ := Option.isSome_iff_exists.mp (parseString_isSome hne)
  rw [houtcome]
  cases outcome with
  | none => exact .refused
  | some result =>
      obtain ⟨text, rest⟩ := result
      refine .read ?_
      obtain ⟨b, input, rfl⟩ := List.exists_cons_of_ne_nil hne
      unfold parseString at houtcome
      by_cases hb : b = quote
      · simp only [hb, ne_eq, not_true_eq_false, if_false] at houtcome
        cases hscan : scanEnd input with
        | none => simp [hscan] at houtcome
        | some found =>
            simp only [hscan, Option.map_eq_some_iff, Prod.mk.injEq] at houtcome
            obtain ⟨_, -, _, -, -, rfl⟩ := houtcome
            simp
      · simp [hb] at houtcome

theorem reads_parseNumber
    {buffer : List UInt8}
    (hne : buffer ≠ []) :
    Reads (buffer.length - 1) (parseNumber buffer) := by
  have hchars : ∀ b ∈ buffer.takeWhile isNumberChar ++ [0], isNumberChar b = true ∨ b = 0 := by
    intro b hb
    rcases List.mem_append.mp hb with hb | hb
    · exact .inl (List.mem_takeWhile_imp hb)
    · exact .inr (List.mem_singleton.mp hb)
  obtain ⟨number, afterEnd, hstrtod, hle⟩ := strtod_terminated
    (s := buffer.takeWhile isNumberChar ++ [0]) (by simp)
    (otherForm_numberChars fun b hb => hchars b (mem_of_mem_readSign hb))
  simp only [parseNumber, hstrtod, Option.map_some]
  rw [List.length_append, List.length_singleton] at hle
  split_ifs with hnone
  · exact .refused
  · have := List.length_pos_of_ne_nil hne
    exact .read (by rw [List.length_drop]; omega)

theorem reads_parseArray
    {loop : Nat → List UInt8 → Reading (List Json)} {depth : Nat} {buffer : List UInt8}
    (hne : buffer ≠ [])
    (hloop : ∀ rest, rest.length < buffer.length →
      Reads (rest.length - 1) (loop (depth + 1) rest)) :
    Reads (buffer.length - 1) (parseArray loop depth buffer) := by
  unfold parseArray
  by_cases hdepth : nestingLimit ≤ depth
  · rw [if_pos hdepth]; exact .refused
  rw [if_neg hdepth]
  obtain ⟨b, rest, rfl⟩ := List.exists_cons_of_ne_nil hne
  have hskip := length_skipWhitespace_le rest
  by_cases hb : b ≠ 0x5b
  · simp only [if_pos hb]; exact .refused
  simp only [if_neg hb]
  cases hinside : skipWhitespace rest with
  | nil => exact .refused
  | cons c inside =>
      rw [hinside, List.length_cons] at hskip
      by_cases hc : c = 0x5d
      · simp only [if_pos hc]
        exact .read (by simp; omega)
      · simp only [if_neg hc]
        refine (hloop (c :: inside) (by simp; omega)).andThen fun items rest hrest => .read ?_
        simp only [List.length_cons] at hrest ⊢
        omega

theorem reads_parseObject
    {loop : Nat → List UInt8 → Reading (List (List UInt8 × Json))} {depth : Nat}
    {buffer : List UInt8}
    (hne : buffer ≠ [])
    (hloop : ∀ rest, rest.length < buffer.length →
      Reads (rest.length - 1) (loop (depth + 1) rest)) :
    Reads (buffer.length - 1) (parseObject loop depth buffer) := by
  unfold parseObject
  by_cases hdepth : nestingLimit ≤ depth
  · rw [if_pos hdepth]; exact .refused
  rw [if_neg hdepth]
  obtain ⟨b, rest, rfl⟩ := List.exists_cons_of_ne_nil hne
  have hskip := length_skipWhitespace_le rest
  by_cases hb : b ≠ 0x7b
  · simp only [if_pos hb]; exact .refused
  simp only [if_neg hb]
  cases hinside : skipWhitespace rest with
  | nil => exact .refused
  | cons c inside =>
      rw [hinside, List.length_cons] at hskip
      by_cases hc : c = 0x7d
      · simp only [if_pos hc]
        exact .read (by simp; omega)
      · simp only [if_neg hc]
        refine (hloop (c :: inside) (by simp; omega)).andThen fun members rest hrest => .read ?_
        simp only [List.length_cons] at hrest ⊢
        omega

/-- The end of a round of the loops: a comma and the next round, or the closing character. -/
theorem reads_round
    {α : Type} {buffer : List UInt8} {bound : Nat}
    (close : UInt8)
    (last : List UInt8 → α)
    (more : List UInt8 → Reading α)
    (hbuffer : buffer.length ≤ bound)
    (hmore : ∀ rest, rest.length < bound → Reads (rest.length - 1) (more rest)) :
    Reads (bound - 1)
      (match skipWhitespace buffer with
        | [] => some none
        | b :: rest =>
            if b = 0x2c then more rest
            else if b = close then some (some (last rest, rest))
            else some none) := by
  have hskip := (length_skipWhitespace_le buffer).trans hbuffer
  cases h : skipWhitespace buffer with
  | nil => exact .refused
  | cons b rest =>
      rw [h, List.length_cons] at hskip
      simp only
      split_ifs with hcomma hclose
      · exact (hmore rest (by omega)).mono (by omega)
      · exact .read (by omega)
      · exact .refused

theorem reads_constant
    {value : Json} {word : String} {b : UInt8} {bytes buffer : List UInt8} {n : Nat}
    (hword : (utf8 word).isPrefixOf buffer = true)
    (hbytes : utf8 word = b :: bytes)
    (hn : 0 < n) :
    Reads (buffer.length - 1) (some (some (value, buffer.drop n))) := by
  have := (List.isPrefixOf_iff_prefix.mp hword).length_le
  rw [hbytes, List.length_cons] at this
  exact .read (by rw [List.length_drop]; omega)

/-- With twice the length of the buffer as fuel, the functions come to an end. -/
theorem reads_parse
    (fuel : Nat) :
    (∀ depth buffer, 2 * buffer.length + 1 ≤ fuel →
      Reads (buffer.length - 1) (parseValue fuel depth buffer)) ∧
    (∀ depth buffer, 2 * buffer.length + 2 ≤ fuel →
      Reads (buffer.length - 1) (parseItems fuel depth buffer)) ∧
    (∀ depth buffer, 2 * buffer.length + 2 ≤ fuel →
      Reads (buffer.length - 1) (parseMembers fuel depth buffer)) := by
  induction fuel with
  | zero => exact ⟨by simp, by simp, by simp⟩
  | succ fuel ih =>
      obtain ⟨ihValue, ihItems, ihMembers⟩ := ih
      refine ⟨fun depth buffer hfuel => ?value, fun depth buffer hfuel => ?items,
        fun depth buffer hfuel => ?members⟩
      case value =>
        unfold parseValue
        split_ifs with hnull hfalse htrue
        · exact reads_constant hnull utf8_null (by decide)
        · exact reads_constant hfalse utf8_false (by decide)
        · exact reads_constant htrue utf8_true (by decide)
        cases buffer with
        | nil => exact .refused
        | cons b rest =>
            simp only
            split_ifs with hquote hnumber harray hobject
            · exact (reads_parseString (by simp)).andThen fun text rest hrest => .read hrest
            · exact reads_parseNumber (by simp)
            · exact reads_parseArray (by simp) fun inside hlt => ihItems _ _ (by omega)
            · exact reads_parseObject (by simp) fun inside hlt => ihMembers _ _ (by omega)
            · exact .refused
      case items =>
        unfold parseItems
        have hskip := length_skipWhitespace_le buffer
        refine (ihValue depth _ (by omega)).andThen fun item rest hrest => ?_
        have hround := reads_round 0x5d (fun _ => [item])
          (fun rest => (parseItems fuel depth rest).andThen fun items rest =>
            some (some (item :: items, rest)))
          (show rest.length ≤ buffer.length - 1 by omega)
          fun rest hlt => (ihItems depth rest (by omega)).andThen fun _ _ h => .read h
        exact hround.mono (by omega)
      case members =>
        unfold parseMembers
        have hskip := length_skipWhitespace_le buffer
        by_cases hne : buffer = []
        · rw [if_pos hne]; exact .refused
        rw [if_neg hne]
        refine (reads_parseString (skipWhitespace_ne_nil hne)).andThen fun name rest hrest => ?_
        have hcolon := length_skipWhitespace_le rest
        cases h : skipWhitespace rest with
        | nil => exact .refused
        | cons b behind =>
            rw [h, List.length_cons] at hcolon
            have hvalue := length_skipWhitespace_le behind
            simp only
            split_ifs with hb
            · exact .refused
            refine (ihValue depth _ (by omega)).andThen fun item rest hrest => ?_
            have hround := reads_round 0x7d (fun _ => [(stringAt name, item)])
              (fun rest => (parseMembers fuel depth rest).andThen fun members rest =>
                some (some ((stringAt name, item) :: members, rest)))
              (show rest.length ≤ buffer.length - 1 by omega)
              fun rest hlt => (ihMembers depth rest (by omega)).andThen fun _ _ h => .read h
            exact hround.mono (by omega)

/-- **The parser never leaves its buffer**, and it comes to an end, on any bytes. -/
theorem parseWithLengthOpts_isSome
    (content : List UInt8)
    (requireNullTerminated : Bool) :
    (parseWithLengthOpts content requireNullTerminated).isSome := by
  have hbom : (skipUtf8Bom content).length ≤ content.length := by
    unfold skipUtf8Bom
    split_ifs <;> simp
  have hskip := length_skipWhitespace_le (skipUtf8Bom content)
  have hreads := (reads_parse (2 * content.length + 1)).1 0
    (skipWhitespace (skipUtf8Bom content)) (by omega)
  unfold parseWithLengthOpts
  by_cases hne : content = []
  · rw [if_pos hne]; rfl
  rw [if_neg hne]
  obtain ⟨outcome, houtcome⟩ := Option.isSome_iff_exists.mp hreads.isSome
  rw [houtcome]
  rcases outcome with _ | ⟨item, rest⟩
  · rfl
  · simp only [Option.bind_some]
    cases requireNullTerminated with
    | false => rfl
    | true => cases skipWhitespace rest <;> rfl

end Cjson
end MatrixBin
