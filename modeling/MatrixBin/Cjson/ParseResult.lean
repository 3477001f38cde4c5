import MatrixBin.Cjson.Parse

/-!
# What the parser accepts

Whatever bytes the parser accepts, the value holds C strings and is nested no deeper than the
limit (`parse_fits`).
-/

namespace MatrixBin
namespace Cjson

open Library Library.JsonText

/-- A value that comes out of a function of the parser is of some kind. -/
def Yields {α : Type} (p : α → Prop) (reading : Reading α) : Prop :=
  ∀ a rest, reading = some (some (a, rest)) → p a

theorem Yields.andThen
    {α β : Type} {p : α → Prop} {q : β → Prop} {reading : Reading α}
    {next : α → List UInt8 → Reading β}
    (h : Yields p reading)
    (hnext : ∀ a rest, p a → Yields q (next a rest)) :
    Yields q (reading.andThen next) := by
  intro b rest hb
  rcases reading with _ | _ | ⟨a, between⟩
  · exact absurd hb (by simp [Reading.andThen])
  · exact absurd hb (by simp [Reading.andThen])
  · exact hnext a between (h a between rfl) b rest hb

theorem Yields.value
    {α : Type} {p : α → Prop} {a : α} {rest : List UInt8}
    (h : p a) :
    Yields p (some (some (a, rest))) := by
  rintro _ _ ⟨⟩
  exact h

theorem Yields.refused
    {α : Type} {p : α → Prop} :
    Yields p (some none : Reading α) := by
  rintro _ _ ⟨⟩

theorem yields_parseNumber
    {n : Nat}
    (buffer : List UInt8) :
    Yields (fun v => Fits (fun _ => True) n (.value v)) (parseNumber buffer) := by
  intro v rest h
  obtain ⟨⟨number, afterEnd⟩, -, hnumber⟩ := Option.map_eq_some_iff.mp h
  simp only at hnumber
  split_ifs at hnumber
  obtain ⟨rfl, -⟩ := Prod.mk.inj (Option.some.inj hnumber)
  exact .number trivial

theorem yields_parseArray
    {loop : Nat → List UInt8 → Reading (List Json)} {n depth : Nat}
    (hdepth : depth + n = nestingLimit)
    (hloop : ∀ m rest, depth + 1 + m = nestingLimit →
      Yields (fun vs => Fits (fun _ => True) m (.items vs)) (loop (depth + 1) rest))
    (buffer : List UInt8) :
    Yields (fun v => Fits (fun _ => True) n (.value v)) (parseArray loop depth buffer) := by
  unfold parseArray
  by_cases hdeep : nestingLimit ≤ depth
  · rw [if_pos hdeep]; exact .refused
  rw [if_neg hdeep]
  obtain ⟨m, rfl⟩ := Nat.exists_eq_add_of_le' (show 1 ≤ n by omega)
  cases buffer with
  | nil => rintro _ _ ⟨⟩
  | cons b rest =>
      simp only
      split_ifs
      · exact .refused
      cases skipWhitespace rest with
      | nil => exact .refused
      | cons c inside =>
          simp only
          split_ifs
          · exact .value (.array .noItems)
          · exact (hloop m (c :: inside) (by omega)).andThen fun vs rest hvs => .value (.array hvs)

theorem yields_parseObject
    {loop : Nat → List UInt8 → Reading (List (List UInt8 × Json))} {n depth : Nat}
    (hdepth : depth + n = nestingLimit)
    (hloop : ∀ m rest, depth + 1 + m = nestingLimit →
      Yields (fun ms => Fits (fun _ => True) m (.members ms)) (loop (depth + 1) rest))
    (buffer : List UInt8) :
    Yields (fun v => Fits (fun _ => True) n (.value v)) (parseObject loop depth buffer) := by
  unfold parseObject
  by_cases hdeep : nestingLimit ≤ depth
  · rw [if_pos hdeep]; exact .refused
  rw [if_neg hdeep]
  obtain ⟨m, rfl⟩ := Nat.exists_eq_add_of_le' (show 1 ≤ n by omega)
  cases buffer with
  | nil => exact .refused
  | cons b rest =>
      simp only
      split_ifs
      · exact .refused
      cases skipWhitespace rest with
      | nil => exact .refused
      | cons c inside =>
          simp only
          split_ifs
          · exact .value (.object .noMembers)
          · exact (hloop m (c :: inside) (by omega)).andThen fun ms rest hms => .value (.object hms)

/-- The end of a round of the loops. -/
theorem yields_round
    {α : Type} {p : α → Prop} {close : UInt8}
    {more : List UInt8 → Reading α} {last : α}
    (hmore : ∀ rest, Yields p (more rest))
    (hlast : p last)
    (buffer : List UInt8) :
    Yields p
      (match skipWhitespace buffer with
        | [] => some none
        | b :: rest =>
            if b = 0x2c then more rest
            else if b = close then some (some (last, rest))
            else some none) := by
  cases skipWhitespace buffer with
  | nil => exact .refused
  | cons b rest =>
      simp only
      split_ifs
      · exact hmore rest
      · exact .value hlast
      · exact .refused

/-- Whatever the parser accepts, it holds C strings and is nested no deeper than the limit. -/
theorem yields_parse
    (fuel : Nat) :
    ∀ n depth, depth + n = nestingLimit → ∀ buffer,
      Yields (fun v => Fits (fun _ => True) n (.value v)) (parseValue fuel depth buffer) ∧
      Yields (fun vs => Fits (fun _ => True) n (.items vs)) (parseItems fuel depth buffer) ∧
      Yields (fun ms => Fits (fun _ => True) n (.members ms)) (parseMembers fuel depth buffer) := by
  induction fuel with
  | zero =>
      intro n depth _ buffer
      refine ⟨?_, ?_, ?_⟩ <;> intro a rest h <;>
        simp [parseValue, parseItems, parseMembers] at h
  | succ fuel ih =>
      intro n depth hdepth buffer
      have hstring : ∀ buffer, Yields (fun _ => True) (parseString buffer) :=
        fun _ _ _ _ => trivial
      refine ⟨?value, ?items, ?members⟩
      case value =>
        unfold parseValue
        split_ifs
        · exact .value .null
        · exact .value (.bool false)
        · exact .value (.bool true)
        cases buffer with
        | nil => exact .refused
        | cons b rest =>
            simp only
            split_ifs
            · exact (hstring _).andThen fun text rest _ =>
                .value (.string (zero_not_mem_stringAt text))
            · exact yields_parseNumber _
            · exact yields_parseArray hdepth (fun m rest hm => (ih m _ hm rest).2.1) _
            · exact yields_parseObject hdepth (fun m rest hm => (ih m _ hm rest).2.2) _
            · exact .refused
      case items =>
        unfold parseItems
        refine (ih n depth hdepth _).1.andThen fun item rest hitem => ?_
        refine yields_round (p := fun vs => Fits (fun _ => True) n (.items vs)) (fun rest => ?_)
          (.items hitem .noItems) rest
        exact (ih n depth hdepth rest).2.1.andThen fun vs _ hvs => .value (.items hitem hvs)
      case members =>
        unfold parseMembers
        split_ifs
        · exact .refused
        refine (hstring _).andThen fun name rest _ => ?_
        have hname := zero_not_mem_stringAt name
        cases skipWhitespace rest with
        | nil => exact .refused
        | cons b behind =>
            simp only
            split_ifs
            · exact .refused
            refine (ih n depth hdepth _).1.andThen fun item rest hitem => ?_
            refine yields_round (p := fun ms => Fits (fun _ => True) n (.members ms))
              (fun rest => ?_) (.members hname hitem .noMembers) rest
            exact (ih n depth hdepth rest).2.2.andThen fun ms _ hms =>
              .value (.members hname hitem hms)

/-- **What is accepted can be held**: C strings, and arrays and objects no deeper than the
limit. -/
theorem parse_fits
    {content : List UInt8} {requireNullTerminated : Bool} {v : Json}
    (h : parseWithLengthOpts content requireNullTerminated = some (some v)) :
    Fits (fun _ => True) nestingLimit (.value v) := by
  unfold parseWithLengthOpts at h
  by_cases hne : content = []
  · rw [if_pos hne] at h
    cases h
  rw [if_neg hne] at h
  obtain ⟨outcome, hvalue, hrest⟩ := Option.bind_eq_some_iff.mp h
  rcases outcome with _ | ⟨item, rest⟩
  · cases hrest
  have hfits := (yields_parse _ nestingLimit 0 (Nat.zero_add _) _).1 item rest hvalue
  suffices heq : item = v from heq ▸ hfits
  cases requireNullTerminated with
  | false => exact Option.some.inj (Option.some.inj hrest)
  | true =>
      simp only [if_true] at hrest
      cases hskip : skipWhitespace rest with
      | nil => simp [hskip] at hrest
      | cons b behind =>
          simp only [hskip] at hrest
          split_ifs at hrest
          · exact Option.some.inj (Option.some.inj hrest)
          · cases Option.some.inj hrest

/-- **Any bytes are parsed inside the buffer**, and what is accepted can be held. -/
theorem parses_any
    (content : List UInt8)
    (requireNullTerminated : Bool) :
    ∃ outcome, parseWithLengthOpts content requireNullTerminated = some outcome ∧
      ∀ v, outcome = some v → Fits (fun _ => True) nestingLimit (.value v) := by
  obtain ⟨outcome, houtcome⟩ :=
    Option.isSome_iff_exists.mp (parseWithLengthOpts_isSome content requireNullTerminated)
  refine ⟨outcome, houtcome, ?_⟩
  rintro v rfl
  exact parse_fits houtcome

end Cjson
end MatrixBin
