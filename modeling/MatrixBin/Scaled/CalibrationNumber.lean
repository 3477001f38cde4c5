import MatrixBin.Library.DecimalText
import MatrixBin.Scaled.GetResp

/-!
# The calibration number of an LDU (`init_ldu` in `ldu_util.c`)

`init_ldu` looks at the reply to `CE` where `get_resp` has found it, in `spc`: it cuts the reply
behind its seventh byte, skips the zeros behind the first two, and hands the rest to `atoi`,
or NULL if there is no rest.  A step is `none` when it leaves `spc` or reads NULL.
-/

namespace MatrixBin
namespace Scaled

open Library

/-- `spc[i]=0` -/
def Locbuf.zeroAt (b : Locbuf) (i : ℤ) : Option Locbuf :=
  if 0 ≤ i ∧ i < locbufSize then some { b with spc := b.spc.write i.toNat [0] } else none

/-- `PRT_RESP` -/
def Locbuf.prtResp (b : Locbuf) (resp : Option ℤ) (n : ℤ) : Option Locbuf :=
  match resp with
  | none => some b
  | some resp => b.zeroAt (resp + n - 1)

/-- `while( *p=='0' ) p++` -/
def Locbuf.skipZeros (b : Locbuf) : Nat → ℤ → Option ℤ
  | 0, _ => none
  | k + 1, p =>
      if 0 ≤ p ∧ p < locbufSize then
        if b.spc p.toNat = 0x30 then b.skipZeros k (p + 1) else some p
      else none

/-- The string at a position. -/
def Locbuf.stringFrom (b : Locbuf) (p : ℤ) : Option (List UInt8) :=
  if 0 ≤ p then (strlen locbufSize b.spc p.toNat).map (b.spc.read p.toNat) else none

/-- What is made of a reply of more than four bytes. -/
def Locbuf.calibrationNumber (b : Locbuf) (resp : ℤ) : Option (Locbuf × ℤ) :=
  (b.zeroAt (resp + 7)).bind fun b =>
    (b.skipZeros (locbufSize + 1) (resp + 2)).bind fun p =>
      -- `if( *p==0 ) p=NULL;` in front of `atoi(p)`
      if b.spc p.toNat = 0 then none
      else (b.stringFrom p).map fun text => (b, atoi text)

/-! ### The text of a reply -/

/-- The bytes that `atoi` is to read: those of the third to the seventh, up to a NUL, behind
the zeros that they begin with. -/
def calibrationText (reply : List UInt8) : List UInt8 :=
  (stringAt ((reply.dropLast.drop 2).take 5)).dropWhile (· = 0x30)

def isLetter (b : UInt8) : Bool := (0x41 ≤ b && b ≤ 0x5a) || (0x61 ≤ b && b ≤ 0x7a)

/-- A letter, one separator and decimal digits. -/
def IsCalibrationReply (reply digits : List UInt8) : Prop :=
  ∃ letter separator, reply = letter :: separator :: (digits ++ [0x0d]) ∧
    isLetter letter = true ∧ isLetter separator = false ∧ isDigit separator = false ∧
    ∀ d ∈ digits, isDigit d = true

section Text

variable {reply digits : List UInt8}

theorem zero_not_mem_digits
    (hdigits : ∀ d ∈ digits, isDigit d = true) :
    (0 : UInt8) ∉ digits := by
  intro hmem
  exact absurd (hdigits 0 hmem) (by decide)

theorem calibrationText_digits
    (h : IsCalibrationReply reply digits) :
    calibrationText reply = (digits.take 5).dropWhile (· = 0x30) := by
  obtain ⟨letter, separator, rfl, -, -, -, hdigits⟩ := h
  have hfront : (letter :: separator :: (digits ++ [0x0d])).dropLast =
      letter :: separator :: digits := by
    rw [← List.cons_append, ← List.cons_append, List.dropLast_concat]
  rw [calibrationText, hfront, List.drop_succ_cons, List.drop_succ_cons, List.drop_zero,
    stringAt_of_not_mem (fun hmem => zero_not_mem_digits hdigits (List.mem_of_mem_take hmem))]

/-- The number that is read from digits is that of the first five. -/
theorem atoi_calibrationText
    (h : IsCalibrationReply reply digits) :
    atoi (calibrationText reply) = digitsValue (digits.take 5) := by
  have htext := calibrationText_digits h
  obtain ⟨-, -, -, -, -, -, hdigits⟩ := h
  have htake : ∀ d ∈ digits.take 5, isDigit d = true :=
    fun d hd => hdigits d (List.mem_of_mem_take hd)
  have hdrop : ∀ d ∈ (digits.take 5).dropWhile (· = 0x30), isDigit d = true :=
    fun d hd => htake d ((List.dropWhile_suffix _).mem hd)
  have hvalue := digitsValue_dropWhile_zeros (digits.take 5)
  have hlt := digitsValue_lt htake
  have hpow : 10 ^ (digits.take 5).length ≤ 10 ^ 5 :=
    Nat.pow_le_pow_right (by omega) (List.length_take_le 5 digits)
  rw [htext, atoi_digits hdrop (by omega), hvalue]

/-- It is the number of the reply exactly if there are no more than five. -/
theorem calibration_number_iff
    (h : IsCalibrationReply reply digits)
    (hne : calibrationText reply ≠ []) :
    atoi (calibrationText reply) = digitsValue digits ↔ digits.length ≤ 5 := by
  rw [atoi_calibrationText h]
  rw [calibrationText_digits h] at hne
  obtain ⟨-, -, -, -, -, -, hdigits⟩ := h
  constructor
  · intro heq
    by_contra hmany
    have htake : ∀ d ∈ digits.take 5, isDigit d = true :=
      fun d hd => hdigits d (List.mem_of_mem_take hd)
    have hpos : 0 < digitsValue (digits.take 5) := by
      rw [digitsValue_pos_iff htake]
      by_contra hzeros
      push Not at hzeros
      exact hne (List.dropWhile_eq_nil_iff.mpr fun d hd => decide_eq_true (hzeros d hd))
    have hsplit : digitsValue digits =
        digitsValue (digits.take 5) * 10 ^ (digits.drop 5).length +
          digitsValue (digits.drop 5) := by
      rw [← digitsValue_append, List.take_append_drop]
    have hten : 10 ^ 1 ≤ 10 ^ (digits.drop 5).length :=
      Nat.pow_le_pow_right (by omega) (by rw [List.length_drop]; omega)
    have hmul : digitsValue (digits.take 5) * 10 ^ 1 ≤
        digitsValue (digits.take 5) * 10 ^ (digits.drop 5).length :=
      Nat.mul_le_mul_left _ hten
    omega
  · intro hfew
    rw [List.take_of_length_le hfew]

theorem length_calibrationText
    (reply : List UInt8) :
    (calibrationText reply).length ≤ 5 :=
  calc (calibrationText reply).length
      ≤ (stringAt ((reply.dropLast.drop 2).take 5)).length := (List.dropWhile_suffix _).length_le
    _ ≤ ((reply.dropLast.drop 2).take 5).length := (List.takeWhile_prefix _).length_le
    _ ≤ 5 := List.length_take_le 5 _

end Text

/-! ### The reply in `spc` -/

section Reply

variable {b : Locbuf} {p : Nat} {front : List UInt8}

theorem Locbuf.zeroAt_eq
    (b : Locbuf)
    {i : Nat}
    (hi : i < locbufSize) :
    b.zeroAt i = some { b with spc := b.spc.write i [0] } :=
  if_pos ⟨Int.natCast_nonneg i, by exact_mod_cast hi⟩

/-- `PRT_RESP` puts a NUL in the place of the terminator. -/
theorem Locbuf.prtResp_line
    {c : UInt8}
    (hholds : b.spc.Holds p (front ++ [c]))
    (hfits : p + (front ++ [c]).length ≤ locbufSize) :
    b.prtResp (some p) (front ++ [c]).length =
        some { b with spc := b.spc.write (p + front.length) [0] } ∧
      (b.spc.write (p + front.length) [0]).Holds p (front ++ [0]) := by
  rw [List.length_append, List.length_singleton] at hfits
  have hat : (p : ℤ) + (front ++ [c]).length - 1 = ((p + front.length : ℕ) : ℤ) := by
    rw [List.length_append, List.length_singleton]
    push_cast
    ring
  constructor
  · rw [Locbuf.prtResp, hat, b.zeroAt_eq (by omega)]
  · rw [Bytes.holds_append]
    exact ⟨(Bytes.holds_append.mp hholds).1.write (Or.inr (le_refl _)), Bytes.holds_write⟩

theorem Locbuf.skipZeros_eq
    {q k : Nat}
    {zeros : List UInt8}
    {c : UInt8}
    (hholds : b.spc.Holds q (zeros ++ [c]))
    (hzeros : ∀ d ∈ zeros, d = 0x30)
    (hc : c ≠ 0x30)
    (hfits : q + zeros.length < locbufSize)
    (hk : zeros.length < k) :
    b.skipZeros k q = some ((q + zeros.length : ℕ) : ℤ) := by
  induction zeros generalizing q k with
  | nil =>
      obtain ⟨k, rfl⟩ := Nat.exists_eq_succ_of_ne_zero (Nat.ne_of_gt hk)
      have hbyte : b.spc q = c := (Bytes.Holds.head hholds).1
      rw [List.length_nil, Nat.add_zero] at hfits ⊢
      rw [Locbuf.skipZeros, if_pos ⟨Int.natCast_nonneg q, by exact_mod_cast hfits⟩,
        Int.toNat_natCast, hbyte, if_neg hc]
  | cons d zeros ih =>
      obtain ⟨hd, hrest⟩ := Bytes.Holds.head hholds
      obtain ⟨hzero, hzeros⟩ := List.forall_mem_cons.mp hzeros
      obtain ⟨k, rfl⟩ := Nat.exists_eq_succ_of_ne_zero (Nat.ne_of_gt (Nat.zero_lt_of_lt hk))
      rw [List.length_cons] at hfits hk ⊢
      have hnext : ((q : ℤ) + 1) = ((q + 1 : ℕ) : ℤ) := by push_cast; ring
      have hend : q + (zeros.length + 1) = q + 1 + zeros.length := by omega
      rw [Locbuf.skipZeros, if_pos ⟨Int.natCast_nonneg q, by omega⟩, Int.toNat_natCast, hd,
        hzero, if_pos rfl, hnext, ih hrest hzeros (by omega) (by omega), hend]

/-- What stands behind the first two bytes after the cut. -/
theorem holds_cut
    {m : Bytes}
    (hholds : m.Holds p (front ++ [0]))
    (hfront : 2 ≤ front.length) :
    (m.write (p + 7) [0]).Holds (p + 2) (stringAt ((front.drop 2).take 5) ++ [0]) := by
  have hcut : (m.write (p + 7) [0]).Holds p (front.take 7 ++ [0]) := by
    by_cases hlong : 7 ≤ front.length
    · have hlen : (front.take 7).length = 7 := by
        rw [List.length_take]
        omega
      rw [Bytes.holds_append, hlen]
      refine ⟨?_, Bytes.holds_write⟩
      rw [← List.take_append_drop 7 front, List.append_assoc] at hholds
      exact (Bytes.holds_append.mp hholds).1.write (Or.inr (by rw [hlen]))
    · rw [List.take_of_length_le (by omega)]
      refine hholds.write (Or.inr ?_)
      rw [List.length_append, List.length_singleton]
      omega
  have hsplit : front.take 7 ++ [0] = front.take 2 ++ ((front.drop 2).take 5 ++ [0]) := by
    rw [← List.append_assoc, ← List.take_add]
  have htwo : (front.take 2).length = 2 := by
    rw [List.length_take]
    omega
  rw [hsplit, Bytes.holds_append, htwo] at hcut
  have hstring : stringAt ((front.drop 2).take 5 ++ [0]) = stringAt ((front.drop 2).take 5) := by
    by_cases hzero : (0 : UInt8) ∈ (front.drop 2).take 5
    · exact stringAt_append_of_mem hzero
    · rw [stringAt_append_of_not_mem hzero, stringAt_of_not_mem hzero]
      exact List.append_nil _
  obtain ⟨rest, hrest⟩ := exists_behind_stringAt (a := (front.drop 2).take 5 ++ [0]) (by simp)
  have hall := hcut.2
  rw [hrest, hstring, List.append_cons] at hall
  exact (Bytes.holds_append.mp hall).1

theorem Locbuf.stringFrom_eq
    {q : Nat}
    {text : List UInt8}
    (hholds : b.spc.Holds q (text ++ [0]))
    (hzero : (0 : UInt8) ∉ text)
    (hfits : q + text.length < locbufSize) :
    b.stringFrom q = some text := by
  rw [Locbuf.stringFrom, if_pos (Int.natCast_nonneg q), Int.toNat_natCast,
    strlen_of_holds hholds hzero hfits, Option.map_some, (Bytes.holds_append.mp hholds).1.read_eq]

/-- **The number of a reply.**  There is one if the byte behind the seventh lies in `spc` and
something is left of the text. -/
theorem Locbuf.calibrationNumber_eq
    (hholds : b.spc.Holds p (front ++ [0]))
    (hfront : 4 ≤ front.length)
    (c : UInt8) :
    b.calibrationNumber p =
      if p + 7 < locbufSize ∧ calibrationText (front ++ [c]) ≠ [] then
        some ({ b with spc := b.spc.write (p + 7) [0] }, atoi (calibrationText (front ++ [c])))
      else none := by
  have hat : (p : ℤ) + 7 = ((p + 7 : ℕ) : ℤ) := by push_cast; ring
  rw [Locbuf.calibrationNumber, hat]
  by_cases hseven : p + 7 < locbufSize
  · rw [b.zeroAt_eq hseven, Option.bind_some]
    have htwo : (p : ℤ) + 2 = ((p + 2 : ℕ) : ℤ) := by push_cast; ring
    have hcut := holds_cut hholds (by omega)
    have hfield : calibrationText (front ++ [c]) =
        (stringAt ((front.drop 2).take 5)).dropWhile (· = 0x30) := by
      rw [calibrationText, List.dropLast_concat]
    have hlen : (stringAt ((front.drop 2).take 5)).length ≤ 5 :=
      (List.takeWhile_prefix _).length_le.trans (List.length_take_le 5 _)
    have hnozero := zero_not_mem_stringAt ((front.drop 2).take 5)
    generalize stringAt ((front.drop 2).take 5) = field at hcut hfield hlen hnozero
    -- the zeros, and the rest with its terminator
    have hsplit := List.takeWhile_append_dropWhile (p := fun d : UInt8 => decide (d = 0x30))
      (l := field)
    have hzeros : ∀ d ∈ field.takeWhile (· = 0x30), d = 0x30 := by
      intro d hd
      have hzero := List.mem_takeWhile_imp hd
      exact of_decide_eq_true hzero
    have hsum := congrArg List.length hsplit
    rw [List.length_append, ← hfield] at hsum
    rw [← hsplit, ← hfield, List.append_assoc] at hcut
    have hstart : (field.takeWhile (· = 0x30)).length < locbufSize + 1 := by
      rw [locbufSize]
      omega
    rw [htwo]
    cases htext : calibrationText (front ++ [c]) with
    | nil =>
        rw [htext, List.nil_append] at hcut
        have hend := (Bytes.Holds.head (Bytes.holds_append.mp hcut).2).1
        rw [Locbuf.skipZeros_eq hcut hzeros (by decide) (by omega) hstart, Option.bind_some]
        simp only [Int.toNat_natCast, hend, if_true, ne_eq, not_true, and_false, if_false]
    | cons d text =>
        rw [htext] at hcut hsum
        have hd : d ≠ 0x30 := by
          have hne : field.dropWhile (· = 0x30) ≠ [] := by
            rw [← hfield, htext]
            exact List.cons_ne_nil d text
          have hhead := List.head_dropWhile_not (fun d : UInt8 => decide (d = 0x30)) hne
          simp only [← hfield, htext, List.head_cons, decide_eq_false_iff_not] at hhead
          exact hhead
        have hmem : (0 : UInt8) ∉ d :: text := by
          intro hzero
          rw [← htext, hfield] at hzero
          exact hnozero ((List.dropWhile_suffix _).mem hzero)
        rw [List.length_cons] at hsum
        obtain ⟨hfirst, hrest⟩ := Bytes.holds_append.mp hcut
        have hbefore : (b.spc.write (p + 7) [0]).Holds (p + 2)
            (field.takeWhile (· = 0x30) ++ [d]) := by
          rw [List.cons_append, List.append_cons, Bytes.holds_append] at hcut
          exact hcut.1
        have hbyte := (Bytes.Holds.head hrest).1
        have hne : d ≠ 0 := fun hzero => hmem (by rw [hzero]; exact List.mem_cons_self)
        rw [Locbuf.skipZeros_eq hbefore hzeros hd (by omega) hstart, Option.bind_some]
        simp only [Int.toNat_natCast, hbyte]
        rw [if_neg hne, Locbuf.stringFrom_eq hrest hmem (by rw [List.length_cons]; omega),
          if_pos ⟨hseven, List.cons_ne_nil d text⟩]
        rfl
  · have hout : b.zeroAt ((p + 7 : ℕ) : ℤ) = none := if_neg (by omega)
    rw [hout, if_neg (fun h => hseven h.1)]
    rfl

end Reply

end Scaled
end MatrixBin
