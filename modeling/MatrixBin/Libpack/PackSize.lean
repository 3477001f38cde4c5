import MatrixBin.Library.ByteBuffer
import MatrixBin.Libpack.PackUnpack

/-!
# The size of a packed record (`devdrvd_communication.c`)

`pack_weight` and `pack_discrete` with the local buffer of 256 bytes, the size that `sprintf`
returns and the copy for the caller.  The two floats keep their sign bit, since a zero may be
printed with a minus.

`pack_fits` bounds the text of every record, whatever is in its fields.
-/

namespace MatrixBin
namespace Libpack

open Library

/-- A finite value of the C type `float` with its sign bit. -/
structure SignedFloat where
  sign : Bool
  magnitude : {q : ℚ // 0 ≤ q ∧ q ≤ fltMax}
deriving DecidableEq

/-- `%f` -/
def SignedFloat.print (x : SignedFloat) : List UInt8 :=
  (if x.sign then [0x2d] else []) ++ printFixed 6 x.magnitude

def SignedFloat.value (x : SignedFloat) : ℚ :=
  if x.sign then -x.magnitude else x.magnitude

/-- `struct weight_struct`, with any finite floats. -/
structure WeightRecord where
  ts : Timeval
  channel : UInt8
  weight : SignedFloat
  tare : SignedFloat
  status : UInt32
deriving DecidableEq

/-- `weight_package_pattern` without the start and the stop character. -/
def WeightRecord.body (weight : WeightRecord) : List UInt8 :=
  [0x57, 0x20] ++ separator :: (printNat (toUnsigned weight.ts.tvSec) ++
    0x2e :: (printPadded 6 (toUnsigned weight.ts.tvUsec) ++
    separator :: (printNat weight.channel.toNat ++
    separator :: (weight.weight.print ++
    separator :: (weight.tare.print ++
    separator :: printNat weight.status.toNat)))))

/-- What the two functions leave behind: the local buffer, `*data` and the size that they
return. -/
structure PackResult where
  buffer : Bytes
  data : Option (List UInt8)
  len : Nat

/-- `sprintf` into the local buffer, then `malloc` and `strncpy` of the size that it has
returned; `none` if the text and its zero do not fit. -/
def packInto (buffer : Bytes) (text : List UInt8) : Option PackResult :=
  (store packBufferSize buffer 0 (text ++ [0])).map fun buffer =>
    let len := text.length
    if len = 0 then ⟨buffer, none, len⟩
    else ⟨buffer, some (strncpyBytes len (buffer.read 0 packBufferSize)), len⟩

/-- `pack_weight`, over what the stack holds at the call. -/
def WeightRecord.pack (weight : WeightRecord) (buffer : Bytes) : Option PackResult :=
  packInto buffer (packText weight.body)

/-- `pack_discrete` -/
def DiscreteStruct.pack (discrete : DiscreteStruct) (buffer : Bytes) : Option PackResult :=
  packInto buffer (packText (discreteBody discrete))

/-- The text fits with its zero, and what is returned is the text and its number of bytes. -/
def PackFits (buffer : Bytes) (text : List UInt8) (result : Option PackResult) : Prop :=
  text.length + 1 ≤ packBufferSize ∧ text.getLast? = some stopCharacter ∧
    result = some ⟨buffer.write 0 (text ++ [0]), some text, text.length⟩

section PackSize

variable {buffer : Bytes} {body text : List UInt8}

/-- Only a zero has a sign that its value does not have. -/
theorem SignedFloat.print_eq
    {x : SignedFloat}
    (hx : x.sign = false ∨ (x.magnitude : ℚ) ≠ 0) :
    x.print = printFixed 6 x.value := by
  have hnonneg := x.magnitude.2.1
  rw [SignedFloat.print, SignedFloat.value]
  cases hsign : x.sign with
  | false => rfl
  | true =>
      have hne : (x.magnitude : ℚ) ≠ 0 := by
        rcases hx with hpos | hne
        · exact absurd (hpos.symm.trans hsign) (by simp)
        · exact hne
      have hpos : (0 : ℚ) < x.magnitude := lt_of_le_of_ne hnonneg hne.symm
      have hminus : -(x.magnitude : ℚ) < 0 := neg_lt_zero.mpr hpos
      simp only [if_true, printFixed, abs_neg, if_pos hminus, if_neg (not_lt.mpr hnonneg),
        List.nil_append]

theorem SignedFloat.abs_value_le
    (x : SignedFloat) :
    |x.value| ≤ fltMax := by
  have habs : |x.value| = x.magnitude := by
    rw [SignedFloat.value]
    split
    · rw [abs_neg, abs_of_nonneg x.magnitude.2.1]
    · exact abs_of_nonneg x.magnitude.2.1
  rw [habs]
  exact x.magnitude.2.2

/-- The record without the sign bits. -/
def WeightRecord.toStruct (weight : WeightRecord) : WeightStruct :=
  ⟨weight.ts, weight.channel, ⟨weight.weight.value, weight.weight.abs_value_le⟩,
    ⟨weight.tare.value, weight.tare.abs_value_le⟩, weight.status⟩

/-- The text is that of the record without sign bits, unless a zero has one. -/
theorem WeightRecord.body_eq
    {weight : WeightRecord}
    (hweight : weight.weight.sign = false ∨ (weight.weight.magnitude : ℚ) ≠ 0)
    (htare : weight.tare.sign = false ∨ (weight.tare.magnitude : ℚ) ≠ 0) :
    weight.body = weightBody weight.toStruct := by
  rw [WeightRecord.body, SignedFloat.print_eq hweight, SignedFloat.print_eq htare]
  rfl

theorem SignedFloat.length_print_le
    (x : SignedFloat) :
    x.print.length ≤ 47 := by
  by_cases hx : x.sign = false ∨ (x.magnitude : ℚ) ≠ 0
  · rw [x.print_eq hx]
    exact length_printFixed_float x.abs_value_le
  · -- the zero with a minus
    obtain ⟨-, hzero⟩ := not_or.mp hx
    have hwidth : (printFixed 6 0).length ≤ 0 + 1 + 6 + 2 :=
      length_printFixed_le (n := 0) (by omega) (by omega) (by simp) (by norm_num)
    rw [SignedFloat.print, not_not.mp hzero, List.length_append]
    split
    · rw [List.length_singleton]
      omega
    · rw [List.length_nil]
      omega

theorem WeightRecord.length_body_le
    (weight : WeightRecord) :
    weight.body.length ≤ 135 := by
  have h1 := length_printNat_le_ten (toUnsigned_lt weight.ts.tvSec)
  have h2 := length_printPadded_le_ten (toUnsigned_lt weight.ts.tvUsec)
  have h3 := length_printNat_channel weight.channel
  have h4 := weight.weight.length_print_le
  have h5 := weight.tare.length_print_le
  have h6 := length_printNat_le_ten weight.status.toNat_lt
  simp only [WeightRecord.body, List.length_append, List.length_cons, List.length_nil]
  omega

theorem SignedFloat.printable
    {x : SignedFloat}
    {b : UInt8}
    (hb : b ∈ x.print) :
    0x20 ≤ b.toNat := by
  rcases List.mem_append.mp hb with hsign | hnumber
  · split at hsign
    · rw [List.mem_singleton.mp hsign]
      decide
    · exact absurd hsign List.not_mem_nil
  · exact printable_printFixed hnumber

theorem WeightRecord.printable_body
    (weight : WeightRecord) :
    ∀ b ∈ weight.body, 0x20 ≤ b.toNat := by
  intro b hb
  simp only [WeightRecord.body, List.mem_append, List.mem_cons, List.not_mem_nil, or_false] at hb
  rcases hb with (rfl | rfl) | rfl | hb | rfl | hb | rfl | hb | rfl | hb | rfl | hb | rfl | hb
  all_goals first
    | decide
    | exact printable_printNat hb
    | exact printable_printPadded hb
    | exact SignedFloat.printable hb

/-- A text that fits is copied as a whole: it holds no zero. -/
theorem packInto_eq
    (hzero : 0 ∉ text)
    (hne : text ≠ [])
    (hfits : text.length + 1 ≤ packBufferSize) :
    packInto buffer text = some ⟨buffer.write 0 (text ++ [0]), some text, text.length⟩ := by
  have hsize : 0 + (text ++ [(0 : UInt8)]).length ≤ packBufferSize := by
    rw [List.length_append, List.length_singleton]
    omega
  have htext : ((buffer.write 0 (text ++ [0])).read 0 packBufferSize).take text.length = text := by
    have hholds : (buffer.write 0 (text ++ [0])).Holds 0 text :=
      (Bytes.holds_append.mp Bytes.holds_write).1
    have hsplit := (buffer.write 0 (text ++ [0])).read_add 0 text.length
      (packBufferSize - text.length)
    rw [Nat.add_sub_of_le (by omega), hholds.read_eq] at hsplit
    rw [hsplit, List.take_left]
  have hcopy : strncpyBytes text.length
      ((buffer.write 0 (text ++ [0])).read 0 packBufferSize) = text := by
    rw [strncpyBytes_of_not_mem (by rw [htext]; exact hzero) (by rw [Bytes.length_read]; omega),
      htext]
  have hlen : text.length ≠ 0 := mt List.length_eq_zero_iff.mp hne
  rw [packInto, store_eq hsize, Option.map_some]
  simp only [if_neg hlen, hcopy]

/-- A text of printable bytes, short enough for the buffer. -/
theorem packFits_of_body
    (hbody : ∀ b ∈ body, 0x20 ≤ b.toNat)
    (hlen : body.length ≤ 135) :
    PackFits buffer (packText body) (packInto buffer (packText body)) := by
  have hfits : (packText body).length + 1 ≤ packBufferSize := by
    simp only [packText, packBufferSize, List.length_cons, List.length_append, List.length_nil]
    omega
  have hzero : 0 ∉ packText body := by
    intro hmem
    simp only [packText, List.mem_cons, List.mem_append, List.not_mem_nil, or_false] at hmem
    rcases hmem with hstart | hin | hstop
    · exact absurd hstart (by decide)
    · exact absurd (hbody 0 hin) (by decide)
    · exact absurd hstop (by decide)
  refine ⟨hfits, ?_, packInto_eq hzero (List.cons_ne_nil _ _) hfits⟩
  rw [packText, ← List.cons_append, List.getLast?_concat]

/-- **Every record fits.**  Whatever the time stamps, the channel, the status and the value are,
and for any two finite floats, `sprintf` stays within the local buffer, and the size that is
returned is the number of the bytes of the text, the stop character included. -/
theorem pack_fits
    (buffer : Bytes) :
    (∀ weight : WeightRecord,
        PackFits buffer (packText weight.body) (weight.pack buffer)) ∧
      ∀ discrete : DiscreteStruct,
        PackFits buffer (packText (discreteBody discrete)) (discrete.pack buffer) := by
  refine ⟨fun weight => ?_, fun discrete => ?_⟩
  · exact packFits_of_body weight.printable_body weight.length_body_le
  · exact packFits_of_body (printable_discreteBody discrete)
      (le_trans (length_discreteBody_le discrete) (by omega))

end PackSize

end Libpack
end MatrixBin
