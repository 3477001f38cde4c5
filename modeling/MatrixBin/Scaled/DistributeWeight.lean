import MatrixBin.Library.ByteBuffer
import MatrixBin.Library.FloatFormat
import MatrixBin.Library.NumberEnd

/-!
# From a message to a weight record (`ldu_macro.h`, `ldu_raw_macro.h`)

`DISTRIBUTE_WEIGHT` copies the weight field of a message into an array of eight bytes with
`strncpy` and reads it with `atof`; for the tare the gross field goes over the same array.
`strncpy` does not terminate a field without a zero, so `atof` reads on: into what the array
held before, and behind it.  What lies there is the parameter `stack`.

`Settled` says when a field fixes its number by itself.  The record holds floats, and what is
sent are their texts with six decimals (`SentAs`).  `distribute_fields_iff` says when these are
the numbers of the fields, whatever the array held.  The status byte is in `LduStatus`, and the
time stamp is left out.
-/

namespace MatrixBin
namespace Scaled

open Library FloatFormat

/-- `sizeof sweight` -/
def sweightSize : Nat := 8

/-- `weight_pos`, `weight_len`, `gross_pos`, `gross_len` -/
structure LduFields where
  weightPos : Nat
  weightLen : Nat
  grossPos : Nat
  grossLen : Nat

/-- `struct weight_struct` -/
structure WeightRecord where
  weight : FloatValue
  tare : FloatValue
  channel : UInt8
  status : UInt32

/-- `strncpy(sweight,&(_wtmsg)[pos],len)`: the first bytes of `sweight` and what lies behind
them are given; `none` if the copy leaves the array or reads behind the message. -/
def copyField (sweight wtmsg : List UInt8) (pos len : Nat) : Option (List UInt8) :=
  if len ≤ sweightSize ∧ pos + len ≤ wtmsg.length then
    some (strncpyBytes len (wtmsg.drop pos) ++ sweight.drop len)
  else none

/-- The number that `atof(sweight)` reads. -/
def readSweight (sweight : List UInt8) : ℚ := atof (stringAt sweight)

/-- `w_s.weight=atof(sweight)`: the nearest `double`, stored in a `float`. -/
def weightFloat (q : ℚ) : FloatValue := binary32.convert (binary64.round q)

/-- `w_s.tare=atof(sweight)-w_s.weight`, a difference of `double`s. -/
def tareFloat (q : ℚ) (weight : FloatValue) : FloatValue :=
  binary32.convert (@FloatValue.sub binary64.rounding (binary64.round q) weight)

/-- `w_s.channel=s->id` -/
def channelOfId (id : ℤ) : UInt8 := UInt8.ofNat (id % 256).toNat

/-- `DISTRIBUTE_WEIGHT` up to `pack_weight`, with the status bits. -/
def weightRecord (t : LduFields) (id : ℤ) (wtmsg stack : List UInt8) (status : UInt32) :
    Option WeightRecord :=
  (copyField stack wtmsg t.weightPos t.weightLen).bind fun sweight =>
    let weight := weightFloat (readSweight sweight)
    if t.grossPos = 0 then some ⟨weight, 0, channelOfId id, status⟩
    else
      (copyField sweight wtmsg t.grossPos t.grossLen).map fun sweight =>
        ⟨weight, tareFloat (readSweight sweight) weight, channelOfId id, status⟩

/-- `DISTRIBUTE_DATA` up to `pack_weight`. -/
def dataRecord (id : ℤ) (wtmsg : List UInt8) (pos len : Nat) (stack : List UInt8) :
    Option WeightRecord :=
  (copyField stack wtmsg pos len).map fun sweight =>
    ⟨weightFloat (readSweight sweight), 0, channelOfId id, 0⟩

/-- The text of `pack_weight` for the float, with six decimals, is that of the number. -/
def SentAs : FloatValue → ℚ → Prop
  | .finite x, q => atof (printFixed 6 x) = q
  | _, _ => False

instance (v : FloatValue) (q : ℚ) : Decidable (SentAs v q) :=
  match v with
  | .finite _ => inferInstanceAs (Decidable (_ = _))
  | .infinite _ => inferInstanceAs (Decidable False)
  | .nan => inferInstanceAs (Decidable False)

/-- The float of 99999.9 is sent as another number, that of 0.1 is not. -/
example : ¬ SentAs (weightFloat (999999 / 10)) (999999 / 10) ∧
    SentAs (weightFloat (1 / 10)) (1 / 10) := by decide +kernel

/-! ### When a field fixes its number -/

/-- The bytes of a field. -/
def fieldBytes (wtmsg : List UInt8) (pos len : Nat) : List UInt8 := (wtmsg.drop pos).take len

/-- The number in a field. -/
def fieldNumber (wtmsg : List UInt8) (pos len : Nat) : ℚ :=
  atof (stringAt (fieldBytes wtmsg pos len))

/-- A zero ends the text inside the bytes, or another byte ends the number. -/
def Settled (bytes : List UInt8) : Prop := 0 ∈ bytes ∨ (numberParts bytes).rest ≠ []

instance (bytes : List UInt8) : Decidable (Settled bytes) :=
  inferInstanceAs (Decidable (_ ∨ _))

section Settled

variable {bytes : List UInt8}

theorem Settled.read_append
    (h : Settled bytes)
    (hletters : ∀ b ∈ bytes, isNumberLetter b = false)
    (more : List UInt8) :
    readSweight (bytes ++ more) = atof (stringAt bytes) := by
  by_cases hzero : 0 ∈ bytes
  · rw [readSweight, stringAt_append_of_mem hzero]
  · rw [readSweight, stringAt_append_of_not_mem hzero, stringAt_of_not_mem hzero]
    exact atof_append hletters (h.resolve_left hzero)

/-- A number that has not ended can become very large. -/
theorem Settled.of_bounded
    (hletters : ∀ b ∈ bytes, isNumberLetter b = false)
    (hlen : bytes.length ≤ sweightSize)
    (h : ∀ more : List UInt8, sweightSize ≤ more.length →
      ¬ (2 : ℚ) ^ 60 ≤ |readSweight (bytes ++ more)|) :
    Settled bytes := by
  by_contra hopen
  rw [Settled, not_or, not_ne_iff] at hopen
  refine h (oneAndPower ++ List.replicate sweightSize 0) (by simp) ?_
  have hbehind : stringAt (oneAndPower ++ List.replicate sweightSize 0) = oneAndPower := by decide
  rw [readSweight, stringAt_append_of_not_mem hopen.1, hbehind, atof_append_power hletters hopen.2,
    abs_mul]
  have hsmall := le_abs_value_append_one hopen.2
  have hpow : (1 : ℚ) / 10 ^ 9 ≤ 1 / 10 ^ (bytes.length + 1) := by
    rw [sweightSize] at hlen
    exact one_div_le_one_div_of_le (by positivity) (pow_le_pow_right₀ (by norm_num) (by omega))
  calc (2 : ℚ) ^ 60 ≤ 1 / 10 ^ 9 * |10 ^ 30| := by norm_num
    _ ≤ _ := mul_le_mul_of_nonneg_right (hpow.trans hsmall) (abs_nonneg _)

/-- Eight bytes hold eight digits at most. -/
theorem abs_atof_stringAt_le
    (hletters : ∀ b ∈ bytes, isNumberLetter b = false)
    (hlen : bytes.length ≤ sweightSize) :
    |atof (stringAt bytes)| ≤ 10 ^ 8 := by
  have hfront : (stringAt bytes) <+: bytes := List.takeWhile_prefix _
  rw [atof_eq_parts fun b hb => hletters b (hfront.subset hb)]
  obtain ⟨hsizes, -⟩ := length_numberParts_le (stringAt bytes)
  have hbytes := hfront.length_le
  rw [sweightSize] at hlen
  exact (abs_value_numberParts_lt _).le.trans (pow_le_pow_right₀ (by norm_num) (by omega))

end Settled

section Fields

variable {wtmsg : List UInt8} {pos len : Nat}

/-- A field and its copy are settled together. -/
theorem settled_copied_iff
    (hinside : pos + len ≤ wtmsg.length) :
    Settled (strncpyBytes len (wtmsg.drop pos)) ↔ Settled (fieldBytes wtmsg pos len) := by
  by_cases hzero : 0 ∈ fieldBytes wtmsg pos len
  · exact iff_of_true (Or.inl (zero_mem_strncpyBytes hzero)) (Or.inl hzero)
  · rw [strncpyBytes_of_not_mem hzero (by rw [List.length_drop]; omega)]
    rfl

theorem no_letters_copied
    (hletters : ∀ b ∈ fieldBytes wtmsg pos len, isNumberLetter b = false) :
    ∀ b ∈ strncpyBytes len (wtmsg.drop pos), isNumberLetter b = false := by
  intro b hb
  rcases mem_strncpyBytes hb with hb | rfl
  · exact hletters b hb
  · decide

end Fields

/-! ### The records -/

/-- The weight field and, when it is configured, the gross field lie inside the message and
fit the array. -/
structure LduFields.Fit (t : LduFields) (wtmsg : List UInt8) : Prop where
  weight_len : t.weightLen ≤ sweightSize
  weight_inside : t.weightPos + t.weightLen ≤ wtmsg.length
  gross_len : t.grossPos ≠ 0 → t.grossLen ≤ sweightSize
  gross_inside : t.grossPos ≠ 0 → t.grossPos + t.grossLen ≤ wtmsg.length

/-- The fields have no letter of an exponent, of `0x`, `inf` or `nan`. -/
structure LduFields.Plain (t : LduFields) (wtmsg : List UInt8) : Prop where
  weight : ∀ b ∈ fieldBytes wtmsg t.weightPos t.weightLen, isNumberLetter b = false
  gross : t.grossPos ≠ 0 →
    ∀ b ∈ fieldBytes wtmsg t.grossPos t.grossLen, isNumberLetter b = false

/-- `DISTRIBUTE_WEIGHT` sends the numbers of the two fields and the id, whatever the array and
the memory behind it held. -/
def SendsFields (t : LduFields) (id : ℤ) (wtmsg : List UInt8) : Prop :=
  ∀ stack status, sweightSize ≤ stack.length →
    ∃ r, weightRecord t id wtmsg stack status = some r ∧
      SentAs r.weight (fieldNumber wtmsg t.weightPos t.weightLen) ∧
      SentAs r.tare (if t.grossPos = 0 then 0
        else fieldNumber wtmsg t.grossPos t.grossLen -
          fieldNumber wtmsg t.weightPos t.weightLen) ∧
      (r.channel.toNat : ℤ) = id

/-- The same of `DISTRIBUTE_DATA`. -/
def SendsData (id : ℤ) (wtmsg : List UInt8) (pos len : Nat) : Prop :=
  ∀ stack, sweightSize ≤ stack.length →
    ∃ r, dataRecord id wtmsg pos len stack = some r ∧
      SentAs r.weight (fieldNumber wtmsg pos len) ∧ SentAs r.tare 0 ∧ (r.channel.toNat : ℤ) = id

/-- What `sweight` begins with when the gross field was copied over the weight field. -/
def grossOverWeight (t : LduFields) (wtmsg : List UInt8) : List UInt8 :=
  strncpyBytes t.grossLen (wtmsg.drop t.grossPos) ++
    (strncpyBytes t.weightLen (wtmsg.drop t.weightPos)).drop t.grossLen

/-- The number of the weight field ends inside the field, that of the gross field inside it or
inside what is left of the weight field behind it. -/
structure LduFields.Settled (t : LduFields) (wtmsg : List UInt8) : Prop where
  weight : Scaled.Settled (fieldBytes wtmsg t.weightPos t.weightLen)
  gross : t.grossPos ≠ 0 → Scaled.Settled (grossOverWeight t wtmsg)

/-- The floats have six right decimals: that of the weight, and that of the difference between
the number in the place of the gross field and the weight. -/
structure LduFields.Rounds (t : LduFields) (wtmsg : List UInt8) : Prop where
  weight : SentAs (weightFloat (fieldNumber wtmsg t.weightPos t.weightLen))
    (fieldNumber wtmsg t.weightPos t.weightLen)
  tare : t.grossPos ≠ 0 →
    SentAs
      (tareFloat (readSweight (grossOverWeight t wtmsg))
        (weightFloat (fieldNumber wtmsg t.weightPos t.weightLen)))
      (fieldNumber wtmsg t.grossPos t.grossLen - fieldNumber wtmsg t.weightPos t.weightLen)

theorem channelOfId_iff
    (id : ℤ) :
    ((channelOfId id).toNat : ℤ) = id ↔ 0 ≤ id ∧ id < 256 := by
  have hmod : (id % 256).toNat < 256 := by omega
  rw [channelOfId, UInt8.toNat_ofNat_of_lt' (by change _ < 256; omega)]
  omega

section Records

variable {t : LduFields} {wtmsg : List UInt8} {pos len : Nat}

theorem copyField_eq
    (hlen : len ≤ sweightSize)
    (hinside : pos + len ≤ wtmsg.length)
    (sweight : List UInt8) :
    copyField sweight wtmsg pos len =
      some (strncpyBytes len (wtmsg.drop pos) ++ sweight.drop len) :=
  if_pos ⟨hlen, hinside⟩

/-- The array after the second copy. -/
theorem copyField_gross
    (h : t.Fit wtmsg)
    (hgross : t.grossPos ≠ 0)
    (stack : List UInt8) :
    copyField (strncpyBytes t.weightLen (wtmsg.drop t.weightPos) ++ stack.drop t.weightLen)
        wtmsg t.grossPos t.grossLen =
      some (grossOverWeight t wtmsg ++
        stack.drop (t.weightLen + (t.grossLen - t.weightLen))) := by
  rw [copyField_eq (h.gross_len hgross) (h.gross_inside hgross), List.drop_append,
    length_strncpyBytes, List.drop_drop, ← List.append_assoc]
  rfl

/-- The record, when both fields fit. -/
theorem weightRecord_eq
    (h : t.Fit wtmsg)
    (id : ℤ)
    (stack : List UInt8)
    (status : UInt32) :
    weightRecord t id wtmsg stack status =
      some (
        let weight := weightFloat (readSweight
          (strncpyBytes t.weightLen (wtmsg.drop t.weightPos) ++ stack.drop t.weightLen))
        ⟨weight,
          if t.grossPos = 0 then 0
          else tareFloat (readSweight (grossOverWeight t wtmsg ++
            stack.drop (t.weightLen + (t.grossLen - t.weightLen)))) weight,
          channelOfId id, status⟩) := by
  rw [weightRecord, copyField_eq h.weight_len h.weight_inside, Option.bind_some]
  by_cases hgross : t.grossPos = 0
  · simp only [if_pos hgross]
  · simp only [if_neg hgross, copyField_gross h hgross, Option.map_some]

/-- Memory with any bytes from the given place on. -/
theorem drop_padded
    {k n : Nat}
    (hle : k ≤ n)
    (more : List UInt8) :
    (List.replicate n (0 : UInt8) ++ more).drop k = List.replicate (n - k) 0 ++ more := by
  rw [List.drop_append, List.drop_replicate, List.length_replicate]
  have hzero : k - n = 0 := by omega
  rw [hzero, List.drop_zero]

/-- A number that is sent is no larger than its text, but for the rounding. -/
theorem SentAs.finite
    {v : FloatValue}
    {q : ℚ}
    (h : SentAs v q) :
    ∃ x, v = .finite x ∧ |x| ≤ |q| + 1 := by
  cases v with
  | nan => exact h.elim
  | infinite _ => exact h.elim
  | finite x =>
      refine ⟨x, rfl, ?_⟩
      have htext : atof (printFixed 6 x) = q := h
      rw [atof_printFixed (by omega)] at htext
      have hround := abs_fixedValue_sub_le 6 x
      rw [htext, abs_sub_comm] at hround
      have hle := abs_sub_abs_le_abs_sub x q
      have hunit : (1 : ℚ) / 2 / 10 ^ 6 ≤ 1 := by norm_num
      linarith

theorem SentAs.not_beyond
    {v : FloatValue}
    {q : ℚ}
    {k : ℕ}
    (h : SentAs v q)
    (hq : |q| + 1 < 2 ^ k) :
    ¬ Beyond k v := by
  obtain ⟨x, rfl, hx⟩ := h.finite
  rintro ⟨⟩
  linarith

/-- A number with six decimals that the float holds. -/
theorem sentAs_self
    {q : ℚ}
    (h : HasDecimals 6 q) :
    SentAs (.finite q) q :=
  (atof_printFixed (by omega) q).trans h.fixedValue_eq

theorem sentAs_zero : SentAs 0 0 := by
  rw [FloatValue.zero_eq]
  exact sentAs_self ⟨0, by simp⟩

/-- A field that is sent right settles its number. -/
theorem settled_of_sent
    (hlen : len ≤ sweightSize)
    (hinside : pos + len ≤ wtmsg.length)
    (hletters : ∀ b ∈ fieldBytes wtmsg pos len, isNumberLetter b = false)
    (hsent : ∀ more : List UInt8, sweightSize ≤ more.length →
      SentAs (weightFloat (readSweight (strncpyBytes len (wtmsg.drop pos) ++ more)))
        (fieldNumber wtmsg pos len)) :
    Settled (fieldBytes wtmsg pos len) := by
  rw [← settled_copied_iff hinside]
  refine Settled.of_bounded (no_letters_copied hletters) ?_ fun more hmore hlarge => ?_
  · rwa [length_strncpyBytes]
  · have hnumber : |fieldNumber wtmsg pos len| ≤ 10 ^ 8 :=
      abs_atof_stringAt_le hletters ((List.length_take_le _ _).trans hlen)
    have hbeyond : Beyond 60
        (weightFloat (readSweight (strncpyBytes len (wtmsg.drop pos) ++ more))) :=
      (beyond_round hlarge).convert
    refine (hsent more hmore).not_beyond (k := 60) ?_ hbeyond
    have hpow : (10 : ℚ) ^ 8 + 1 < 2 ^ 60 := by norm_num
    linarith

/-- What is read from a settled field. -/
theorem read_settled
    (hinside : pos + len ≤ wtmsg.length)
    (hletters : ∀ b ∈ fieldBytes wtmsg pos len, isNumberLetter b = false)
    (h : Settled (fieldBytes wtmsg pos len))
    (more : List UInt8) :
    readSweight (strncpyBytes len (wtmsg.drop pos) ++ more) = fieldNumber wtmsg pos len := by
  have hcopied := (settled_copied_iff hinside).mpr h
  rw [hcopied.read_append (no_letters_copied hletters), stringAt_strncpyBytes]
  rfl

theorem SendsFields.settled
    (h : t.Fit wtmsg)
    (hplain : t.Plain wtmsg)
    {id : ℤ}
    (hsends : SendsFields t id wtmsg) :
    Settled (fieldBytes wtmsg t.weightPos t.weightLen) := by
  refine settled_of_sent h.weight_len h.weight_inside hplain.weight fun more hmore => ?_
  obtain ⟨r, hr, hweight, -⟩ := hsends (List.replicate t.weightLen 0 ++ more) 0 (by
    rw [List.length_append]
    omega)
  rw [weightRecord_eq h, Option.some.injEq] at hr
  subst hr
  simpa [drop_padded] using hweight

theorem no_letters_grossOverWeight
    (hplain : t.Plain wtmsg)
    (hgross : t.grossPos ≠ 0) :
    ∀ b ∈ grossOverWeight t wtmsg, isNumberLetter b = false := by
  intro b hb
  rcases List.mem_append.mp hb with hb | hb
  · exact no_letters_copied (hplain.gross hgross) b hb
  · exact no_letters_copied hplain.weight b (List.mem_of_mem_drop hb)

theorem length_grossOverWeight
    (h : t.Fit wtmsg)
    (hgross : t.grossPos ≠ 0) :
    (grossOverWeight t wtmsg).length ≤ sweightSize := by
  have hweight := h.weight_len
  have hlen := h.gross_len hgross
  simp only [grossOverWeight, List.length_append, List.length_drop, length_strncpyBytes]
  omega

theorem SendsFields.settled_gross
    (h : t.Fit wtmsg)
    (hplain : t.Plain wtmsg)
    {id : ℤ}
    (hsends : SendsFields t id wtmsg)
    (hgross : t.grossPos ≠ 0) :
    Settled (grossOverWeight t wtmsg) := by
  refine Settled.of_bounded (no_letters_grossOverWeight hplain hgross)
    (length_grossOverWeight h hgross) fun more hmore hlarge => ?_
  obtain ⟨r, hr, hweight, htare, -⟩ := hsends
    (List.replicate (t.weightLen + (t.grossLen - t.weightLen)) 0 ++ more) 0 (by
      rw [List.length_append]
      omega)
  rw [weightRecord_eq h, Option.some.injEq] at hr
  subst hr
  simp only at hweight htare
  rw [if_neg hgross, if_neg hgross, drop_padded (le_refl _), Nat.sub_self, List.replicate_zero,
    List.nil_append] at htare
  obtain ⟨x, hx, hsmall⟩ := hweight.finite
  rw [hx] at htare
  have hnumber : |fieldNumber wtmsg t.weightPos t.weightLen| ≤ 10 ^ 8 :=
    abs_atof_stringAt_le hplain.weight ((List.length_take_le _ _).trans h.weight_len)
  have hnumber' : |fieldNumber wtmsg t.grossPos t.grossLen| ≤ 10 ^ 8 :=
    abs_atof_stringAt_le (hplain.gross hgross)
      ((List.length_take_le _ _).trans (h.gross_len hgross))
  have hpow : (10 : ℚ) ^ 8 + 10 ^ 8 + 1 < 2 ^ 59 := by norm_num
  refine htare.not_beyond (k := 59) ?_ ((beyond_round hlarge).sub (by linarith)).convert
  have hdifference := abs_sub (fieldNumber wtmsg t.grossPos t.grossLen)
    (fieldNumber wtmsg t.weightPos t.weightLen)
  linarith

/-- The record of a message whose fields settle their numbers. -/
theorem LduFields.Settled.record
    (hsettled : t.Settled wtmsg)
    (h : t.Fit wtmsg)
    (hplain : t.Plain wtmsg)
    (id : ℤ)
    (stack : List UInt8)
    (status : UInt32) :
    weightRecord t id wtmsg stack status =
      some (
        let weight := weightFloat (fieldNumber wtmsg t.weightPos t.weightLen)
        ⟨weight,
          if t.grossPos = 0 then 0 else tareFloat (readSweight (grossOverWeight t wtmsg)) weight,
          channelOfId id, status⟩) := by
  rw [weightRecord_eq h]
  simp only [read_settled h.weight_inside hplain.weight hsettled.weight]
  by_cases hgross : t.grossPos = 0
  · simp only [if_pos hgross]
  · simp only [if_neg hgross,
      (hsettled.gross hgross).read_append (no_letters_grossOverWeight hplain hgross)]
    rfl

/-- `DISTRIBUTE_WEIGHT`, exactly. -/
theorem sendsFields_iff
    (h : t.Fit wtmsg)
    (hplain : t.Plain wtmsg)
    (id : ℤ) :
    SendsFields t id wtmsg ↔ t.Settled wtmsg ∧ t.Rounds wtmsg ∧ 0 ≤ id ∧ id < 256 := by
  constructor
  · intro hsends
    have hsettled : t.Settled wtmsg :=
      ⟨hsends.settled h hplain, hsends.settled_gross h hplain⟩
    obtain ⟨r, hr, hweight, htare, hid⟩ := hsends (List.replicate sweightSize 0) 0 (by simp)
    rw [hsettled.record h hplain, Option.some.injEq] at hr
    subst hr
    refine ⟨hsettled, ⟨hweight, fun hgross => ?_⟩, (channelOfId_iff id).mp hid⟩
    simpa only [if_neg hgross] using htare
  · rintro ⟨hsettled, hrounds, hid⟩ stack status -
    refine ⟨_, hsettled.record h hplain id stack status, hrounds.weight, ?_,
      (channelOfId_iff id).mpr hid⟩
    by_cases hgross : t.grossPos = 0
    · simp only [if_pos hgross]
      exact sentAs_zero
    · simp only [if_neg hgross]
      exact hrounds.tare hgross

/-- `DISTRIBUTE_DATA`, exactly. -/
theorem sendsData_iff
    (hlen : len ≤ sweightSize)
    (hinside : pos + len ≤ wtmsg.length)
    (hletters : ∀ b ∈ fieldBytes wtmsg pos len, isNumberLetter b = false)
    (id : ℤ) :
    SendsData id wtmsg pos len ↔
      Settled (fieldBytes wtmsg pos len) ∧
        SentAs (weightFloat (fieldNumber wtmsg pos len)) (fieldNumber wtmsg pos len) ∧
        0 ≤ id ∧ id < 256 := by
  have hcopy := copyField_eq hlen hinside
  constructor
  · intro hsends
    have hsettled : Settled (fieldBytes wtmsg pos len) := by
      refine settled_of_sent hlen hinside hletters fun more hmore => ?_
      obtain ⟨r, hr, hweight, -⟩ := hsends (List.replicate len 0 ++ more) (by
        rw [List.length_append]
        omega)
      rw [dataRecord, hcopy, Option.map_some, Option.some.injEq] at hr
      subst hr
      simpa [drop_padded] using hweight
    obtain ⟨r, hr, hweight, -, hid⟩ := hsends (List.replicate sweightSize 0) (by simp)
    rw [dataRecord, hcopy, Option.map_some, Option.some.injEq,
      read_settled hinside hletters hsettled] at hr
    subst hr
    exact ⟨hsettled, hweight, (channelOfId_iff id).mp hid⟩
  · rintro ⟨hsettled, hsent, hid⟩ stack -
    refine ⟨_, by rw [dataRecord, hcopy, Option.map_some], ?_, sentAs_zero,
      (channelOfId_iff id).mpr hid⟩
    rwa [read_settled hinside hletters hsettled]

end Records

/-- **The numbers of a message.**  Whatever the array of eight bytes and the memory behind it
held, `DISTRIBUTE_WEIGHT`, and `DISTRIBUTE_DATA`, sends the numbers of the fields and the id
exactly when the fields settle their numbers, the floats have six right decimals and the id fits
a byte. -/
theorem distribute_fields_iff
    {t : LduFields}
    {id : ℤ}
    {wtmsg : List UInt8}
    {pos len : Nat}
    (hfit : t.Fit wtmsg)
    (hplain : t.Plain wtmsg)
    (hlen : len ≤ sweightSize)
    (hinside : pos + len ≤ wtmsg.length)
    (hletters : ∀ b ∈ fieldBytes wtmsg pos len, isNumberLetter b = false) :
    (SendsFields t id wtmsg ↔ t.Settled wtmsg ∧ t.Rounds wtmsg ∧ 0 ≤ id ∧ id < 256) ∧
      (SendsData id wtmsg pos len ↔
        Settled (fieldBytes wtmsg pos len) ∧
          SentAs (weightFloat (fieldNumber wtmsg pos len)) (fieldNumber wtmsg pos len) ∧
          0 ≤ id ∧ id < 256) :=
  ⟨sendsFields_iff hfit hplain id, sendsData_iff hlen hinside hletters id⟩

/-- The message `W+000100+0011005109`. -/
def weightMessage : List UInt8 :=
  [0x57, 0x2b, 0x30, 0x30, 0x30, 0x31, 0x30, 0x30, 0x2b, 0x30, 0x30, 0x31, 0x31, 0x30, 0x30,
    0x35, 0x31, 0x30, 0x39]

/-- Its weight field, with or without the sign behind it, is regular. -/
theorem weightMessage_regular :
    ∀ len, len = 7 ∨ len = 8 →
      LduFields.Fit ⟨1, len, 0, 0⟩ weightMessage ∧
        LduFields.Plain ⟨1, len, 0, 0⟩ weightMessage := by
  have hnone {P : Prop} (h : (0 : Nat) ≠ 0) : P := absurd rfl h
  rintro len (rfl | rfl)
  · exact ⟨⟨by decide, by decide, hnone, hnone⟩, ⟨by decide +kernel, hnone⟩⟩
  · exact ⟨⟨by decide, by decide, hnone, hnone⟩, ⟨by decide +kernel, hnone⟩⟩

/-- A weight field with the sign of the next number in it, and the field of the raw mode. -/
theorem distribute_fields_message :
    (SendsFields ⟨1, 8, 0, 0⟩ 3 weightMessage ↔
        LduFields.Settled ⟨1, 8, 0, 0⟩ weightMessage ∧
          LduFields.Rounds ⟨1, 8, 0, 0⟩ weightMessage ∧ (0 : ℤ) ≤ 3 ∧ (3 : ℤ) < 256) ∧
      (SendsData 3 weightMessage 1 7 ↔
        Settled (fieldBytes weightMessage 1 7) ∧
          SentAs (weightFloat (fieldNumber weightMessage 1 7)) (fieldNumber weightMessage 1 7) ∧
          (0 : ℤ) ≤ 3 ∧ (3 : ℤ) < 256) := by
  obtain ⟨hfit, hplain⟩ := weightMessage_regular 8 (Or.inr rfl)
  obtain ⟨hfit_raw, hplain_raw⟩ := weightMessage_regular 7 (Or.inl rfl)
  exact distribute_fields_iff hfit hplain hfit_raw.weight_len hfit_raw.weight_inside
    hplain_raw.weight

/-- The seven characters `+000100` end the field but not the number: a digit behind them, left
in the array, is read as a part of it. -/
theorem leftover_changes_weight :
    ¬ SendsFields ⟨1, 7, 0, 0⟩ 3 weightMessage ∧ ¬ SendsData 3 weightMessage 1 7 := by
  obtain ⟨hfit, hplain⟩ := weightMessage_regular 7 (Or.inl rfl)
  have hopen : ¬ Settled (fieldBytes weightMessage 1 7) := by decide +kernel
  constructor
  · intro hsends
    exact hopen (hsends.settled hfit hplain)
  · intro hsends
    have hsettled := (sendsData_iff hfit.weight_len hfit.weight_inside hplain.weight 3).mp hsends
    exact hopen hsettled.1

end Scaled
end MatrixBin
