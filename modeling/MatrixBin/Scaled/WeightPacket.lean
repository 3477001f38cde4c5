import MatrixBin.Libpack.PackUnpack
import MatrixBin.Scaled.LduLoop
import MatrixBin.Scaled.LduStatus

/-!
# From a line to a packet (`ldu_loop.c`, `ldu_raw.c`)

`ldu_loop` makes a packet of a line with `DISTRIBUTE_WEIGHT`, `ldu_raw` with
`DISTRIBUTE_DATA(wtmsg,1,7)`: the record is filled, and `pack_weight` prints it.  In a regular
line the fields settle their numbers, and the floats of the record hold them.  Such a line always
gives a packet, and the packet unpacks to the numbers of the line (`Regular.packet`): the eight
bytes of `sweight` hold no number that the six decimals of the packet would cut.
-/

namespace MatrixBin
namespace Scaled

open Library FloatFormat Libpack

/-- What the macros read besides the message: the positions and the Status section of the
configuration, and the thread and the id of each scale. -/
structure LineSettings where
  fields : LduFields
  status : StatusSection
  thread : Nat → LduThread
  id : Nat → ℤ

/-- The record of the macro that the thread of the scale uses. -/
def LineSettings.record (k : LineSettings) (j : Nat) (wtmsg stack : List UInt8) :
    Option WeightRecord :=
  match k.thread j with
  | .lduLoop => distributeWeight k.fields k.status (k.id j) wtmsg stack
  | .lduRaw => dataRecord (k.id j) wtmsg 1 7 stack

/-- A finite float; the others have no decimal text. -/
def finiteFloat : FloatValue → Option CFloat
  | .finite x => toFloat x
  | _ => none

/-- The record as `struct weight_struct`, with the time of `gettimeofday`. -/
def WeightRecord.toStruct (r : WeightRecord) (ts : Timeval) : Option WeightStruct :=
  (finiteFloat r.weight).bind fun weight =>
    (finiteFloat r.tare).map fun tare => ⟨ts, r.channel, weight, tare, r.status⟩

/-- The packet of a message; `stack` is what `sweight` and the memory behind it held. -/
def LineSettings.packet (k : LineSettings) (j : Nat) (ts : Timeval) (wtmsg stack : List UInt8) :
    Option (List UInt8) :=
  ((k.record j wtmsg stack).bind fun r => r.toStruct ts).bind packWeight

/-- The record says what the message says. -/
inductive LineSettings.Shows (k : LineSettings) (j : Nat) (wtmsg : List UInt8)
    (w : WeightStruct) : Prop
  | loop
      {b : UInt8}
      (hthread : k.thread j = .lduLoop)
      (hchannel : (w.channel.toNat : ℤ) = k.id j)
      (hweight : (w.weight : ℚ) = fieldNumber wtmsg k.fields.weightPos k.fields.weightLen)
      (htare : (w.tare : ℚ) = if k.fields.grossPos = 0 then 0
        else fieldNumber wtmsg k.fields.grossPos k.fields.grossLen -
          fieldNumber wtmsg k.fields.weightPos k.fields.weightLen)
      (hb : wtmsg[k.status.position]? = some b)
      (hstatus : statusBits k.status.load k.status.length b = some w.status)
  | raw
      (hthread : k.thread j = .lduRaw)
      (hchannel : (w.channel.toNat : ℤ) = k.id j)
      (hweight : (w.weight : ℚ) = fieldNumber wtmsg 1 7)
      (htare : (w.tare : ℚ) = 0)
      (hstatus : w.status = 0)

/-- The floats hold the numbers of the fields, and what is left of the weight field does not
change that of the gross field. -/
structure LduFields.Exact (t : LduFields) (wtmsg : List UInt8) : Prop where
  weight : weightFloat (fieldNumber wtmsg t.weightPos t.weightLen) =
    .finite (fieldNumber wtmsg t.weightPos t.weightLen)
  gross : t.grossPos ≠ 0 →
    readSweight (grossOverWeight t wtmsg) = fieldNumber wtmsg t.grossPos t.grossLen
  tare : t.grossPos ≠ 0 →
    tareFloat (fieldNumber wtmsg t.grossPos t.grossLen)
        (.finite (fieldNumber wtmsg t.weightPos t.weightLen)) =
      .finite (fieldNumber wtmsg t.grossPos t.grossLen -
        fieldNumber wtmsg t.weightPos t.weightLen)

/-- The fields of the message lie inside it and settle their numbers, and the floats hold them. -/
inductive LineSettings.Regular (k : LineSettings) (j : Nat) (wtmsg : List UInt8) : Prop
  | loop
      (hthread : k.thread j = .lduLoop)
      (hfit : k.fields.Fit wtmsg)
      (hplain : k.fields.Plain wtmsg)
      (hsettled : k.fields.Settled wtmsg)
      (hexact : k.fields.Exact wtmsg)
      (hid : 0 ≤ k.id j ∧ k.id j < 256)
      (hposition : k.status.position < wtmsg.length)
      (hlength : k.status.length ≤ 4)
  | raw
      (hthread : k.thread j = .lduRaw)
      (hinside : 8 ≤ wtmsg.length)
      (hletters : ∀ b ∈ fieldBytes wtmsg 1 7, isNumberLetter b = false)
      (hsettled : Settled (fieldBytes wtmsg 1 7))
      (hexact : weightFloat (fieldNumber wtmsg 1 7) = .finite (fieldNumber wtmsg 1 7))
      (hid : 0 ≤ k.id j ∧ k.id j < 256)

/-! ### The numbers of eight bytes -/

section Numbers

/-- A number that the float and the six decimals of the packet hold. -/
structure Packable (q : ℚ) : Prop where
  decimals : HasDecimals 6 q
  size : |q| ≤ 10 ^ 8

/-- A settled number of eight bytes leaves one byte for what ends it, and one for the point. -/
theorem Settled.packable
    {bytes : List UInt8}
    (h : Settled bytes)
    (hletters : ∀ b ∈ bytes, isNumberLetter b = false)
    (hlen : bytes.length ≤ sweightSize) :
    Packable (atof (stringAt bytes)) := by
  rw [sweightSize] at hlen
  have hstring : ∀ b ∈ stringAt bytes, isNumberLetter b = false := fun b hb =>
    hletters b ((List.takeWhile_prefix _).subset hb)
  rw [atof_eq_parts hstring]
  obtain ⟨hsizes, hpoint⟩ := length_numberParts_le (stringAt bytes)
  have hspare : (stringAt bytes).length ≤ 7 + (numberParts (stringAt bytes)).rest.length := by
    by_cases hzero : 0 ∈ bytes
    · obtain ⟨rest, hsplit⟩ := exists_behind_stringAt hzero
      have := congrArg List.length hsplit
      rw [List.length_append, List.length_cons] at this
      omega
    · have hrest := h.resolve_left hzero
      rw [stringAt_of_not_mem hzero]
      have := List.length_pos_of_ne_nil hrest
      omega
  constructor
  · refine NumberParts.value_decimals ?_
    by_cases hfrac : (numberParts (stringAt bytes)).frac = []
    · rw [hfrac]
      exact Nat.zero_le 6
    · have := hpoint hfrac
      omega
  · refine (abs_value_numberParts_lt (stringAt bytes)).le.trans ?_
    exact pow_le_pow_right₀ (by norm_num) (by omega)

theorem Packable.zero : Packable 0 :=
  ⟨⟨0, by simp⟩, by simp⟩

theorem exists_toFloat
    {q : ℚ}
    (h : |q| ≤ 2 * 10 ^ 8) :
    ∃ x : CFloat, toFloat q = some x ∧ (x : ℚ) = q := by
  have hmax : |q| ≤ fltMax := h.trans (by norm_num [fltMax])
  exact ⟨⟨q, hmax⟩, dif_pos hmax, rfl⟩

end Numbers

/-! ### The status bits -/

theorem copyStatus_slots
    {len : Nat}
    {status : List (List UInt8)}
    (h : status.length = 4 ∧ ∀ slot ∈ status, slot.length = len + 1)
    (slot : Estatus)
    (text : Option (List UInt8)) :
    (copyStatus len slot text status).length = 4 ∧
      ∀ slot' ∈ copyStatus len slot text status, slot'.length = len + 1 := by
  cases text with
  | none => exact h
  | some text =>
      refine ⟨by simp [copyStatus, h.1], ?_⟩
      intro slot' hmem
      obtain ⟨i, hi, rfl⟩ := List.getElem_of_mem hmem
      rw [copyStatus, List.length_modify] at hi
      have hold := h.2 status[i] (List.getElem_mem hi)
      simp only [copyStatus, List.getElem_modify]
      split_ifs
      · rw [List.length_append, length_strncpyBytes, List.length_drop, hold]
        omega
      · exact hold

/-- With no more texts than slots, every slot that is compared exists. -/
theorem statusBits_isSome
    {sec : StatusSection}
    (hlen : sec.length ≤ 4)
    (b : UInt8) :
    ∃ status, statusBits sec.load sec.length b = some status := by
  obtain ⟨hfour, hslots⟩ : sec.load.length = 4 ∧ ∀ slot ∈ sec.load, slot.length = sec.length + 1 :=
    copyStatus_slots (copyStatus_slots (copyStatus_slots (copyStatus_slots
      ⟨List.length_replicate, fun slot hslot => by rw [List.eq_of_mem_replicate hslot]; simp⟩
      _ _) _ _) _ _) _ _
  suffices hmatch : ∀ k ≤ 4, ∃ istatus, matchStatus sec.load b k = some istatus by
    obtain ⟨istatus, hmatch⟩ := hmatch sec.length hlen
    exact ⟨_, by rw [statusBits, hmatch]; rfl⟩
  intro k
  induction k with
  | zero => exact fun _ => ⟨_, rfl⟩
  | succ k ih =>
      intro hk
      obtain ⟨istatus, hmatch⟩ := ih (by omega)
      have hmem := List.getElem_mem (l := sec.load) (n := k) (by omega)
      obtain ⟨first, rest, hslot⟩ := List.exists_cons_of_length_pos
        (show 0 < (sec.load[k]).length by rw [hslots _ hmem]; omega)
      rw [matchStatus, hmatch, Option.bind_some, List.getElem?_eq_getElem (by omega), hslot]
      exact ⟨_, rfl⟩

/-! ### The packet -/

section Packets

variable {k : LineSettings} {j : Nat} {wtmsg : List UInt8} {ts : Timeval}

/-- A record with numbers that the packet holds. -/
theorem toStruct_packable
    {weight tare : ℚ}
    (channel : UInt8)
    (status : UInt32)
    (hweight : HasDecimals 6 weight ∧ |weight| ≤ 2 * 10 ^ 8)
    (htare : HasDecimals 6 tare ∧ |tare| ≤ 2 * 10 ^ 8)
    (hts : ts.InRange) :
    ∃ w, WeightRecord.toStruct ⟨.finite weight, .finite tare, channel, status⟩ ts = some w ∧
      w.InRange ∧ w.channel = channel ∧ (w.weight : ℚ) = weight ∧ (w.tare : ℚ) = tare ∧
      w.status = status := by
  obtain ⟨weight', hfloat, hweightEq⟩ := exists_toFloat hweight.2
  obtain ⟨tare', hfloat', htareEq⟩ := exists_toFloat htare.2
  refine ⟨⟨ts, channel, weight', tare', status⟩, ?_, ⟨hts, ?_, ?_⟩, rfl, hweightEq, htareEq, rfl⟩
  · simp only [WeightRecord.toStruct, finiteFloat, hfloat, hfloat', Option.bind_some,
      Option.map_some]
  · rw [hweightEq]
    exact hweight.1
  · rw [htareEq]
    exact htare.1

theorem packWeight_frame
    {w : WeightStruct}
    (h : w.InRange) :
    ∃ text, packWeight w = some text ∧ IsFrame startCharacter stopCharacter text ∧
      text.length ≤ recbufSize ∧ unpackWeight text = some w := by
  have hpacket : (UniPacket.wgtPack w).InRange := h
  exact hpacket.pack

theorem Packable.wide
    {q : ℚ}
    (h : Packable q) :
    HasDecimals 6 q ∧ |q| ≤ 2 * 10 ^ 8 :=
  ⟨h.decimals, h.size.trans (by norm_num)⟩

/-- The numbers of the two fields. -/
theorem packable_fields
    {t : LduFields}
    (hfit : t.Fit wtmsg)
    (hplain : t.Plain wtmsg)
    (hsettled : t.Settled wtmsg)
    (hexact : t.Exact wtmsg) :
    Packable (fieldNumber wtmsg t.weightPos t.weightLen) ∧
      (t.grossPos ≠ 0 → Packable (fieldNumber wtmsg t.grossPos t.grossLen)) := by
  refine ⟨hsettled.weight.packable hplain.weight ?_, fun hpos => ?_⟩
  · exact (List.length_take_le _ _).trans hfit.weight_len
  · have := (hsettled.gross hpos).packable (no_letters_grossOverWeight hplain hpos)
      (length_grossOverWeight hfit hpos)
    rwa [← hexact.gross hpos]

/-- The tare between them. -/
theorem tare_wide
    {t : LduFields}
    (hfit : t.Fit wtmsg)
    (hplain : t.Plain wtmsg)
    (hsettled : t.Settled wtmsg)
    (hexact : t.Exact wtmsg) :
    ∃ tare : ℚ, (if t.grossPos = 0 then 0
        else tareFloat (readSweight (grossOverWeight t wtmsg))
          (.finite (fieldNumber wtmsg t.weightPos t.weightLen))) = .finite tare ∧
      (tare = if t.grossPos = 0 then 0
        else fieldNumber wtmsg t.grossPos t.grossLen -
          fieldNumber wtmsg t.weightPos t.weightLen) ∧
      HasDecimals 6 tare ∧ |tare| ≤ 2 * 10 ^ 8 := by
  by_cases hpos : t.grossPos = 0
  · refine ⟨0, ?_, ?_, Packable.zero.wide⟩
    · rw [if_pos hpos, FloatValue.zero_eq]
    · rw [if_pos hpos]
  · obtain ⟨hpacked, hpackedGross⟩ := packable_fields hfit hplain hsettled hexact
    refine ⟨_, ?_, rfl, ?_, ?_⟩
    · rw [if_neg hpos, if_neg hpos, hexact.gross hpos, hexact.tare hpos]
    · rw [if_neg hpos]
      exact (hpackedGross hpos).decimals.sub hpacked.decimals
    · rw [if_neg hpos]
      refine (abs_sub _ _).trans ?_
      linarith [(hpackedGross hpos).size, hpacked.size]

/-- **The packet of a regular line** exists, and it is that of a record that says what the line
says. -/
theorem LineSettings.Regular.packet
    (h : k.Regular j wtmsg)
    (stack : List UInt8)
    (hts : ts.InRange) :
    ∃ w text, k.packet j ts wtmsg stack = some text ∧ packWeight w = some text ∧ w.InRange ∧
      k.Shows j wtmsg w := by
  suffices hrecord : ∃ r w, k.record j wtmsg stack = some r ∧ r.toStruct ts = some w ∧
      w.InRange ∧ k.Shows j wtmsg w by
    obtain ⟨r, w, hr, hw, hrange, hshows⟩ := hrecord
    obtain ⟨text, hpack, -⟩ := packWeight_frame hrange
    exact ⟨w, text, by rw [LineSettings.packet, hr, Option.bind_some, hw]; exact hpack, hpack,
      hrange, hshows⟩
  cases h with
  | loop hthread hfit hplain hsettled hexact hid hposition hlength =>
      obtain ⟨status, hstatus⟩ := statusBits_isSome hlength wtmsg[k.status.position]
      have hb : wtmsg[k.status.position]? = some wtmsg[k.status.position] :=
        List.getElem?_eq_getElem hposition
      obtain ⟨tare, htareFloat, htare, hwide⟩ := tare_wide hfit hplain hsettled hexact
      have hr := hsettled.record hfit hplain (k.id j) stack status
      simp only [hexact.weight, htareFloat] at hr
      obtain ⟨w, hw, hrange, hchannelEq, hweightEq, htareEq, hstatusEq⟩ :=
        toStruct_packable (channelOfId (k.id j)) status
          (packable_fields hfit hplain hsettled hexact).1.wide hwide hts
      refine ⟨_, w, ?_, hw, hrange, .loop hthread ?_ hweightEq ?_ hb ?_⟩
      · simp only [LineSettings.record, hthread, distributeWeight, hb, hstatus, Option.bind_some, hr]
      · rw [hchannelEq]
        exact (channelOfId_iff _).mpr hid
      · rw [htareEq, htare]
      · rw [hstatusEq, hstatus]
  | raw hthread hinside hletters hsettled hexact hid =>
      have hpacked : Packable (fieldNumber wtmsg 1 7) :=
        hsettled.packable hletters ((List.length_take_le _ _).trans (by decide))
      obtain ⟨w, hw, hrange, hchannelEq, hweightEq, htareEq, hstatusEq⟩ :=
        toStruct_packable (channelOfId (k.id j)) 0 hpacked.wide Packable.zero.wide hts
      refine ⟨_, w, ?_, hw, hrange, .raw hthread ?_ hweightEq htareEq hstatusEq⟩
      · have hread := read_settled hinside hletters hsettled (stack.drop 7)
        have hcopy : copyField stack wtmsg 1 7 = _ := copyField_eq (by decide) hinside stack
        simp only [LineSettings.record, hthread, dataRecord, hcopy, Option.map_some, hread, hexact,
          FloatValue.zero_eq]
      · rw [hchannelEq]
        exact (channelOfId_iff _).mpr hid

end Packets

end Scaled
end MatrixBin
