import MatrixBin.Library.DecimalText
import MatrixBin.Libpack.ParseBuffer
import Mathlib

/-!
# Packing and unpacking of the packets (`devdrvd_communication.c`)

`pack_weight` and `pack_discrete` print a record with `sprintf` into a buffer of 256
bytes; `unpack_weight` and `unpack_discrete` walk over the text with `strtoul` and
`strtod`.  `none` is a write or a read outside the buffer, or an undefined
conversion.

The result is the round trip of a whole stream: packed, cut into calls of
`parse_buffer` in any way, and unpacked again.
-/

namespace MatrixBin
namespace Libpack

open Library

/-- The greatest finite value of the C type `float`. -/
def fltMax : ℚ := (2 ^ 24 - 1) * 2 ^ 104

/-- A finite value of the C type `float`, exact. -/
abbrev CFloat := {q : ℚ // |q| ≤ fltMax}

/-- The conversion from `double` to `float`, without rounding. -/
def toFloat (q : ℚ) : Option CFloat :=
  if h : |q| ≤ fltMax then some ⟨q, h⟩ else none

/-- The conversion from `unsigned long` to `long`. -/
def toLong (n : Nat) : ℤ := (n : ℤ).bmod (2 ^ 64)

/-- The part of a `long` that `%u` prints. -/
def toUnsigned (k : ℤ) : Nat := (k % 2 ^ 32).toNat

structure Timeval where
  tvSec : ℤ
  tvUsec : ℤ
deriving DecidableEq, Repr

/-- `struct weight_struct` -/
structure WeightStruct where
  ts : Timeval
  channel : UInt8
  weight : CFloat
  tare : CFloat
  status : UInt32
deriving DecidableEq

/-- `struct discrete_struct` -/
structure DiscreteStruct where
  ts : Timeval
  channel : UInt8
  value : UInt32
deriving DecidableEq

def packBufferSize : Nat := 256

def separator : UInt8 := 0x3b

/-- `sprintf` into the local buffer, the terminating zero included, and the copy that
the caller receives. -/
def sprintfBuffer (text : List UInt8) : Option (List UInt8) :=
  if text.length + 1 ≤ packBufferSize then some text else none

/-- `weight_package_pattern` without the start and the stop character. -/
def weightBody (weight : WeightStruct) : List UInt8 :=
  [0x57, 0x20] ++ separator :: (printNat (toUnsigned weight.ts.tvSec) ++
    0x2e :: (printPadded 6 (toUnsigned weight.ts.tvUsec) ++
    separator :: (printNat weight.channel.toNat ++
    separator :: (printFixed 6 weight.weight ++
    separator :: (printFixed 6 weight.tare ++
    separator :: printNat weight.status.toNat)))))

/-- `discrete_package_pattern` without the start and the stop character. -/
def discreteBody (discrete : DiscreteStruct) : List UInt8 :=
  [0x44, 0x49] ++ separator :: (printNat (toUnsigned discrete.ts.tvSec) ++
    0x2e :: (printPadded 6 (toUnsigned discrete.ts.tvUsec) ++
    separator :: (printNat discrete.channel.toNat ++
    separator :: printNat discrete.value.toNat)))

/-- The text between the two delimiters. -/
def packText (body : List UInt8) : List UInt8 :=
  startCharacter :: (body ++ [stopCharacter])

def packWeight (weight : WeightStruct) : Option (List UInt8) :=
  sprintfBuffer (packText (weightBody weight))

def packDiscrete (discrete : DiscreteStruct) : Option (List UInt8) :=
  sprintfBuffer (packText (discreteBody discrete))

/-- `strstr(data, ";")`, where a null pointer is `none`. -/
def strstrSeparator : List UInt8 → Option (List UInt8)
  | [] => none
  | b :: rest =>
      if b = separator then some (b :: rest) else if b = 0 then none else strstrSeparator rest

/-- `strtoul(++start, &start, 10)` -/
def nextUlong (start : List UInt8) : Option (Nat × List UInt8) :=
  start.tail?.bind strtoul

/-- `strtod(++start, &start)` -/
def nextDouble (start : List UInt8) : Option (ℚ × List UInt8) :=
  start.tail?.bind strtod

def unpackWeight (data : List UInt8) : Option WeightStruct := do
  let start ← strstrSeparator data
  let (sec, start) ← nextUlong start
  let (usec, start) ← nextUlong start
  let (channel, start) ← nextUlong start
  let (weight, start) ← nextDouble start
  let weight ← toFloat weight
  let (tare, start) ← nextDouble start
  let tare ← toFloat tare
  let (status, _) ← nextUlong start
  return ⟨⟨toLong sec, toLong usec⟩, UInt8.ofNat channel, weight, tare, UInt32.ofNat status⟩

def unpackDiscrete (data : List UInt8) : Option DiscreteStruct := do
  let start ← strstrSeparator data
  let (sec, start) ← nextUlong start
  let (usec, start) ← nextUlong start
  let (channel, start) ← nextUlong start
  let (value, _) ← nextUlong start
  return ⟨⟨toLong sec, toLong usec⟩, UInt8.ofNat channel, UInt32.ofNat value⟩

/-! ### The values that survive the text -/

/-- Seconds of 32 bits and microseconds below one second. -/
structure Timeval.InRange (ts : Timeval) : Prop where
  sec_nonneg : 0 ≤ ts.tvSec
  sec_lt : ts.tvSec < 2 ^ 32
  usec_nonneg : 0 ≤ ts.tvUsec
  usec_lt : ts.tvUsec < 10 ^ 6

structure WeightStruct.InRange (weight : WeightStruct) : Prop where
  ts : weight.ts.InRange
  weight_decimals : HasDecimals 6 (weight.weight : ℚ)
  tare_decimals : HasDecimals 6 (weight.tare : ℚ)

@[simp] theorem toFloat_val
    (x : CFloat) :
    toFloat x = some x :=
  dif_pos x.2

theorem toLong_of_lt
    {n : Nat}
    (hn : n < 2 ^ 32) :
    toLong n = n :=
  Int.bmod_eq_of_le_mul_two (by norm_num; omega) (by norm_num; omega)

theorem toUnsigned_of_range
    {k : ℤ}
    (hk : 0 ≤ k)
    (hlt : k < 2 ^ 32) :
    (toUnsigned k : ℤ) = k := by
  rw [toUnsigned, Int.emod_eq_of_lt hk hlt]
  omega

theorem Timeval.InRange.unsigned
    {ts : Timeval}
    (h : ts.InRange) :
    toUnsigned ts.tvSec < 2 ^ 32 ∧ toUnsigned ts.tvUsec < 10 ^ 6 ∧
      (⟨toLong (toUnsigned ts.tvSec), toLong (toUnsigned ts.tvUsec)⟩ : Timeval) = ts := by
  obtain ⟨hsec, hsec', husec, husec'⟩ := h
  have h1 := toUnsigned_of_range hsec hsec'
  have h2 := toUnsigned_of_range husec (by omega)
  have h3 : toUnsigned ts.tvSec < 2 ^ 32 := by omega
  have h4 : toUnsigned ts.tvUsec < 10 ^ 6 := by omega
  refine ⟨h3, h4, ?_⟩
  rw [toLong_of_lt h3, toLong_of_lt (by omega), h1, h2]

/-! ### The bytes of a packet -/

/-- A body of printable bytes holds neither a start nor a stop character. -/
theorem isFrame_packText
    {body : List UInt8}
    (hbody : ∀ b ∈ body, 0x20 ≤ b.toNat) :
    IsFrame startCharacter stopCharacter (packText body) := by
  refine ⟨body, rfl, ?_, ?_⟩
  · intro hmem
    exact absurd (hbody _ hmem) (by decide)
  · intro hmem
    exact absurd (hbody _ hmem) (by decide)

theorem printable_of_isDigit
    {b : UInt8}
    (hb : isDigit b = true) :
    0x20 ≤ b.toNat := by
  have := (isDigit_iff b).mp hb
  omega

theorem printable_printNat
    {n : Nat}
    {b : UInt8}
    (hb : b ∈ printNat n) :
    0x20 ≤ b.toNat :=
  printable_of_isDigit (isDigit_of_mem_printNat hb)

theorem printable_printPadded
    {width n : Nat}
    {b : UInt8}
    (hb : b ∈ printPadded width n) :
    0x20 ≤ b.toNat :=
  printable_of_isDigit (isDigit_of_mem_printPadded hb)

theorem printable_printFixed
    {places : Nat}
    {q : ℚ}
    {b : UInt8}
    (hb : b ∈ printFixed places q) :
    0x20 ≤ b.toNat := by
  rcases mem_printFixed hb with hdigit | rfl | rfl
  · exact printable_of_isDigit hdigit
  · decide
  · decide

theorem printable_weightBody
    (weight : WeightStruct) :
    ∀ b ∈ weightBody weight, 0x20 ≤ b.toNat := by
  intro b hb
  simp only [weightBody, List.mem_append, List.mem_cons, List.not_mem_nil, or_false] at hb
  rcases hb with (rfl | rfl) | rfl | hb | rfl | hb | rfl | hb | rfl | hb | rfl | hb | rfl | hb
  all_goals first
    | decide
    | exact printable_printNat hb
    | exact printable_printPadded hb
    | exact printable_printFixed hb

theorem printable_discreteBody
    (discrete : DiscreteStruct) :
    ∀ b ∈ discreteBody discrete, 0x20 ≤ b.toNat := by
  intro b hb
  simp only [discreteBody, List.mem_append, List.mem_cons, List.not_mem_nil, or_false] at hb
  rcases hb with (rfl | rfl) | rfl | hb | rfl | hb | rfl | hb | rfl | hb
  all_goals first
    | decide
    | exact printable_printNat hb
    | exact printable_printPadded hb

/-- `%u` of 32 bits -/
theorem length_printNat_le_ten
    {n : Nat}
    (hn : n < 2 ^ 32) :
    (printNat n).length ≤ 10 :=
  length_printNat_le (by omega) (by omega)

theorem toUnsigned_lt
    (k : ℤ) :
    toUnsigned k < 2 ^ 32 := by
  rw [toUnsigned]
  omega

/-- `%06u`; more than six digits are printed in full. -/
theorem length_printPadded_le_ten
    {n : Nat}
    (hn : n < 2 ^ 32) :
    (printPadded 6 n).length ≤ 10 := by
  have := length_printNat_le_ten hn
  simp only [printPadded, List.length_append, List.length_replicate]
  omega

theorem length_printNat_channel
    (channel : UInt8) :
    (printNat channel.toNat).length ≤ 3 :=
  length_printNat_le (by omega) (by have := channel.toNat_lt; omega)

/-- `%f` of a `float`: a sign, 39 digits, the point and six decimals. -/
theorem length_printFixed_float
    {q : ℚ}
    (hq : |q| ≤ fltMax) :
    (printFixed 6 q).length ≤ 47 := by
  have hmax : fltMax = (((2 ^ 24 - 1) * 2 ^ 104 : ℕ) : ℚ) := by norm_num [fltMax]
  rw [hmax] at hq
  exact length_printFixed_le (k := 39) (by omega) (by omega) hq (by norm_num)

theorem length_weightBody_le
    (weight : WeightStruct) :
    (weightBody weight).length ≤ 135 := by
  have h1 := length_printNat_le_ten (toUnsigned_lt weight.ts.tvSec)
  have h2 := length_printPadded_le_ten (toUnsigned_lt weight.ts.tvUsec)
  have h3 := length_printNat_channel weight.channel
  have h4 := length_printFixed_float weight.weight.2
  have h5 := length_printFixed_float weight.tare.2
  have h6 := length_printNat_le_ten weight.status.toNat_lt
  simp only [weightBody, List.length_append, List.length_cons, List.length_nil]
  omega

theorem length_discreteBody_le
    (discrete : DiscreteStruct) :
    (discreteBody discrete).length ≤ 39 := by
  have h1 := length_printNat_le_ten (toUnsigned_lt discrete.ts.tvSec)
  have h2 := length_printPadded_le_ten (toUnsigned_lt discrete.ts.tvUsec)
  have h3 := length_printNat_channel discrete.channel
  have h4 := length_printNat_le_ten discrete.value.toNat_lt
  simp only [discreteBody, List.length_append, List.length_cons, List.length_nil]
  omega

theorem sprintfBuffer_packText
    {body : List UInt8}
    (h : body.length ≤ 250) :
    sprintfBuffer (packText body) = some (packText body) := by
  rw [sprintfBuffer, if_pos]
  simp only [packText, packBufferSize, List.length_cons, List.length_append, List.length_nil]
  omega

/-! ### Reading the fields back -/

/-- The two bytes of a packet type before the first separator. -/
theorem strstrSeparator_packText
    {c d : UInt8}
    {fields : List UInt8}
    (hc : c ≠ separator ∧ c ≠ 0)
    (hd : d ≠ separator ∧ d ≠ 0) :
    strstrSeparator (packText ([c, d] ++ separator :: fields)) =
      some (separator :: (fields ++ [stopCharacter])) := by
  have hstart : startCharacter ≠ separator ∧ startCharacter ≠ 0 := by decide
  simp [packText, strstrSeparator, hstart, hc, hd]

theorem nextUlong_printNat
    {sep b : UInt8}
    {n : Nat}
    {rest : List UInt8}
    (hb : isDigit b = false)
    (hn : n < 2 ^ 32) :
    nextUlong (sep :: (printNat n ++ b :: rest)) = some (n, b :: rest) :=
  strtoul_printNat hb (by rw [ulongMax]; omega)

theorem nextUlong_printPadded
    {sep b : UInt8}
    {width n : Nat}
    {rest : List UInt8}
    (hb : isDigit b = false)
    (hn : n < 2 ^ 32) :
    nextUlong (sep :: (printPadded width n ++ b :: rest)) = some (n, b :: rest) :=
  strtoul_printPadded hb (by rw [ulongMax]; omega)

theorem nextDouble_printFixed
    {sep : UInt8}
    {q : ℚ}
    {rest : List UInt8}
    (hq : HasDecimals 6 q) :
    nextDouble (sep :: (printFixed 6 q ++ separator :: rest)) = some (q, separator :: rest) :=
  strtod_printFixed (by omega) hq (by decide) (by decide)

theorem unpackWeight_packText
    {weight : WeightStruct}
    (h : weight.InRange) :
    unpackWeight (packText (weightBody weight)) = some weight := by
  obtain ⟨hsec, husec, hts⟩ := h.ts.unsigned
  have hpoint : isDigit 0x2e = false := by decide
  have hsep : isDigit separator = false := by decide
  have hstop : isDigit stopCharacter = false := by decide
  have husec32 : toUnsigned weight.ts.tvUsec < 2 ^ 32 := by omega
  have hchannel : weight.channel.toNat < 2 ^ 32 := by have := weight.channel.toNat_lt; omega
  rw [unpackWeight, weightBody, strstrSeparator_packText (by decide) (by decide)]
  simp only [List.append_assoc, List.cons_append, Option.bind_eq_bind, Option.bind_some]
  rw [nextUlong_printNat hpoint hsec]
  simp only [Option.bind_some]
  rw [nextUlong_printPadded hsep husec32]
  simp only [Option.bind_some]
  rw [nextUlong_printNat hsep hchannel]
  simp only [Option.bind_some]
  rw [nextDouble_printFixed h.weight_decimals]
  simp only [Option.bind_some, toFloat_val]
  rw [nextDouble_printFixed h.tare_decimals]
  simp only [Option.bind_some, toFloat_val]
  rw [nextUlong_printNat hstop weight.status.toNat_lt]
  simp [hts]

theorem unpackDiscrete_packText
    {discrete : DiscreteStruct}
    (h : discrete.ts.InRange) :
    unpackDiscrete (packText (discreteBody discrete)) = some discrete := by
  obtain ⟨hsec, husec, hts⟩ := h.unsigned
  have hpoint : isDigit 0x2e = false := by decide
  have hsep : isDigit separator = false := by decide
  have hstop : isDigit stopCharacter = false := by decide
  have husec32 : toUnsigned discrete.ts.tvUsec < 2 ^ 32 := by omega
  have hchannel : discrete.channel.toNat < 2 ^ 32 := by
    have := discrete.channel.toNat_lt
    omega
  rw [unpackDiscrete, discreteBody, strstrSeparator_packText (by decide) (by decide)]
  simp only [List.append_assoc, List.cons_append, Option.bind_eq_bind, Option.bind_some]
  rw [nextUlong_printNat hpoint hsec]
  simp only [Option.bind_some]
  rw [nextUlong_printPadded hsep husec32]
  simp only [Option.bind_some]
  rw [nextUlong_printNat hsep hchannel]
  simp only [Option.bind_some]
  rw [nextUlong_printNat hstop discrete.value.toNat_lt]
  simp [hts]

/-! ### A stream of packets -/

/-- `union uni_packet`, the error packet left out. -/
inductive UniPacket
  | wgtPack (weight : WeightStruct)
  | dioPack (discrete : DiscreteStruct)

def UniPacket.InRange : UniPacket → Prop
  | .wgtPack weight => weight.InRange
  | .dioPack discrete => discrete.ts.InRange

def UniPacket.pack : UniPacket → Option (List UInt8)
  | .wgtPack weight => packWeight weight
  | .dioPack discrete => packDiscrete discrete

/-- Unpacking the bytes with the function for the packet's type gives the packet. -/
def UniPacket.UnpacksFrom (data : List UInt8) : UniPacket → Prop
  | .wgtPack weight => unpackWeight data = some weight
  | .dioPack discrete => unpackDiscrete data = some discrete

/-- One packet: it is packed into one frame that unpacks to it. -/
theorem UniPacket.InRange.pack
    {packet : UniPacket}
    (h : packet.InRange) :
    ∃ text, packet.pack = some text ∧ IsFrame startCharacter stopCharacter text ∧
      text.length ≤ recbufSize ∧ packet.UnpacksFrom text := by
  have hlen : ∀ {body : List UInt8}, body.length ≤ 250 →
      (packText body).length ≤ recbufSize := by
    intro body hbody
    simp only [packText, recbufSize, List.length_cons, List.length_append, List.length_nil]
    omega
  cases packet with
  | wgtPack weight =>
      have hbody : (weightBody weight).length ≤ 250 :=
        le_trans (length_weightBody_le weight) (by omega)
      exact ⟨packText (weightBody weight), sprintfBuffer_packText hbody,
        isFrame_packText (printable_weightBody weight), hlen hbody, unpackWeight_packText h⟩
  | dioPack discrete =>
      have hbody : (discreteBody discrete).length ≤ 250 :=
        le_trans (length_discreteBody_le discrete) (by omega)
      exact ⟨packText (discreteBody discrete), sprintfBuffer_packText hbody,
        isFrame_packText (printable_discreteBody discrete), hlen hbody,
        unpackDiscrete_packText h⟩

theorem pack_all
    {packets : List UniPacket}
    (h : ∀ packet ∈ packets, packet.InRange) :
    ∃ texts, packets.mapM UniPacket.pack = some texts ∧
      (∀ text ∈ texts,
        IsFrame startCharacter stopCharacter text ∧ text.length ≤ recbufSize) ∧
      List.Forall₂ (fun packet text => packet.UnpacksFrom text) packets texts := by
  induction packets with
  | nil => exact ⟨[], rfl, by simp, .nil⟩
  | cons packet packets ih =>
      obtain ⟨text, hpack, hframe, hlen, hunpack⟩ := (h packet (by simp)).pack
      obtain ⟨texts, hpacks, hframes, hunpacks⟩ :=
        ih (fun p hp => h p (List.mem_cons_of_mem _ hp))
      refine ⟨text :: texts, ?_, ?_, .cons hunpack hunpacks⟩
      · simp [List.mapM_cons, hpack, hpacks]
      · intro t ht
        rcases List.mem_cons.mp ht with rfl | ht
        · exact ⟨hframe, hlen⟩
        · exact hframes t ht

/-- **Round trip of a stream.**  Packed records, fed to the idle deframer under any
cut into calls, come back one item a record with exactly the packed bytes; the
deframer is idle again, and each item unpacks to its record. -/
theorem parseCalls_pack_unpack
    (packets : List UniPacket)
    (hrange : ∀ packet ∈ packets, packet.InRange) :
    ∃ texts, packets.mapM UniPacket.pack = some texts ∧
      ∀ st : ParserState, st.Idle → ∀ chunks, chunks.flatten = texts.flatten →
        ∃ st' items, parseCalls st chunks = some (st', items) ∧ st'.Idle ∧
          items = texts.map PcktItem.ofFrame ∧
          List.Forall₂ (fun packet item => packet.UnpacksFrom item.pcktPtr) packets items := by
  obtain ⟨texts, hpack, hframes, hunpack⟩ := pack_all hrange
  refine ⟨texts, hpack, ?_⟩
  intro st hidle chunks hchunks
  obtain ⟨st', hrun, hidle'⟩ := parseBuffer_frames hidle hframes
  refine ⟨st', texts.map PcktItem.ofFrame, ?_, hidle', rfl, ?_⟩
  · rw [parseCalls_eq, hchunks, hrun]
  · exact List.forall₂_map_right_iff.mpr hunpack

/-- Two records: a negative weight with a zero-padded microsecond field, and a
discrete input. -/
theorem parseCalls_pack_unpack_two :
    ∃ texts,
      [UniPacket.wgtPack ⟨⟨1700000000, 42⟩, 3, ⟨-1250 / 1000, by norm_num [fltMax]⟩,
          ⟨500, by norm_num [fltMax]⟩, 5⟩,
        UniPacket.dioPack ⟨⟨0, 999999⟩, 255, 4294967295⟩].mapM UniPacket.pack = some texts ∧
      ∀ st : ParserState, st.Idle → ∀ chunks, chunks.flatten = texts.flatten →
        ∃ st' items, parseCalls st chunks = some (st', items) ∧ st'.Idle ∧
          items = texts.map PcktItem.ofFrame ∧
          List.Forall₂ (fun packet item => packet.UnpacksFrom item.pcktPtr)
            [UniPacket.wgtPack ⟨⟨1700000000, 42⟩, 3, ⟨-1250 / 1000, by norm_num [fltMax]⟩,
                ⟨500, by norm_num [fltMax]⟩, 5⟩,
              UniPacket.dioPack ⟨⟨0, 999999⟩, 255, 4294967295⟩] items := by
  refine parseCalls_pack_unpack _ ?_
  intro packet hpacket
  simp only [List.mem_cons, List.not_mem_nil, or_false] at hpacket
  rcases hpacket with rfl | rfl
  · refine ⟨⟨?_, ?_, ?_, ?_⟩, ⟨-1250000, ?_⟩, ⟨500000000, ?_⟩⟩ <;> norm_num
  · refine ⟨?_, ?_, ?_, ?_⟩ <;> norm_num

end Libpack
end MatrixBin
