import MatrixBin.Modbus.MessageBounds

/-!
# The replies as frames (`proc_mdb`)

The reply is built over the request.  Only a read stores a new length field; the reply to a write
keeps the one of the request, and for other function codes the size of the reply is never set.
`replyFramed_iff` says for which requests every reply is a frame of the protocol.

A write publishes its values in the order of the request.  `valuesPublished_iff` compares what is
published with the registers that the request names.
-/

namespace MatrixBin
namespace Modbus

open Library

/-! ### Well-formed requests -/

/-- What is asked for, with a function code and the word behind the start register. -/
inductive Operation
  | read (count : Nat) (hcount : count ≤ 120)
  | write (values : List UInt16) (hvalues : values.length ≤ 120)
  | other
      (func : UInt8)
      (hfunc : func ≠ 0x04 ∧ func ≠ 0x10)
      (word : UInt16)
      (data : List UInt8)
      (hdata : data.length < 65530)

namespace Operation

def func : Operation → UInt8
  | read .. => 0x04
  | write .. => 0x10
  | other func .. => func

def word : Operation → UInt16
  | read count _ => UInt16.ofNat count
  | write values _ => UInt16.ofNat values.length
  | other _ _ word _ _ => word

/-- Everything behind the second word. -/
def data : Operation → List UInt8
  | read .. => []
  | write values _ => UInt8.ofNat (2 * values.length) :: values.flatMap netBytes
  | other _ _ _ data _ => data

end Operation

structure FrameRequest where
  transaction : UInt16
  unit : UInt8
  start : UInt16
  operation : Operation

namespace FrameRequest

/-- The number of bytes behind the length field. -/
def lengthField (r : FrameRequest) : Nat := 6 + r.operation.data.length

def encode (r : FrameRequest) : List UInt8 :=
  (netBytes r.transaction ++ (netBytes 0 ++ netBytes (UInt16.ofNat r.lengthField))) ++
    ([r.unit, r.operation.func] ++ (netBytes r.start ++ (netBytes r.operation.word ++
      r.operation.data)))

/-- The frame with the ids of the request. -/
def frame (r : FrameRequest) (pdu : List UInt8) : List UInt8 :=
  (netBytes r.transaction ++ (netBytes 0 ++ netBytes (UInt16.ofNat (1 + pdu.length)))) ++
    r.unit :: pdu

end FrameRequest

/-- The register in an array in memory. -/
def registerAt (m : Bytes) (k : Nat) : UInt16 := wordOfBytes (m (2 * k)) (m (2 * k + 1))

/-- The reply that the protocol has for a request: the registers, the echo of a write, and for
other function codes any frame. -/
def FrameRequest.IsReply (r : FrameRequest) (rtDb : Bytes) (w : List UInt8) : Prop :=
  match r.operation with
  | .read count _ =>
      w = r.frame (0x04 :: UInt8.ofNat (2 * count) ::
        (List.range count).flatMap fun i => netBytes (registerAt rtDb (r.start.toNat + i)))
  | .write values _ =>
      w = r.frame (0x10 :: (netBytes r.start ++ netBytes (UInt16.ofNat values.length)))
  | .other .. => ∃ pdu, pdu.length < 65535 ∧ w = r.frame pdu

/-- A reply is a frame that answers the request, and for another function code than that of a
read or a write nothing undefined happens: there is no reply, or its size is defined. -/
structure ReplyFramed (round : Round) (r : FrameRequest) : Prop where
  framed :
    ∀ w published, procMdbMsg round r.encode = some (some w, published) →
      r.IsReply (round.rtDb.write 0 round.db.bytes) w
  defined :
    r.operation.func ≠ 0x04 → r.operation.func ≠ 0x10 → procMdbMsg round r.encode ≠ none

/-! ### The header of a request -/

namespace FrameRequest

variable (r : FrameRequest)

theorem six_le_lengthField :
    6 ≤ r.lengthField :=
  Nat.le_add_right _ _

theorem length_encode :
    r.encode.length = 6 + r.lengthField := by
  simp only [encode, List.length_append, Request.length_netBytes, List.length_cons,
    List.length_nil, lengthField]
  omega

theorem twelve_le_length :
    12 ≤ r.encode.length := by
  rw [length_encode, lengthField]
  omega

/-- The twelve bytes of the header. -/
theorem encode_eq :
    r.encode =
      [UInt8.ofNat (r.transaction.toNat / 256), UInt8.ofNat (r.transaction.toNat % 256), 0, 0,
        UInt8.ofNat ((UInt16.ofNat r.lengthField).toNat / 256),
        UInt8.ofNat ((UInt16.ofNat r.lengthField).toNat % 256), r.unit, r.operation.func,
        UInt8.ofNat (r.start.toNat / 256), UInt8.ofNat (r.start.toNat % 256),
        UInt8.ofNat (r.operation.word.toNat / 256), UInt8.ofNat (r.operation.word.toNat % 256)] ++
      r.operation.data :=
  rfl

theorem received_func :
    received r.encode 7 = r.operation.func := by
  rw [encode_eq]
  rfl

theorem reg0_encode :
    reg0 (received r.encode) = r.start.toNat := by
  have hstart := r.start.toNat_lt
  have hlow : received r.encode 9 = UInt8.ofNat (r.start.toNat % 256) := by
    rw [encode_eq]
    rfl
  have hhigh : received r.encode 8 = UInt8.ofNat (r.start.toNat / 256) := by
    rw [encode_eq]
    rfl
  rw [reg0, hlow, hhigh, UInt8.toNat_ofNat_of_lt' (by change _ < 256; omega),
    UInt8.toNat_ofNat_of_lt' (by change _ < 256; omega)]
  omega

/-- The byte of the length field that is looked at. -/
theorem received_bytes :
    received r.encode 5 = UInt8.ofNat (r.lengthField % 256) := by
  have hbyte : received r.encode 5 =
      UInt8.ofNat ((UInt16.ofNat r.lengthField).toNat % 256) := by
    rw [encode_eq]
    rfl
  rw [hbyte, UInt16.toNat_ofNat', Nat.mod_mod_of_dvd _ (by decide)]

theorem bytesField_encode :
    bytesField (received r.encode) =
      if r.lengthField % 256 < 128 then ((r.lengthField % 256 : Nat) : ℤ)
      else ((r.lengthField % 256 : Nat) : ℤ) - 256 := by
  rw [bytesField, received_bytes, toInt8_toInt,
    UInt8.toNat_ofNat_of_lt' (Nat.mod_lt _ (Nat.zero_lt_succ 255))]

/-- The number of registers of a read and of values of a write. -/
theorem numRegs_encode
    {count : Nat}
    (hcount : count ≤ 120)
    (hword : r.operation.word = UInt16.ofNat count) :
    numRegs (received r.encode) = count := by
  have hlow : received r.encode 11 = UInt8.ofNat (r.operation.word.toNat % 256) := by
    rw [encode_eq]
    rfl
  have hmod : (UInt16.ofNat count).toNat % 256 = count := by
    rw [UInt16.toNat_ofNat_of_lt' (by change _ < 65536; omega)]
    omega
  rw [numRegs, hlow, hword, hmod, toInt8_toInt,
    UInt8.toNat_ofNat_of_lt' (by change _ < 256; omega), if_pos (by omega)]

/-! The same of a buffer that the request was read into. -/

variable (m : Bytes)

theorem func_write :
    m.write 0 r.encode 7 = r.operation.func := by
  have htwelve := r.twelve_le_length
  rw [write_received (by omega), received_func]

theorem reg0_write_encode :
    reg0 (m.write 0 r.encode) = r.start.toNat := by
  rw [reg0_write r.twelve_le_length, reg0_encode]

theorem numRegs_write_encode
    {count : Nat}
    (hcount : count ≤ 120)
    (hword : r.operation.word = UInt16.ofNat count) :
    numRegs (m.write 0 r.encode) = count := by
  rw [numRegs_write r.twelve_le_length, numRegs_encode r hcount hword]

end FrameRequest

section OneRequest

variable {round : Round} {r : FrameRequest}

theorem procMdbMsg_overfull
    (h : 250 < r.lengthField) :
    procMdbMsg round r.encode = none := by
  refine procMdbMsg_overlong ?_
  rw [r.length_encode, mdbBufSize]
  omega

/-- A length field from 128 on is a negative number, and the request is refused. -/
theorem procMdbMsg_negative
    (h : 128 ≤ r.lengthField)
    (hlen : r.lengthField ≤ 250) :
    procMdbMsg round r.encode = some (none, []) := by
  have hlength := r.length_encode
  refine procMdbMsg_refused (by rw [mdbBufSize]; omega) (Or.inr ?_)
  rw [bytesField_write (by omega), r.bytesField_encode, if_neg (by omega)]
  omega

/-- Any other request is accepted. -/
theorem not_refused
    (h : r.lengthField < 128) :
    ¬ (r.encode.length < 7 ∨ bytesField (round.mdbBuf.write 0 r.encode) < 6) := by
  have htwelve := r.twelve_le_length
  have hsix := r.six_le_lengthField
  rw [bytesField_write (by omega), r.bytesField_encode, if_pos (by omega)]
  omega

end OneRequest

/-! ### What is answered -/

/-- The words of a copy are the registers of the array. -/
theorem swappedBytes_registers
    (m : Bytes)
    (reg n : Nat) :
    swappedBytes m (2 * reg) n =
      (List.range n).flatMap fun i => netBytes (registerAt m (reg + i)) := by
  rw [swappedBytes_eq_flatMap]
  congr 1
  funext i
  rw [registerAt, netBytes_wordOfBytes, Nat.mul_add]

section OneReply

variable {round : Round} {r : FrameRequest}

/-- The bytes behind a read are the frame with its registers. -/
theorem readReply_frame
    {count : Nat}
    {hcount : count ≤ 120}
    (hop : r.operation = .read count hcount)
    (db : Database)
    (rtDb m : Bytes) :
    (readReply db rtDb (m.write 0 r.encode)).read 0 (9 + 2 * count) =
      r.frame (0x04 :: UInt8.ofNat (2 * count) ::
        (List.range count).flatMap fun i =>
          netBytes (registerAt (rtDb.write 0 db.bytes) (r.start.toNat + i))) := by
  have htwelve := r.twelve_le_length
  have hnum : numRegs (m.write 0 r.encode) = count :=
    r.numRegs_write_encode m hcount (by rw [hop]; rfl)
  have hreg : reg0 (m.write 0 r.encode) = r.start.toNat := r.reg0_write_encode m
  obtain ⟨regs, hregs⟩ : ∃ regs, regs = (List.range count).flatMap fun i =>
    netBytes (registerAt (rtDb.write 0 db.bytes) (r.start.toNat + i)) := ⟨_, rfl⟩
  have hwords : swappedBytes (rtDb.write 0 db.bytes) (2 * r.start.toNat) count = regs := by
    rw [swappedBytes_registers, hregs]
  have hlen : regs.length = 2 * count := by
    rw [← hwords, length_swappedBytes]
  have happly := readReply_apply db rtDb (m.write 0 r.encode)
  rw [hnum, hreg, Int.toNat_natCast, hwords] at happly
  set reply := readReply db rtDb (m.write 0 r.encode)
  -- the header is the one of the request, but for the length field and the number of bytes
  have hheader (i : Nat) (hi : i < 9 ∧ i ≠ 5 ∧ i ≠ 8) : reply i = received r.encode i := by
    rw [happly, if_neg hi.2.1, if_neg hi.2.2, Bytes.write_outside (Or.inl hi.1),
      write_received (by omega)]
  have hbytes : reply 5 = UInt8.ofNat (2 * count + 3) := by
    rw [happly, if_pos rfl]
    exact lowByte_natCast (n := 2 * count + 3) (by omega)
  have hcountByte : reply 8 = UInt8.ofNat (2 * count) := by
    rw [happly, if_neg (by decide), if_pos rfl]
    exact lowByte_natCast (n := 2 * count) (by omega)
  have hfront : reply.read 0 9 =
      [reply 0, reply 1, reply 2, reply 3, reply 4, reply 5, reply 6, reply 7, reply 8] := rfl
  have hregisters : reply.read 9 (2 * count) = regs := by
    have hholds : reply.Holds 9 regs := by
      intro i hi
      rw [happly, if_neg (by omega), if_neg (by omega)]
      exact Bytes.holds_write i hi
    rw [← hlen, hholds.read_eq]
  have hpdu : 1 + (0x04 :: UInt8.ofNat (2 * count) :: regs).length = 2 * count + 3 := by
    rw [List.length_cons, List.length_cons, hlen]
    omega
  have hfield : r.lengthField = 6 := by
    rw [FrameRequest.lengthField, hop]
    rfl
  rw [← hregs, Bytes.read_add, Nat.zero_add, hfront, hregisters, hbytes, hcountByte,
    hheader 0 (by omega), hheader 1 (by omega), hheader 2 (by omega), hheader 3 (by omega),
    hheader 4 (by omega), hheader 6 (by omega), hheader 7 (by omega), FrameRequest.frame, hpdu,
    netBytes_ofNat (by omega), r.encode_eq, hfield, hop]
  rfl

/-- A read that is answered is answered with its frame. -/
theorem framed_of_read
    {count : Nat}
    {hcount : count ≤ 120}
    (hop : r.operation = .read count hcount) :
    ReplyFramed round r := by
  have hlength := r.length_encode
  have hsix : r.lengthField = 6 := by
    rw [FrameRequest.lengthField, hop]
    rfl
  have hfunc : round.mdbBuf.write 0 r.encode 7 = 0x04 := by
    rw [r.func_write, hop]
    rfl
  refine ⟨fun w published hanswer => ?_, fun hnoread => absurd (by rw [hop]; rfl) hnoread⟩
  have hnum : numRegs (round.mdbBuf.write 0 r.encode) = count :=
    r.numRegs_write_encode round.mdbBuf hcount (by rw [hop]; rfl)
  have hpositive : ¬ numRegs (round.mdbBuf.write 0 r.encode) < -4 := by
    rw [hnum]
    omega
  rw [procMdbMsg_accepted rfl (by rw [mdbBufSize]; omega) (not_refused (by omega)), if_pos hfunc]
    at hanswer
  split at hanswer
  · simp only [Option.some.injEq, Prod.mk.injEq] at hanswer
    have hsize : (2 * (count : ℤ) + 9).toNat = 9 + 2 * count := by omega
    rw [FrameRequest.IsReply, hop, ← hanswer.1, hnum, hsize]
    exact readReply_frame hop round.db round.rtDb round.mdbBuf
  · exact absurd hanswer (by simp)

/-- A write is answered with its own length field, which is never that of the echo. -/
theorem not_framed_of_write
    {values : List UInt16}
    {hvalues : values.length ≤ 120}
    (hop : r.operation = .write values hvalues)
    (hfield : r.lengthField < 128) :
    ¬ ReplyFramed round r := by
  have hlength := r.length_encode
  have hdata : r.lengthField = 7 + 2 * values.length := by
    simp only [FrameRequest.lengthField, hop, Operation.data, List.length_cons, List.length_flatMap,
      Request.length_netBytes, List.map_const', List.sum_replicate_nat]
    omega
  have hfunc : round.mdbBuf.write 0 r.encode 7 = 0x10 := by
    rw [r.func_write, hop]
    rfl
  have hnum : numRegs (round.mdbBuf.write 0 r.encode) = values.length :=
    r.numRegs_write_encode round.mdbBuf hvalues (by rw [hop]; rfl)
  have hanswer := @procMdbMsg_accepted round r.encode _ rfl (by rw [mdbBufSize]; omega)
    (not_refused hfield)
  rw [hfunc, if_neg (by decide), if_pos rfl, hnum, if_pos (by omega)] at hanswer
  intro h
  have hreply := h.framed _ _ hanswer
  rw [FrameRequest.IsReply, hop] at hreply
  -- the low byte of the length field: that of the request, and six
  have hbyte : some (round.mdbBuf.write 0 r.encode 5) = some 6 := congrArg (·[5]?) hreply
  rw [write_received (by omega), r.received_bytes, Option.some.injEq] at hbyte
  have hnat := congrArg UInt8.toNat hbyte
  rw [UInt8.toNat_ofNat_of_lt' (Nat.mod_lt _ (by decide))] at hnat
  change r.lengthField % 256 = 6 at hnat
  omega

/-- The size of the reply is not defined for other function codes. -/
theorem not_framed_of_other
    (hread : r.operation.func ≠ 0x04)
    (hwrite : r.operation.func ≠ 0x10)
    (hfield : r.lengthField < 128) :
    ¬ ReplyFramed round r := by
  have hlength := r.length_encode
  have hfunc := r.func_write round.mdbBuf
  have hlen : r.encode.length ≤ mdbBufSize := by
    rw [mdbBufSize]
    omega
  intro h
  refine h.defined hread hwrite ?_
  rw [procMdbMsg_accepted rfl hlen (not_refused hfield), hfunc, if_neg hread, if_neg hwrite]

end OneReply

/-- Only a request with another function code is longer than the buffer. -/
theorem func_of_overfull
    {r : FrameRequest}
    (h : 250 < r.lengthField) :
    r.operation.func ≠ 0x04 ∧ r.operation.func ≠ 0x10 := by
  rw [FrameRequest.lengthField] at h
  cases hop : r.operation with
  | read count hcount =>
      rw [hop, Operation.data, List.length_nil] at h
      omega
  | write values hvalues =>
      simp only [hop, Operation.data, List.length_cons, List.length_flatMap,
        Request.length_netBytes, List.map_const', List.sum_replicate_nat] at h
      omega
  | other func hfunc word data hdata => exact hfunc

/-- **The frames of the replies.**  Every reply to a request is a frame of the protocol, and its
size is defined, exactly if the request is a read, or fits the buffer with a length field that
is a negative `char`. -/
theorem replyFramed_iff
    (round : Round)
    (r : FrameRequest) :
    ReplyFramed round r ↔
      r.operation.func = 0x04 ∨ (128 ≤ r.lengthField ∧ r.lengthField ≤ 250) := by
  by_cases hlong : 250 < r.lengthField
  · obtain ⟨hread, hwrite⟩ := func_of_overfull hlong
    refine iff_of_false (fun h => h.defined hread hwrite (procMdbMsg_overfull hlong)) ?_
    rintro (hfunc | ⟨-, hshort⟩)
    · exact hread hfunc
    · omega
  by_cases hnegative : 128 ≤ r.lengthField
  · have hnone : procMdbMsg round r.encode = some (none, []) :=
      procMdbMsg_negative hnegative (by omega)
    refine iff_of_true ⟨?_, ?_⟩ (Or.inr ⟨hnegative, by omega⟩)
    · intro w published hanswer
      rw [hnone] at hanswer
      exact absurd hanswer (by simp)
    · intro _ _
      rw [hnone]
      exact Option.some_ne_none _
  have hfield : r.lengthField < 128 := Nat.lt_of_not_le hnegative
  cases hop : r.operation with
  | read count hcount => exact iff_of_true (framed_of_read hop) (Or.inl rfl)
  | write values hvalues =>
      refine iff_of_false (not_framed_of_write hop hfield) ?_
      rintro (hread | hlarge)
      · exact absurd (show (0x10 : UInt8) = 0x04 from hread) (by decide)
      · omega
  | other func hfunc word data hdata =>
      refine iff_of_false (not_framed_of_other ?_ ?_ hfield) ?_
      · rw [hop]
        exact hfunc.1
      · rw [hop]
        exact hfunc.2
      · rintro (hread | hlarge)
        · exact hfunc.1 hread
        · omega

/-- A write of one value, and a request with the function code `0x03`. -/
def writeOne : FrameRequest := ⟨0x0102, 1, 0x100, .write [0x1234] (by decide)⟩

def readHolding : FrameRequest := ⟨0x0102, 1, 0, .other 0x03 (by decide) 8 [] (by decide)⟩

/-- The twelve bytes of the first reply announce 15, the second reply has no size. -/
theorem replies_not_framed :
    procMdbMsg quiet writeOne.encode =
        some (some [1, 2, 0, 0, 0, 9, 1, 0x10, 1, 0, 0, 1], [("r1", 0x34)]) ∧
      ¬ ReplyFramed quiet writeOne ∧
      procMdbMsg quiet readHolding.encode = none ∧ ¬ ReplyFramed quiet readHolding := by
  have hwrite : procMdbMsg quiet writeOne.encode =
      some (some [1, 2, 0, 0, 0, 9, 1, 0x10, 1, 0, 0, 1], [("r1", 0x34)]) := by
    decide
  have hother : procMdbMsg quiet readHolding.encode = none := by decide
  refine ⟨hwrite, fun h => ?_, hother, fun h => ?_⟩
  · have hreply : _ = writeOne.frame _ := h.framed _ _ hwrite
    exact absurd hreply (by decide)
  · exact h.defined (by decide) (by decide) hother

/-! ### What a write publishes -/

/-- The values with the names of their registers, from `reg` on. -/
def publishedAt : Nat → List UInt16 → List (String × Nat)
  | _, [] => []
  | reg, val :: rest =>
      ((regname reg).map (·, val.toNat)).toList ++ publishedAt (reg + 1) rest

/-- Each value of a write is published for its register, if that one has a name. -/
def ValuesPublished
    (db : Database)
    (rtDb mdbBuf : Bytes)
    (r : FrameRequest)
    (values : List UInt16) : Prop :=
  (procMdb db rtDb (mdbBuf.write 0 r.encode)).map MdbReply.published =
    some (publishedAt r.start.toNat values)

theorem publishedAt_eq_nil_iff
    (reg : Nat)
    (values : List UInt16) :
    publishedAt reg values = [] ↔ ∀ i, i < values.length → regname (reg + i) = none := by
  induction values generalizing reg with
  | nil => exact iff_of_true rfl fun i hi => absurd hi (Nat.not_lt_zero i)
  | cons val rest ih =>
      rw [publishedAt, List.append_eq_nil_iff, Option.toList_eq_nil_iff, Option.map_eq_none_iff, ih]
      constructor
      · rintro ⟨hfirst, hrest⟩ i hi
        cases i with
        | zero => exact hfirst
        | succ i =>
            have hnext := hrest i (Nat.lt_of_succ_lt_succ hi)
            rwa [Nat.add_right_comm] at hnext
      · intro h
        refine ⟨h 0 (Nat.zero_lt_succ _), fun i hi => ?_⟩
        rw [Nat.add_right_comm]
        exact h (i + 1) (Nat.succ_lt_succ hi)

theorem length_publishedAt
    (reg : Nat)
    (values : List UInt16) :
    (publishedAt reg values).length ≤ values.length := by
  induction values generalizing reg with
  | nil => exact Nat.le_refl 0
  | cons val rest ih =>
      have hfirst : ((regname reg).map (·, val.toNat)).toList.length ≤ 1 := by
        cases regname reg with
        | none => exact Nat.zero_le 1
        | some name => exact Nat.le_refl 1
      have hrest := ih (reg + 1)
      rw [publishedAt, List.length_append, List.length_cons]
      omega

/-- No two registers have the same name. -/
theorem regname_inj
    {reg reg' : Nat}
    {name : String}
    (h : regname reg = some name)
    (h' : regname reg' = some name) :
    reg = reg' := by
  grind [regname]

/-- The values at their position in the buffer are the values of the request. -/
theorem requestValues_of_holds
    {buf : Bytes}
    {b : Nat}
    {values : List UInt16}
    (h : buf.Holds b (values.flatMap netBytes))
    (hb : b + 2 * values.length ≤ mdbBufSize) :
    requestValues buf values.length b = some values := by
  induction values generalizing b with
  | nil => rfl
  | cons val rest ih =>
      rw [List.length_cons] at hb ⊢
      obtain ⟨hhigh, hbehind⟩ := Bytes.Holds.head h
      obtain ⟨hlow, hrest⟩ := Bytes.Holds.head hbehind
      rw [requestValues, if_pos (by omega), ih hrest (by omega), Option.map_some, hhigh, hlow,
        wordOfBytes_wordBytes]

/-- Every value of a write is published for the register behind the first one. -/
theorem procMdb_write
    (db : Database)
    (rtDb mdbBuf : Bytes)
    {r : FrameRequest}
    {values : List UInt16}
    {hvalues : values.length ≤ 120}
    (hop : r.operation = .write values hvalues) :
    (procMdb db rtDb (mdbBuf.write 0 r.encode)).map MdbReply.published =
      some (values.filterMap (toMqtt (r.start.toNat + 1))) := by
  have hfunc : mdbBuf.write 0 r.encode 7 = 0x10 := by
    rw [r.func_write, hop]
    rfl
  have hnum : (numRegs (mdbBuf.write 0 r.encode)).toNat = values.length := by
    rw [r.numRegs_write_encode mdbBuf hvalues (by rw [hop]; rfl), Int.toNat_natCast]
  have hholds : (mdbBuf.write 0 r.encode).Holds 13 (values.flatMap netBytes) := by
    obtain ⟨front, hfront, hsplit⟩ :
        ∃ front : List UInt8, front.length = 13 ∧ r.encode = front ++ values.flatMap netBytes := by
      refine ⟨r.encode.take 13, ?_, ?_⟩
      · rw [r.encode_eq, hop]
        rfl
      · rw [r.encode_eq, hop]
        rfl
    have hwrite := @Bytes.holds_write mdbBuf 0 r.encode
    rw [hsplit, Bytes.holds_append, hfront] at hwrite
    rw [hsplit]
    exact hwrite.2
  have hread := requestValues_of_holds hholds (by rw [mdbBufSize]; omega)
  rw [procMdb, hfunc, if_neg (by decide), if_pos rfl, procWrite, hnum, hread,
    r.reg0_write_encode]
  rfl

/-- **The published values of a write.**  They are those of its registers exactly if there are
none, or no register of the request and not the one behind the first has a name. -/
theorem valuesPublished_iff
    (db : Database)
    (rtDb mdbBuf : Bytes)
    {r : FrameRequest}
    {values : List UInt16}
    {hvalues : values.length ≤ 120}
    (hop : r.operation = .write values hvalues) :
    ValuesPublished db rtDb mdbBuf r values ↔
      values = [] ∨ (regname (r.start.toNat + 1) = none ∧
        ∀ i, i < values.length → regname (r.start.toNat + i) = none) := by
  rw [ValuesPublished, procMdb_write db rtDb mdbBuf hop, Option.some.injEq]
  cases values with
  | nil => exact iff_of_true rfl (Or.inl rfl)
  | cons val rest =>
      cases hname : regname (r.start.toNat + 1) with
      | none =>
          have hnothing : (val :: rest).filterMap (toMqtt (r.start.toNat + 1)) = [] := by
            rw [List.filterMap_eq_nil_iff]
            intro v _
            rw [toMqtt, hname]
            rfl
          rw [hnothing, eq_comm, publishedAt_eq_nil_iff]
          simp
      | some name =>
          -- every value is published, under the name of one register
          refine iff_of_false (fun h => ?_) (by simp)
          have hall : (val :: rest).filterMap (toMqtt (r.start.toNat + 1)) =
              (val :: rest).map fun v => (name, v.toNat % 256) := by
            rw [← List.filterMap_eq_map]
            congr 1
            funext v
            rw [toMqtt, hname]
            rfl
          rw [hall, publishedAt] at h
          cases hfirst : regname r.start.toNat with
          | none =>
              have hlen := congrArg List.length h
              have hle := length_publishedAt (r.start.toNat + 1) rest
              rw [hfirst] at hlen
              simp only [Option.map_none, Option.toList_none, List.nil_append, List.length_map,
                List.length_cons] at hlen
              omega
          | some first =>
              rw [hfirst] at h
              simp only [List.map_cons, Option.map_some, Option.toList_some, List.singleton_append,
                List.cons.injEq, Prod.mk.injEq] at h
              rw [← h.1.1] at hfirst
              have := regname_inj hname hfirst
              omega

/-- A write to registers without a name publishes nothing. -/
theorem valuesPublished_unmapped :
    ValuesPublished Database.initial (fun _ => 0) (fun _ => 0)
      ⟨0x0102, 1, 0x200, .write [1, 2] (by decide)⟩ [1, 2] :=
  (valuesPublished_iff _ _ _ rfl).mpr (Or.inr ⟨by decide, by decide⟩)

/-- A value for the register `r0` is published for `r1`, and its low byte only. -/
theorem value_misdirected :
    (procMdb Database.initial (fun _ => 0) (Bytes.write (fun _ => 0) 0 writeOne.encode)).map
        MdbReply.published = some [("r1", 0x34)] ∧
      publishedAt writeOne.start.toNat [0x1234] = [("r0", 0x1234)] ∧
      ¬ ValuesPublished Database.initial (fun _ => 0) (fun _ => 0) writeOne [0x1234] := by
  refine ⟨by decide, by decide, ?_⟩
  rw [ValuesPublished]
  decide

end Modbus
end MatrixBin
