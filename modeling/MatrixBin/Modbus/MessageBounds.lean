import MatrixBin.Modbus.Connection

/-!
# The bytes behind a message (`proc_mdb_msg`)

Nothing compares the size of a message with the buffer that it is read into, nor with the
positions that `proc_mdb` looks at, and nothing compares the first register and the number of
registers with `rt_db` or with what `serialize_db` has written there.

`messageSafe_iff` says which messages keep all accesses inside the arrays and inside the
message, `sameReply_iff` for which read requests the reply is determined by the message and
the database.
-/

namespace MatrixBin
namespace Modbus

open Library

/-! ### What is read of a message -/

/-- A message, with zeros behind it. -/
def received (msg : List UInt8) : Bytes := fun i => msg.getD i 0

/-- The positions of `mdb_buf` that `proc_mdb` reads. -/
def mdbReads (buf : Bytes) : List Nat :=
  [9, 8, 11, 7] ++
    if buf 7 = 0x10 then (List.range (2 * (numRegs buf).toNat)).map fun i => 13 + i else []

/-- The positions that `proc_mdb_msg` interprets of a message of this length. -/
def messageReads (buf : Bytes) (len : Nat) : List Nat :=
  if len < 7 then [] else if bytesField buf < 6 then [5] else 5 :: mdbReads buf

/-- Everything that happens to a message happens inside the arrays and inside the message, and
`write` is asked for 0 to 256 bytes. -/
structure MessageSafe (round : Round) (msg : List UInt8) : Prop where
  read : msg.length ≤ mdbBufSize
  interpreted : ∀ i ∈ messageReads (round.mdbBuf.write 0 msg) msg.length, i < msg.length
  asked :
    ¬ (msg.length < 7 ∨ bytesField (round.mdbBuf.write 0 msg) < 6) →
      ∃ reply, procMdb round.db round.rtDb (round.mdbBuf.write 0 msg) = some reply ∧
        0 ≤ reply.size ∧ reply.size ≤ mdbBufSize
  answered :
    ∃ written published, procMdbMsg round msg = some (written, published) ∧
      ∀ w ∈ written, w.length ≤ mdbBufSize

/-- A read whose registers lie in `rt_db`; a number of registers below 0 copies none. -/
def ReadInside (db : Database) (buf : Bytes) : Prop :=
  db.regs ≤ 120 ∧ (numRegs buf ≤ 0 ∨ (reg0 buf : ℤ) + numRegs buf ≤ 120)

instance (db : Database) (buf : Bytes) : Decidable (ReadInside db buf) :=
  inferInstanceAs (Decidable (_ ∧ _))

/-- A read whose registers lie in `rt_db`, with a size that is not negative. -/
def ReadFits (db : Database) (buf : Bytes) : Prop :=
  db.regs ≤ 120 ∧ -4 ≤ numRegs buf ∧
    (numRegs buf ≤ 0 ∨ (reg0 buf : ℤ) + numRegs buf ≤ 120)

instance (db : Database) (buf : Bytes) : Decidable (ReadFits db buf) :=
  inferInstanceAs (Decidable (_ ∧ _ ∧ _))

/-- A message that does no harm: it fits the buffer and is refused, or it is a whole header with
a read that fits or a write with all its values. -/
def SafeMessage (db : Database) (msg : List UInt8) : Prop :=
  msg.length ≤ mdbBufSize ∧
    (msg.length < 7 ∨ bytesField (received msg) < 6 ∨
      (12 ≤ msg.length ∧
        ((received msg 7 = 0x04 ∧ ReadFits db (received msg)) ∨
          (received msg 7 = 0x10 ∧
            (numRegs (received msg) ≤ 0 ∨ 13 + 2 * numRegs (received msg) ≤ msg.length)))))

section Received

variable {m : Bytes} {msg : List UInt8}

theorem write_received
    {i : Nat}
    (hi : i < msg.length) :
    m.write 0 msg i = received msg i := by
  rw [Bytes.write_apply, if_pos (Nat.zero_le i), Nat.sub_zero, received, List.getD_eq_getElem?_getD,
    List.getElem?_eq_getElem hi, Option.getD_some, Option.getD_some]

theorem bytesField_write
    (h : 7 ≤ msg.length) :
    bytesField (m.write 0 msg) = bytesField (received msg) := by
  rw [bytesField, write_received (by omega), bytesField]

theorem numRegs_write
    (h : 12 ≤ msg.length) :
    numRegs (m.write 0 msg) = numRegs (received msg) := by
  rw [numRegs, write_received (by omega), numRegs]

theorem reg0_write
    (h : 12 ≤ msg.length) :
    reg0 (m.write 0 msg) = reg0 (received msg) := by
  rw [reg0, write_received (by omega), write_received (by omega), reg0]

theorem readInside_write
    (db : Database)
    (h : 12 ≤ msg.length) :
    ReadInside db (m.write 0 msg) ↔ ReadInside db (received msg) := by
  rw [ReadInside, numRegs_write h, reg0_write h, ReadInside]

theorem readFits_iff
    {db : Database} :
    ReadFits db m ↔ ReadInside db m ∧ -4 ≤ numRegs m := by
  rw [ReadFits, ReadInside, and_comm (a := -4 ≤ numRegs m), ← and_assoc]

/-- What is too short or has a small length field is so whatever lies behind it. -/
theorem refused_write :
    (msg.length < 7 ∨ bytesField (m.write 0 msg) < 6) ↔
      (msg.length < 7 ∨ bytesField (received msg) < 6) := by
  by_cases hshort : msg.length < 7
  · exact iff_of_true (Or.inl hshort) (Or.inl hshort)
  · rw [bytesField_write (Nat.le_of_not_lt hshort)]

end Received

/-- `proc_mdb` looks at no other position. -/
theorem procMdb_reads_only
    (db : Database)
    (rtDb : Bytes)
    {buf buf' : Bytes}
    (h : ∀ i ∈ mdbReads buf, buf i = buf' i) :
    (procMdb db rtDb buf).map (fun reply => (reply.size, reply.published)) =
      (procMdb db rtDb buf').map fun reply => (reply.size, reply.published) := by
  have hfunc : buf 7 = buf' 7 := h 7 (by simp [mdbReads])
  have hcount : numRegs buf = numRegs buf' := by
    rw [numRegs, h 11 (by simp [mdbReads]), numRegs]
  have hreg0 : reg0 buf = reg0 buf' := by
    rw [reg0, h 8 (by simp [mdbReads]), h 9 (by simp [mdbReads]), reg0]
  rw [procMdb, procMdb, ← hfunc]
  split
  · rw [procRead_spec, procRead_spec, hcount, hreg0]
    split <;> rfl
  · split
    next hwrite =>
      have hvalues : writtenValues buf = writtenValues buf' := by
        rw [writtenValues, writtenValues, ← hcount]
        refine List.map_congr_left fun i hi => ?_
        have hmem (j : Nat) (hj : j < 2 * (numRegs buf).toNat) : 13 + j ∈ mdbReads buf := by
          simp [mdbReads, hwrite, hj]
        rw [List.mem_range] at hi
        rw [h _ (hmem (2 * i) (by omega)), Nat.add_assoc 13, h _ (hmem (2 * i + 1) (by omega))]
      rw [procWrite_spec, procWrite_spec, hcount, hreg0, hvalues]
      split <;> rfl
    next => rfl

/-! ### What a message comes to -/

section OneMessage

variable {round : Round} {msg : List UInt8}

theorem procMdbMsg_overlong
    (h : ¬ msg.length ≤ mdbBufSize) :
    procMdbMsg round msg = none := by
  rw [procMdbMsg, store, Nat.zero_add, if_neg h]
  rfl

theorem procMdbMsg_refused
    (hlen : msg.length ≤ mdbBufSize)
    (h : msg.length < 7 ∨ bytesField (round.mdbBuf.write 0 msg) < 6) :
    procMdbMsg round msg = some (none, []) := by
  have hstore : store mdbBufSize round.mdbBuf 0 msg = some (round.mdbBuf.write 0 msg) :=
    store_eq (by omega)
  simp [procMdbMsg, hstore, h]

/-- What `proc_mdb` does with the three kinds of function codes. -/
theorem procMdb_spec
    (db : Database)
    (rtDb buf : Bytes) :
    procMdb db rtDb buf =
      if buf 7 = 0x04 then
        if ReadInside db buf then some ⟨readReply db rtDb buf, 2 * numRegs buf + 9, []⟩ else none
      else if buf 7 = 0x10 then
        if 13 + 2 * numRegs buf ≤ 256 then
          some ⟨buf, 12, (writtenValues buf).filterMap fun val => toMqtt (reg0 buf + 1) val⟩
        else none
      else none := by
  rw [procMdb, procRead_spec, procWrite_spec]
  rfl

/-- What a message that is not refused comes to: a read of less than -4 registers asks `write`
for a negative number of bytes. -/
theorem procMdbMsg_accepted
    {buf : Bytes}
    (hbuf : round.mdbBuf.write 0 msg = buf)
    (hlen : msg.length ≤ mdbBufSize)
    (h : ¬ (msg.length < 7 ∨ bytesField buf < 6)) :
    procMdbMsg round msg =
      if buf 7 = 0x04 then
        if ReadInside round.db buf then
          some
            (if numRegs buf < -4 then none
              else some ((readReply round.db round.rtDb buf).read 0 (2 * numRegs buf + 9).toNat),
              [])
        else none
      else if buf 7 = 0x10 then
        if 13 + 2 * numRegs buf ≤ 256 then
          some
            (some (buf.read 0 12),
              (writtenValues buf).filterMap fun val => toMqtt (reg0 buf + 1) val)
        else none
      else none := by
  have hstore : store mdbBufSize round.mdbBuf 0 msg = some buf := by
    rw [store_eq (by omega), hbuf]
  have hbounds := numRegs_bounds buf
  rw [procMdbMsg, hstore]
  simp only [Option.bind_eq_bind, Option.bind_some, if_neg h, procMdb_spec]
  split
  · by_cases hinside : ReadInside round.db buf
    · rw [if_pos hinside, if_pos hinside, Option.bind_some]
      simp only
      by_cases hnegative : numRegs buf < -4
      · rw [if_pos hnegative, if_pos (by omega)]
        rfl
      · have hload (m : Bytes) : load mdbBufSize m 0 (2 * numRegs buf + 9).toNat =
            some (m.read 0 (2 * numRegs buf + 9).toNat) := by
          have := hinside.2
          exact if_pos (by rw [mdbBufSize]; omega)
        rw [if_neg hnegative, if_neg (by omega), hload, Option.bind_some]
        rfl
    · rw [if_neg hinside, if_neg hinside, Option.bind_none]
  · split
    · by_cases hvalues : 13 + 2 * numRegs buf ≤ 256
      · rw [if_pos hvalues, if_pos hvalues, Option.bind_some]
        rfl
      · rw [if_neg hvalues, if_neg hvalues, Option.bind_none]
    · rfl

end OneMessage

section Safety

variable {round : Round} {msg : List UInt8}

/-- A refused message is read up to its length field at most. -/
theorem messageSafe_refused
    (hlen : msg.length ≤ mdbBufSize)
    (h : msg.length < 7 ∨ bytesField (received msg) < 6) :
    MessageSafe round msg := by
  have hwrite := (refused_write (m := round.mdbBuf)).mpr h
  refine ⟨hlen, ?_, fun hnot => absurd hwrite hnot, none, [], procMdbMsg_refused hlen hwrite,
    by simp⟩
  intro i hi
  rw [messageReads] at hi
  split at hi
  · exact absurd hi List.not_mem_nil
  · rw [if_pos (hwrite.resolve_left ‹_›)] at hi
    rw [List.mem_singleton.mp hi]
    omega

/-- The positions that are read of a message that is not refused. -/
theorem mem_messageReads
    {buf : Bytes}
    {len i : Nat}
    (h : ¬ (len < 7 ∨ bytesField buf < 6)) :
    i ∈ messageReads buf len ↔
      i = 5 ∨ i = 9 ∨ i = 8 ∨ i = 11 ∨ i = 7 ∨
        (buf 7 = 0x10 ∧ ∃ j, j < 2 * (numRegs buf).toNat ∧ 13 + j = i) := by
  rw [not_or] at h
  rw [messageReads, if_neg h.1, if_neg h.2, mdbReads]
  split
  next hwrite => simp [hwrite]
  next hother => simp [hother]

/-- Of a whole header only the values of a write may be missing. -/
theorem interpreted_iff
    {m : Bytes}
    (h : ¬ (msg.length < 7 ∨ bytesField (received msg) < 6))
    (hheader : 12 ≤ msg.length) :
    (∀ i ∈ messageReads (m.write 0 msg) msg.length, i < msg.length) ↔
      (received msg 7 = 0x10 →
        numRegs (received msg) ≤ 0 ∨ 13 + 2 * numRegs (received msg) ≤ msg.length) := by
  have hmem (i : Nat) := @mem_messageReads _ _ i (mt (refused_write (m := m)).mp h)
  simp only [hmem, write_received (m := m) (by omega : 7 < msg.length), numRegs_write hheader]
  constructor
  · intro hinside hwrite
    by_contra hvalues
    have hlast := hinside (13 + (2 * (numRegs (received msg)).toNat - 1))
      (Or.inr (Or.inr (Or.inr (Or.inr (Or.inr ⟨hwrite, _, by omega, rfl⟩)))))
    omega
  · intro hvalues i hi
    rcases hi with rfl | rfl | rfl | rfl | rfl | ⟨hwrite, j, hj, rfl⟩
    · omega
    · omega
    · omega
    · omega
    · omega
    · have := hvalues hwrite
      omega

/-- `write` is asked for 0 to 256 bytes of a whole header if it is a read that fits or a write
with values in the buffer. -/
theorem asked_iff
    {m rtDb : Bytes}
    (db : Database)
    (hheader : 12 ≤ msg.length) :
    (∃ reply, procMdb db rtDb (m.write 0 msg) = some reply ∧
        0 ≤ reply.size ∧ reply.size ≤ mdbBufSize) ↔
      (received msg 7 = 0x04 ∧ ReadFits db (received msg)) ∨
        (received msg 7 = 0x10 ∧ 13 + 2 * numRegs (received msg) ≤ 256) := by
  have hbounds := numRegs_bounds (received msg)
  have hspec := procMdb_spec db rtDb (m.write 0 msg)
  rw [write_received (by omega), numRegs_write hheader] at hspec
  simp only [readInside_write db hheader] at hspec
  rw [hspec, mdbBufSize]
  by_cases hread : received msg 7 = 0x04
  · have hnowrite : received msg 7 ≠ 0x10 := by
      rw [hread]
      decide
    rw [if_pos hread, readFits_iff]
    by_cases hinside : ReadInside db (received msg)
    · have hcount := hinside.2
      simp only [hinside, if_true, Option.some.injEq, exists_eq_left', hread, true_and]
      constructor
      · exact fun hsize => Or.inl (by omega)
      · rintro (hsize | hwrite)
        · omega
        · exact absurd hwrite.1 (by decide)
    · simp [hinside, hnowrite]
  · rw [if_neg hread]
    by_cases hwrite : received msg 7 = 0x10 ∧ 13 + 2 * numRegs (received msg) ≤ 256
    · rw [if_pos hwrite.1, if_pos hwrite.2]
      exact iff_of_true ⟨_, rfl, by simp, by simp⟩ (Or.inr hwrite)
    · refine iff_of_false ?_ ?_
      · rintro ⟨reply, hreply, -⟩
        split at hreply
        next hfunc =>
          rw [if_neg fun hvalues => hwrite ⟨hfunc, hvalues⟩] at hreply
          cases hreply
        next => cases hreply
      · rintro (hfits | hvalues)
        · exact hread hfits.1
        · exact hwrite hvalues

/-- A message whose reply has 0 to 256 bytes is answered with them. -/
theorem answered_of_asked
    {reply : MdbReply}
    (hlen : msg.length ≤ mdbBufSize)
    (h : ¬ (msg.length < 7 ∨ bytesField (round.mdbBuf.write 0 msg) < 6))
    (hreply : procMdb round.db round.rtDb (round.mdbBuf.write 0 msg) = some reply)
    (hsize : 0 ≤ reply.size ∧ reply.size ≤ mdbBufSize) :
    ∃ written published, procMdbMsg round msg = some (written, published) ∧
      ∀ w ∈ written, w.length ≤ mdbBufSize := by
  have hstore : store mdbBufSize round.mdbBuf 0 msg = some (round.mdbBuf.write 0 msg) :=
    store_eq (by omega)
  have hload : load mdbBufSize reply.buf 0 reply.size.toNat =
      some (reply.buf.read 0 reply.size.toNat) :=
    if_pos (by omega)
  have hanswer : procMdbMsg round msg =
      some (some (reply.buf.read 0 reply.size.toNat), reply.published) := by
    rw [procMdbMsg, hstore]
    simp only [Option.bind_eq_bind, Option.bind_some, if_neg h, hreply,
      if_neg (Int.not_lt.mpr hsize.1), hload]
    rfl
  refine ⟨_, _, hanswer, fun w hw => ?_⟩
  rw [← Option.some.inj hw, Bytes.length_read]
  omega

end Safety

/-- **The bounds of a message.**  A message is read, interpreted and answered inside the arrays
and inside its own bytes exactly if it does no harm. -/
theorem messageSafe_iff
    (round : Round)
    (msg : List UInt8) :
    MessageSafe round msg ↔ SafeMessage round.db msg := by
  by_cases hlen : msg.length ≤ mdbBufSize
  swap
  · exact iff_of_false (fun h => hlen h.read) fun h => hlen h.1
  by_cases hrefused : msg.length < 7 ∨ bytesField (received msg) < 6
  · exact iff_of_true (messageSafe_refused hlen hrefused)
      ⟨hlen, hrefused.imp_right Or.inl⟩
  have haccepted : SafeMessage round.db msg ↔
      12 ≤ msg.length ∧
        ((received msg 7 = 0x04 ∧ ReadFits round.db (received msg)) ∨
          (received msg 7 = 0x10 ∧
            (numRegs (received msg) ≤ 0 ∨ 13 + 2 * numRegs (received msg) ≤ msg.length))) := by
    rw [SafeMessage, ← or_assoc, or_iff_right hrefused, and_iff_right hlen]
  rw [haccepted]
  by_cases hheader : 12 ≤ msg.length
  swap
  · refine iff_of_false (fun h => hheader ?_) fun h => hheader h.1
    have helevenAt := h.interpreted 11
      ((mem_messageReads (mt refused_write.mp hrefused)).mpr
        (Or.inr (Or.inr (Or.inr (Or.inl rfl)))))
    omega
  have hinterpreted := interpreted_iff (m := round.mdbBuf) hrefused hheader
  have hnot := mt (refused_write (m := round.mdbBuf)).mp hrefused
  have hasked := @asked_iff msg round.mdbBuf round.rtDb round.db hheader
  have hanswered {reply : MdbReply} := @answered_of_asked round msg reply hlen hnot
  have hbuf : (msg.length : ℤ) ≤ 256 := by
    rw [mdbBufSize] at hlen
    omega
  constructor
  · intro h
    refine ⟨hheader, ?_⟩
    rcases hasked.mp (h.asked hnot) with hread | ⟨hwrite, -⟩
    · exact Or.inl hread
    · exact Or.inr ⟨hwrite, hinterpreted.mp h.interpreted hwrite⟩
  · rintro ⟨-, ⟨hread, hfits⟩ | ⟨hwrite, hvalues⟩⟩
    · obtain ⟨reply, hreply, hsize⟩ := hasked.mpr (Or.inl ⟨hread, hfits⟩)
      refine ⟨hlen, hinterpreted.mpr fun hwrite => ?_, fun _ => ⟨reply, hreply, hsize⟩,
        hanswered hreply hsize⟩
      rw [hread] at hwrite
      exact absurd hwrite (by decide)
    · obtain ⟨reply, hreply, hsize⟩ := hasked.mpr (Or.inr ⟨hwrite, by omega⟩)
      exact ⟨hlen, hinterpreted.mpr fun _ => hvalues, fun _ => ⟨reply, hreply, hsize⟩,
        hanswered hreply hsize⟩

/-- A read of one register, the last one that an address can name. -/
def lastRegister : List UInt8 := [1, 2, 0, 0, 0, 6, 1, 4, 0xff, 0xff, 0, 1]

/-- It reads behind `rt_db`, its first seven bytes alone are taken for a request with a function
code, and 257 bytes do not fit the buffer. -/
theorem messages_out_of_bounds :
    procMdbMsg quiet lastRegister = none ∧ ¬ MessageSafe quiet lastRegister ∧
      ¬ MessageSafe quiet (lastRegister.take 7) ∧
      ¬ MessageSafe quiet (List.replicate 257 0) := by
  have hbeyond : procMdbMsg quiet lastRegister = none := by
    rw [procMdbMsg_accepted rfl (by decide) (by decide)]
    decide
  refine ⟨hbeyond, fun h => ?_, fun h => ?_, fun h => ?_⟩
  · obtain ⟨written, published, hanswer, -⟩ := h.answered
    rw [hbeyond] at hanswer
    exact absurd hanswer (by simp)
  · exact absurd (h.interpreted 11 (by decide)) (by decide)
  · exact absurd h.read (by rw [List.length_replicate]; decide)

/-! ### What a reply is made of -/

/-- The message comes to the same whatever the arrays held before. -/
def SameReply (db : Database) (msg : List UInt8) : Prop :=
  ∃ out, ∀ rtDb mdbBuf, procMdbMsg ⟨db, rtDb, mdbBuf⟩ msg = some out

/-- A message with the function code of a read. -/
def IsReadMessage (msg : List UInt8) : Prop := 8 ≤ msg.length ∧ received msg 7 = 0x04

/-- The registers that were asked for are among those that `serialize_db` writes. -/
def ReadDetermined (db : Database) (buf : Bytes) : Prop :=
  db.regs ≤ 120 ∧ (numRegs buf ≤ 0 ∨ (reg0 buf : ℤ) + numRegs buf ≤ db.regs)

section Determined

variable {db : Database} {buf buf' rtDb rtDb' : Bytes}

/-- The bytes of a reply agree if the header and the registers do. -/
theorem readReply_read_eq
    (hheader : ∀ i, i < 9 → buf i = buf' i)
    (hcount : numRegs buf = numRegs buf')
    (hregs : swappedBytes (rtDb.write 0 db.bytes) (2 * reg0 buf) (numRegs buf).toNat =
      swappedBytes (rtDb'.write 0 db.bytes) (2 * reg0 buf') (numRegs buf').toNat) :
    (readReply db rtDb buf).read 0 (2 * numRegs buf + 9).toNat =
      (readReply db rtDb' buf').read 0 (2 * numRegs buf' + 9).toNat := by
  rw [← hcount] at hregs ⊢
  rw [Bytes.read_eq_read_iff]
  intro i hi
  rw [Nat.zero_add, readReply_apply, readReply_apply, ← hcount, ← hregs]
  split
  · rfl
  · split
    · rfl
    · by_cases hfront : i < 9
      · rw [Bytes.write_outside (Or.inl hfront), Bytes.write_outside (Or.inl hfront),
          hheader i hfront]
      · have hin : i - 9 < (swappedBytes (rtDb.write 0 db.bytes) (2 * reg0 buf)
            (numRegs buf).toNat).length := by
          rw [length_swappedBytes]
          omega
        rw [Bytes.write_apply, Bytes.write_apply, if_pos (by omega), if_pos (by omega),
          List.getElem?_eq_getElem hin, Option.getD_some, Option.getD_some]

/-- A register behind the serialized database shows what the array held before. -/
theorem readReply_unwritten
    (hcount : 0 < numRegs buf)
    (hbehind : (db.regs : ℤ) < reg0 buf + numRegs buf) :
    readReply db rtDb buf (9 + 2 * ((numRegs buf).toNat - 1) + 1) =
      rtDb (2 * reg0 buf + 2 * ((numRegs buf).toNat - 1)) := by
  have hword := (write_swappedBytes buf (rtDb.write 0 db.bytes) 9 (2 * reg0 buf)
    (by omega : (numRegs buf).toNat - 1 < (numRegs buf).toNat)).2
  rw [readReply_apply, if_neg (by omega), if_neg (by omega), hword,
    Bytes.write_outside (Or.inr (by rw [Database.length_bytes]; omega))]

end Determined

section ReadMessage

variable {db : Database} {msg : List UInt8}

/-- What a read that is not refused comes to. -/
theorem procMdbMsg_read
    (hmsg : IsReadMessage msg)
    (hlen : msg.length ≤ mdbBufSize)
    (h : ¬ bytesField (received msg) < 6)
    (rtDb mdbBuf : Bytes) :
    procMdbMsg ⟨db, rtDb, mdbBuf⟩ msg =
      if ReadInside db (mdbBuf.write 0 msg) then
        some
          (if numRegs (mdbBuf.write 0 msg) < -4 then none
            else some
              ((readReply db rtDb (mdbBuf.write 0 msg)).read 0
                (2 * numRegs (mdbBuf.write 0 msg) + 9).toNat),
            [])
      else none := by
  obtain ⟨height, hfunc⟩ := hmsg
  have hvalid : ¬ (msg.length < 7 ∨ bytesField (mdbBuf.write 0 msg) < 6) := by
    rw [refused_write]
    omega
  have hread : mdbBuf.write 0 msg 7 = 0x04 := by rw [write_received (by omega), hfunc]
  exact (@procMdbMsg_accepted ⟨db, rtDb, mdbBuf⟩ msg _ rfl hlen hvalid).trans (if_pos hread)

/-- The number of registers of an incomplete header is a former byte of the buffer. -/
theorem SameReply.header
    (hmsg : IsReadMessage msg)
    (hlen : msg.length ≤ mdbBufSize)
    (h : ¬ bytesField (received msg) < 6)
    (hsame : SameReply db msg) :
    12 ≤ msg.length := by
  obtain ⟨out, hout⟩ := hsame
  by_contra hshort
  have hmany := hout (fun _ => 0) fun _ => 0x80
  have hnone := hout (fun _ => 0) fun _ => 0
  rw [procMdbMsg_read hmsg hlen h] at hmany hnone
  have hcount (b : UInt8) : numRegs (Bytes.write (fun _ => b) 0 msg) = b.toInt8.toInt := by
    rw [numRegs, Bytes.write_outside (Or.inr (by omega))]
  rw [hcount, if_pos (show (0x80 : UInt8).toInt8.toInt < -4 by decide)] at hmany
  rw [hcount, if_neg (show ¬ (0 : UInt8).toInt8.toInt < -4 by decide)] at hnone
  split at hmany
  next =>
    split at hnone
    next =>
      have hout := hmany.trans hnone.symm
      simp at hout
    next => exact absurd hnone (by simp)
  next => exact absurd hmany (by simp)

/-- Two former contents of `rt_db` show in the last register, if it is not written. -/
theorem SameReply.determined
    (hmsg : IsReadMessage msg)
    (hlen : msg.length ≤ mdbBufSize)
    (h : ¬ bytesField (received msg) < 6)
    (hsame : SameReply db msg) :
    ReadDetermined db (received msg) := by
  have hheader := hsame.header hmsg hlen h
  obtain ⟨out, hout⟩ := hsame
  have hzeros := hout (fun _ => 0) fun _ => 0
  have hones := hout (fun _ => 1) fun _ => 0
  rw [procMdbMsg_read hmsg hlen h] at hzeros hones
  by_cases hinside : ReadInside db (Bytes.write (fun _ => 0) 0 msg)
  swap
  · rw [if_neg hinside] at hzeros
    exact absurd hzeros (by simp)
  rw [if_pos hinside] at hzeros hones
  have hread := (readInside_write db hheader).mp hinside
  refine ⟨hread.1, ?_⟩
  by_contra hbehind
  have hpositive : ¬ numRegs (received msg) < -4 := by omega
  have hreply := hzeros.trans hones.symm
  simp only [Option.some.injEq, Prod.mk.injEq, and_true, numRegs_write hheader,
    if_neg hpositive] at hreply
  rw [Bytes.read_eq_read_iff] at hreply
  have hlast := hreply (9 + 2 * ((numRegs (received msg)).toNat - 1) + 1) (by omega)
  have hword (rtDb : Bytes) := @readReply_unwritten db (Bytes.write (fun _ => 0) 0 msg) rtDb
    (by rw [numRegs_write hheader]; omega)
    (by rw [numRegs_write hheader, reg0_write hheader]; omega)
  simp only [numRegs_write hheader] at hword
  rw [Nat.zero_add, hword, hword] at hlast
  exact absurd hlast (by decide)

/-- Registers that are all written do not depend on what the array held. -/
theorem SameReply.of_determined
    (hmsg : IsReadMessage msg)
    (hlen : msg.length ≤ mdbBufSize)
    (h : ¬ bytesField (received msg) < 6)
    (hheader : 12 ≤ msg.length)
    (hread : ReadDetermined db (received msg)) :
    SameReply db msg := by
  obtain ⟨hregs, hinside⟩ := hread
  have hfits (mdbBuf : Bytes) : ReadInside db (mdbBuf.write 0 msg) := by
    rw [readInside_write db hheader]
    exact ⟨hregs, by omega⟩
  by_cases hnegative : numRegs (received msg) < -4
  · refine ⟨(none, []), fun rtDb mdbBuf => ?_⟩
    rw [procMdbMsg_read hmsg hlen h, if_pos (hfits mdbBuf), numRegs_write hheader,
      if_pos hnegative]
  refine ⟨(some ((readReply db (fun _ => 0) (Bytes.write (fun _ => 0) 0 msg)).read 0
    (2 * numRegs (Bytes.write (fun _ => 0) 0 msg) + 9).toNat), []), fun rtDb mdbBuf => ?_⟩
  rw [procMdbMsg_read hmsg hlen h, if_pos (hfits mdbBuf),
    if_neg (by rw [numRegs_write hheader]; exact hnegative)]
  congr 3
  refine readReply_read_eq (fun i hi => ?_) ?_ ?_
  · rw [write_received (by omega), write_received (by omega)]
  · rw [numRegs_write hheader, numRegs_write hheader]
  · rw [numRegs_write hheader, numRegs_write hheader, reg0_write hheader, reg0_write hheader,
      swappedBytes_eq_iff]
    intro i hle hlt
    have hbytes := db.length_bytes
    rw [Bytes.write_apply, Bytes.write_apply, if_pos (Nat.zero_le i), if_pos (Nat.zero_le i),
      List.getElem?_eq_getElem (by omega), Option.getD_some, Option.getD_some]

end ReadMessage

/-- **The reply of a read.**  It is a function of the message and the database exactly if the
message is refused, or is a whole header that asks for registers which `serialize_db` writes. -/
theorem sameReply_iff
    (db : Database)
    {msg : List UInt8}
    (hmsg : IsReadMessage msg) :
    SameReply db msg ↔
      msg.length ≤ mdbBufSize ∧
        (bytesField (received msg) < 6 ∨
          (12 ≤ msg.length ∧ ReadDetermined db (received msg))) := by
  by_cases hlen : msg.length ≤ mdbBufSize
  swap
  · refine iff_of_false ?_ fun h => hlen h.1
    rintro ⟨out, hout⟩
    have hnone := hout (fun _ => 0) fun _ => 0
    rw [procMdbMsg_overlong hlen] at hnone
    exact absurd hnone (by simp)
  by_cases hrefused : bytesField (received msg) < 6
  · refine iff_of_true ⟨(none, []), fun rtDb mdbBuf => ?_⟩ ⟨hlen, Or.inl hrefused⟩
    exact procMdbMsg_refused hlen (refused_write.mpr (Or.inr hrefused))
  constructor
  · intro h
    exact ⟨hlen, Or.inr ⟨h.header hmsg hlen hrefused, h.determined hmsg hlen hrefused⟩⟩
  · rintro ⟨-, hsmall | ⟨hheader, hread⟩⟩
    · exact absurd hsmall hrefused
    · exact SameReply.of_determined hmsg hlen hrefused hheader hread

/-- A read of some registers from 0 on. -/
def readMessage (count : UInt8) : List UInt8 := [1, 2, 0, 0, 0, 6, 1, 4, 0, 0, 0, count]

/-- The database without a car and without seals takes eight registers. -/
theorem sameReply_eight : SameReply Database.initial (readMessage 8) :=
  (sameReply_iff Database.initial ⟨by decide, by decide⟩).mpr
    ⟨by decide, Or.inr ⟨by decide, by unfold ReadDetermined; decide⟩⟩

/-- Of 40 registers, as the protocol note asks for, the last 32 are what the stack held. -/
theorem reply_shows_stack : ¬ SameReply Database.initial (readMessage 40) := by
  rintro ⟨out, hout⟩
  have hsame := (hout (fun _ => 0) fun _ => 0).trans (hout (fun _ => 1) fun _ => 0).symm
  exact absurd hsame (by decide +kernel)

end Modbus
end MatrixBin
