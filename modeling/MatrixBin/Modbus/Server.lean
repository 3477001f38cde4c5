import MatrixBin.Modbus.Database
import Mathlib.Data.Int.Notation

/-!
# The register server (`mdb.c`)

`proc_mdb` turns a request into its reply inside one buffer of 256 bytes.  A read
(`0x04`) serializes the database into the local array `rt_db`, which is not
initialized, and copies the requested registers; a write (`0x10`) hands the values to
`to_mqtt`.  An access outside an array, or a reply whose size is never set, is `none`.
-/

namespace MatrixBin
namespace Modbus

open Library

/-- The size of `mdb_buf`. -/
def mdbBufSize : Nat := 256

/-- `reg0`, from `REG_0Lo` and `REG_0Hi`. -/
def reg0 (buf : Bytes) : Nat := (buf 9).toNat + 256 * (buf 8).toNat

/-- `num_regs=REGS_Lo(mdb_buf)`, a signed `char`. -/
def numRegs (buf : Bytes) : ℤ := (buf 11).toInt8.toInt

/-- The low byte of an `int`. -/
def lowByte (n : ℤ) : UInt8 := UInt8.ofNat (n % 256).toNat

/-- `regname` over the map `rmap`. -/
def regname (reg : Nat) : Option String :=
  if reg = 0x100 then some "r0"
  else if reg = 0x101 then some "r1"
  else if reg = 0x102 then some "r2"
  else if reg = 0x103 then some "r3"
  else none

/-- `to_mqtt`: the published key and number; the parameter is an `unsigned char`. -/
def toMqtt (reg : Nat) (val : UInt16) : Option (String × Nat) :=
  (regname reg).map (·, val.toNat % 256)

/-- The values of a write request from the position `b` on. -/
def requestValues (buf : Bytes) : Nat → Nat → Option (List UInt16)
  | 0, _ => some []
  | n + 1, b =>
      if b + 2 ≤ mdbBufSize then
        (requestValues buf n (b + 2)).map (wordOfBytes (buf (b + 1)) (buf b) :: ·)
      else none

/-- What `proc_mdb` leaves: the buffer, the size of the reply and what was published. -/
structure MdbReply where
  buf : Bytes
  size : ℤ
  published : List (String × Nat)

/-- The branch of the function code `0x04`. -/
def procRead (db : Database) (rtDb buf : Bytes) : Option MdbReply := do
  let (rtDb, _) ← serializeDb rtDb db
  let size := 2 * numRegs buf
  let buf ← copySwapped rtDbSize rtDb (2 * reg0 buf) mdbBufSize 9 (numRegs buf).toNat buf
  let buf := (buf.write 8 [lowByte size]).write 5 [lowByte (size + 3)]
  return ⟨buf, size + 3 + 6, []⟩

/-- The branch of the function code `0x10`. -/
def procWrite (buf : Bytes) : Option MdbReply := do
  let values ← requestValues buf (numRegs buf).toNat 13
  return ⟨buf, 12, values.filterMap fun val => toMqtt (reg0 buf + 1) val⟩

/-- `proc_mdb`, with the former contents of `rt_db`. -/
def procMdb (db : Database) (rtDb buf : Bytes) : Option MdbReply :=
  if buf 7 = 0x04 then procRead db rtDb buf
  else if buf 7 = 0x10 then procWrite buf
  else none

/-! ### What the branches do -/

/-- A byte as a signed `char`. -/
theorem toInt8_toInt
    (b : UInt8) :
    b.toInt8.toInt = if b.toNat < 128 then (b.toNat : ℤ) else (b.toNat : ℤ) - 256 := by
  change b.toBitVec.toInt = if b.toBitVec.toNat < 128 then _ else _
  rw [BitVec.toInt_eq_toNat_cond]
  split
  next h => exact (if_pos (by omega)).symm
  next h => exact (if_neg (by omega)).symm

theorem numRegs_bounds (buf : Bytes) : -128 ≤ numRegs buf ∧ numRegs buf ≤ 127 := by
  have hlt := (buf 11).toNat_lt
  rw [numRegs, toInt8_toInt]
  split <;> omega

theorem lowByte_natCast
    {n : Nat}
    (h : n < 256) :
    lowByte n = UInt8.ofNat n := by
  have hmod : ((n : ℤ) % 256).toNat = n := by omega
  rw [lowByte, hmod]

/-- The buffer behind a read: the registers, their number of bytes and the length field. -/
def readReply (db : Database) (rtDb buf : Bytes) : Bytes :=
  ((buf.write 9
      (swappedBytes (rtDb.write 0 db.bytes) (2 * reg0 buf) (numRegs buf).toNat)).write 8
        [lowByte (2 * numRegs buf)]).write 5 [lowByte (2 * numRegs buf + 3)]

theorem readReply_apply
    (db : Database)
    (rtDb buf : Bytes)
    (i : Nat) :
    readReply db rtDb buf i =
      if i = 5 then lowByte (2 * numRegs buf + 3)
      else if i = 8 then lowByte (2 * numRegs buf)
      else
        buf.write 9
          (swappedBytes (rtDb.write 0 db.bytes) (2 * reg0 buf) (numRegs buf).toNat) i := by
  have hwrite (m : Bytes) (off : Nat) (b : UInt8) :
      m.write off [b] i = if i = off then b else m i := by
    split
    next heq => simp [heq, Bytes.write_apply]
    next hne => exact Bytes.write_outside (by simp only [List.length_singleton]; omega)
  rw [readReply, hwrite, hwrite]

/-- A read stays inside its arrays if the database and the registers fit `rt_db`. -/
theorem procRead_spec
    (db : Database)
    (rtDb buf : Bytes) :
    procRead db rtDb buf =
      if db.regs ≤ 120 ∧ (numRegs buf ≤ 0 ∨ (reg0 buf : ℤ) + numRegs buf ≤ 120) then
        some ⟨readReply db rtDb buf, 2 * numRegs buf + 9, []⟩
      else none := by
  have hcondition : ((numRegs buf).toNat = 0 ∨
      (2 * reg0 buf + 2 * (numRegs buf).toNat ≤ rtDbSize ∧
        9 + 2 * (numRegs buf).toNat ≤ mdbBufSize)) ↔
      (numRegs buf ≤ 0 ∨ (reg0 buf : ℤ) + numRegs buf ≤ 120) := by
    rw [rtDbSize, mdbBufSize]
    omega
  have hsize : 2 * numRegs buf + 3 + 6 = 2 * numRegs buf + 9 := by omega
  rw [procRead, serializeDb_spec]
  by_cases hregs : db.regs ≤ 120
  · simp only [hregs, if_true, Option.bind_eq_bind, Option.bind_some, copySwapped_spec, hcondition,
      true_and]
    split
    · rw [Option.bind_some, hsize]
      rfl
    · rfl
  · simp [hregs]

/-- The values of a write, if they lie in the buffer. -/
theorem requestValues_spec
    (buf : Bytes)
    {n b : Nat}
    (hb : b ≤ mdbBufSize) :
    requestValues buf n b =
      if b + 2 * n ≤ mdbBufSize then
        some ((List.range n).map fun i =>
          wordOfBytes (buf (b + 2 * i + 1)) (buf (b + 2 * i)))
      else none := by
  induction n generalizing b with
  | zero => exact (if_pos hb).symm
  | succ n ih =>
      rw [requestValues]
      by_cases hfirst : b + 2 ≤ mdbBufSize
      · have hindex (i : Nat) : b + 2 + 2 * i = b + 2 * (i + 1) := by omega
        rw [if_pos hfirst, ih hfirst]
        simp only [hindex]
        split
        · rw [Option.map_some, List.range_succ_eq_map, List.map_cons, List.map_map]
          rfl
        · rfl
      · rw [if_neg hfirst, if_neg (by omega)]

/-- The values of a write request. -/
def writtenValues (buf : Bytes) : List UInt16 :=
  (List.range (numRegs buf).toNat).map fun i =>
    wordOfBytes (buf (13 + 2 * i + 1)) (buf (13 + 2 * i))

theorem procWrite_spec
    (buf : Bytes) :
    procWrite buf =
      if 13 + 2 * numRegs buf ≤ 256 then
        some ⟨buf, 12, (writtenValues buf).filterMap fun val => toMqtt (reg0 buf + 1) val⟩
      else none := by
  have hcondition : 13 + 2 * (numRegs buf).toNat ≤ mdbBufSize ↔ 13 + 2 * numRegs buf ≤ 256 := by
    rw [mdbBufSize]
    omega
  rw [procWrite, requestValues_spec buf (by decide)]
  simp only [hcondition]
  split
  · rfl
  · rfl

/-- A request for the registers from 0 on, as far as the server looks at it. -/
structure IsReadRequest (buf : Bytes) (count : Nat) : Prop where
  func_eq : buf 7 = 0x04
  reg0Hi_eq : buf 8 = 0
  reg0Lo_eq : buf 9 = 0
  regsLo_eq : (buf 11).toNat = count

theorem IsReadRequest.numRegs_eq
    {buf : Bytes}
    {count : Nat}
    (h : IsReadRequest buf count)
    (hcount : count ≤ 120) :
    numRegs buf = count := by
  have hlt : (buf 11).toNat < 128 := by
    have := h.regsLo_eq
    omega
  rw [numRegs, toInt8_toInt, if_pos hlt, h.regsLo_eq]

/-- The reply to a read: the registers of the serialized database, high byte first. -/
theorem procMdb_read
    {db : Database}
    {buf : Bytes}
    {count : Nat}
    (rtDb : Bytes)
    (hreq : IsReadRequest buf count)
    (hcount : count ≤ 120)
    (hsize : db.regs ≤ 120) :
    ∃ (rtDb' : Bytes) (reply : MdbReply), procMdb db rtDb buf = some reply ∧ rtDb'.Holds 0 db.bytes ∧
      reply.size = 2 * count + 9 ∧ (reply.buf 8).toNat = 2 * count ∧
      ∀ k, k < count → reply.buf (9 + 2 * k) = rtDb' (2 * k + 1) ∧
        reply.buf (9 + 2 * k + 1) = rtDb' (2 * k) := by
  have hregs := hreq.numRegs_eq hcount
  have hreg0 : reg0 buf = 0 := by
    simp [reg0, hreq.reg0Hi_eq, hreq.reg0Lo_eq]
  have hread : procMdb db rtDb buf =
      some ⟨readReply db rtDb buf, 2 * (count : ℤ) + 9, []⟩ := by
    rw [procMdb, if_pos hreq.func_eq, procRead_spec, hregs, hreg0]
    exact if_pos ⟨hsize, Or.inr (by omega)⟩
  have hbytes : (readReply db rtDb buf 8).toNat = 2 * count := by
    have hlow : lowByte (2 * (count : ℤ)) = UInt8.ofNat (2 * count) :=
      lowByte_natCast (n := 2 * count) (by omega)
    rw [readReply_apply, if_neg (by decide), if_pos rfl, hregs, hlow]
    exact UInt8.toNat_ofNat_of_lt' (by change _ < 256; omega)
  refine ⟨rtDb.write 0 db.bytes, _, hread, Bytes.holds_write, rfl, hbytes, ?_⟩
  intro k hk
  have hpast (i : Nat) (hi : 9 ≤ i) : readReply db rtDb buf i =
      buf.write 9 (swappedBytes (rtDb.write 0 db.bytes) (2 * 0) count) i := by
    rw [readReply_apply, if_neg (by omega), if_neg (by omega), hregs, hreg0]
    rfl
  have hword := write_swappedBytes buf (rtDb.write 0 db.bytes) 9 (2 * 0) hk
  rw [Nat.mul_zero, Nat.zero_add] at hword
  rw [← hpast _ (by omega), ← hpast _ (by omega)] at hword
  exact hword

end Modbus
end MatrixBin
