import MatrixBin.Library.ByteBuffer
import Mathlib.Algebra.GroupWithZero.Nat

/-!
# The register database and its serialization (`prot.h`, `serialize.c`)

`serialize_db` writes the weights, the car and the seals one after the other into an
array of 120 registers; `pack_str` writes a string as the number of its registers and
its bytes.  The array is in memory as bytes, each register with its low byte first.

`serializeDb_spec` gives the bytes that `serialize_db` writes at the beginning of the
array, and `serializeDb_inside_iff` says which databases fit it.
-/

namespace MatrixBin
namespace Modbus

open Library

/-- A terminated string in `char id[32]`. -/
structure IdString where
  bytes : List UInt8
  length_le : bytes.length ≤ 31
  no_nul : 0 ∉ bytes

/-- `car_t`; `qu` is the quality word, and the field `regs` is not used. -/
structure Car where
  qu : UInt16
  id : IdString

/-- `seal_t` -/
structure Seal where
  num : UInt16
  qu : UInt16
  id : IdString

/-- The variables `wgt`, `car`, `seals_count` and `seal[6]`. -/
structure Database where
  wgt : Vector UInt16 5
  car : Car
  seals : List Seal
  seals_le : seals.length ≤ 6

def IdString.empty : IdString := ⟨[], by decide, by decide⟩

/-- The variables before the first message about them. -/
def Database.initial : Database := ⟨#v[0, 0, 0, 0, 0], ⟨0, IdString.empty⟩, [], by decide⟩

/-- The size of `unsigned short rt_db[120]` in bytes. -/
def rtDbSize : Nat := 240

/-- `msg[pos]=w` -/
def setReg (m : Bytes) (pos : Nat) (w : UInt16) : Option Bytes :=
  store rtDbSize m (2 * pos) (wordBytes w)

/-- The registers that a string of this length takes, its count left out. -/
def idRegs (len : Nat) : Nat :=
  let regs := len / 2
  if 2 * regs < len then regs + 1 else regs

/-- `pack_str` at the register `dst`. -/
def packStr (m : Bytes) (dst : Nat) (src : List UInt8) : Option (Bytes × Nat) :=
  if src.length = 0 then (setReg m dst 0).map (·, 1)
  else do
    let regs := idRegs src.length
    let m ← setReg m dst (UInt16.ofNat regs)
    let m ← setReg m (dst + regs) 0
    let m ← store rtDbSize m (2 * dst + 2) src
    return (m, regs + 1)

/-- The loop `msg[i]=wgt.d[i]`, from the register `pos` on. -/
def serializeRegs : Bytes → Nat → List UInt16 → Option (Bytes × Nat)
  | m, pos, [] => some (m, pos)
  | m, pos, w :: rest => do
      let m ← setReg m pos w
      serializeRegs m (pos + 1) rest

/-- The loop over the seals, from the register `pos` on. -/
def serializeSeals : Bytes → Nat → List Seal → Option (Bytes × Nat)
  | m, pos, [] => some (m, pos)
  | m, pos, se :: rest => do
      let m ← setReg m pos se.num
      let m ← setReg m (pos + 1) se.qu
      let (m, n) ← packStr m (pos + 2) se.id.bytes
      serializeSeals m (pos + 2 + n) rest

/-- `serialize_db`: the array and the number of registers. -/
def serializeDb (m : Bytes) (db : Database) : Option (Bytes × Nat) := do
  let (m, pos) ← serializeRegs m 0 db.wgt.toList
  let m ← setReg m pos db.car.qu
  let (m, n) ← packStr m (pos + 1) db.car.id.bytes
  let pos := pos + 1 + n
  let m ← setReg m pos (UInt16.ofNat db.seals.length)
  serializeSeals m (pos + 1) db.seals

/-! ### The serialized bytes -/

/-- The count of a string, its bytes, and a zero behind an odd number of them. -/
def idBytes (s : List UInt8) : List UInt8 :=
  wordBytes (UInt16.ofNat (idRegs s.length)) ++
    (s ++ List.replicate (2 * idRegs s.length - s.length) 0)

def sealBytes (se : Seal) : List UInt8 :=
  wordBytes se.num ++ (wordBytes se.qu ++ idBytes se.id.bytes)

def sealsBytes (seals : List Seal) : List UInt8 := seals.flatMap sealBytes

/-- The bytes of the weights and the car. -/
def Database.carBytes (db : Database) : List UInt8 :=
  db.wgt.toList.flatMap wordBytes ++ (wordBytes db.car.qu ++ idBytes db.car.id.bytes)

def Database.bytes (db : Database) : List UInt8 :=
  db.carBytes ++ (wordBytes (UInt16.ofNat db.seals.length) ++ sealsBytes db.seals)

def Seal.regs (se : Seal) : Nat := 3 + idRegs se.id.bytes.length

/-- The registers that the database takes. -/
def Database.regs (db : Database) : Nat :=
  8 + idRegs db.car.id.bytes.length + (db.seals.map Seal.regs).sum

theorem idRegs_bounds
    (len : Nat) :
    len ≤ 2 * idRegs len ∧ 2 * idRegs len ≤ len + 1 := by
  simp only [idRegs]
  split <;> omega

theorem length_idBytes
    (s : List UInt8) :
    (idBytes s).length = 2 * (idRegs s.length + 1) := by
  have := idRegs_bounds s.length
  simp only [idBytes, List.length_append, length_wordBytes, List.length_replicate]
  omega

theorem length_sealBytes
    (se : Seal) :
    (sealBytes se).length = 2 * se.regs := by
  simp only [sealBytes, List.length_append, length_wordBytes, length_idBytes, Seal.regs]
  omega

theorem length_sealsBytes
    (seals : List Seal) :
    (sealsBytes seals).length = 2 * (seals.map Seal.regs).sum := by
  induction seals with
  | nil => rfl
  | cons se rest ih =>
      rw [sealsBytes] at ih ⊢
      rw [List.flatMap_cons, List.length_append, ih, length_sealBytes, List.map_cons,
        List.sum_cons]
      omega

theorem length_flatMap_wordBytes
    (ws : List UInt16) :
    (ws.flatMap wordBytes).length = 2 * ws.length := by
  induction ws with
  | nil => rfl
  | cons w rest ih =>
      simp only [List.flatMap_cons, List.length_append, ih, length_wordBytes, List.length_cons]
      omega

theorem Database.length_carBytes
    (db : Database) :
    db.carBytes.length = 2 * (7 + idRegs db.car.id.bytes.length) := by
  simp only [Database.carBytes, List.length_append, length_flatMap_wordBytes, length_wordBytes,
    length_idBytes, Vector.length_toList]
  omega

theorem Database.length_bytes
    (db : Database) :
    db.bytes.length = 2 * db.regs := by
  simp only [Database.bytes, List.length_append, Database.length_carBytes, length_wordBytes,
    length_sealsBytes, Database.regs]
  omega

/-! ### What `serialize_db` leaves in the array -/

section Filled

variable (m : Bytes) (pos : Nat)

theorem setReg_eq
    (w : UInt16) :
    setReg m pos w =
      if 2 * (pos + 1) ≤ rtDbSize then some (m.write (2 * pos) (wordBytes w)) else none := by
  rw [setReg, store, length_wordBytes]
  rfl

theorem packStr_eq
    (s : List UInt8) :
    packStr m pos s =
      if 2 * (pos + idRegs s.length + 1) ≤ rtDbSize then
        some (m.write (2 * pos) (idBytes s), idRegs s.length + 1)
      else none := by
  by_cases hs : s = []
  · subst hs
    rw [packStr, List.length_nil, if_pos rfl, setReg_eq]
    by_cases hsize : 2 * (pos + 1) ≤ rtDbSize
    · rw [if_pos hsize]
      exact (if_pos hsize).symm
    · rw [if_neg hsize]
      exact (if_neg hsize).symm
  · have hpos : s.length ≠ 0 := fun h => hs (List.length_eq_zero_iff.mp h)
    have hregs := idRegs_bounds s.length
    rw [packStr, if_neg hpos]
    simp only [setReg_eq]
    by_cases hsize : 2 * (pos + idRegs s.length + 1) ≤ rtDbSize
    · have hstore (m : Bytes) :
          store rtDbSize m (2 * pos + 2) s = some (m.write (2 * pos + 2) s) :=
        store_eq (by omega)
      -- the last register is cleared first, the string is copied over it
      have hcopy (m : Bytes) :
          (m.write (2 * (pos + idRegs s.length)) (wordBytes 0)).write (2 * pos + 2) s =
            m.write (2 * pos + 2)
              (s ++ List.replicate (2 * idRegs s.length - s.length) 0) := by
        have hpad : 2 * (pos + idRegs s.length) + 2 - (2 * pos + 2 + s.length) =
            2 * idRegs s.length - s.length := by omega
        have hzeros : wordBytes 0 = List.replicate 2 0 := rfl
        rw [← hpad, hzeros]
        exact m.write_over_zeros (by omega) (by omega) (by omega)
      have hcount := m.write_append (2 * pos) (wordBytes (UInt16.ofNat (idRegs s.length)))
        (s ++ List.replicate (2 * idRegs s.length - s.length) 0)
      rw [length_wordBytes] at hcount
      have hfirst : 2 * (pos + 1) ≤ rtDbSize := by omega
      rw [if_pos hfirst, if_pos hsize]
      simp only [Option.bind_eq_bind, Option.bind_some, if_pos hsize, hstore, hcopy, hcount]
      rfl
    · simp only [if_neg hsize]
      by_cases hfirst : 2 * (pos + 1) ≤ rtDbSize
      · rw [if_pos hfirst]
        rfl
      · rw [if_neg hfirst]
        rfl

theorem serializeRegs_eq
    (ws : List UInt16)
    (hpos : 2 * pos ≤ rtDbSize) :
    serializeRegs m pos ws =
      if 2 * (pos + ws.length) ≤ rtDbSize then
        some (m.write (2 * pos) (ws.flatMap wordBytes), pos + ws.length)
      else none := by
  induction ws generalizing m pos with
  | nil =>
      rw [serializeRegs, List.length_nil, Nat.add_zero, if_pos hpos]
      congr 2
      funext i
      simp [Bytes.write_apply]
  | cons w rest ih =>
      rw [serializeRegs, setReg_eq, List.length_cons, List.flatMap_cons]
      by_cases hfirst : 2 * (pos + 1) ≤ rtDbSize
      · have happend := m.write_append (2 * pos) (wordBytes w) (rest.flatMap wordBytes)
        have hnext : 2 * (pos + 1) = 2 * pos + (wordBytes w).length := by
          rw [length_wordBytes]
          omega
        have hsum : pos + 1 + rest.length = pos + (rest.length + 1) := by omega
        rw [if_pos hfirst]
        simp only [Option.bind_eq_bind, Option.bind_some]
        rw [ih _ _ hfirst, hnext, happend, hsum]
      · rw [if_neg hfirst, if_neg (by omega)]
        rfl

theorem serializeSeals_eq
    (seals : List Seal)
    (hpos : 2 * pos ≤ rtDbSize) :
    serializeSeals m pos seals =
      if 2 * (pos + (seals.map Seal.regs).sum) ≤ rtDbSize then
        some (m.write (2 * pos) (sealsBytes seals), pos + (seals.map Seal.regs).sum)
      else none := by
  induction seals generalizing m pos with
  | nil =>
      rw [serializeSeals, List.map_nil, List.sum_nil, Nat.add_zero, if_pos hpos]
      congr 2
      funext i
      simp [Bytes.write_apply, sealsBytes]
  | cons se rest ih =>
      have hregs : 2 * pos + (sealBytes se).length = 2 * (pos + se.regs) := by
        rw [length_sealBytes]
        omega
      have hseals : sealsBytes (se :: rest) = sealBytes se ++ sealsBytes rest := rfl
      rw [serializeSeals, List.map_cons, List.sum_cons, ← Nat.add_assoc, hseals]
      simp only [setReg_eq, packStr_eq]
      by_cases hfits : 2 * (pos + se.regs) ≤ rtDbSize
      · have hfits' := hfits
        rw [Seal.regs] at hfits'
        have hseal : ((m.write (2 * pos) (wordBytes se.num)).write (2 * (pos + 1))
            (wordBytes se.qu)).write (2 * (pos + 2)) (idBytes se.id.bytes) =
            m.write (2 * pos) (sealBytes se) := by
          have hnum := m.write_append (2 * pos) (wordBytes se.num) (wordBytes se.qu)
          have hid := m.write_append (2 * pos) (wordBytes se.num ++ wordBytes se.qu)
            (idBytes se.id.bytes)
          rw [List.length_append, length_wordBytes, length_wordBytes] at hid
          rw [length_wordBytes] at hnum
          rw [Nat.mul_add, hnum, Nat.mul_add, hid, List.append_assoc]
          rfl
        have hnext : pos + 2 + (idRegs se.id.bytes.length + 1) = pos + se.regs := by
          rw [Seal.regs]
          omega
        rw [if_pos (by omega : 2 * (pos + 1) ≤ rtDbSize)]
        simp only [Option.bind_eq_bind, Option.bind_some]
        rw [if_pos (by omega : 2 * (pos + 1 + 1) ≤ rtDbSize)]
        simp only [Option.bind_some]
        rw [if_pos (by omega : 2 * (pos + 2 + idRegs se.id.bytes.length + 1) ≤ rtDbSize)]
        simp only [Option.bind_some]
        rw [hseal, hnext, ih _ _ hfits, ← hregs, m.write_append]
      · have hrest : ¬ 2 * (pos + se.regs + (rest.map Seal.regs).sum) ≤ rtDbSize := by omega
        rw [if_neg hrest]
        rw [Seal.regs] at hfits
        have hid : ¬ 2 * (pos + 2 + idRegs se.id.bytes.length + 1) ≤ rtDbSize := by omega
        simp only [if_neg hid]
        by_cases hnum : 2 * (pos + 1) ≤ rtDbSize
        · by_cases hqu : 2 * (pos + 1 + 1) ≤ rtDbSize
          · rw [if_pos hnum, Option.bind_eq_bind, Option.bind_some, if_pos hqu]
            rfl
          · rw [if_pos hnum, Option.bind_eq_bind, Option.bind_some, if_neg hqu]
            rfl
        · rw [if_neg hnum]
          rfl

end Filled

/-- **The serialized database.**  Its bytes are written at the beginning of the array and
nothing else is, if the array holds them. -/
theorem serializeDb_spec
    (m : Bytes)
    (db : Database) :
    serializeDb m db = if db.regs ≤ 120 then some (m.write 0 db.bytes, db.regs) else none := by
  have hwgt : db.wgt.toList.length = 5 := by simp
  have hcar := db.car.id.length_le
  have hregs := idRegs_bounds db.car.id.bytes.length
  set regs := idRegs db.car.id.bytes.length with hregs_def
  -- the weights and the car take at most 24 registers
  have hweights : serializeRegs m 0 db.wgt.toList =
      some (m.write 0 (db.wgt.toList.flatMap wordBytes), 5) := by
    rw [serializeRegs_eq m 0 db.wgt.toList (Nat.zero_le _), hwgt]
    exact if_pos (by decide)
  have hqu (m : Bytes) : setReg m 5 db.car.qu = some (m.write 10 (wordBytes db.car.qu)) := by
    rw [setReg_eq]
    exact if_pos (by decide)
  have hid (m : Bytes) : packStr m (5 + 1) db.car.id.bytes =
      some (m.write 12 (idBytes db.car.id.bytes), regs + 1) := by
    rw [packStr_eq, if_pos (by rw [rtDbSize]; omega)]
  have hcount (m : Bytes) : setReg m (5 + 1 + (regs + 1)) (UInt16.ofNat db.seals.length) =
      some (m.write (14 + 2 * regs) (wordBytes (UInt16.ofNat db.seals.length))) := by
    have hpos : 2 * (5 + 1 + (regs + 1)) = 14 + 2 * regs := by omega
    rw [setReg_eq, if_pos (by rw [rtDbSize]; omega), hpos]
  have hseals (m : Bytes) : serializeSeals m (5 + 1 + (regs + 1) + 1) db.seals =
      if db.regs ≤ 120 then some (m.write (16 + 2 * regs) (sealsBytes db.seals), db.regs)
      else none := by
    have hsum : 5 + 1 + (regs + 1) + 1 + (db.seals.map Seal.regs).sum = db.regs := by
      rw [Database.regs]
      omega
    have hpos : 2 * (5 + 1 + (regs + 1) + 1) = 16 + 2 * regs := by omega
    have hlimit : 2 * db.regs ≤ rtDbSize ↔ db.regs ≤ 120 := by
      rw [rtDbSize]
      omega
    rw [serializeSeals_eq _ _ _ (by rw [rtDbSize]; omega), hsum, hpos]
    simp only [hlimit]
  have hlen : (db.wgt.toList.flatMap wordBytes).length = 10 := by
    rw [length_flatMap_wordBytes, hwgt]
  have hbytes : ((((m.write 0 (db.wgt.toList.flatMap wordBytes)).write 10
      (wordBytes db.car.qu)).write 12 (idBytes db.car.id.bytes)).write (14 + 2 * regs)
      (wordBytes (UInt16.ofNat db.seals.length))).write (16 + 2 * regs) (sealsBytes db.seals) =
      m.write 0 db.bytes := by
    have hidlen := length_idBytes db.car.id.bytes
    rw [← hregs_def] at hidlen
    rw [m.write_behind hlen.symm,
      m.write_behind (by rw [List.length_append, hlen, length_wordBytes]),
      m.write_behind (by simp only [List.length_append, hlen, length_wordBytes, hidlen]; omega),
      m.write_behind (by simp only [List.length_append, hlen, length_wordBytes, hidlen]; omega)]
    simp only [Database.bytes, Database.carBytes, List.append_assoc]
  simp only [serializeDb, hweights, hqu, hid, hcount, hseals, Option.bind_eq_bind,
    Option.bind_some]
  split
  · rw [hbytes]
  · rfl

/-! ### The size of the array -/

/-- **The 120 registers.**  `serialize_db` stays inside the array exactly if the car and the
seals take at most 112 registers. -/
theorem serializeDb_inside_iff
    (m : Bytes)
    (db : Database) :
    (serializeDb m db).isSome ↔
      idRegs db.car.id.bytes.length +
        (db.seals.map fun se => 3 + idRegs se.id.bytes.length).sum ≤ 112 := by
  have hregs : db.regs = 8 + (idRegs db.car.id.bytes.length +
      (db.seals.map fun se => 3 + idRegs se.id.bytes.length).sum) := by
    rw [Database.regs, Nat.add_assoc]
    rfl
  rw [serializeDb_spec]
  split
  · exact iff_of_true rfl (by omega)
  · exact iff_of_false (by simp) (by omega)

/-- An identifier of 31 bytes. -/
def longId : IdString := ⟨List.replicate 31 65, by decide, by decide⟩

/-- A car and six seals with identifiers of 31 bytes. -/
def fullDatabase : Database :=
  ⟨#v[0, 0, 0, 0, 0], ⟨0, longId⟩, List.replicate 6 ⟨0, 0, longId⟩, by decide⟩

/-- They take 138 registers. -/
theorem serializeDb_overflows :
    fullDatabase.regs = 138 ∧ serializeDb (fun _ => 0) fullDatabase = none := by
  have hregs : fullDatabase.regs = 138 := by decide
  refine ⟨hregs, ?_⟩
  rw [serializeDb_spec, hregs]
  rfl

end Modbus
end MatrixBin
