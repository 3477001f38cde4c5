import MatrixBin.Modbus.Server

/-!
# The client's decoder (`wclient.c`, `decode.c`)

The client copies the registers of a reply into the array `b`, exchanging the bytes of
each, and `prt_msg` walks over them.  `b` is not initialized and keeps the registers of
earlier replies.  The printed values are the result; a string is printed up to its
terminator.

`recovers_iff` says when the decoded values are those of the database, whatever the
arrays held before.
-/

namespace MatrixBin
namespace Modbus

open Library

/-- The sizes of `data` and `b` in `main`, and of `b` in `prt_car` and `prt_seal`. -/
def dataSize : Nat := 1024
def clientSize : Nat := 250
def idSize : Nat := 32

structure DecodedSeal where
  num : UInt16
  qu : UInt16
  id : List UInt8
deriving DecidableEq

/-- The printed values; the number of seals is the number of printed seals. -/
structure Decoded where
  wgt : List UInt16
  carQu : UInt16
  carId : List UInt8
  seals : List DecodedSeal
deriving DecidableEq

/-- The part that `prt_car` and `prt_seal` share, from `regs` on: the copy into a
cleared array, its terminator, and the string; with the value of `regs`. -/
def prtId (msg : Bytes) (off : Nat) : Option (List UInt8 × Nat) := do
  let regs ← loadWord clientSize msg off
  let n := 2 * regs.toNat
  let id ← load clientSize msg (off + 2) n
  let b ← store idSize (fun _ => 0) 0 id
  let b ← store idSize b n [0]
  return (cString idSize b, regs.toNat)

/-- `prt_car` at the register `pos`: quality, id and the registers it takes. -/
def prtCar (msg : Bytes) (pos : Nat) : Option (UInt16 × List UInt8 × Nat) := do
  let qu ← loadWord clientSize msg (2 * pos)
  let (id, regs) ← prtId msg (2 * pos + 2)
  return (qu, id, 2 + regs)

/-- `prt_seal` at the register `pos`. -/
def prtSeal (msg : Bytes) (pos : Nat) : Option (DecodedSeal × Nat) := do
  let num ← loadWord clientSize msg (2 * pos)
  let qu ← loadWord clientSize msg (2 * pos + 2)
  let (id, regs) ← prtId msg (2 * pos + 4)
  return (⟨num, qu, id⟩, 3 + regs)

/-- The loop over the seals in `prt_msg`. -/
def prtSeals (msg : Bytes) : Nat → Nat → Option (List DecodedSeal)
  | 0, _ => some []
  | n + 1, pos =>
      (prtSeal msg pos).bind fun r => (prtSeals msg n (pos + r.2)).map (r.1 :: ·)

/-- `prt_wgt`: the registers from `pos` on. -/
def prtRegs (msg : Bytes) : Nat → Nat → Option (List UInt16)
  | 0, _ => some []
  | n + 1, pos =>
      (loadWord clientSize msg (2 * pos)).bind fun w => (prtRegs msg n (pos + 1)).map (w :: ·)

def prtMsg (msg : Bytes) : Option Decoded := do
  let wgt ← prtRegs msg 5 0
  let (qu, id, regs) ← prtCar msg 5
  let n ← loadWord clientSize msg (2 * (5 + regs))
  let seals ← prtSeals msg n.toNat (5 + regs + 1)
  return ⟨wgt, qu, id, seals⟩

/-- The part of `main` behind `read`; the copy leaves out the last register. -/
def decodeReply (reply : List UInt8) (data b : Bytes) : Option Decoded := do
  let data ← store dataSize data 0 reply
  let len := (data 8).toNat / 2
  let b ← copySwapped dataSize data 9 clientSize 0 (len - 1) b
  prtMsg b

/-- A request served and its reply decoded; `rtDb`, `data` and `b` are what the arrays
held before. -/
def readDatabase (db : Database) (buf rtDb data b : Bytes) : Option Decoded := do
  let reply ← procMdb db rtDb buf
  decodeReply (reply.buf.read 0 reply.size.toNat) data b

def Seal.view (se : Seal) : DecodedSeal := ⟨se.num, se.qu, se.id.bytes⟩

/-- What the decoder should print. -/
def Database.view (db : Database) : Decoded :=
  ⟨db.wgt.toList, db.car.qu, db.car.id.bytes, db.seals.map Seal.view⟩

/-! ### The array of the client -/

/-- The client's array holds the serialized bytes but for the last requested register,
which is as it was before. -/
theorem readDatabase_eq
    {db : Database}
    {buf : Bytes}
    {count : Nat}
    (hreq : IsReadRequest buf count)
    (hregs : db.regs ≤ count)
    (hcount : count ≤ 120)
    (rtDb data b : Bytes) :
    ∃ msg : Bytes, readDatabase db buf rtDb data b = prtMsg msg ∧
      msg.Holds 0 (db.bytes.take (2 * (count - 1))) ∧
      ∀ i, 2 * (count - 1) ≤ i → msg i = b i := by
  obtain ⟨rtDb', reply, hreply, hholds, hsize, hlen, hwords⟩ :=
    procMdb_read rtDb hreq hcount (by omega : db.regs ≤ 120)
  have hsizeNat : reply.size.toNat = 2 * count + 9 := by omega
  have hdata : store dataSize data 0 (reply.buf.read 0 reply.size.toNat) =
      some (data.write 0 (reply.buf.read 0 reply.size.toNat)) :=
    store_eq (by rw [Bytes.length_read, hsizeNat, dataSize]; omega)
  set data' := data.write 0 (reply.buf.read 0 reply.size.toNat) with hdata'
  have hreceived : ∀ i, i < 2 * count + 9 → data' i = reply.buf i := by
    intro i hi
    rw [hdata', Bytes.write_apply, if_pos (Nat.zero_le i), hsizeNat]
    simp [Bytes.read, hi]
  have hbytes : (data' 8).toNat / 2 = count := by
    rw [hreceived 8 (by omega), hlen]
    omega
  obtain ⟨msg, hcopy, hmsg, hrest⟩ :=
    copySwapped_eq data' b (by rw [dataSize]; omega : 9 + 2 * (count - 1) ≤ dataSize)
      (by rw [clientSize]; omega : 0 + 2 * (count - 1) ≤ clientSize)
  refine ⟨msg, ?_, ?_, ?_⟩
  · simp only [readDatabase, hreply, Option.bind_eq_bind, Option.bind_some, decodeReply, hdata,
      hbytes, hcopy]
  · intro i hi
    rw [List.length_take] at hi
    rw [List.getElem?_take_of_lt (by omega), hholds i (by omega), Nat.zero_add]
    -- the two exchanges cancel for each byte of a copied register
    obtain ⟨k, hk | hk⟩ : ∃ k, i = 2 * k ∨ i = 2 * k + 1 := ⟨i / 2, by omega⟩
    · subst hk
      have hlt : k < count - 1 := by omega
      have h := (hmsg k hlt).1
      rw [Nat.zero_add] at h
      rw [h, hreceived _ (by omega), (hwords k (by omega)).2]
    · subst hk
      have hlt : k < count - 1 := by omega
      have h := (hmsg k hlt).2
      rw [Nat.zero_add] at h
      rw [h, hreceived _ (by omega), (hwords k (by omega)).1]
  · intro i hi
    exact hrest i (Or.inr (by omega))

/-! ### Reading a string -/

/-- A string with zeros behind it is printed without them, if the terminator fits. -/
theorem prtId_of_holds
    {msg : Bytes}
    {off zeros : Nat}
    {w : UInt16}
    {s : List UInt8}
    (hword : msg.Holds off (wordBytes w))
    (hbytes : msg.Holds (off + 2) (s ++ List.replicate zeros 0))
    (hlen : s.length + zeros = 2 * w.toNat)
    (hw : w.toNat ≤ 15)
    (hs : 0 ∉ s)
    (hsize : off + 2 + 2 * w.toNat ≤ clientSize) :
    prtId msg off = some (s, w.toNat) := by
  set id := s ++ List.replicate zeros 0 with hid
  have hidlen : id.length = 2 * w.toNat := by
    simp [hid, hlen]
  have hload : load clientSize msg (off + 2) (2 * w.toNat) = some id := by
    rw [← hidlen]
    exact load_eq hbytes (by omega)
  have hcopy : store idSize (fun _ => 0) 0 id = some (Bytes.write (fun _ => 0) 0 id) :=
    store_eq (by rw [idSize]; omega)
  have hterm : store idSize (Bytes.write (fun _ => 0) 0 id) (2 * w.toNat) [0] =
      some ((Bytes.write (fun _ => 0) 0 id).write (2 * w.toNat) [0]) :=
    store_eq (by rw [idSize, List.length_singleton]; omega)
  have hholds : ((Bytes.write (fun _ => 0) 0 id).write (2 * w.toNat) [0]).Holds 0 (s ++ [0]) := by
    have hcopied : (Bytes.write (fun _ => 0) 0 id).Holds 0 id := Bytes.holds_write
    cases zeros with
    | zero =>
        -- the terminator is the one written behind the copy
        have hsid : s = id := by simp [hid]
        have hlast : 2 * w.toNat = s.length := by omega
        rw [Bytes.holds_append, ← hsid, hlast, Nat.zero_add]
        exact ⟨Bytes.Holds.write Bytes.holds_write (Or.inr (by omega)), Bytes.holds_write⟩
    | succ zeros =>
        have hsplit : id = (s ++ [0]) ++ List.replicate zeros 0 := by
          simp [hid, List.replicate_succ]
        rw [hsplit, Bytes.holds_append] at hcopied
        rw [hsplit]
        refine hcopied.1.write (Or.inr ?_)
        simp only [List.length_append, List.length_singleton]
        omega
  rw [prtId, hword.loadWord_eq (by omega)]
  simp only [Option.bind_eq_bind, Option.bind_some, hload, hcopy, hterm]
  rw [cString_of_holds hholds hs (by rw [idSize]; omega)]
  rfl

/-- With 16 registers or more the copy or its terminator leaves the array. -/
theorem prtId_of_long
    {msg : Bytes}
    {off : Nat}
    {w : UInt16}
    (hword : msg.Holds off (wordBytes w))
    (hw : 16 ≤ w.toNat) :
    prtId msg off = none := by
  rw [prtId]
  cases hload : loadWord clientSize msg off with
  | none => rfl
  | some w' =>
      have hsize : off + 2 ≤ clientSize := by
        by_contra hsize
        simp [loadWord, hsize] at hload
      obtain rfl : w = w' := by
        rw [hword.loadWord_eq hsize] at hload
        exact Option.some.inj hload
      have hterm : ∀ b : Bytes, store idSize b (2 * w.toNat) [0] = none := by
        intro b
        exact if_neg (by rw [idSize, List.length_singleton]; omega)
      simp [hterm]

/-- The string is short enough for the decoder's array. -/
def IdString.Short (id : IdString) : Prop := id.bytes.length ≤ 30

instance (id : IdString) : Decidable id.Short := inferInstanceAs (Decidable (_ ≤ _))

theorem idRegs_toNat
    (id : IdString) :
    (UInt16.ofNat (idRegs id.bytes.length)).toNat = idRegs id.bytes.length := by
  have h := idRegs_bounds id.bytes.length
  have := id.length_le
  exact UInt16.toNat_ofNat_of_lt' (by change _ < 65536; omega)

section PrtId

variable {msg : Bytes} {off : Nat} {id : IdString}

theorem prtId_short
    (h : msg.Holds off (idBytes id.bytes))
    (hshort : id.Short)
    (hsize : off + 2 * (idRegs id.bytes.length + 1) ≤ clientSize) :
    prtId msg off = some (id.bytes, idRegs id.bytes.length) := by
  have hregs := idRegs_bounds id.bytes.length
  have hw := idRegs_toNat id
  rw [IdString.Short] at hshort
  rw [idBytes, Bytes.holds_append] at h
  have := prtId_of_holds h.1 h.2 (by omega) (by omega) id.no_nul (by omega)
  rwa [hw] at this

theorem prtId_not_short
    (h : msg.Holds off (idBytes id.bytes))
    (hshort : ¬ id.Short) :
    prtId msg off = none := by
  have hregs := idRegs_bounds id.bytes.length
  have hw := idRegs_toNat id
  rw [IdString.Short] at hshort
  rw [idBytes, Bytes.holds_append] at h
  exact prtId_of_long h.1 (by omega)

end PrtId

/-! ### The walk -/

theorem prtRegs_of_holds
    {msg : Bytes}
    (ws : List UInt16)
    {pos : Nat}
    (h : msg.Holds (2 * pos) (ws.flatMap wordBytes))
    (hsize : 2 * (pos + ws.length) ≤ clientSize) :
    prtRegs msg ws.length pos = some ws := by
  induction ws generalizing pos with
  | nil => rfl
  | cons w rest ih =>
      rw [List.length_cons] at hsize
      rw [List.flatMap_cons, Bytes.holds_append, length_wordBytes] at h
      have hbehind : msg.Holds (2 * (pos + 1)) (rest.flatMap wordBytes) := h.2
      have hrest := ih hbehind (by omega)
      rw [List.length_cons, prtRegs, h.1.loadWord_eq (by omega), Option.bind_some, hrest,
        Option.map_some]

section Seals

variable {msg : Bytes}

theorem prtSeal_of_holds
    {pos : Nat}
    {num qu : UInt16}
    (h : msg.Holds (2 * pos) (wordBytes num ++ wordBytes qu))
    (hsize : 2 * pos + 4 ≤ clientSize) :
    prtSeal msg pos = (prtId msg (2 * pos + 4)).map fun r => (⟨num, qu, r.1⟩, 3 + r.2) := by
  rw [Bytes.holds_append, length_wordBytes] at h
  rw [prtSeal, h.1.loadWord_eq (by omega), h.2.loadWord_eq (by omega)]
  cases prtId msg (2 * pos + 4) <;> rfl

theorem length_prtSeals
    {n pos : Nat}
    {seals : List DecodedSeal}
    (h : prtSeals msg n pos = some seals) :
    seals.length = n := by
  induction n generalizing pos seals with
  | zero =>
      rw [prtSeals, Option.some.injEq] at h
      rw [← h, List.length_nil]
  | succ n ih =>
      rw [prtSeals, Option.bind_eq_some_iff] at h
      obtain ⟨r, -, hcons⟩ := h
      obtain ⟨rest, hrest, rfl⟩ := Option.map_eq_some_iff.mp hcons
      rw [List.length_cons, ih hrest]

theorem prtSeal_short
    {se : Seal}
    {pos : Nat}
    (h : msg.Holds (2 * pos) (sealBytes se))
    (hshort : se.id.Short)
    (hsize : 2 * (pos + se.regs) ≤ clientSize) :
    prtSeal msg pos = some (se.view, se.regs) := by
  have hregs : se.regs = 3 + idRegs se.id.bytes.length := rfl
  rw [sealBytes, ← List.append_assoc, Bytes.holds_append] at h
  have hid : msg.Holds (2 * pos + 4) (idBytes se.id.bytes) := h.2
  rw [prtSeal_of_holds h.1 (by omega), prtId_short hid hshort (by omega)]
  rfl

theorem prtSeal_not_short
    {se : Seal}
    {pos : Nat}
    (h : msg.Holds (2 * pos) (sealBytes se))
    (hshort : ¬ se.id.Short)
    (hsize : 2 * (pos + se.regs) ≤ clientSize) :
    prtSeal msg pos = none := by
  have hregs : se.regs = 3 + idRegs se.id.bytes.length := rfl
  rw [sealBytes, ← List.append_assoc, Bytes.holds_append] at h
  have hid : msg.Holds (2 * pos + 4) (idBytes se.id.bytes) := h.2
  rw [prtSeal_of_holds h.1 (by omega), prtId_not_short hid hshort]
  rfl

theorem holds_sealsBytes_cons
    {se : Seal}
    {rest : List Seal}
    {pos : Nat} :
    msg.Holds (2 * pos) (sealsBytes (se :: rest)) ↔
      msg.Holds (2 * pos) (sealBytes se) ∧ msg.Holds (2 * (pos + se.regs)) (sealsBytes rest) := by
  rw [sealsBytes, List.flatMap_cons, Bytes.holds_append, length_sealBytes, Nat.mul_add]
  rfl

/-- Seals with short strings are printed, and the walk goes on behind them. -/
theorem prtSeals_short
    (seals : List Seal)
    {pos : Nat}
    (h : msg.Holds (2 * pos) (sealsBytes seals))
    (hshort : ∀ se ∈ seals, se.id.Short)
    (hsize : 2 * (pos + (seals.map Seal.regs).sum) ≤ clientSize)
    (n : Nat) :
    prtSeals msg (seals.length + n) pos =
      (prtSeals msg n (pos + (seals.map Seal.regs).sum)).map (seals.map Seal.view ++ ·) := by
  induction seals generalizing pos with
  | nil => simp
  | cons se rest ih =>
      rw [List.map_cons, List.sum_cons] at hsize
      rw [List.forall_mem_cons] at hshort
      obtain ⟨hse, hrest⟩ := holds_sealsBytes_cons.mp h
      have hseal := prtSeal_short hse hshort.1 (by omega)
      have hnext := ih hrest hshort.2 (by omega)
      rw [List.length_cons, Nat.add_right_comm, prtSeals, hseal, Option.bind_some, hnext,
        Option.map_map, List.map_cons, List.map_cons, List.sum_cons, Nat.add_assoc]
      rfl

/-- A seal with a longer string ends the walk outside an array. -/
theorem prtSeals_not_short
    (seals : List Seal)
    {pos : Nat}
    (h : msg.Holds (2 * pos) (sealsBytes seals))
    (hshort : ¬ ∀ se ∈ seals, se.id.Short)
    (hsize : 2 * (pos + (seals.map Seal.regs).sum) ≤ clientSize)
    (n : Nat) :
    prtSeals msg (seals.length + n) pos = none := by
  induction seals generalizing pos with
  | nil => simp at hshort
  | cons se rest ih =>
      rw [List.map_cons, List.sum_cons] at hsize
      rw [List.forall_mem_cons] at hshort
      obtain ⟨hse, hrest⟩ := holds_sealsBytes_cons.mp h
      rw [List.length_cons, Nat.add_right_comm, prtSeals]
      by_cases hid : se.id.Short
      · have hnext := ih hrest (fun hall => hshort ⟨hid, hall⟩) (by omega)
        rw [prtSeal_short hse hid (by omega), Option.bind_some, hnext, Option.map_none]
      · rw [prtSeal_not_short hse hid (by omega), Option.bind_none]

end Seals

/-- The seals behind the weights and the car. -/
def prtSealsOf (msg : Bytes) (db : Database) : Option (List DecodedSeal) := do
  let regs := idRegs db.car.id.bytes.length
  let n ← loadWord clientSize msg (2 * (7 + regs))
  prtSeals msg n.toNat (8 + regs)

section Message

variable {db : Database} {msg : Bytes}

theorem holds_carBytes
    (h : msg.Holds 0 db.carBytes) :
    msg.Holds 0 (db.wgt.toList.flatMap wordBytes) ∧ msg.Holds 10 (wordBytes db.car.qu) ∧
      msg.Holds 12 (idBytes db.car.id.bytes) := by
  have hlen : (db.wgt.toList.flatMap wordBytes).length = 10 := by
    rw [length_flatMap_wordBytes, Vector.length_toList]
  rw [Database.carBytes, Bytes.holds_append, Bytes.holds_append, hlen] at h
  exact h

theorem prtCar_of_holds
    (h : msg.Holds 0 db.carBytes) :
    prtCar msg 5 = (prtId msg 12).map fun r => (db.car.qu, r.1, 2 + r.2) := by
  obtain ⟨-, hqu, -⟩ := holds_carBytes h
  rw [prtCar, hqu.loadWord_eq (by rw [clientSize]; omega)]
  cases prtId msg 12 <;> rfl

theorem prtMsg_of_holds
    (h : msg.Holds 0 db.carBytes)
    (hshort : db.car.id.Short) :
    prtMsg msg = (prtSealsOf msg db).map fun seals =>
      ⟨db.wgt.toList, db.car.qu, db.car.id.bytes, seals⟩ := by
  obtain ⟨hwgt, -, hid⟩ := holds_carBytes h
  have hcar := prtCar_of_holds h
  have hregs := idRegs_bounds db.car.id.bytes.length
  have hlong := db.car.id.length_le
  have hweights : prtRegs msg db.wgt.toList.length 0 = some db.wgt.toList :=
    prtRegs_of_holds db.wgt.toList hwgt (by simp [clientSize])
  rw [Vector.length_toList] at hweights
  rw [prtId_short hid hshort (by rw [clientSize]; omega), Option.map_some] at hcar
  set regs := idRegs db.car.id.bytes.length with hregs_def
  have hcount : 5 + (2 + regs) = 7 + regs := by omega
  have hnext : 7 + regs + 1 = 8 + regs := by omega
  rw [prtMsg, hweights, hcar, prtSealsOf, ← hregs_def]
  simp only [Option.bind_eq_bind, Option.bind_some, hcount, hnext]
  cases loadWord clientSize msg (2 * (7 + regs)) with
  | none => rfl
  | some n =>
      simp only [Option.bind_some]
      cases prtSeals msg n.toNat (8 + regs) <;> rfl

theorem prtMsg_car_not_short
    (h : msg.Holds 0 db.carBytes)
    (hshort : ¬ db.car.id.Short) :
    prtMsg msg = none := by
  have hcar := prtCar_of_holds h
  rw [prtId_not_short (holds_carBytes h).2.2 hshort, Option.map_none] at hcar
  rw [prtMsg, hcar]
  cases prtRegs msg 5 0 <;> rfl

/-- With the count of the seals in place the walk begins behind it. -/
theorem prtSealsOf_of_holds
    (h : msg.Holds 0 (db.carBytes ++ wordBytes (UInt16.ofNat db.seals.length))) :
    prtSealsOf msg db =
      prtSeals msg db.seals.length (8 + idRegs db.car.id.bytes.length) := by
  have hregs := idRegs_bounds db.car.id.bytes.length
  have hlong := db.car.id.length_le
  have hseals := db.seals_le
  rw [Bytes.holds_append, Database.length_carBytes, Nat.zero_add] at h
  have hcount : (UInt16.ofNat db.seals.length).toNat = db.seals.length :=
    UInt16.toNat_ofNat_of_lt' (by change _ < 65536; omega)
  rw [prtSealsOf, h.2.loadWord_eq (by rw [clientSize]; omega)]
  simp only [Option.bind_eq_bind, Option.bind_some, hcount]

theorem holds_bytes
    (h : msg.Holds 0 db.bytes) :
    msg.Holds 0 (db.carBytes ++ wordBytes (UInt16.ofNat db.seals.length)) ∧
      msg.Holds (2 * (8 + idRegs db.car.id.bytes.length)) (sealsBytes db.seals) := by
  have hstart : 2 * (8 + idRegs db.car.id.bytes.length) =
      0 + (db.carBytes ++ wordBytes (UInt16.ofNat db.seals.length)).length := by
    rw [List.length_append, Database.length_carBytes, length_wordBytes]
    omega
  rw [hstart, ← Bytes.holds_append, List.append_assoc]
  exact h

/-! ### All registers received -/

theorem prtMsg_view
    (h : msg.Holds 0 db.bytes)
    (hregs : db.regs ≤ 120)
    (hcar : db.car.id.Short)
    (hshort : ∀ se ∈ db.seals, se.id.Short) :
    prtMsg msg = some db.view := by
  obtain ⟨hfront, hseals⟩ := holds_bytes h
  rw [Database.regs] at hregs
  have hwalk := prtSeals_short db.seals hseals hshort (by rw [clientSize]; omega) 0
  rw [prtMsg_of_holds (Bytes.holds_append.mp hfront).1 hcar, prtSealsOf_of_holds hfront,
    ← Nat.add_zero db.seals.length, hwalk]
  simp [prtSeals, Database.view]

theorem prtMsg_seal_not_short
    (h : msg.Holds 0 db.bytes)
    (hregs : db.regs ≤ 120)
    (hcar : db.car.id.Short)
    (hshort : ¬ ∀ se ∈ db.seals, se.id.Short) :
    prtMsg msg = none := by
  obtain ⟨hfront, hseals⟩ := holds_bytes h
  rw [Database.regs] at hregs
  have hwalk := prtSeals_not_short db.seals hseals hshort (by rw [clientSize]; omega) 0
  rw [Nat.add_zero] at hwalk
  rw [prtMsg_of_holds (Bytes.holds_append.mp hfront).1 hcar, prtSealsOf_of_holds hfront, hwalk,
    Option.map_none]

/-! ### The last register missing -/

/-- The bytes in front of the string of the last seal. -/
def Database.frontBytes (db : Database) (front : List Seal) (last : Seal) : List UInt8 :=
  (db.carBytes ++ wordBytes (UInt16.ofNat db.seals.length)) ++
    (sealsBytes front ++ (wordBytes last.num ++ wordBytes last.qu))

section Last

variable {front : List Seal} {last : Seal}

theorem Database.bytes_eq_front
    (hseals : db.seals = front ++ [last]) :
    db.bytes = db.frontBytes front last ++ idBytes last.id.bytes := by
  simp [Database.bytes, Database.frontBytes, hseals, sealsBytes, sealBytes]

theorem Database.length_frontBytes
    (hseals : db.seals = front ++ [last]) :
    (db.frontBytes front last).length + 2 * (idRegs last.id.bytes.length + 1) = 2 * db.regs := by
  rw [← Database.length_bytes, Database.bytes_eq_front hseals, List.length_append,
    length_idBytes]

/-- Whatever the decoder prints for a database, it prints the string that it finds at
the end of these bytes for the last seal. -/
theorem prtId_of_view
    (hseals : db.seals = front ++ [last])
    (h : msg.Holds 0 (db.frontBytes front last))
    (hregs : db.regs ≤ 120)
    (hcar : db.car.id.Short)
    (hview : prtMsg msg = some db.view) :
    ∃ n, prtId msg (db.frontBytes front last).length = some (last.id.bytes, n) := by
  rw [Database.frontBytes, Bytes.holds_append] at h
  obtain ⟨hcount, hbehind⟩ := h
  obtain ⟨hfront, hlast⟩ := Bytes.holds_append.mp hbehind
  have hregs' := hregs
  rw [Database.regs, hseals, List.map_append, List.sum_append] at hregs'
  simp only [List.map_cons, List.map_nil, List.sum_cons, List.sum_nil, Seal.regs] at hregs'
  have hstart : 0 + (db.carBytes ++ wordBytes (UInt16.ofNat db.seals.length)).length =
      2 * (8 + idRegs db.car.id.bytes.length) := by
    rw [List.length_append, Database.length_carBytes, length_wordBytes]
    omega
  rw [hstart] at hfront hlast
  have hend : 2 * (8 + idRegs db.car.id.bytes.length) + (sealsBytes front).length =
      2 * (8 + idRegs db.car.id.bytes.length + (front.map Seal.regs).sum) := by
    rw [length_sealsBytes]
    omega
  rw [hend] at hlast
  rw [prtMsg_of_holds (Bytes.holds_append.mp hcount).1 hcar, prtSealsOf_of_holds hcount, hseals,
    List.length_append, List.length_singleton] at hview
  by_cases hshort : ∀ se ∈ front, se.id.Short
  · rw [prtSeals_short front hfront hshort (by rw [clientSize]; omega), prtSeals,
      prtSeal_of_holds hlast (by rw [clientSize]; omega)] at hview
    have hoff : (db.frontBytes front last).length =
        2 * (8 + idRegs db.car.id.bytes.length + (front.map Seal.regs).sum) + 4 := by
      have := Database.length_frontBytes hseals
      rw [Database.regs, hseals, List.map_append, List.sum_append] at this
      simp only [List.map_cons, List.map_nil, List.sum_cons, List.sum_nil, Seal.regs] at this
      omega
    rw [← hoff] at hview
    cases hid : prtId msg (db.frontBytes front last).length with
    | none => simp [hid] at hview
    | some r =>
        rw [hid] at hview
        simp [prtSeals, Database.view, hseals, Seal.view] at hview
        exact ⟨r.2, by rw [← hview]⟩
  · rw [prtSeals_not_short front hfront hshort (by rw [clientSize]; omega)] at hview
    simp at hview

theorem prtMsg_ne_view_of_empty
    (hseals : db.seals = front ++ [last])
    (hid : last.id.bytes = [])
    (h : msg.Holds 0 (db.bytes.take (2 * (db.regs - 1))))
    (hbehind : ∀ i, 2 * (db.regs - 1) ≤ i → msg i = 0xff)
    (hregs : db.regs ≤ 120)
    (hcar : db.car.id.Short) :
    prtMsg msg ≠ some db.view := by
  intro hview
  have hlen := Database.length_frontBytes hseals
  have hzero : idRegs last.id.bytes.length = 0 := by rw [hid]; rfl
  have htake : db.bytes.take (2 * (db.regs - 1)) = db.frontBytes front last := by
    rw [Database.bytes_eq_front hseals, List.take_append_of_le_length (by omega),
      List.take_of_length_le (by omega)]
  rw [htake] at h
  obtain ⟨n, hprt⟩ := prtId_of_view hseals h hregs hcar hview
  have hword : msg.Holds (db.frontBytes front last).length (wordBytes 0xffff) := by
    intro i hi
    rw [length_wordBytes] at hi
    rw [hbehind _ (by omega)]
    have hcases : i = 0 ∨ i = 1 := by omega
    rcases hcases with rfl | rfl <;> rfl
  rw [prtId_of_long hword (by decide)] at hprt
  simp at hprt

/-- With zeros in the last register a string loses its last one or two bytes. -/
theorem prtMsg_ne_view_of_nonempty
    (hseals : db.seals = front ++ [last])
    (hid : last.id.bytes ≠ [])
    (h : msg.Holds 0 (db.bytes.take (2 * (db.regs - 1))))
    (hbehind : ∀ i, 2 * (db.regs - 1) ≤ i → msg i = 0)
    (hregs : db.regs ≤ 120)
    (hcar : db.car.id.Short) :
    prtMsg msg ≠ some db.view := by
  intro hview
  have hlen := Database.length_frontBytes hseals
  have hpos : 0 < last.id.bytes.length := List.length_pos_iff.mpr hid
  have hbounds := idRegs_bounds last.id.bytes.length
  have hw := idRegs_toNat last.id
  set regs := idRegs last.id.bytes.length with hregs_def
  set cut := last.id.bytes.take (2 * (regs - 1)) with hcut
  have hcutlen : cut.length = 2 * (regs - 1) := by
    rw [hcut, List.length_take]
    omega
  have htake : db.bytes.take (2 * (db.regs - 1)) =
      db.frontBytes front last ++ (wordBytes (UInt16.ofNat regs) ++ cut) := by
    have hrest : 2 * (db.regs - 1) - (db.frontBytes front last).length = 2 * regs := by omega
    have hword : 2 * regs - (wordBytes (UInt16.ofNat regs)).length = 2 * (regs - 1) := by
      rw [length_wordBytes]
      omega
    rw [Database.bytes_eq_front hseals, List.take_append, List.take_of_length_le (by omega),
      hrest, idBytes, ← hregs_def, List.take_append,
      List.take_of_length_le (by rw [length_wordBytes]; omega), hword,
      List.take_append_of_le_length (by omega)]
  rw [htake, Bytes.holds_append, Nat.zero_add] at h
  obtain ⟨hfront, hlast⟩ := h
  obtain ⟨n, hprt⟩ := prtId_of_view hseals hfront hregs hcar hview
  obtain ⟨hcount, hstring⟩ := Bytes.holds_append.mp hlast
  by_cases hlong : 16 ≤ regs
  · rw [prtId_of_long hcount (by omega)] at hprt
    simp at hprt
  · have hpadded : msg.Holds ((db.frontBytes front last).length + 2)
        (cut ++ List.replicate 2 0) := by
      refine Bytes.holds_append.mpr ⟨hstring, ?_⟩
      intro i hi
      rw [List.length_replicate] at hi
      rw [List.getElem?_replicate_of_lt hi, hbehind _ (by omega)]
    have hprt' := prtId_of_holds hcount hpadded (by omega) (by omega)
      (fun hmem => last.id.no_nul (List.mem_of_mem_take hmem)) (by rw [clientSize]; omega)
    rw [hprt', Option.some.injEq, Prod.mk.injEq] at hprt
    have := congrArg List.length hprt.1
    omega

end Last

/-- Without seals the missing register is their count. -/
theorem prtMsg_ne_view_of_no_seals
    (hseals : db.seals = [])
    (h : msg.Holds 0 (db.bytes.take (2 * (db.regs - 1))))
    (hbehind : ∀ i, 2 * (db.regs - 1) ≤ i → msg i = 0xff)
    (hcar : db.car.id.Short) :
    prtMsg msg ≠ some db.view := by
  intro hview
  have hregs : db.regs = 8 + idRegs db.car.id.bytes.length := by
    simp [Database.regs, hseals]
  have hlen := db.length_carBytes
  have hbounds := idRegs_bounds db.car.id.bytes.length
  have hlong := db.car.id.length_le
  have htake : db.bytes.take (2 * (db.regs - 1)) = db.carBytes := by
    rw [Database.bytes, List.take_append_of_le_length (by omega), List.take_of_length_le (by omega)]
  rw [htake] at h
  have hword : loadWord clientSize msg (2 * (7 + idRegs db.car.id.bytes.length)) = some 0xffff := by
    rw [loadWord, if_pos (by rw [clientSize]; omega), hbehind _ (by omega), hbehind _ (by omega)]
    rfl
  rw [prtMsg_of_holds h hcar, prtSealsOf, hword] at hview
  obtain ⟨seals, hwalk, heq⟩ := Option.map_eq_some_iff.mp hview
  have hcount := length_prtSeals hwalk
  rw [Database.view, hseals, List.map_nil, Decoded.mk.injEq] at heq
  rw [heq.2.2.2] at hcount
  simp at hcount

end Message

/-- If the database takes all the registers of the request, the array of the client can
have held something that changes the result. -/
theorem exists_lost_register
    {db : Database}
    (hregs : db.regs ≤ 120)
    (hcar : db.car.id.Short) :
    ∃ b : Bytes, ∀ msg : Bytes, msg.Holds 0 (db.bytes.take (2 * (db.regs - 1))) →
      (∀ i, 2 * (db.regs - 1) ≤ i → msg i = b i) → prtMsg msg ≠ some db.view := by
  rcases List.eq_nil_or_concat db.seals with hseals | ⟨front, last, hseals⟩
  · exact ⟨fun _ => 0xff, fun msg h hbehind => prtMsg_ne_view_of_no_seals hseals h hbehind hcar⟩
  · rw [List.concat_eq_append] at hseals
    by_cases hid : last.id.bytes = []
    · exact ⟨fun _ => 0xff, fun msg h hbehind =>
        prtMsg_ne_view_of_empty hseals hid h hbehind hregs hcar⟩
    · exact ⟨fun _ => 0, fun msg h hbehind =>
        prtMsg_ne_view_of_nonempty hseals hid h hbehind hregs hcar⟩

/-- **What the client recovers.**  Whatever its arrays held before, the decoded values
are those of the database exactly if the request goes at least one register beyond it
and no string is longer than 30 bytes. -/
theorem recovers_iff
    {db : Database}
    {buf : Bytes}
    {count : Nat}
    (hreq : IsReadRequest buf count)
    (hregs : db.regs ≤ count)
    (hcount : count ≤ 120) :
    (∀ rtDb data b, readDatabase db buf rtDb data b = some db.view) ↔
      db.regs < count ∧ db.car.id.Short ∧ ∀ se ∈ db.seals, se.id.Short := by
  have hlen := db.length_bytes
  have hrun := readDatabase_eq hreq hregs hcount
  constructor
  · intro hview
    have hcarlen := db.length_carBytes
    have hcar : db.car.id.Short := by
      by_contra hcar
      obtain ⟨msg, hmsg, hholds, -⟩ := hrun (fun _ => 0) (fun _ => 0) (fun _ => 0)
      rw [Database.bytes, List.take_append, List.take_of_length_le
        (by rw [Database.regs] at hregs; omega), Bytes.holds_append] at hholds
      rw [hview, prtMsg_car_not_short hholds.1 hcar] at hmsg
      simp at hmsg
    have hlt : db.regs < count := by
      by_contra hlt
      obtain rfl : count = db.regs := by omega
      obtain ⟨b, hlost⟩ := exists_lost_register hcount hcar
      obtain ⟨msg, hmsg, hholds, hbehind⟩ := hrun (fun _ => 0) (fun _ => 0) b
      rw [hview] at hmsg
      exact hlost msg hholds hbehind hmsg.symm
    refine ⟨hlt, hcar, ?_⟩
    by_contra hshort
    obtain ⟨msg, hmsg, hholds, -⟩ := hrun (fun _ => 0) (fun _ => 0) (fun _ => 0)
    rw [List.take_of_length_le (by omega)] at hholds
    rw [hview, prtMsg_seal_not_short hholds (by omega) hcar hshort] at hmsg
    simp at hmsg
  · rintro ⟨hlt, hcar, hshort⟩ rtDb data b
    obtain ⟨msg, hmsg, hholds, -⟩ := hrun rtDb data b
    rw [List.take_of_length_le (by omega)] at hholds
    rw [hmsg, prtMsg_view hholds (by omega) hcar hshort]

/-- The bytes of `buf` that the client sends, with the number of registers. -/
def request (count : UInt8) : Bytes :=
  fun i => [0x01, 0x02, 0x00, 0x00, 0x00, 0x06, 0x01, 0x04, 0x00, 0x00, 0x00, count][i]?.getD 0

/-- A car and two seals with ids of odd and even length. -/
def loaded : Database :=
  ⟨#v[1, 0, 3900, 3600, 300], ⟨1, ⟨[77, 49, 55], by decide, by decide⟩⟩,
    [⟨1, 0, ⟨[65, 48], by decide, by decide⟩⟩, ⟨2, 0, IdString.empty⟩], by decide⟩

theorem recovers_loaded :
    readDatabase loaded (request 0x78) (fun _ => 0xff) (fun _ => 0xff) (fun _ => 0xff) =
      some loaded.view :=
  (recovers_iff (⟨rfl, rfl, rfl, rfl⟩ : IsReadRequest (request 0x78) 120) (by decide)
    (by decide)).mpr ⟨by decide, by decide, by decide⟩ _ _ _

/-- What `b` held before: one seal in the register behind the car. -/
def formerSeal : Bytes := fun i => if i = 14 then 1 else 0

/-- The database takes all eight registers of the request, and the printed number of
seals is the former one. -/
theorem readDatabase_prints_former_seal :
    IsReadRequest (request 8) 8 ∧ Database.initial.regs = 8 ∧
      readDatabase Database.initial (request 8) (fun _ => 0) (fun _ => 0) formerSeal =
        some ⟨[0, 0, 0, 0, 0], 0, [], [⟨0, 0, []⟩]⟩ ∧
      readDatabase Database.initial (request 8) (fun _ => 0) (fun _ => 0) formerSeal ≠
        some Database.initial.view :=
  ⟨⟨rfl, rfl, rfl, rfl⟩, rfl, by decide +kernel, by decide +kernel⟩

end Modbus
end MatrixBin
