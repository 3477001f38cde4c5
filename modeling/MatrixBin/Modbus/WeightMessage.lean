import MatrixBin.Library.DecimalText
import MatrixBin.Modbus.Server

/-!
# The weight in the registers (`on_message` in `mqtt_thread.c`, `mdb_db.c`)

A message of the topic `matrix/wgt` holds the weight as a text.  `on_message` puts its number
into the brutto and the netto of the database, each a word of 16 bits, and clears the quality;
a reply to a read of the registers shows them to a client, high byte first.

`weight_registers_iff` says which weights a client sees, and up to which capacity no two weights
look the same.
-/

namespace MatrixBin
namespace Modbus

open Library

/-- A message, with the string values of the items that cJSON finds in its payload, if the
payload is JSON. -/
structure MqttMessage where
  topic : List UInt8
  json : Option (List UInt8 → Option (List UInt8))

/-- `"matrix/wgt"` -/
def wgtTopic : List UInt8 := [0x6d, 0x61, 0x74, 0x72, 0x69, 0x78, 0x2f, 0x77, 0x67, 0x74]

/-- `"SumWgtR"` -/
def sumWgtR : List UInt8 := [0x53, 0x75, 0x6d, 0x57, 0x67, 0x74, 0x52]

/-- `on_message`.  The registers are the quality, the stability, brutto, netto and tare; an `int`
is cut to the 16 bits of `w[0]`. -/
def Database.onMessage (db : Database) (msg : MqttMessage) : Database :=
  if msg.topic ≠ wgtTopic then db
  else
    match msg.json with
    | none => db
    | some jmsg =>
        match jmsg sumWgtR with
        | none => db
        | some valuestring =>
            let w := UInt16.ofInt (atoi valuestring)
            { db with wgt := #v[0, 0, w, w, 0] }

/-- `s2`, `"TLLU26092245"` -/
def testCarId : IdString :=
  ⟨[0x54, 0x4c, 0x4c, 0x55, 0x32, 0x36, 0x30, 0x39, 0x32, 0x32, 0x34, 0x35], by decide, by decide⟩

/-- `ss1`, `"P123456"` -/
def testSealId1 : IdString := ⟨[0x50, 0x31, 0x32, 0x33, 0x34, 0x35, 0x36], by decide, by decide⟩

/-- `ss2`, `"Q123456"` -/
def testSealId2 : IdString := ⟨[0x51, 0x31, 0x32, 0x33, 0x34, 0x35, 0x36], by decide, by decide⟩

/-- `init_test_db`; the type of a quality is its low byte. -/
def Database.test : Database :=
  ⟨#v[0, 1, 345, 345, 0], ⟨1, testCarId⟩, [⟨1, 0, testSealId1⟩, ⟨2, 1, testSealId2⟩], by decide⟩

/-- The database after `main` has called `init_db`, and in the test mode `init_test_db`. -/
def Database.atStart (testMode : Bool) : Database := if testMode then .test else .initial

/-- The database after some messages. -/
def Database.after (testMode : Bool) (msgs : List MqttMessage) : Database :=
  msgs.foldl Database.onMessage (.atStart testMode)

/-- The message of a weight, whatever else is in it. -/
def weightMessage (others : List UInt8 → Option (List UInt8)) (n : Nat) : MqttMessage :=
  ⟨wgtTopic, some fun key => if key = sumWgtR then some (printNat n) else others key⟩

/-- The register with the number `k` in a reply, high byte first. -/
def MdbReply.register (reply : MdbReply) (k : Nat) : Nat :=
  256 * (reply.buf (9 + 2 * k)).toNat + (reply.buf (9 + 2 * k + 1)).toNat

/-- The registers of the weight that a client sees. -/
def readWeight (db : Database) (rtDb buf : Bytes) : Option (List Nat) :=
  (procMdb db rtDb buf).map fun reply => (List.range 5).map reply.register

/-- A read from the register 0 on that covers the weight. -/
def IsWeightRequest (buf : Bytes) : Prop := ∃ count, IsReadRequest buf count ∧ 5 ≤ count ∧ count ≤ 120

/-- Every read shows the weight as brutto and as netto, or has something in the quality. -/
def ShowsWeight (db : Database) (n : Nat) : Prop :=
  ∀ rtDb buf, IsWeightRequest buf →
    ∃ qu stb brutto netto tare, readWeight db rtDb buf = some [qu, stb, brutto, netto, tare] ∧
      (qu ≠ 0 ∨ brutto = n ∧ netto = n)

/-- Some read shows the same registers for both, without an error in the quality. -/
def LooksSame (db db' : Database) : Prop :=
  ∃ rtDb buf regs, IsWeightRequest buf ∧ regs.head? = some 0 ∧
    readWeight db rtDb buf = some regs ∧ readWeight db' rtDb buf = some regs

section WeightMessage

variable {db : Database}

/-- A message changes the registers of the weight only. -/
theorem Database.onMessage_regs
    (db : Database)
    (msg : MqttMessage) :
    (db.onMessage msg).regs = db.regs := by
  rw [Database.onMessage]
  repeat' split
  all_goals rfl

theorem Database.after_regs_le
    (testMode : Bool)
    (msgs : List MqttMessage) :
    (Database.after testMode msgs).regs ≤ 120 := by
  have hstart : (Database.atStart testMode).regs ≤ 120 := by
    cases testMode with
    | false => decide
    | true => decide
  induction msgs using List.reverseRecOn with
  | nil => exact hstart
  | append_singleton msgs msg ih =>
      rw [Database.after, List.foldl_append, List.foldl_cons, List.foldl_nil,
        Database.onMessage_regs]
      exact ih

/-- The two bytes of a word in a row of words. -/
theorem word_of_holds
    {m : Bytes}
    {off : Nat}
    {ws : List UInt16}
    (h : m.Holds off (ws.flatMap wordBytes))
    {k : Nat}
    (hk : k < ws.length) :
    256 * (m (off + 2 * k + 1)).toNat + (m (off + 2 * k)).toNat = (ws.get ⟨k, hk⟩).toNat := by
  induction ws generalizing off k with
  | nil => exact absurd hk (Nat.not_lt_zero _)
  | cons w rest ih =>
      rw [List.flatMap_cons, Bytes.holds_append, length_wordBytes] at h
      obtain ⟨hword, hrest⟩ := h
      cases k with
      | zero =>
          obtain ⟨hlow, hhigh⟩ := hword.head
          have hlt := w.toNat_lt
          have hlow' : (m off).toNat = w.toNat % 256 := by
            rw [hlow]
            exact UInt8.toNat_ofNat_of_lt' (by change _ < 256; omega)
          have hhigh' : (m (off + 1)).toNat = w.toNat / 256 := by
            rw [hhigh.head.1]
            exact UInt8.toNat_ofNat_of_lt' (by change _ < 256; omega)
          change 256 * (m (off + 1)).toNat + (m off).toNat = w.toNat
          omega
      | succ k =>
          have hoff : off + 2 * (k + 1) = off + 2 + 2 * k := by omega
          rw [hoff]
          exact ih hrest (Nat.lt_of_succ_lt_succ hk)

/-- The registers of the database as a client sees them. -/
theorem readWeight_eq
    (hregs : db.regs ≤ 120)
    (rtDb : Bytes)
    {buf : Bytes}
    (hbuf : IsWeightRequest buf) :
    readWeight db rtDb buf = some (db.wgt.toList.map UInt16.toNat) := by
  obtain ⟨count, hreq, hfive, hcount⟩ := hbuf
  obtain ⟨rtDb', reply, hreply, hholds, -, -, hwords⟩ := procMdb_read rtDb hreq hcount hregs
  have hweights : rtDb'.Holds 0 (db.wgt.toList.flatMap wordBytes) := by
    rw [Database.bytes, Bytes.holds_append, Database.carBytes, Bytes.holds_append] at hholds
    exact hholds.1.1
  have hlen : db.wgt.toList.length = 5 := Vector.length_toList
  rw [readWeight, hreply, Option.map_some]
  congr 1
  apply List.ext_getElem
  · rw [List.length_map, List.length_map, List.length_range, hlen]
  · intro k hk hk'
    rw [List.length_map, List.length_range] at hk
    obtain ⟨hhigh, hlow⟩ := hwords k (by omega)
    have hword := word_of_holds hweights (k := k) (by omega)
    rw [Nat.zero_add] at hword
    rw [List.getElem_map, List.getElem_map, List.getElem_range, MdbReply.register, hhigh, hlow,
      hword]
    rfl

/-- What the message of a weight leaves in the registers. -/
theorem readWeight_onMessage
    (hregs : db.regs ≤ 120)
    (others : List UInt8 → Option (List UInt8))
    (n : Nat)
    (rtDb : Bytes)
    {buf : Bytes}
    (hbuf : IsWeightRequest buf) :
    readWeight (db.onMessage (weightMessage others n)) rtDb buf =
      some [0, 0, (UInt16.ofInt (atoi (printNat n))).toNat,
        (UInt16.ofInt (atoi (printNat n))).toNat, 0] := by
  have hregs' : (db.onMessage (weightMessage others n)).regs ≤ 120 := by
    rw [Database.onMessage_regs]
    exact hregs
  rw [readWeight_eq hregs' rtDb hbuf]
  have hwgt : (db.onMessage (weightMessage others n)).wgt =
      #v[0, 0, UInt16.ofInt (atoi (printNat n)), UInt16.ofInt (atoi (printNat n)), 0] := by
    rw [Database.onMessage, weightMessage, if_neg (not_not.mpr rfl)]
    simp only [if_true]
  rw [hwgt]
  rfl

/-- The word that is left of a number that an `int` can hold. -/
theorem word_atoi
    {n : Nat}
    (hn : n < 2 ^ 31) :
    (UInt16.ofInt (atoi (printNat n))).toNat = n % 65536 := by
  have hatoi : atoi (printNat n) = n := by
    have hvalue := digitsValue_printNat n
    rw [atoi_digits (fun _ => isDigit_of_mem_printNat) (by rw [hvalue]; exact hn), hvalue]
  have hcut : ((n : ℤ) % 2 ^ 16).toNat = n % 65536 := by omega
  rw [hatoi, UInt16.ofInt, hcut]
  exact UInt16.toNat_ofNat_of_lt' (by change _ < 65536; omega)

/-- A read of eight registers. -/
def weightRequest : Bytes := fun i => if i = 7 then 0x04 else if i = 11 then 8 else 0

theorem isWeightRequest_weightRequest : IsWeightRequest weightRequest :=
  ⟨8, ⟨rfl, rfl, rfl, rfl⟩, by omega, by omega⟩

/-- One weight: a word holds it. -/
theorem showsWeight_iff
    (hregs : db.regs ≤ 120)
    (others : List UInt8 → Option (List UInt8))
    (n : Nat) :
    ShowsWeight (db.onMessage (weightMessage others n)) n ↔ n < 65536 := by
  constructor
  · intro h
    obtain ⟨qu, stb, brutto, netto, tare, hread, hright⟩ :=
      h (fun _ => 0) weightRequest isWeightRequest_weightRequest
    rw [readWeight_onMessage hregs others n _ isWeightRequest_weightRequest, Option.some.injEq,
      List.cons.injEq, List.cons.injEq, List.cons.injEq] at hread
    obtain ⟨hqu, -, hbrutto, -⟩ := hread
    rcases hright with hsignal | ⟨hn, -⟩
    · exact absurd hqu.symm hsignal
    · rw [← hn, ← hbrutto]
      exact UInt16.toNat_lt _
  · intro hn rtDb buf hbuf
    have hword := word_atoi (n := n) (by omega)
    rw [Nat.mod_eq_of_lt hn] at hword
    exact ⟨_, _, _, _, _, readWeight_onMessage hregs others n rtDb hbuf, Or.inr ⟨hword, hword⟩⟩

/-- Two weights look the same if the rest is the same modulo `2 ^ 16`. -/
theorem looksSame_iff
    {db' : Database}
    (hregs : db.regs ≤ 120)
    (hregs' : db'.regs ≤ 120)
    (others others' : List UInt8 → Option (List UInt8))
    {n m : Nat}
    (hn : n < 2 ^ 31)
    (hm : m < 2 ^ 31) :
    LooksSame (db.onMessage (weightMessage others n)) (db'.onMessage (weightMessage others' m)) ↔
      n % 65536 = m % 65536 := by
  rw [← word_atoi hn, ← word_atoi hm]
  constructor
  · rintro ⟨rtDb, buf, regs, hbuf, -, hread, hread'⟩
    rw [readWeight_onMessage hregs others n rtDb hbuf] at hread
    rw [readWeight_onMessage hregs' others' m rtDb hbuf] at hread'
    have hsame := Option.some.inj (hread.trans hread'.symm)
    simp only [List.cons.injEq] at hsame
    exact hsame.2.2.1
  · intro heq
    refine ⟨fun _ => 0, weightRequest, _, isWeightRequest_weightRequest, rfl,
      readWeight_onMessage hregs others n _ isWeightRequest_weightRequest, ?_⟩
    rw [heq]
    exact readWeight_onMessage hregs' others' m _ isWeightRequest_weightRequest

/-- **The weight in the registers.**  Whatever was received before, a client sees exactly the
weights below `2 ^ 16`; and up to a capacity no two weights look the same without an error
exactly if it is below `2 ^ 16`. -/
theorem weight_registers_iff
    (testMode : Bool)
    (msgs : List MqttMessage)
    (others : List UInt8 → Option (List UInt8)) :
    let seen (n : Nat) := (Database.after testMode msgs).onMessage (weightMessage others n)
    (∀ n, ShowsWeight (seen n) n ↔ n < 65536) ∧
      ∀ capacity, (∀ n ≤ capacity, ∀ m ≤ capacity, LooksSame (seen n) (seen m) → n = m) ↔
        capacity < 65536 := by
  intro seen
  have hregs := Database.after_regs_le testMode msgs
  refine ⟨fun n => showsWeight_iff hregs others n, fun capacity => ⟨fun h => ?_, ?_⟩⟩
  · by_contra hlarge
    have hsame : LooksSame (seen 0) (seen 65536) :=
      (looksSame_iff hregs hregs others others (by omega) (by omega)).mpr rfl
    exact absurd (h 0 (Nat.zero_le _) 65536 (by omega) hsame) (by omega)
  · intro hcapacity n hn m hm hsame
    have hmod := (looksSame_iff hregs hregs others others (by omega) (by omega)).mp hsame
    omega

/-- A wagon of 100 t is shown with less, and one of 65536 kg looks like an empty scale. -/
theorem heavy_weights_cut :
    ¬ ShowsWeight (Database.initial.onMessage (weightMessage (fun _ => none) 100000)) 100000 ∧
      LooksSame (Database.initial.onMessage (weightMessage (fun _ => none) 65536))
        (Database.initial.onMessage (weightMessage (fun _ => none) 0)) := by
  have hregs : Database.initial.regs ≤ 120 := by decide
  refine ⟨fun h => ?_, ?_⟩
  · exact absurd ((showsWeight_iff hregs _ _).mp h) (by omega)
  · exact (looksSame_iff hregs hregs _ _ (by omega) (by omega)).mpr rfl

end WeightMessage

end Modbus
end MatrixBin
