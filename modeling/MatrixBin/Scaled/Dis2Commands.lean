import MatrixBin.Scaled.LduStatus
import MatrixBin.Scaled.Locbuf

/-!
# The commands of a DIS2 terminal (`dis2_loop.c`)

`do_cdl`, `set_tare_val`, `get_tare_val` and `oper_mode` write a request and read a reply of a
fixed length with `readnbytes`, which gives up at an error and at five reads in a row that
deliver nothing.  What the terminal sends is a list of outcomes of `read`; bytes that were not
asked for stay in the system's buffer, and behind the last outcome nothing more comes.

`dis2_commands_iff` compares the results with the first byte of the reply, which is `'0'` when
the terminal has executed the command.
-/

namespace MatrixBin
namespace Scaled

open Library

/-- What was written to the port, and what is still to be read from it. -/
structure SerialPort where
  written : List (List UInt8)
  coming : List ReadResult

def SerialPort.write (port : SerialPort) (bytes : List UInt8) : SerialPort :=
  { port with written := port.written ++ [bytes] }

/-- The loop of `readnbytes`, after so many reads in a row that have delivered nothing. -/
def readnbytes (n : Nat) : Nat → List ReadResult → List UInt8 × List ReadResult
  | _, [] => ([], [])
  | _, .failed :: rest => ([], rest)
  | trials, .bytes [] :: rest =>
      if 5 ≤ trials + 1 then ([], rest) else readnbytes n (trials + 1) rest
  | _, .bytes (b :: data) :: rest =>
      if n < (b :: data).length then ((b :: data).take n, .bytes ((b :: data).drop n) :: rest)
      else if n = (b :: data).length then (b :: data, rest)
      else
        let (more, rest) := readnbytes (n - (b :: data).length) 0 rest
        (b :: data ++ more, rest)

def SerialPort.read (port : SerialPort) (n : Nat) : List UInt8 × SerialPort :=
  let (buf, coming) := readnbytes n 0 port.coming
  (buf, { port with coming := coming })

/-- `"CDL\r"`: set zero -/
def cdl : List UInt8 := [0x43, 0x44, 0x4c, 0x0d]

/-- `"TAR\r"`: write the current weight to memory as tare value -/
def tar : List UInt8 := [0x54, 0x41, 0x52, 0x0d]

/-- `"TAV?\r"`: ask the current tare value -/
def tav : List UInt8 := [0x54, 0x41, 0x56, 0x3f, 0x0d]

/-- `"TAS?\r"`: ask or set the mode -/
def tas (mode : UInt8) : List UInt8 := [0x54, 0x41, 0x53, mode, 0x0d]

/-- A request with a reply of three bytes. -/
def SerialPort.command (port : SerialPort) (request : List UInt8) : ℤ × SerialPort :=
  let (buf, port) := (port.write request).read 3
  (if buf.length < 3 then -1 else if buf.head? ≠ some 30 then 1 else 0, port)

def SerialPort.doCdl (port : SerialPort) : ℤ × SerialPort := port.command cdl

/-- `set_tare_val` declares `tar` and writes `cdl`. -/
def SerialPort.setTareVal (port : SerialPort) : ℤ × SerialPort := port.command cdl

/-- `get_tare_val`; the tare value is left alone if the reply is incomplete. -/
def SerialPort.getTareVal (port : SerialPort) (val : ℤ) : ℤ × ℤ × SerialPort :=
  let (buf, port) := (port.write tav).read 10
  if buf.length < 10 then (-1, val, port) else (0, atoi (stringAt (buf.take 8)), port)

/-- `CLEAR_BIT(val, bitIndex)` -/
def clearBit (val : UInt32) (bitIndex : UInt32) : UInt32 := val &&& ~~~(1 <<< bitIndex)

/-- `NETGROSS` -/
def netGrossBit : UInt32 := 8

def SerialPort.operMode (port : SerialPort) (mode : UInt8) (fields : UInt32) :
    ℤ × UInt32 × SerialPort :=
  let (buf, port) := (port.write (tas mode)).read 3
  if buf.length < 3 ∨ buf.head? ≠ some 30 ∨ buf.head? ≠ some 31 then (-1, fields, port)
  else if buf.head? = some 30 then (0, setBit fields netGrossBit, port)
  else (0, clearBit fields netGrossBit, port)

/-- `exec_cmd` with the first byte of the command and the tare value, if one is kept. -/
def SerialPort.execCmd (port : SerialPort) (opcode : UInt8) (tare : Option ℤ) :
    ℤ × Option ℤ × SerialPort :=
  if opcode = 0x5a then
    let (rc, port) := port.doCdl
    (rc, tare, port)
  else if opcode = 0x54 then
    let (rc, port) := port.setTareVal
    match tare with
    | some val =>
        if rc = 0 then
          let (_, val, port) := port.getTareVal val
          (rc, some val, port)
        else (rc, tare, port)
    | none => (rc, tare, port)
  else (-1, tare, port)

/-! ### Replies -/

/-- The bytes that the terminal sends before an error or five reads in a row that deliver
nothing. -/
def arriving : Nat → List ReadResult → List UInt8
  | _, [] => []
  | _, .failed :: _ => []
  | trials, .bytes [] :: rest => if 5 ≤ trials + 1 then [] else arriving (trials + 1) rest
  | _, .bytes (b :: data) :: rest => b :: data ++ arriving 0 rest

/-- The first of three bytes. -/
def replyByte (coming : List ReadResult) : Option UInt8 :=
  if 3 ≤ (arriving 0 coming).length then (arriving 0 coming).head? else none

/-- 0 if a complete reply begins with `'0'`, 1 if it begins with anything else, and -1 if the
reply is incomplete. -/
def codeOf : Option UInt8 → ℤ
  | none => -1
  | some b => if b = 0x30 then 0 else 1

def SerialPort.ZeroRight (port : SerialPort) (tare : Option ℤ) : Prop :=
  (port.execCmd 0x5a tare).2.2.written = port.written ++ [cdl] ∧
    (port.execCmd 0x5a tare).1 = codeOf (replyByte port.coming)

def SerialPort.TareRight (port : SerialPort) (tare : Option ℤ) : Prop :=
  ((port.execCmd 0x54 tare).2.2.written = port.written ++ [tar] ∨
      (port.execCmd 0x54 tare).1 = 0 ∧
        (port.execCmd 0x54 tare).2.2.written = port.written ++ [tar, tav]) ∧
    (port.execCmd 0x54 tare).1 = codeOf (replyByte port.coming)

def bitOf (val bitIndex : UInt32) : Bool := val.toBitVec.getLsbD bitIndex.toNat

/-- NETGROSS is set by `'0'` and cleared by `'1'`; all the other bits stay. -/
structure SerialPort.ModeRight (port : SerialPort) (mode : UInt8) (fields : UInt32) : Prop where
  code : (port.operMode mode fields).1 = 0 ↔
    replyByte port.coming = some 0x30 ∨ replyByte port.coming = some 0x31
  net : replyByte port.coming = some 0x30 →
    bitOf (port.operMode mode fields).2.1 netGrossBit = true
  gross : replyByte port.coming = some 0x31 →
    bitOf (port.operMode mode fields).2.1 netGrossBit = false
  others : ∀ i, i ≠ netGrossBit → bitOf (port.operMode mode fields).2.1 i = bitOf fields i

section Replies

variable {port : SerialPort} {coming : List ReadResult}

/-- **`readnbytes`.**  The first bytes that the terminal sends, wherever the reads cut them. -/
theorem readnbytes_eq
    (n trials : Nat)
    (coming : List ReadResult) :
    (readnbytes n trials coming).1 = (arriving trials coming).take n := by
  induction n, trials, coming using readnbytes.induct with
  | case1 => simp [readnbytes, arriving]
  | case2 => simp [readnbytes, arriving]
  | case3 n trials rest hlast => simp [readnbytes, arriving, hlast]
  | case4 n trials rest hmore ih =>
      rw [readnbytes, arriving, if_neg hmore, if_neg hmore]
      exact ih
  | case5 n trials b data rest hlong =>
      rw [readnbytes, arriving, if_pos hlong, List.take_append_of_le_length (Nat.le_of_lt hlong)]
  | case6 trials b data rest hlong =>
      rw [readnbytes, arriving, if_neg hlong, if_pos rfl, List.take_left]
  | case7 n trials b data rest hlong hexact more rest' hrest ih =>
      rw [readnbytes, arriving, if_neg hlong, if_neg hexact, List.take_append]
      rw [hrest] at ih ⊢
      rw [List.take_of_length_le (by omega), ← ih]

/-- What `readnbytes` reports of a reply of three bytes. -/
theorem SerialPort.read_three
    (port : SerialPort) :
    (port.read 3).2.written = port.written ∧
      ((port.read 3).1.length < 3 ↔ replyByte port.coming = none) ∧
      ∀ b, replyByte port.coming = some b → (port.read 3).1.head? = some b := by
  have hread : (port.read 3).1 = (arriving 0 port.coming).take 3 := readnbytes_eq 3 0 port.coming
  rw [hread, replyByte, List.length_take]
  refine ⟨rfl, ?_⟩
  by_cases hlen : 3 ≤ (arriving 0 port.coming).length
  · obtain ⟨b, data, hdata⟩ : ∃ b data, arriving 0 port.coming = b :: data :=
      List.exists_cons_of_length_pos (by omega)
    rw [if_pos hlen, hdata]
    rw [hdata] at hlen
    refine ⟨iff_of_false (by omega) (by simp), ?_⟩
    rintro b' hb'
    exact hb'
  · rw [if_neg hlen]
    exact ⟨iff_of_true (by omega) rfl, fun b hb => absurd hb (by simp)⟩

/-- **A request with a reply of three bytes.** -/
theorem SerialPort.command_eq
    (port : SerialPort)
    (request : List UInt8) :
    (port.command request).2.written = port.written ++ [request] ∧
      (port.command request).1 = match replyByte port.coming with
        | none => -1
        | some b => if b = 30 then 0 else 1 := by
  obtain ⟨hwritten, hshort, hfirst⟩ := (port.write request).read_three
  refine ⟨hwritten, ?_⟩
  rw [SerialPort.command]
  change (if ((port.write request).read 3).1.length < 3 then (-1 : ℤ)
    else if ((port.write request).read 3).1.head? ≠ some 30 then 1 else 0) = _
  cases hreply : replyByte port.coming with
  | none => rw [if_pos (hshort.mpr hreply)]
  | some b =>
      have hlong : ¬ ((port.write request).read 3).1.length < 3 := by
        rw [hshort]
        exact fun hnone => absurd (hnone.symm.trans hreply) (by simp)
      rw [if_neg hlong, hfirst b hreply]
      by_cases hb : b = 30
      · simp [hb]
      · simp [hb]

theorem SerialPort.zeroRight_iff
    (port : SerialPort)
    (tare : Option ℤ) :
    port.ZeroRight tare ↔ ∀ b, replyByte port.coming = some b → b ≠ 0x30 ∧ b ≠ 30 := by
  obtain ⟨hwritten, hcode⟩ := port.command_eq cdl
  rw [SerialPort.ZeroRight]
  have hexec : port.execCmd 0x5a tare = ((port.command cdl).1, tare, (port.command cdl).2) := rfl
  rw [hexec, and_iff_right hwritten]
  simp only [hcode]
  cases hreply : replyByte port.coming with
  | none => simp [codeOf]
  | some b =>
      simp only [codeOf, Option.some.injEq, forall_eq']
      by_cases hzero : b = 0x30
      · simp [hzero]
      · by_cases hthirty : b = 30
        · simp [hthirty]
        · simp [hzero, hthirty]

/-- `'T'` begins with the request of `'Z'`. -/
theorem SerialPort.not_tareRight
    (port : SerialPort)
    (tare : Option ℤ) :
    ¬ port.TareRight tare := by
  have hfirst : ∃ more, (port.execCmd 0x54 tare).2.2.written = port.written ++ cdl :: more := by
    rw [SerialPort.execCmd, if_neg (by decide), if_pos rfl]
    cases tare with
    | none => exact ⟨[], rfl⟩
    | some val =>
        simp only
        split
        · refine ⟨[tav], ?_⟩
          rw [SerialPort.getTareVal]
          simp only
          split
          · exact List.append_assoc _ _ _
          · exact List.append_assoc _ _ _
        · exact ⟨[], rfl⟩
  obtain ⟨more, hmore⟩ := hfirst
  rintro ⟨hwritten, -⟩
  rw [hmore] at hwritten
  rcases hwritten with honce | ⟨-, htwice⟩
  · exact absurd (List.cons.inj (List.append_cancel_left honce)).1 (by decide)
  · exact absurd (List.cons.inj (List.append_cancel_left htwice)).1 (by decide)

/-- Whatever the reply is, `oper_mode` fails: no byte is 30 and 31. -/
theorem SerialPort.operMode_fails
    (port : SerialPort)
    (mode : UInt8)
    (fields : UInt32) :
    (port.operMode mode fields).1 = -1 ∧ (port.operMode mode fields).2.1 = fields := by
  have hboth : ∀ first : Option UInt8, first ≠ some 30 ∨ first ≠ some 31 := by
    intro first
    by_contra hno
    push Not at hno
    exact absurd (hno.1.symm.trans hno.2) (by decide)
  rw [SerialPort.operMode]
  simp only [if_pos (Or.inr (hboth _)), and_self]

theorem SerialPort.modeRight_iff
    (port : SerialPort)
    (mode : UInt8)
    (fields : UInt32) :
    port.ModeRight mode fields ↔
      replyByte port.coming ≠ some 0x30 ∧ replyByte port.coming ≠ some 0x31 := by
  obtain ⟨hcode, hfields⟩ := port.operMode_fails mode fields
  constructor
  · intro h
    have hno := mt h.code.mpr (by rw [hcode]; decide)
    exact not_or.mp hno
  · rintro ⟨hnet, hgross⟩
    refine ⟨?_, fun heq => absurd heq hnet, fun heq => absurd heq hgross, fun i _ => ?_⟩
    · rw [hcode]
      exact iff_of_false (by decide) (not_or.mpr ⟨hnet, hgross⟩)
    · rw [hfields]

/-- **The commands of a DIS2 terminal.**  `'Z'` reports the reply exactly if it is incomplete or
begins with neither the character `'0'` nor the byte 30; `'T'` never does what it is for; and
`oper_mode` takes no reply for an executed command. -/
theorem dis2_commands_iff
    (port : SerialPort)
    (tare : Option ℤ)
    (mode : UInt8)
    (fields : UInt32) :
    (port.ZeroRight tare ↔ ∀ b, replyByte port.coming = some b → b ≠ 0x30 ∧ b ≠ 30) ∧
      ¬ port.TareRight tare ∧
      (port.ModeRight mode fields ↔
        replyByte port.coming ≠ some 0x30 ∧ replyByte port.coming ≠ some 0x31) :=
  ⟨port.zeroRight_iff tare, port.not_tareRight tare, port.modeRight_iff mode fields⟩

/-- The terminal has executed the command, and answers in two pieces. -/
theorem dis2_reply_not_understood :
    let port : SerialPort := ⟨[], [.bytes [0x30], .bytes [], .bytes [0x0d, 0x0a]]⟩
    ¬ port.ZeroRight none ∧ ¬ port.TareRight none ∧ ¬ port.ModeRight 0x30 0 := by
  intro port
  refine ⟨fun h => ?_, fun h => ?_, fun h => ?_⟩
  · exact absurd h.2 (by decide +kernel)
  · exact absurd h.1 (by decide +kernel)
  · exact absurd (h.code.mpr (Or.inl (by decide +kernel))) (by decide +kernel)

end Replies

end Scaled
end MatrixBin
