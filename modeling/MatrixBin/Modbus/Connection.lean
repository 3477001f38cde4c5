import MatrixBin.Library.SelfDelimiting
import MatrixBin.Library.TransitionRuns
import MatrixBin.Modbus.Server
import Mathlib.Data.List.Forall2

/-!
# The connections of the server (`tcp_thread.c`, `proc_mdb_msg`)

`proc_connect` waits for data, asks how many bytes have arrived and hands all of them to
`proc_mdb_msg` as one message.  A run is the network delivering pieces of what the
client sends, interleaved with the rounds of that loop.

`answered_in_order` is about the runs in which every message is one whole request that the
server can answer.
-/

namespace MatrixBin
namespace Modbus

open Library

/-! ### Requests -/

/-- A word as it is sent, high byte first. -/
def netBytes (w : UInt16) : List UInt8 := (wordBytes w).reverse

/-- A number below 256 takes the low byte only. -/
theorem netBytes_ofNat
    {n : Nat}
    (h : n < 256) :
    netBytes (UInt16.ofNat n) = [0, UInt8.ofNat n] := by
  have hnat : (UInt16.ofNat n).toNat = n :=
    UInt16.toNat_ofNat_of_lt' (by change _ < 65536; omega)
  rw [netBytes, wordBytes, hnat, Nat.mod_eq_of_lt h, Nat.div_eq_of_lt h]
  rfl

theorem netBytes_wordOfBytes
    (lo hi : UInt8) :
    netBytes (wordOfBytes lo hi) = [hi, lo] := by
  rw [netBytes, wordBytes_wordOfBytes]
  rfl

/-- The requests of the protocol: reads (`0x04`), writes (`0x10`), and those with another
function code, whose data is left open. -/
inductive Request
  | read
      (transaction : UInt16)
      (slave : UInt8)
      (reg count : UInt16)
      (hcount : 1 ≤ count.toNat ∧ count.toNat ≤ 125)
  | write
      (transaction : UInt16)
      (slave : UInt8)
      (reg : UInt16)
      (values : List UInt16)
      (hvalues : 1 ≤ values.length ∧ values.length ≤ 123)
  | other
      (transaction : UInt16)
      (slave func : UInt8)
      (hfunc : func ≠ 0x04 ∧ func ≠ 0x10)
      (data : List UInt8)
      (hdata : data.length ≤ 252)

namespace Request

/-- The length field: the number of bytes behind it. -/
def lengthField : Request → Nat
  | read .. => 6
  | write _ _ _ values _ => 7 + 2 * values.length
  | other _ _ _ _ data _ => 2 + data.length

def transactionId : Request → UInt16
  | read transaction .. => transaction
  | write transaction .. => transaction
  | other transaction .. => transaction

/-- Everything behind the length field. -/
def body : Request → List UInt8
  | read _ slave reg count _ => [slave, 0x04] ++ (netBytes reg ++ netBytes count)
  | write _ slave reg values _ =>
      [slave, 0x10] ++ (netBytes reg ++ (netBytes (UInt16.ofNat values.length) ++
        ([UInt8.ofNat (2 * values.length)] ++ values.flatMap netBytes)))
  | other _ slave func _ data _ => [slave, func] ++ data

def encode (r : Request) : List UInt8 :=
  (netBytes r.transactionId ++ (netBytes 0 ++ netBytes (UInt16.ofNat r.lengthField))) ++ r.body

theorem length_netBytes
    (w : UInt16) :
    (netBytes w).length = 2 := by
  rw [netBytes, List.length_reverse, length_wordBytes]

theorem length_body
    (r : Request) :
    r.body.length = r.lengthField := by
  cases r with
  | read _ slave reg count _ => rfl
  | write _ slave reg values _ =>
      simp only [body, List.length_append, length_netBytes, List.length_flatMap, List.length_cons,
        List.length_nil, List.map_const', List.sum_replicate_nat, lengthField]
      omega
  | other _ slave func _ data _ =>
      simp only [body, List.length_append, List.length_cons, List.length_nil, lengthField]

theorem lengthField_bounds
    (r : Request) :
    2 ≤ r.lengthField ∧ r.lengthField ≤ 254 := by
  cases r with
  | read => simp [lengthField]
  | write _ _ _ values hvalues =>
      simp only [lengthField]
      omega
  | other _ _ _ _ data hdata =>
      simp only [lengthField]
      omega

theorem length_encode
    (r : Request) :
    r.encode.length = 6 + r.lengthField := by
  simp only [encode, List.length_append, length_netBytes, length_body]

/-- The length that a header of six bytes announces. -/
def announced : List UInt8 → Nat
  | [_, _, _, _, hi, lo] => 6 + (256 * hi.toNat + lo.toNat)
  | _ => 0

/-- The low byte of the length field, at its position in the message. -/
theorem encode_take_six
    (r : Request) :
    ∃ t₁ t₂ : UInt8, r.encode.take 6 = [t₁, t₂, 0, 0, 0, UInt8.ofNat r.lengthField] := by
  have hbounds := r.lengthField_bounds
  refine ⟨UInt8.ofNat (r.transactionId.toNat / 256), UInt8.ofNat (r.transactionId.toNat % 256), ?_⟩
  rw [encode, netBytes_ofNat (by omega)]
  rfl

theorem selfDelimiting_encode : SelfDelimiting encode := by
  refine SelfDelimiting.of_header (k := 6) announced (by omega) ?_ ?_
  · intro r
    have := r.length_encode
    omega
  · intro r
    obtain ⟨t₁, t₂, htake⟩ := r.encode_take_six
    have hbounds := r.lengthField_bounds
    have hfield : (UInt8.ofNat r.lengthField).toNat = r.lengthField :=
      UInt8.toNat_ofNat_of_lt' (by change _ < 256; omega)
    rw [htake, announced, hfield, r.length_encode]
    simp

end Request

/-! ### The loop of a connection -/

/-- What a call of `proc_mdb_msg` finds: the database, and what its arrays held before. -/
structure Round where
  db : Database
  rtDb : Bytes
  mdbBuf : Bytes

/-- `BYTES(mdb_buf)`, a signed `char`. -/
def bytesField (buf : Bytes) : ℤ := (buf 5).toInt8.toInt

/-- `proc_mdb_msg` on the bytes of one `read`: what it writes, if anything, and what was
published. -/
def procMdbMsg (round : Round) (msg : List UInt8) :
    Option (Option (List UInt8) × List (String × Nat)) := do
  let buf ← store mdbBufSize round.mdbBuf 0 msg
  if msg.length < 7 ∨ bytesField buf < 6 then return (none, [])
  else
    let reply ← procMdb round.db round.rtDb buf
    -- `write` refuses a negative number of bytes, and nothing looks at its result
    if reply.size < 0 then return (none, reply.published)
    else
      let written ← load mdbBufSize reply.buf 0 reply.size.toNat
      return (some written, reply.published)

/-- A connection: what the client sends and the network has not delivered, what has
arrived and was not read, the counter of timeouts, and the effects. -/
structure Connection where
  sent : List UInt8
  arrived : List UInt8
  tmCnt : Nat
  closed : Bool
  written : List (Round × List UInt8)
  published : List (String × Nat)

def maxCnt : Nat := 4

inductive ConnectionAct
  | deliver (n : Nat)
  | round (round : Round)
  | stop

/-- `proc_connect`: a round reads all that has arrived or counts a timeout; `stop` is the
end of the stream, the shutdown or a failing `pselect`. -/
def procConnect (c : Connection) : ConnectionAct → Option Connection
  | .deliver n => some { c with sent := c.sent.drop n, arrived := c.arrived ++ c.sent.take n }
  | .round round =>
      if c.closed then none
      else if c.arrived = [] then
        some { c with tmCnt := c.tmCnt + 1, closed := decide (maxCnt ≤ c.tmCnt + 1) }
      else
        (procMdbMsg round c.arrived).map fun r =>
          { c with
            arrived := [], tmCnt := 0,
            written := c.written ++ (r.1.map (round, ·)).toList,
            published := c.published ++ r.2 }
  | .stop => some { c with closed := true }

/-- A new connection, and the requests that its client will send. -/
def Connection.initial (requests : List Request) : Connection :=
  ⟨requests.flatMap Request.encode, [], 0, false, [], []⟩

/-! ### Requests answered one by one -/

/-- What is written for a request that arrives alone and in one piece. -/
def AnsweredAlone (r : Request) (w : Round × List UInt8) : Prop :=
  ∃ c, runSteps procConnect (.initial [r]) [.deliver r.encode.length, .round w.1] = some c ∧
    c.written = [w]

/-- The requests taken from the stream have been answered, each once and in their order,
as if each had arrived alone. -/
def AnsweredInOrder (requests : List Request) (c : Connection) : Prop :=
  ∃ served waiting, requests = served ++ waiting ∧
    c.arrived ++ c.sent = waiting.flatMap Request.encode ∧
    List.Forall₂ AnsweredAlone served c.written

/-- A request that the server answers: a read of registers that lie in `rt_db`, or a write,
with a length field below 128. -/
def Request.Answerable (db : Database) : Request → Prop
  | .read _ _ reg count _ => db.regs ≤ 120 ∧ reg.toNat + count.toNat ≤ 120
  | .write _ _ _ values _ => 7 + 2 * values.length < 128
  | .other .. => False

/-- The bytes of a read are one whole request that the server answers. -/
def TakesWholeRequest (c : Connection) : ConnectionAct → Prop
  | .round round =>
      c.arrived ≠ [] → ∃ r : Request, r.encode = c.arrived ∧ r.Answerable round.db
  | .deliver _ => True
  | .stop => True

theorem bytesField_encode
    {r : Request}
    (hfield : r.lengthField < 128)
    (m : Bytes) :
    bytesField (m.write 0 r.encode) = r.lengthField := by
  obtain ⟨t₁, t₂, htake⟩ := r.encode_take_six
  have hbyte : r.encode[5]? = some (UInt8.ofNat r.lengthField) := by
    rw [← List.getElem?_take_of_lt (by omega : 5 < 6), htake]
    rfl
  have hnat : (UInt8.ofNat r.lengthField).toNat = r.lengthField :=
    UInt8.toNat_ofNat_of_lt' (by change _ < 256; omega)
  rw [bytesField, Bytes.write_apply, if_pos (Nat.zero_le 5), Nat.sub_zero, hbyte, Option.getD_some,
    toInt8_toInt, hnat, if_pos hfield]

section Answer

variable {r : Request} {round : Round}

/-- The twelve bytes of a header, read into the buffer. -/
theorem header_write
    {h₀ h₁ h₂ h₃ h₄ h₅ h₆ h₇ h₈ h₉ h₁₀ h₁₁ : UInt8}
    {m : Bytes}
    {rest : List UInt8} :
    let buf := m.write 0 ([h₀, h₁, h₂, h₃, h₄, h₅, h₆, h₇, h₈, h₉, h₁₀, h₁₁] ++ rest)
    buf 7 = h₇ ∧ buf 8 = h₈ ∧ buf 9 = h₉ ∧ buf 11 = h₁₁ := by
  refine ⟨?_, ?_, ?_, ?_⟩ <;> exact Bytes.write_apply ..

/-- What `proc_mdb` finds of a read. -/
theorem write_read_request
    {transaction : UInt16}
    {slave : UInt8}
    {reg count : UInt16}
    {hcount : 1 ≤ count.toNat ∧ count.toNat ≤ 125}
    (m : Bytes) :
    let buf := m.write 0 (Request.read transaction slave reg count hcount).encode
    buf 7 = 0x04 ∧ reg0 buf = reg.toNat ∧ numRegs buf = count.toNat := by
  have hreg := reg.toNat_lt
  obtain ⟨hfunc, hhigh, hlow, hregs⟩ := @header_write _ _ _ _ _ _ _ _ _ _ _ _ m []
  refine ⟨hfunc, ?_, ?_⟩
  · rw [reg0]
    exact (congrArg₂ (fun lo hi : UInt8 => lo.toNat + 256 * hi.toNat) hlow hhigh).trans (by
      rw [UInt8.toNat_ofNat_of_lt' (by change _ < 256; omega),
        UInt8.toNat_ofNat_of_lt' (by change _ < 256; omega)]
      omega)
  · rw [numRegs]
    exact (congrArg (fun b : UInt8 => b.toInt8.toInt) hregs).trans (by
      rw [toInt8_toInt, UInt8.toNat_ofNat_of_lt' (by change _ < 256; omega), if_pos (by omega)]
      omega)

theorem write_write_request
    {transaction : UInt16}
    {slave : UInt8}
    {reg : UInt16}
    {values : List UInt16}
    {hvalues : 1 ≤ values.length ∧ values.length ≤ 123}
    (m : Bytes) :
    let buf := m.write 0 (Request.write transaction slave reg values hvalues).encode
    buf 7 = 0x10 ∧ numRegs buf = values.length := by
  have hnat : (UInt16.ofNat values.length).toNat = values.length :=
    UInt16.toNat_ofNat_of_lt' (by change _ < 65536; omega)
  obtain ⟨hfunc, -, -, hregs⟩ :=
    @header_write _ _ _ _ _ _ _ _ _ _ _ _ m
      ([UInt8.ofNat (2 * values.length)] ++ values.flatMap netBytes)
  refine ⟨hfunc, ?_⟩
  rw [numRegs]
  exact (congrArg (fun b : UInt8 => b.toInt8.toInt) hregs).trans (by
    rw [toInt8_toInt, hnat, UInt8.toNat_ofNat_of_lt' (by change _ < 256; omega), if_pos (by omega)]
    omega)

theorem Request.Answerable.field
    (h : r.Answerable round.db) :
    6 ≤ r.lengthField ∧ r.lengthField < 128 := by
  cases r with
  | read => exact ⟨Nat.le_refl 6, Nat.lt_of_sub_pos (Nat.succ_pos 121)⟩
  | write _ _ _ values hvalues =>
      refine ⟨?_, h⟩
      simp only [Request.lengthField]
      omega
  | other => exact h.elim

/-- The size of its reply is defined, and fits the buffer. -/
theorem Request.Answerable.procMdb
    (h : r.Answerable round.db)
    (m : Bytes) :
    ∃ reply, Modbus.procMdb round.db round.rtDb (m.write 0 r.encode) = some reply ∧
      0 ≤ reply.size ∧ reply.size ≤ 256 := by
  cases r with
  | read transaction slave reg count hcount =>
      obtain ⟨hregs, hinside⟩ := h
      obtain ⟨hfunc, hreg0, hnum⟩ := @write_read_request transaction slave reg count hcount m
      have hread := procRead_spec round.db round.rtDb
        (m.write 0 (Request.read transaction slave reg count hcount).encode)
      rw [hreg0, hnum, if_pos ⟨hregs, Or.inr (by omega)⟩] at hread
      refine ⟨_, by rw [Modbus.procMdb, if_pos hfunc]; exact hread, ?_⟩
      simp only
      omega
  | write transaction slave reg values hvalues =>
      have hfew : 7 + 2 * values.length < 128 := h
      obtain ⟨hfunc, hnum⟩ := @write_write_request transaction slave reg values hvalues m
      have hwrite := procWrite_spec
        (m.write 0 (Request.write transaction slave reg values hvalues).encode)
      rw [hnum, if_pos (by omega)] at hwrite
      refine ⟨_, by rw [Modbus.procMdb, hfunc, if_neg (by decide), if_pos rfl]; exact hwrite, ?_⟩
      simp only
      omega
  | other => exact h.elim

/-- Such a request is answered. -/
theorem procMdbMsg_encode
    (h : r.Answerable round.db) :
    ∃ w published, procMdbMsg round r.encode = some (some w, published) := by
  have hlen := r.length_encode
  obtain ⟨hsix, hfield⟩ := h.field
  have hstore : store mdbBufSize round.mdbBuf 0 r.encode =
      some (round.mdbBuf.write 0 r.encode) :=
    store_eq (by rw [mdbBufSize]; omega)
  have hvalid : ¬ (r.encode.length < 7 ∨ bytesField (round.mdbBuf.write 0 r.encode) < 6) := by
    rw [bytesField_encode hfield]
    omega
  obtain ⟨reply, hreply, hsize, hfits⟩ := h.procMdb round.mdbBuf
  have hload : load mdbBufSize reply.buf 0 reply.size.toNat =
      some (reply.buf.read 0 reply.size.toNat) :=
    if_pos (by rw [mdbBufSize]; omega)
  refine ⟨reply.buf.read 0 reply.size.toNat, reply.published, ?_⟩
  rw [procMdbMsg, hstore]
  simp only [Option.bind_eq_bind, Option.bind_some, if_neg hvalid, hreply,
    if_neg (Int.not_lt.mpr hsize), hload]
  rfl

end Answer

theorem answeredAlone_iff
    {r : Request}
    {round : Round}
    {w : List UInt8} :
    AnsweredAlone r (round, w) ↔
      ∃ published, procMdbMsg round r.encode = some (some w, published) := by
  have hnonempty := Request.selfDelimiting_encode.ne_nil r
  cases hmsg : procMdbMsg round r.encode with
  | none => simp [AnsweredAlone, runSteps, procConnect, Connection.initial, hnonempty, hmsg]
  | some out =>
      obtain ⟨reply, published⟩ := out
      cases reply <;>
        simp [AnsweredAlone, runSteps, procConnect, Connection.initial, hnonempty, hmsg]

/-- A read of a request that can be answered is answered, with the bytes that the request gets
alone. -/
theorem procConnect_answers
    {round : Round}
    {c : Connection}
    (hclosed : c.closed = false)
    (harrived : c.arrived ≠ [])
    (hwhole : TakesWholeRequest c (.round round)) :
    ∃ c' r w, procConnect c (.round round) = some c' ∧ r.encode = c.arrived ∧
      AnsweredAlone r (round, w) ∧ c'.written = c.written ++ [(round, w)] := by
  obtain ⟨r, hr, hanswerable⟩ := hwhole harrived
  obtain ⟨w, published, hmsg⟩ := procMdbMsg_encode hanswerable
  have halone := answeredAlone_iff.mpr ⟨published, hmsg⟩
  rw [hr] at hmsg
  have hstep : procConnect c (.round round) = some
      { c with
        arrived := [], tmCnt := 0, written := c.written ++ [(round, w)],
        published := c.published ++ published } := by
    rw [procConnect, if_neg (by rw [hclosed]; decide), if_neg harrived, hmsg]
    rfl
  exact ⟨_, r, w, hstep, hr, halone, rfl⟩

theorem AnsweredInOrder.step
    {requests : List Request}
    {c c' : Connection}
    {a : ConnectionAct}
    (h : AnsweredInOrder requests c)
    (hwhole : TakesWholeRequest c a)
    (hstep : procConnect c a = some c') :
    AnsweredInOrder requests c' := by
  obtain ⟨served, waiting, hrequests, hstream, hanswers⟩ := h
  cases a with
  | deliver n =>
      obtain rfl := Option.some.inj hstep
      exact ⟨served, waiting, hrequests, by simpa using hstream, hanswers⟩
  | stop =>
      obtain rfl := Option.some.inj hstep
      exact ⟨served, waiting, hrequests, hstream, hanswers⟩
  | round round =>
      simp only [procConnect] at hstep
      split at hstep
      · simp at hstep
      · split at hstep
        · obtain rfl := Option.some.inj hstep
          exact ⟨served, waiting, hrequests, hstream, hanswers⟩
        · rename_i harrived
          obtain ⟨⟨reply, published⟩, hmsg, rfl⟩ := Option.map_eq_some_iff.mp hstep
          obtain ⟨r, hr, hanswerable⟩ := hwhole harrived
          rw [← hr] at hmsg hstream
          obtain ⟨w, published', halone⟩ := procMdbMsg_encode hanswerable
          obtain ⟨rfl, rfl⟩ := Prod.mk.inj (Option.some.inj (hmsg.symm.trans halone))
          -- the request that was read is the first of those waiting
          obtain ⟨r', rest, rfl, heq, hrest⟩ :=
            Request.selfDelimiting_encode.flatMap_eq_append hstream
          rw [← heq] at hmsg
          refine ⟨served ++ [r'], rest, by simpa using hrequests, by simpa using hrest, ?_⟩
          exact List.rel_append hanswers
            (List.Forall₂.cons (answeredAlone_iff.mpr ⟨published, hmsg⟩) List.Forall₂.nil)

/-- **A connection whose reads take whole requests.**  In every state reached the
requests taken so far are answered in order, a read of the next one has an answer, and if the
whole stream was read, all are answered. -/
theorem answered_in_order
    {requests : List Request}
    {c : Connection}
    (hc : ReachedUnder procConnect TakesWholeRequest (.initial requests) c) :
    AnsweredInOrder requests c ∧
      (∀ round, c.closed = false → c.arrived ≠ [] → TakesWholeRequest c (.round round) →
        ∃ c' r w, procConnect c (.round round) = some c' ∧ r.encode = c.arrived ∧
          AnsweredAlone r (round, w) ∧ c'.written = c.written ++ [(round, w)]) ∧
      (c.arrived = [] → c.sent = [] → List.Forall₂ AnsweredAlone requests c.written) := by
  have hinv : AnsweredInOrder requests c :=
    hc.invariant ⟨[], requests, rfl, rfl, List.Forall₂.nil⟩
      fun _ _ _ h hwhole hstep => h.step hwhole hstep
  refine ⟨hinv, fun round => procConnect_answers, ?_⟩
  intro harrived hsent
  obtain ⟨served, waiting, hrequests, hstream, hanswers⟩ := hinv
  rw [harrived, hsent, List.append_nil] at hstream
  rw [Request.selfDelimiting_encode.flatMap_eq_nil hstream.symm, List.append_nil] at hrequests
  rw [hrequests]
  exact hanswers

/-- The client's request for eight registers from 0 on. -/
def readEight : Request := .read 0x0102 1 0 8 (by decide)

def quiet : Round := ⟨Database.initial, fun _ => 0, fun _ => 0⟩

/-- The first request arrives in two pieces, and each is read when it is complete. -/
theorem answered_in_order_pieces :
    ∃ c, runSteps procConnect (.initial [readEight, readEight])
        [.deliver 5, .deliver 7, .round quiet, .deliver 12, .round quiet] = some c ∧
      List.Forall₂ AnsweredAlone [readEight, readEight] c.written := by
  have hstart : ReachedUnder procConnect TakesWholeRequest (.initial [readEight, readEight])
    (.initial [readEight, readEight]) := .start
  have hpiece := hstart.next (a := ConnectionAct.deliver 5) trivial rfl
  have hwhole := hpiece.next (a := ConnectionAct.deliver 7) trivial rfl
  have hread := hwhole.next (a := ConnectionAct.round quiet)
    (fun _ => ⟨readEight, rfl, by decide, by decide⟩) rfl
  have hnext := hread.next (a := ConnectionAct.deliver 12) trivial rfl
  have hboth := hnext.next (a := ConnectionAct.round quiet)
    (fun _ => ⟨readEight, rfl, by decide, by decide⟩) rfl
  exact ⟨_, rfl, (answered_in_order hboth).2.2 rfl rfl⟩

/-- Two requests that are read together are answered once. -/
theorem two_requests_one_answer :
    ∃ c, runSteps procConnect (.initial [readEight, readEight])
        [.deliver 24, .round quiet] = some c ∧
      c.arrived = [] ∧ c.sent = [] ∧ c.written.length = 1 ∧
      ¬ List.Forall₂ AnsweredAlone [readEight, readEight] c.written :=
  ⟨_, rfl, rfl, rfl, rfl, fun h => absurd h.length_eq (show 2 ≠ 1 by decide)⟩

end Modbus
end MatrixBin
