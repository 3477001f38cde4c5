import MatrixBin.Library.DecimalText
import MatrixBin.Library.TransitionRuns
import MatrixBin.Scaled.ScaleTable

/-!
# The UDP command thread (`commands.c`)

`runcommand` reads a datagram into the static buffer `cmdbuf`, decodes it with
`parse_buf`, hands the command string to the scale's loop and answers with two
codes.  The variable `cmd` of `runcommand` lives as long as the thread and
`parse_buf` does not always assign it, so it belongs to the state here; its first
value is indeterminate.  Reading `cmds` outside its bounds is `none`.

The protocol comment of the file is the specification: `Answers` says which code
belongs to a datagram and what is sent.
-/

namespace MatrixBin
namespace Scaled

open Library

/-- `strlen(cmdbuf)` -/
def cmdSize : Nat := 11

/-- The return codes of the transmit level. -/
inductive TransmitCode
  | ok
  | unrecognized
  | notFound
  | notSupported
deriving DecidableEq, Repr

/-- The second digit of the code. -/
def TransmitCode.byte : TransmitCode → UInt8
  | .ok => 0x30
  | .unrecognized => 0x31
  | .notFound => 0x32
  | .notSupported => 0x33

structure CommandState where
  cmdbuf : Vector UInt8 cmdSize
  repbuf : Vector UInt8 cmdSize
  cmd : Nat

def CommandState.initial (cmd : Nat) : CommandState where
  cmdbuf := #v[0x02, 0x53, 0x43, 0x3b, 0x78, 0x78, 0x3b, 0x78, 0x78, 0x0d, 0x0a]
  repbuf := #v[0x02, 0x53, 0x43, 0x3b, 0x30, 0x30, 0x3b, 0x30, 0x30, 0x0d, 0x0a]
  cmd := cmd

/-- The loop over `scale[]`: the last scale with the id. -/
def findScaleSys (scales : List ScaleSys) (id : ℤ) : Option ScaleSys :=
  scales.foldl (fun s x => if x.id = id then some x else s) none

/-- `repbuf[4]='0'; repbuf[5]=..` -/
def transmitReply (code : TransmitCode) (repbuf : Vector UInt8 cmdSize) :
    Vector UInt8 cmdSize :=
  (repbuf.set 4 0x30).set 5 code.byte

/-- `repbuf[7]='0'` and the switch over `cur_cmd.rc`. -/
def applicationReply (rc : ℤ) (repbuf : Vector UInt8 cmdSize) : Vector UInt8 cmdSize :=
  (repbuf.set 7 0x30).set 8 (if rc = 0 then 0x30 else if rc = 1 then 0x32 else 0x31)

/-- One pass of the loop of `runcommand`: the state with the reply in `repbuf`, and
the command string left for a scale. -/
structure Served where
  state : CommandState
  sent : Option (ScaleSys × List UInt8)

/-- The jump to `rep` with nothing sent. -/
def refuse (st : CommandState) (code : TransmitCode) : Option Served :=
  some ⟨{ st with repbuf := transmitReply code st.repbuf }, none⟩

/-- From the search of the scale to the reply; `rc` is `cur_cmd.rc` after the wait. -/
def dispatch (scales : List ScaleSys) (st : CommandState) (id : ℤ) (rc : ℤ) : Option Served :=
  match findScaleSys scales id with
  | none => refuse st .notFound
  | some s =>
      match s.terminal.model with
      | none => refuse st .notSupported
      | some m =>
          match m.cmds[st.cmd]? with
          | none => none
          | some none => refuse st .notSupported
          | some (some text) =>
              let repbuf := applicationReply rc (transmitReply .ok st.repbuf)
              some ⟨{ st with repbuf := repbuf }, some (s, text)⟩

def CmdE.opcode : CmdE → List UInt8
  | .setZero => [0x53, 0x5a]
  | .setTare => [0x53, 0x54]
  | .resetTare => [0x52, 0x54]
  | .maxCmd => []

/-- The documented 11 bytes for the scale with the id `10 * tens + units`. -/
def template (tens units : Nat) (c : CmdE) : List UInt8 :=
  [0x02, 0x53, 0x43, 0x3b, digitByte tens, digitByte units, 0x3b] ++ c.opcode ++ [0x0d, 0x0a]

def IsTemplate (datagram : List UInt8) (id : ℤ) (c : CmdE) : Prop :=
  ∃ tens units : Nat, tens < 10 ∧ units < 10 ∧ id = 10 * tens + units ∧ c ≠ .maxCmd ∧
    datagram = template tens units c

/-- The answer that the protocol prescribes, and what may be sent with it. -/
inductive Answers (scales : List ScaleSys) (datagram : List UInt8) :
    TransmitCode → Option (ScaleSys × List UInt8) → Prop
  | unrecognized
      (h : ∀ id c, ¬ IsTemplate datagram id c) :
      Answers scales datagram .unrecognized none
  | notFound
      (id : ℤ) (c : CmdE)
      (h : IsTemplate datagram id c)
      (hid : ∀ s ∈ scales, s.id ≠ id) :
      Answers scales datagram .notFound none
  | notSupported
      (id : ℤ) (c : CmdE) (s : ScaleSys)
      (h : IsTemplate datagram id c)
      (hs : s ∈ scales) (hid : s.id = id)
      (hcmd : s.cmdString c = none) :
      Answers scales datagram .notSupported none
  | ok
      (id : ℤ) (c : CmdE) (s : ScaleSys) (text : List UInt8)
      (h : IsTemplate datagram id c)
      (hs : s ∈ scales) (hid : s.id = id)
      (hcmd : s.cmdString c = some text) :
      Answers scales datagram .ok (some (s, text))

/-- The transmit code that a reply carries. -/
def Served.Replies (served : Served) (code : TransmitCode) : Prop :=
  served.state.repbuf[4] = 0x30 ∧ served.state.repbuf[5] = code.byte

theorem findScaleSys_append_singleton
    (scales : List ScaleSys)
    (x : ScaleSys)
    (id : ℤ) :
    findScaleSys (scales ++ [x]) id =
      if x.id = id then some x else findScaleSys scales id := by
  simp [findScaleSys, List.foldl_append]

theorem Served.Replies.unique
    {served : Served}
    {code code' : TransmitCode}
    (h : served.Replies code)
    (h' : served.Replies code') :
    code = code' := by
  have hbyte := h.2.symm.trans h'.2
  cases code <;> cases code' <;> simp [TransmitCode.byte] at hbyte ⊢

end Scaled
end MatrixBin
