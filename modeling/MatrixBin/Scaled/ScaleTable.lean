import Mathlib.Data.Vector.Basic

/-!
# The configured scales (`scaled.h`)

The part of `scale_sys_t` that `loadConfig` fills in and that does not change
afterwards.  A configuration without a device is refused, so a scale has at least
one terminal.
-/

namespace MatrixBin
namespace Scaled

/-- `enum cmd_e` -/
inductive CmdE
  | setZero
  | setTare
  | resetTare
  | maxCmd
deriving DecidableEq, Repr

/-- The integer that a variable of type `enum cmd_e` holds. -/
def CmdE.val : CmdE → Nat
  | .setZero => 0
  | .setTare => 1
  | .resetTare => 2
  | .maxCmd => 3

def maxTermCmds : Nat := 4

/-- `model_cmd_t`: a command without a string is a null pointer. -/
structure ModelCmd where
  model : List UInt8
  cmds : Vector (Option (List UInt8)) maxTermCmds
deriving DecidableEq

/-- `scale_term_t` -/
structure ScaleTerm where
  datatypeRaw : Bool
  model : Option ModelCmd
deriving DecidableEq

/-- `scale_sys_t` -/
structure ScaleSys where
  id : ℤ
  st : List ScaleTerm
  st_ne : st ≠ []
deriving DecidableEq

/-- `s->st[0]` -/
def ScaleSys.terminal (s : ScaleSys) : ScaleTerm := s.st.head s.st_ne

/-- `m->cmds[cmd]` of the first terminal's model, for one of the three commands. -/
def ScaleSys.cmdString (s : ScaleSys) (c : CmdE) : Option (List UInt8) :=
  have : c.val < maxTermCmds := by cases c <;> decide
  s.terminal.model.bind fun m => m.cmds[c.val]

end Scaled
end MatrixBin
