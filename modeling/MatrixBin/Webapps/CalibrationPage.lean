import MatrixBin.Library.TransitionRuns
import Mathlib.Data.Int.Notation

/-!
# The calibration page (`calibration.js`)

The page sends one command after the other to the selected channel and keeps the command that
waits for its response in `currentCmd`: the parameters when a device is selected (mode A), the
current values (C), a command by hand (M), or the list of a button (E).  Its handlers and timers
run in any order; the daemon answers each command for a real channel at most once.

A handler is one step.  The values of the form come with the event, the command by hand in upper
case; what is displayed is left out, and of a response only the command that it answers and
whether it is OK.

`page_run` gives a condition on the runs under which one command waits at most, and a response
is taken for the command that it answers; the condition cannot be weakened at any of its steps.
-/

namespace MatrixBin
namespace Webapps

open Library

/-- A message of the topic `calibration/cmd`. -/
structure PageCmd where
  chan : ℤ
  cmd : String
deriving DecidableEq, Repr

/-- `currentCmd.mode` -/
inductive CmdMode
  | A
  | C
  | M
  | E
deriving DecidableEq, Repr

/-- The functions that are called by `setTimeout`. -/
inductive PageTimer
  | getParameters
  | getCurrentParameters
  | sendManual
  | execCommand
deriving DecidableEq, Repr

/-- A response handed to `parse_packet`, with `currentCmd` and `selectedChannel` at that
moment. -/
structure ParsedPacket where
  packet : PageCmd
  current : Option PageCmd
  selected : ℤ
deriving DecidableEq, Repr

/-- The variables of the page; the timers that are set; the commands sent to a real channel that
wait for their response; and the responses that were parsed. -/
structure Page where
  selectedChannel : ℤ
  currentCmd : Option (PageCmd × CmdMode)
  requestManual : Bool
  idxParameters : Nat
  idxCurrentParameters : Nat
  execCommands : List String
  disableWork : Bool
  idxExecCommand : Nat
  timers : List PageTimer
  waiting : List PageCmd
  parsed : List ParsedPacket
deriving DecidableEq, Repr

def Page.start : Page := ⟨-1, none, false, 0, 0, [], false, 0, [], [], []⟩

def commands : List String :=
  ["CE", "CM 1", "CM 2", "CM 3", "CI", "MR", "DS", "DP", "CG", "ZT", "ZR", "ZI", "NT", "NR", "FM",
    "FL", "IV"]

/-- `current_commands` -/
def currentCommands : List String := ["GW", "GS"]

/-- The buttons that execute a list of commands. -/
inductive PageButton
  | bCZ
  | bCG
  | bSaveCalibration
  | fmWrite
  | fmSave
  | bIZ
  | bCPWrite
deriving DecidableEq, Repr

/-- The list of a button, and how many of its first commands get a value: the number of the
calibration, or a field of the form. -/
def PageButton.list : PageButton → List String × Nat
  | .bCZ => (["CE", "CZ"], 1)
  | .bCG => (["CE", "CG"], 2)
  | .bSaveCalibration => (["CE", "CS", "CE"], 1)
  | .fmWrite => (["FM", "FL", "NR", "NT", "FM", "FL", "NR", "NT"], 4)
  | .fmSave => (["WP"], 0)
  | .bIZ => (["CE", "IZ"], 1)
  | .bCPWrite =>
      (["CE", "DP", "CE", "DS", "CE", "MR", "CE", "CI", "CE", "CM 1", "CE", "CM 2", "CE", "CM 3",
        "CE", "ZI", "CE", "ZR", "CE", "ZT", "DP", "DS", "MR", "CI", "CM 1", "CM 2", "CM 3", "ZI",
        "ZR", "ZT"], 20)

/-- `exec_command[i] = exec_command[i] + " " + value`, for the first commands. -/
def PageButton.execCommands (button : PageButton) (values : Nat → String) : List String :=
  button.list.1.zipIdx.map fun c => if c.2 < button.list.2 then c.1 ++ " " ++ values c.2 else c.1

inductive PageEvent
  | change (chan : ℤ)
  | configuration
  | response (cmd : PageCmd) (ok : Bool)
  | expire (timer : PageTimer) (request : String)
  | send (request : String)
  | click (button : PageButton) (values : Nat → String)

def Page.setTimeout (s : Page) (timer : PageTimer) : Page :=
  { s with timers := s.timers ++ [timer] }

/-- `client.publish` of a command, and the assignment to `currentCmd`.  The daemon does not answer
a command for the channel -1. -/
def Page.publish (s : Page) (cmd : String) (mode : CmdMode) : Page :=
  let json := ⟨s.selectedChannel, cmd ++ "\r"⟩
  { s with
    currentCmd := some (json, mode)
    waiting := if s.selectedChannel = -1 then s.waiting else s.waiting ++ [json] }

def Page.getParameters (s : Page) : Page :=
  if s.selectedChannel = -1 then s
  else if s.currentCmd = none then
    if s.idxParameters < commands.length then s.publish (commands.getD s.idxParameters "") .A else s
  else s.setTimeout .getParameters

def Page.getCurrentParameters (s : Page) : Page :=
  if s.selectedChannel = -1 then s
  else if s.disableWork then s.setTimeout .getCurrentParameters
  else
    let s := if s.requestManual then s.setTimeout .getCurrentParameters else s
    if s.currentCmd = none then
      let s := { s with idxCurrentParameters := s.idxCurrentParameters % currentCommands.length }
      s.publish (currentCommands.getD s.idxCurrentParameters "") .C
    else s.setTimeout .getCurrentParameters

/-- `sendManual`, with the text of the form in upper case, as `toUpperCase` returns it. -/
def Page.sendManual (s : Page) (request : String) : Page :=
  if s.selectedChannel = -1 then s
  else if s.currentCmd ≠ none then { s.setTimeout .sendManual with requestManual := true }
  else { s with requestManual := false }.publish request .M

def Page.execCommand (s : Page) : Page :=
  if s.idxExecCommand < s.execCommands.length then
    if s.currentCmd ≠ none then s.setTimeout .execCommand
    else s.publish (s.execCommands.getD s.idxExecCommand "") .E
  else { s with execCommands := [], disableWork := false }

/-- The handler of a change of the device; `initialize(0)` takes the selection back. -/
def Page.change (s : Page) (chan : ℤ) : Page :=
  if chan = -1 then { s with selectedChannel := -1 }
  else { s with selectedChannel := chan, idxParameters := 0 }.setTimeout .getParameters

/-- `parse_packet`, so many times. -/
def Page.parsePacket (s : Page) (packet : PageCmd) (times : Nat) : Page :=
  { s with
    parsed := s.parsed ++
      List.replicate times ⟨packet, s.currentCmd.map Prod.fst, s.selectedChannel⟩ }

/-- `on_calibration_cmd_response` -/
def Page.onResponse (s : Page) (packet : PageCmd) (ok : Bool) : Page :=
  match s.currentCmd.map Prod.snd with
  | none => s
  | some .E =>
      let s :=
        if ok then
          let s := s.parsePacket packet 1
          { s with idxExecCommand := s.idxExecCommand + 1 }.setTimeout .execCommand
        else { s with execCommands := [], disableWork := false }
      { s with currentCmd := none }
  | some .M =>
      let s := if ok then s.parsePacket packet 2 else s
      { s with currentCmd := none }.setTimeout .getCurrentParameters
  | some .C =>
      let s := if ok then s.parsePacket packet 1 else s
      { s with
        currentCmd := none
        idxCurrentParameters := s.idxCurrentParameters + 1 }.setTimeout .getCurrentParameters
  | some .A =>
      let s := if ok then s.parsePacket packet 1 else s
      let s := { s with currentCmd := none, idxParameters := s.idxParameters + 1 }
      if s.idxParameters < commands.length then s.setTimeout .getParameters
      else { s with idxCurrentParameters := 0 }.setTimeout .getCurrentParameters

def Page.click (s : Page) (button : PageButton) (values : Nat → String) : Page :=
  if s.selectedChannel = -1 then s
  else
    { s with
      execCommands := button.execCommands values
      disableWork := true
      idxExecCommand := 0 }.setTimeout .execCommand

/-- The function of a timer. -/
def Page.run (s : Page) (request : String) : PageTimer → Page
  | .getParameters => s.getParameters
  | .getCurrentParameters => s.getCurrentParameters
  | .sendManual => s.sendManual request
  | .execCommand => s.execCommand

/-- A step of the page: a timer has been set, and a response answers a command that waits. -/
def pageStep (s : Page) : PageEvent → Option Page
  | .change chan => some (s.change chan)
  | .configuration => some { s with currentCmd := none }
  | .response cmd ok =>
      if cmd ∈ s.waiting then
        some ({ s with waiting := s.waiting.erase cmd }.onResponse cmd ok)
      else none
  | .expire timer request =>
      if timer ∈ s.timers then some ({ s with timers := s.timers.erase timer }.run request timer)
      else none
  | .send request => some (s.sendManual request)
  | .click button values => some (s.click button values)

/-- One command waits at most, and a response is parsed while `currentCmd` is the command that it
answers, for the selected channel. -/
structure PageLaw (s : Page) : Prop where
  one : s.waiting.length ≤ 1
  own : ∀ p ∈ s.parsed, p.current = some p.packet ∧ p.selected = p.packet.chan

/-- While a command waits, there comes no configuration and no change to another channel. -/
def Undisturbed (s : Page) : PageEvent → Prop
  | .change chan => ∀ c ∈ s.waiting, chan = c.chan
  | .configuration => s.waiting = []
  | _ => True

/-- The events that the condition does not restrict. -/
def PageEvent.quiet : PageEvent → Bool
  | .change _ => false
  | .configuration => false
  | _ => true

/-- The law, now and as long as no device is changed and no configuration comes. -/
def LawStays (s : Page) : Prop :=
  ∀ events : List PageEvent, (∀ e ∈ events, e.quiet = true) → HoldsAlong pageStep PageLaw s events

/-- The invariant: the command that waits is the current one, for the selected channel. -/
structure Page.Inv (s : Page) : Prop where
  own : ∀ p ∈ s.parsed, p.current = some p.packet ∧ p.selected = p.packet.chan
  waiting : s.waiting =
    match s.currentCmd with
    | none => []
    | some (c, _) => if c.chan = -1 then [] else [c]
  selected : ∀ c ∈ s.waiting, s.selectedChannel = c.chan

section CalibrationPage

variable {s s' t : Page}

theorem start_pageInv : Page.start.Inv where
  own := fun _ hp => absurd hp List.not_mem_nil
  waiting := rfl
  selected := fun _ hc => absurd hc List.not_mem_nil

/-! ### What the handlers keep -/

/-- The invariant is about four of the variables. -/
theorem Page.Inv.frame
    (h : s.Inv)
    (hselected : t.selectedChannel = s.selectedChannel)
    (hcurrent : t.currentCmd = s.currentCmd)
    (hwaiting : t.waiting = s.waiting)
    (hparsed : t.parsed = s.parsed) :
    t.Inv := by
  obtain ⟨hown, hwait, hsel⟩ := h
  refine ⟨?_, ?_, ?_⟩
  · rw [hparsed]
    exact hown
  · rw [hwaiting, hcurrent]
    exact hwait
  · rw [hwaiting, hselected]
    exact hsel

theorem Page.Inv.setTimeout
    (h : s.Inv)
    (timer : PageTimer) :
    (s.setTimeout timer).Inv :=
  h.frame rfl rfl rfl rfl

/-- Without a current command, none waits. -/
theorem Page.Inv.none_waits
    (h : s.Inv)
    (hfree : s.currentCmd = none) :
    s.waiting = [] := by
  have hwaiting := h.waiting
  rw [hfree] at hwaiting
  exact hwaiting

/-- A command that waits is the current one, it waits alone, and its channel is a real one. -/
theorem Page.Inv.of_mem
    (h : s.Inv)
    {c : PageCmd}
    (hc : c ∈ s.waiting) :
    (∃ mode, s.currentCmd = some (c, mode)) ∧ s.waiting = [c] ∧ c.chan ≠ -1 := by
  have hwaiting := h.waiting
  cases hcurrent : s.currentCmd with
  | none =>
      rw [h.none_waits hcurrent] at hc
      exact absurd hc List.not_mem_nil
  | some current =>
      obtain ⟨d, mode⟩ := current
      simp only [hcurrent] at hwaiting
      by_cases hchan : d.chan = -1
      · rw [if_pos hchan] at hwaiting
        rw [hwaiting] at hc
        exact absurd hc List.not_mem_nil
      · rw [if_neg hchan] at hwaiting
        rw [hwaiting] at hc
        obtain rfl := List.mem_singleton.mp hc
        exact ⟨⟨mode, rfl⟩, hwaiting, hchan⟩

/-- A handler publishes when there is no current command. -/
theorem Page.Inv.publish
    (h : s.Inv)
    (hfree : s.currentCmd = none)
    (cmd : String)
    (mode : CmdMode) :
    (s.publish cmd mode).Inv := by
  have hnone := h.none_waits hfree
  refine ⟨h.own, ?_, ?_⟩
  · simp only [Page.publish, hnone, List.nil_append]
  · intro c hc
    simp only [Page.publish, hnone, List.nil_append] at hc
    split at hc
    · exact absurd hc List.not_mem_nil
    · obtain rfl := List.mem_singleton.mp hc
      rfl

theorem Page.Inv.getParameters
    (h : s.Inv) :
    s.getParameters.Inv := by
  rw [Page.getParameters]
  split
  · exact h
  · split
    · rename_i hfree
      split
      · exact h.publish hfree _ _
      · exact h
    · exact h.setTimeout _

theorem Page.Inv.getCurrentParameters
    (h : s.Inv) :
    s.getCurrentParameters.Inv := by
  rw [Page.getCurrentParameters]
  split
  · exact h
  · split
    · exact h.setTimeout _
    · have hmanual :
          (if s.requestManual then s.setTimeout .getCurrentParameters else s).Inv := by
        split
        · exact h.setTimeout _
        · exact h
      generalize (if s.requestManual then s.setTimeout .getCurrentParameters else s) = t at hmanual
      simp only
      split
      · rename_i hfree
        have hindex : Page.Inv
            { t with idxCurrentParameters := t.idxCurrentParameters % currentCommands.length } :=
          hmanual.frame rfl rfl rfl rfl
        exact hindex.publish hfree _ _
      · exact hmanual.setTimeout _

theorem Page.Inv.sendManual
    (h : s.Inv)
    (request : String) :
    (s.sendManual request).Inv := by
  rw [Page.sendManual]
  split
  · exact h
  · split
    · exact h.frame rfl rfl rfl rfl
    · rename_i hfree
      have hrequest : Page.Inv { s with requestManual := false } := h.frame rfl rfl rfl rfl
      exact hrequest.publish (not_not.mp hfree) _ _

theorem Page.Inv.execCommand
    (h : s.Inv) :
    s.execCommand.Inv := by
  rw [Page.execCommand]
  split
  · split
    · exact h.setTimeout _
    · rename_i hfree
      exact h.publish (not_not.mp hfree) _ _
  · exact h.frame rfl rfl rfl rfl

theorem Page.Inv.run
    (h : s.Inv)
    (request : String)
    (timer : PageTimer) :
    (s.run request timer).Inv := by
  cases timer with
  | getParameters => exact h.getParameters
  | getCurrentParameters => exact h.getCurrentParameters
  | sendManual => exact h.sendManual request
  | execCommand => exact h.execCommand

theorem Page.Inv.click
    (h : s.Inv)
    (button : PageButton)
    (values : Nat → String) :
    (s.click button values).Inv := by
  rw [Page.click]
  split
  · exact h
  · exact h.frame rfl rfl rfl rfl

theorem Page.Inv.change
    (h : s.Inv)
    {chan : ℤ}
    (hsame : ∀ c ∈ s.waiting, chan = c.chan) :
    (s.change chan).Inv := by
  rw [Page.change]
  split
  · rename_i hnone
    exact ⟨h.own, h.waiting, fun c hc => hnone.symm.trans (hsame c hc)⟩
  · exact ⟨h.own, h.waiting, hsame⟩

theorem Page.Inv.configuration
    (h : s.Inv)
    (hnone : s.waiting = []) :
    Page.Inv { s with currentCmd := none } where
  own := h.own
  waiting := hnone
  selected := h.selected

/-- What the handler of a response does with a current command. -/
theorem onResponse_spec
    (s : Page)
    (packet : PageCmd)
    {c : PageCmd}
    {mode : CmdMode}
    (hcurrent : s.currentCmd = some (c, mode))
    (ok : Bool) :
    (s.onResponse packet ok).currentCmd = none ∧
      (s.onResponse packet ok).waiting = s.waiting ∧
      ∃ times, (ok = true → 0 < times) ∧
        (s.onResponse packet ok).parsed =
          s.parsed ++ List.replicate times ⟨packet, some c, s.selectedChannel⟩ := by
  have hparse : ∀ times,
      (s.parsePacket packet times).parsed =
        s.parsed ++ List.replicate times ⟨packet, some c, s.selectedChannel⟩ := by
    intro times
    rw [Page.parsePacket, hcurrent]
    rfl
  have hskip : s.parsed = s.parsed ++ List.replicate 0 ⟨packet, some c, s.selectedChannel⟩ :=
    (List.append_nil _).symm
  rw [Page.onResponse, hcurrent]
  cases mode with
  | A =>
      cases ok with
      | false =>
          simp only [Option.map_some, Bool.false_eq_true, if_false]
          split
          · exact ⟨rfl, rfl, 0, fun hno => absurd hno (by decide), hskip⟩
          · exact ⟨rfl, rfl, 0, fun hno => absurd hno (by decide), hskip⟩
      | true =>
          simp only [Option.map_some, if_true]
          split
          · exact ⟨rfl, rfl, 1, fun _ => Nat.one_pos, hparse 1⟩
          · exact ⟨rfl, rfl, 1, fun _ => Nat.one_pos, hparse 1⟩
  | C =>
      cases ok with
      | false => exact ⟨rfl, rfl, 0, fun hno => absurd hno (by decide), hskip⟩
      | true => exact ⟨rfl, rfl, 1, fun _ => Nat.one_pos, hparse 1⟩
  | M =>
      cases ok with
      | false => exact ⟨rfl, rfl, 0, fun hno => absurd hno (by decide), hskip⟩
      | true => exact ⟨rfl, rfl, 2, fun _ => Nat.two_pos, hparse 2⟩
  | E =>
      cases ok with
      | false => exact ⟨rfl, rfl, 0, fun hno => absurd hno (by decide), hskip⟩
      | true => exact ⟨rfl, rfl, 1, fun _ => Nat.one_pos, hparse 1⟩

/-- The response to the command that waits. -/
theorem Page.Inv.response
    (h : s.Inv)
    {cmd : PageCmd}
    {ok : Bool}
    (hstep : pageStep s (.response cmd ok) = some s') :
    s'.Inv := by
  rw [pageStep, Option.ite_none_right_eq_some] at hstep
  obtain ⟨hmem, hs'⟩ := hstep
  obtain rfl := Option.some.inj hs'
  obtain ⟨⟨mode, hcurrent⟩, hwaiting, -⟩ := h.of_mem hmem
  have hselected := h.selected cmd hmem
  obtain ⟨hfree, hwait, times, -, hparsed⟩ :=
    onResponse_spec { s with waiting := s.waiting.erase cmd } cmd hcurrent ok
  have hnone :
      (Page.onResponse { s with waiting := s.waiting.erase cmd } cmd ok).waiting = [] := by
    rw [hwait]
    simp [hwaiting]
  refine ⟨?_, ?_, ?_⟩
  · rw [hparsed]
    intro p hp
    rcases List.mem_append.mp hp with hpast | hnew
    · exact h.own p hpast
    · obtain rfl := List.eq_of_mem_replicate hnew
      exact ⟨rfl, hselected⟩
  · rw [hnone, hfree]
  · rw [hnone]
    exact fun _ hno => absurd hno List.not_mem_nil

/-! ### Steps and runs -/

/-- A step of the page, under the condition. -/
theorem Page.Inv.step
    (h : s.Inv)
    {event : PageEvent}
    (hcond : Undisturbed s event)
    (hstep : pageStep s event = some s') :
    s'.Inv := by
  cases event with
  | change chan =>
      obtain rfl := Option.some.inj hstep
      exact h.change hcond
  | configuration =>
      obtain rfl := Option.some.inj hstep
      exact h.configuration hcond
  | response cmd ok => exact h.response hstep
  | expire timer request =>
      rw [pageStep, Option.ite_none_right_eq_some] at hstep
      obtain ⟨-, hs'⟩ := hstep
      obtain rfl := Option.some.inj hs'
      have hexpired : Page.Inv { s with timers := s.timers.erase timer } :=
        h.frame rfl rfl rfl rfl
      exact hexpired.run request timer
  | send request =>
      obtain rfl := Option.some.inj hstep
      exact h.sendManual request
  | click button values =>
      obtain rfl := Option.some.inj hstep
      exact h.click button values

theorem Page.Inv.law
    (h : s.Inv) :
    PageLaw s := by
  refine ⟨?_, h.own⟩
  cases hwaiting : s.waiting with
  | nil => exact Nat.zero_le 1
  | cons c rest =>
      obtain ⟨-, halone, -⟩ := h.of_mem (c := c) (by simp [hwaiting])
      rw [← hwaiting, halone]
      exact Nat.le_refl 1

theorem undisturbed_of_quiet
    {event : PageEvent}
    (hquiet : event.quiet = true)
    (s : Page) :
    Undisturbed s event := by
  cases event with
  | change chan => exact absurd hquiet Bool.false_ne_true
  | configuration => exact absurd hquiet Bool.false_ne_true
  | _ => trivial

theorem Page.Inv.lawStays
    (h : s.Inv) :
    LawStays s := fun _ hquiet =>
  holdsAlong_of_meetsAlong (fun _ h => h.law) (fun _ _ _ h => h.step) h
    (meetsAlong_of_forall (fun e he => undisturbed_of_quiet (hquiet e he)) s)

theorem change_eq
    (s : Page)
    (chan : ℤ) :
    (s.change chan).selectedChannel = chan ∧ (s.change chan).currentCmd = s.currentCmd ∧
      (s.change chan).waiting = s.waiting := by
  rw [Page.change]
  split
  · rename_i hnone
    exact ⟨hnone.symm, rfl, rfl⟩
  · exact ⟨rfl, rfl, rfl⟩

/-- A change to another channel, and the response to the command that waits. -/
theorem Page.Inv.undisturbed_of_change
    (h : s.Inv)
    {chan : ℤ}
    (hlaw : LawStays (s.change chan))
    {c : PageCmd}
    (hc : c ∈ s.waiting) :
    chan = c.chan := by
  obtain ⟨hselected, hcurrent, hwaiting⟩ := change_eq s chan
  obtain ⟨⟨mode, hcmd⟩, -, -⟩ := h.of_mem hc
  set t := s.change chan with ht
  have hanswer : pageStep t (.response c true) =
      some (Page.onResponse { t with waiting := t.waiting.erase c } c true) := by
    rw [pageStep, if_pos (hwaiting ▸ hc)]
  have hnext := (hlaw [.response c true] (by simp [PageEvent.quiet])).2 _ hanswer
  obtain ⟨-, -, times, htimes, hparsed⟩ :=
    onResponse_spec { t with waiting := t.waiting.erase c } c (hcurrent.trans hcmd) true
  have hown := hnext.own ⟨c, some c, t.selectedChannel⟩ (by
    rw [hparsed]
    exact List.mem_append_right _ (List.mem_replicate.mpr ⟨Nat.ne_of_gt (htimes rfl), rfl⟩))
  exact hselected.symm.trans hown.2

/-- A configuration, and a command by hand while another one waits. -/
theorem Page.Inv.undisturbed_of_configuration
    (h : s.Inv)
    (hlaw : LawStays { s with currentCmd := none }) :
    s.waiting = [] := by
  by_contra hsome
  obtain ⟨c, hc⟩ := List.exists_mem_of_ne_nil _ hsome
  obtain ⟨-, hwaiting, hchan⟩ := h.of_mem hc
  have hreal : s.selectedChannel ≠ -1 := by
    rw [h.selected c hc]
    exact hchan
  have hnext := (hlaw [.send ""] (by simp [PageEvent.quiet])).2 _ rfl
  have hone := hnext.one
  simp [Page.sendManual, Page.publish, hreal, hwaiting] at hone

/-- A step keeps the law for good exactly if it meets the condition. -/
theorem Page.Inv.lawStays_iff
    (h : s.Inv)
    {event : PageEvent}
    (hstep : pageStep s event = some s') :
    LawStays s' ↔ Undisturbed s event := by
  refine ⟨fun hlaw => ?_, fun hcond => (h.step hcond hstep).lawStays⟩
  cases event with
  | change chan =>
      obtain rfl := Option.some.inj hstep
      exact fun c hc => h.undisturbed_of_change hlaw hc
  | configuration =>
      obtain rfl := Option.some.inj hstep
      exact h.undisturbed_of_configuration hlaw
  | _ => trivial

/-- **The commands of the calibration page.**  In every run without a configuration or a change
to another channel while a command waits, the law holds in every state.  In every run, the law
holds whatever other events follow exactly if each step so far met the condition. -/
theorem page_run
    (events : List PageEvent) :
    (MeetsAlong pageStep Undisturbed Page.start events →
      HoldsAlong pageStep PageLaw Page.start events) ∧
    (HoldsAlong pageStep LawStays Page.start events ↔
      MeetsAlong pageStep Undisturbed Page.start events) :=
  ⟨holdsAlong_of_meetsAlong (fun _ h => h.law) (fun _ _ _ h => h.step) start_pageInv,
    holdsAlong_iff_meetsAlong (fun _ h => h.lawStays) (fun _ _ _ h hstep => h.lawStays_iff hstep)
      (fun _ _ _ h => h.step) start_pageInv events⟩

/-- The response for the channel 1 comes when the channel 2 is selected. -/
theorem answer_for_other_channel :
    ¬ HoldsAlong pageStep PageLaw Page.start
      [.change 1, .expire .getParameters "", .change 2, .response ⟨1, "CE\r"⟩ true] := by
  intro h
  have hlast := h.last (t := ⟨2, none, false, 1, 0, [], false, 0, [.getParameters, .getParameters],
    [], [⟨⟨1, "CE\r"⟩, some ⟨1, "CE\r"⟩, 2⟩]⟩) (by decide)
  have hown := hlast.own _ List.mem_cons_self
  exact absurd hown.2 (by decide)

end CalibrationPage

end Webapps
end MatrixBin
