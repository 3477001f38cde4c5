import MatrixBin.Scaled.CalibrationText
import MatrixBin.Webapps.CalibrationPage
import Mathlib.Data.List.ReduceOption

/-!
# The page and the daemon (`calibration.js`, `mqtt_thread.c`)

The page publishes its commands as JSON texts, the broker hands them to the daemon in order, and
the texts of the responses come back in order.  The events of the page, the calls of `on_message`
and the deliveries are interleaved in any order; a broken connection loses texts on either way,
and a daemon that reads a null string or leaves `ibuf` is dead.

`link_refines_page` says that every run is a run of the model of the page, which lets a response
come only for a command that waits; `waiting_is_under_way` says that a command that waits is on
its way, or was served by a call of the run that used the port of its scale.
-/

namespace MatrixBin
namespace Webapps

open Library Library.JsonText Scaled

/-- `JSON.stringify`: no blanks, and the same escapes as those that cJSON prints. -/
def stringify (v : Json) : List UInt8 := Cjson.render false (fun _ _ => []) 0 v

/-- `selectedChannel` is the value of an option, or the number -1 that `initialize` assigns. -/
def chanJson (chan : ℤ) : Json :=
  if chan = -1 then .number (.finite (-1)) else .string (Cjson.printInt chan)

def PageCmd.json (c : PageCmd) : Json := commandJson (chanJson c.chan) (utf8 c.cmd)

def PageCmd.text (c : PageCmd) : List UInt8 := stringify c.json

/-- What the page publishes when no device is selected any more. -/
def deselectText : List UInt8 := stringify (commandJson (.ofText "-1") [])

/-- The command that a handler publishes: there was no current one, and it becomes the current
one. -/
def publishedCmd (s s' : Page) : Option PageCmd :=
  match s.currentCmd, s'.currentCmd with
  | none, some (c, _) => some c
  | _, _ => none

/-- The texts that the page publishes in a step. -/
def pageTexts (s : Page) (event : PageEvent) (s' : Page) : List (List UInt8) :=
  match event with
  | .change chan => if chan = -1 then [deselectText] else []
  | _ => ((publishedCmd s s').map PageCmd.text).toList

/-- `JSON.parse` of a response: the command that it answers, and whether it is OK. -/
def ReadsAs (text : List UInt8) (c : PageCmd) (ok : Bool) : Prop :=
  ∃ r : CmdResponse, Document 1 r.json text ∧ r.chan = Cjson.printInt c.chan ∧
    r.cmd = utf8 c.cmd ∧ ok = decide (r.retCode = "OK")

/-- The options of the page are the ids of the scales, and the texts of the form hold no NUL. -/
def PageEvent.Offered (scales : List ScaleSys) (s' : Page) : PageEvent → Prop
  | .change chan => chan = -1 ∨ ∃ sc ∈ scales, sc.id = chan
  | .response _ _ => False
  | _ => ∀ c mode, s'.currentCmd = some (c, mode) → (0 : UInt8) ∉ utf8 c.cmd

/-- A call of `on_message`: the payload, what the terminal did meanwhile, the result and the
published text. -/
structure ServedCall where
  payload : List UInt8
  env : ExecEnv
  result : MessageResult
  reply : Option (List UInt8)

/-- The page, the daemon while it lives, the texts on their way, and the calls so far. -/
structure CalibrationLink where
  page : Page
  toDaemon : List (List UInt8)
  daemon : Option Session
  toPage : List (List UInt8)
  served : List ServedCall

def CalibrationLink.start : CalibrationLink := ⟨.start, [], some .initial, [], []⟩

/-- The calls that published a response. -/
def CalibrationLink.replied (s : CalibrationLink) : List ServedCall :=
  s.served.filter fun call => call.reply.isSome

/-- The states that are reached with these events of the page. -/
inductive LinkRun (scales : List ScaleSys) (mayLose : Bool) :
    List PageEvent → CalibrationLink → Prop
  | start : LinkRun scales mayLose [] .start
  | page
      {events : List PageEvent} {s : CalibrationLink} {event : PageEvent} {p : Page}
      (before : LinkRun scales mayLose events s)
      (hstep : pageStep s.page event = some p)
      (hoffered : event.Offered scales p) :
      LinkRun scales mayLose (events ++ [event])
        { s with page := p, toDaemon := s.toDaemon ++ pageTexts s.page event p }
  | serve
      {events : List PageEvent} {s : CalibrationLink} {text : List UInt8}
      {rest : List (List UInt8)} {st : Session} {env : ExecEnv} {fresh : Bytes}
      {res : MessageResult} {reply : Option (List UInt8)}
      (before : LinkRun scales mayLose events s)
      (htext : s.toDaemon = text :: rest)
      (hdaemon : s.daemon = some st)
      (henv : env.answer.length ≤ obufSize)
      (hserve : servePayload scales st text env fresh = some (res, reply)) :
      LinkRun scales mayLose events
        { s with
          toDaemon := rest
          daemon := some res.session
          toPage := s.toPage ++ reply.toList
          served := s.served ++ [⟨text, env, res, reply⟩] }
  | die
      {events : List PageEvent} {s : CalibrationLink} {text : List UInt8}
      {rest : List (List UInt8)} {st : Session} {env : ExecEnv} {fresh : Bytes}
      (before : LinkRun scales mayLose events s)
      (htext : s.toDaemon = text :: rest)
      (hdaemon : s.daemon = some st)
      (henv : env.answer.length ≤ obufSize)
      (hserve : servePayload scales st text env fresh = none) :
      LinkRun scales mayLose events { s with daemon := none }
  | deliver
      {events : List PageEvent} {s : CalibrationLink} {text : List UInt8}
      {rest : List (List UInt8)} {c : PageCmd} {ok : Bool}
      (before : LinkRun scales mayLose events s)
      (htext : s.toPage = text :: rest)
      (hreads : ReadsAs text c ok) :
      LinkRun scales mayLose (events ++ [.response c ok])
        { s with
          page := Page.onResponse { s.page with waiting := s.page.waiting.erase c } c ok
          toPage := rest }
  | loseCommand
      {events : List PageEvent} {s : CalibrationLink} {text : List UInt8}
      {rest : List (List UInt8)}
      (before : LinkRun scales mayLose events s)
      (hlose : mayLose = true)
      (htext : s.toDaemon = text :: rest) :
      LinkRun scales mayLose events { s with toDaemon := rest }
  | loseResponse
      {events : List PageEvent} {s : CalibrationLink} {text : List UInt8}
      {rest : List (List UInt8)}
      (before : LinkRun scales mayLose events s)
      (hlose : mayLose = true)
      (htext : s.toPage = text :: rest) :
      LinkRun scales mayLose events { s with toPage := rest }

section CalibrationLink

variable {scales : List ScaleSys} {s s' : Page}

/-! ### The page -/

/-- What a handler does to the variables that the link is about. -/
inductive Handles (s s' : Page) : Prop
  | quiet
      (hcurrent : s'.currentCmd = s.currentCmd)
      (hwaiting : s'.waiting = s.waiting)
      (hselected : s'.selectedChannel = s.selectedChannel)
  | publishes
      {c : PageCmd} {mode : CmdMode}
      (hfree : s.currentCmd = none)
      (hcurrent : s'.currentCmd = some (c, mode))
      (hchan : c.chan = s.selectedChannel)
      (hwaiting : s'.waiting = if c.chan = -1 then s.waiting else s.waiting ++ [c])
      (hselected : s'.selectedChannel = s.selectedChannel)

theorem handles_publish
    (hfree : s.currentCmd = none)
    (cmd : String)
    (mode : CmdMode) :
    Handles s (s.publish cmd mode) :=
  .publishes hfree rfl rfl rfl rfl

/-- The handlers that do not check the device publish under it all the same. -/
theorem handles_run
    (s : Page)
    (request : String)
    (timer : PageTimer) :
    Handles s (s.run request timer) := by
  cases timer with
  | getParameters =>
      rw [Page.run, Page.getParameters]
      split_ifs with hselected hfree hleft
      · exact .quiet rfl rfl rfl
      · exact handles_publish hfree _ _
      · exact .quiet rfl rfl rfl
      · exact .quiet rfl rfl rfl
  | getCurrentParameters =>
      rw [Page.run, Page.getCurrentParameters]
      by_cases hselected : s.selectedChannel = -1
      · rw [if_pos hselected]
        exact .quiet rfl rfl rfl
      rw [if_neg hselected]
      by_cases hdisabled : s.disableWork = true
      · rw [if_pos hdisabled]
        exact .quiet rfl rfl rfl
      rw [if_neg hdisabled]
      cases hmanual : s.requestManual with
      | false =>
          simp only [Bool.false_eq_true, if_false]
          split_ifs with hfree
          · exact .publishes hfree rfl rfl rfl rfl
          · exact .quiet rfl rfl rfl
      | true =>
          simp only [if_true]
          split_ifs with hfree
          · exact .publishes hfree rfl rfl rfl rfl
          · exact .quiet rfl rfl rfl
  | sendManual =>
      rw [Page.run, Page.sendManual]
      split_ifs with hselected hbusy
      · exact .quiet rfl rfl rfl
      · exact .quiet rfl rfl rfl
      · exact .publishes (not_not.mp hbusy) rfl rfl rfl rfl
  | execCommand =>
      rw [Page.run, Page.execCommand]
      split_ifs with hleft hbusy
      · exact .quiet rfl rfl rfl
      · exact handles_publish (not_not.mp hbusy) _ _
      · exact .quiet rfl rfl rfl

/-- Apart from a change of the device and a configuration, the events run a handler. -/
theorem pageStep_handles
    {event : PageEvent}
    (hstep : pageStep s event = some s')
    (hchange : ∀ chan, event ≠ .change chan)
    (hconfiguration : event ≠ .configuration)
    (hresponse : ∀ c ok, event ≠ .response c ok) :
    Handles s s' := by
  cases event with
  | change chan => exact absurd rfl (hchange chan)
  | configuration => exact absurd rfl hconfiguration
  | response c ok => exact absurd rfl (hresponse c ok)
  | expire timer request =>
      rw [pageStep, Option.ite_none_right_eq_some] at hstep
      obtain ⟨-, hs'⟩ := hstep
      obtain rfl := Option.some.inj hs'
      cases handles_run { s with timers := s.timers.erase timer } request timer with
      | quiet hcurrent hwaiting hselected => exact .quiet hcurrent hwaiting hselected
      | publishes hfree hcurrent hchan hwaiting hselected =>
          exact .publishes hfree hcurrent hchan hwaiting hselected
  | send request =>
      obtain rfl := Option.some.inj hstep
      exact handles_run s request .sendManual
  | click button values =>
      obtain rfl := Option.some.inj hstep
      rw [Page.click]
      split_ifs
      · exact .quiet rfl rfl rfl
      · exact .quiet rfl rfl rfl

/-- A response does not change what waits, apart from the command that it answers. -/
theorem onResponse_frame
    (s : Page)
    (c : PageCmd)
    (ok : Bool) :
    (s.onResponse c ok).waiting = s.waiting ∧
      (s.onResponse c ok).selectedChannel = s.selectedChannel ∧
      ((s.onResponse c ok).currentCmd = none ∨
        (s.onResponse c ok).currentCmd = s.currentCmd) := by
  rw [Page.onResponse]
  cases hmode : s.currentCmd.map Prod.snd with
  | none => exact ⟨rfl, rfl, .inr rfl⟩
  | some mode =>
      cases mode with
      | A =>
          cases ok with
          | false =>
              simp only [Bool.false_eq_true, if_false]
              split_ifs
              · exact ⟨rfl, rfl, .inl rfl⟩
              · exact ⟨rfl, rfl, .inl rfl⟩
          | true =>
              simp only [if_true]
              split_ifs
              · exact ⟨rfl, rfl, .inl rfl⟩
              · exact ⟨rfl, rfl, .inl rfl⟩
      | C => cases ok <;> exact ⟨rfl, rfl, .inl rfl⟩
      | M => cases ok <;> exact ⟨rfl, rfl, .inl rfl⟩
      | E => cases ok <;> exact ⟨rfl, rfl, .inl rfl⟩

theorem currentCmd_of_published
    {c : PageCmd}
    (h : publishedCmd s s' = some c) :
    ∃ mode, s'.currentCmd = some (c, mode) := by
  rw [publishedCmd] at h
  split at h
  · rename_i hcurrent
    obtain rfl := Option.some.inj h
    exact ⟨_, hcurrent⟩
  · cases h

theorem publishedCmd_none
    (h : s'.currentCmd = none ∨ s'.currentCmd = s.currentCmd) :
    publishedCmd s s' = none := by
  rw [publishedCmd]
  rcases h with h | h
  · rw [h]
    cases s.currentCmd <;> rfl
  · rw [h]
    cases s.currentCmd <;> rfl

/-- What a step publishes, and what waits for it. -/
inductive PageOutput (s s' : Page) : List (List UInt8) → Prop
  | silent
      (hwaiting : s'.waiting = s.waiting) :
      PageOutput s s' []
  | command
      {c : PageCmd}
      (hpublished : publishedCmd s s' = some c)
      (hchan : c.chan = s.selectedChannel)
      (hwaiting : s'.waiting = if c.chan = -1 then s.waiting else s.waiting ++ [c]) :
      PageOutput s s' [c.text]
  | deselect
      (hwaiting : s'.waiting = s.waiting) :
      PageOutput s s' [deselectText]

theorem Handles.output
    (h : Handles s s') :
    PageOutput s s' ((publishedCmd s s').map PageCmd.text).toList ∧
      s'.selectedChannel = s.selectedChannel := by
  cases h with
  | quiet hcurrent hwaiting hselected =>
      rw [publishedCmd_none (.inr hcurrent)]
      exact ⟨.silent hwaiting, hselected⟩
  | publishes hfree hcurrent hchan hwaiting hselected =>
      rename_i c mode
      have hpublished : publishedCmd s s' = some c := by rw [publishedCmd, hfree, hcurrent]
      rw [hpublished]
      exact ⟨.command hpublished hchan hwaiting, hselected⟩

theorem pageStep_output
    {event : PageEvent}
    (hstep : pageStep s event = some s')
    (hresponse : ∀ c ok, event ≠ .response c ok) :
    PageOutput s s' (pageTexts s event s') ∧
      (s'.selectedChannel = s.selectedChannel ∨ event = .change s'.selectedChannel) := by
  cases event with
  | change chan =>
      obtain rfl := Option.some.inj hstep
      obtain ⟨hselected, -, hwaiting⟩ := change_eq s chan
      rw [pageTexts, hselected]
      split_ifs
      · exact ⟨.deselect hwaiting, .inr rfl⟩
      · exact ⟨.silent hwaiting, .inr rfl⟩
  | configuration =>
      obtain rfl := Option.some.inj hstep
      refine ⟨?_, .inl rfl⟩
      change PageOutput s _ ((publishedCmd s _).map PageCmd.text).toList
      rw [publishedCmd_none (.inl rfl)]
      exact .silent rfl
  | response c ok => exact absurd rfl (hresponse c ok)
  | expire timer request =>
      obtain ⟨houtput, hselected⟩ :=
        (pageStep_handles hstep (by simp) (by simp) hresponse).output
      exact ⟨houtput, .inl hselected⟩
  | send request =>
      obtain ⟨houtput, hselected⟩ :=
        (pageStep_handles hstep (by simp) (by simp) hresponse).output
      exact ⟨houtput, .inl hselected⟩
  | click button values =>
      obtain ⟨houtput, hselected⟩ :=
        (pageStep_handles hstep (by simp) (by simp) hresponse).output
      exact ⟨houtput, .inl hselected⟩

/-! ### The texts -/

/-- The id fits the buffer of `jobj_add_int`, which makes the option of it. -/
def IdFits (id : ℤ) : Prop := (Cjson.printInt id).length < 8

instance (id : ℤ) : Decidable (IdFits id) := inferInstanceAs (Decidable (_ < _))

theorem atoi_printInt
    {n : ℤ}
    (h : IdFits n) :
    atoi (Cjson.printInt n) = n := by
  have hdigits : ∀ b ∈ printNat n.natAbs, isDigit b = true := fun _ => isDigit_of_mem_printNat
  have hlen : (printNat n.natAbs).length ≤ 7 := by
    rw [IdFits, Cjson.printInt, List.length_append] at h
    omega
  have hlt := (length_printNat_le_iff (by decide)).mp hlen
  have hvalue := digitsValue_printNat n.natAbs
  have htake : (printNat n.natAbs).takeWhile isDigit = printNat n.natAbs :=
    List.takeWhile_eq_self_iff.mpr hdigits
  by_cases hneg : n < 0
  · have htext : Cjson.printInt n = 0x2d :: printNat n.natAbs := by
      rw [Cjson.printInt, if_pos hneg]
      rfl
    have hsign : readSign ((Cjson.printInt n).dropWhile isSpace) = (true, printNat n.natAbs) := by
      rw [htext]
      rfl
    rw [atoi_of_fits hsign (by rw [htake, hvalue]; omega), if_pos rfl, htake, hvalue]
    omega
  · have htext : Cjson.printInt n = printNat n.natAbs := by
      rw [Cjson.printInt, if_neg hneg]
      rfl
    rw [htext, atoi_digits hdigits (by rw [hvalue]; omega), hvalue]
    omega

theorem zero_not_mem_printInt
    (n : ℤ) :
    (0 : UInt8) ∉ Cjson.printInt n := by
  have hdigits : (0 : UInt8) ∉ printNat n.natAbs := fun hzero =>
    absurd (isDigit_of_mem_printNat hzero) (by decide)
  rw [Cjson.printInt]
  split_ifs
  · simpa using hdigits
  · simpa using hdigits

/-- What `JSON.stringify` makes of a command is a document of it. -/
theorem document_stringify
    {chan : Json} {cmd : List UInt8}
    (hchan : Fits Cjson.IsInt32 0 (.value chan))
    (hcmd : (0 : UInt8) ∉ cmd) :
    Document 1 (commandJson chan cmd) (stringify (commandJson chan cmd)) := by
  have hkeys : (0 : UInt8) ∉ utf8 "chan" ∧ (0 : UInt8) ∉ utf8 "cmd" := by decide +kernel
  have hfits : Fits Cjson.IsInt32 1 (.value (commandJson chan cmd)) :=
    .object (.members hkeys.1 hchan (.members hkeys.2 (.string hcmd) .noMembers))
  exact ⟨[], stringify (commandJson chan cmd), [], .nil, .nil, Cjson.render_derives hfits 0,
    by simp⟩

/-- The texts on their way to the daemon, with the command that one for a real channel asks. -/
inductive Asks (scales : List ScaleSys) : Option PageCmd → List UInt8 → Prop
  | command
      {c : PageCmd} {i : Nat}
      (hreal : c.chan ≠ -1)
      (hfind : findScale scales c.chan = some i)
      (hplain : (0 : UInt8) ∉ utf8 c.cmd) :
      Asks scales (some c) c.text
  | number
      {c : PageCmd}
      (hchan : c.chan = -1)
      (hplain : (0 : UInt8) ∉ utf8 c.cmd) :
      Asks scales none c.text
  | deselect : Asks scales none deselectText

/-- The texts on their way to the page, with the command and the call that got it: the call has
published the text, and used the port of the scale with the channel of the command. -/
structure Answers (scales : List ScaleSys) (answer : PageCmd × ServedCall) (text : List UInt8) :
    Prop where
  payload : answer.2.payload = answer.1.text
  reply : answer.2.reply = some text
  scale : ∃ i r, findScale scales answer.1.chan = some i ∧ Document 1 r.json text ∧
    Responds (Cjson.printInt answer.1.chan) (utf8 answer.1.cmd) i answer.2.env answer.2.result r

theorem document_text
    {c : PageCmd}
    (hreal : c.chan ≠ -1)
    (hplain : (0 : UInt8) ∉ utf8 c.cmd) :
    Document 1 (commandJson (.string (Cjson.printInt c.chan)) (utf8 c.cmd)) c.text := by
  have hjson : c.json = commandJson (.string (Cjson.printInt c.chan)) (utf8 c.cmd) := by
    rw [PageCmd.json, chanJson, if_neg hreal]
  rw [PageCmd.text, hjson]
  exact document_stringify (.string (zero_not_mem_printInt _)) hplain

/-- The escaped strings are part of the text. -/
theorem length_escaped_le
    {c : PageCmd}
    (hreal : c.chan ≠ -1) :
    (Cjson.escapeText (Cjson.printInt c.chan)).length + (Cjson.escapeText (utf8 c.cmd)).length ≤
      c.text.length := by
  rw [PageCmd.text, PageCmd.json, chanJson, if_neg hreal, stringify]
  simp only [commandJson, Json.ofMembers, List.map_cons, List.map_nil, Cjson.render,
    Cjson.renderMembers, Cjson.renderMember, quoted, List.length_append, List.length_cons]
  omega

/-- The first scale with an id of the table. -/
theorem findScale_of_mem
    {sc : ScaleSys}
    (h : sc ∈ scales) :
    ∃ i, findScale scales sc.id = some i := by
  rw [← Option.isSome_iff_exists, findScale, List.findIdx?_isSome, List.any_eq_true]
  exact ⟨sc, h, decide_eq_true rfl⟩

theorem id_mem_of_findScale
    {id : ℤ} {i : Nat}
    (h : findScale scales id = some i) :
    ∃ sc ∈ scales, sc.id = id := by
  obtain ⟨sc, hsc, hid⟩ := Option.map_eq_some_iff.mp (id_of_findScale h)
  exact ⟨sc, List.mem_of_getElem? hsc, hid⟩

section Serving

variable {st : Session} {env : ExecEnv}

theorem serve_text
    {c : PageCmd} {i : Nat}
    (hids : ∀ sc ∈ scales, IdFits sc.id)
    (hreal : c.chan ≠ -1)
    (hfind : findScale scales c.chan = some i)
    (hplain : (0 : UInt8) ∉ utf8 c.cmd)
    (hlen : c.text.length < ibufSize)
    (hfirst : SelectedFirst scales st)
    (henv : env.answer.length ≤ obufSize)
    (fresh : Bytes) :
    ∃ res reply, servePayload scales st c.text env fresh = some (res, some reply) ∧
      Answers scales (c, ⟨c.text, env, res, some reply⟩) reply ∧
      SelectedFirst scales res.session := by
  obtain ⟨sc, hsc, hid⟩ := id_mem_of_findScale hfind
  have hatoi := atoi_printInt (hid ▸ hids sc hsc)
  obtain ⟨res, r, reply, hserve, hdocument, hresponds, hkept⟩ :=
    servePayload_command hfirst (document_text hreal hplain) (by decide) hlen
      (zero_not_mem_printInt _) hplain ((length_escaped_le hreal).trans hlen.le)
      (by rwa [hatoi]) (by rwa [hatoi]) henv fresh
  exact ⟨res, reply, hserve, ⟨rfl, rfl, i, r, hfind, hdocument, hresponds⟩, hkept⟩

theorem serve_number
    {c : PageCmd}
    (hchan : c.chan = -1)
    (hplain : (0 : UInt8) ∉ utf8 c.cmd)
    (fresh : Bytes) :
    servePayload scales st c.text env fresh = none := by
  have hjson : c.json = commandJson (.number (.finite (-1))) (utf8 c.cmd) := by
    rw [PageCmd.json, chanJson, if_pos hchan]
  have hdocument : Document 1 (commandJson (.number (.finite (-1))) (utf8 c.cmd))
      (stringify (commandJson (.number (.finite (-1))) (utf8 c.cmd))) :=
    document_stringify (.number (by decide +kernel)) hplain
  rw [PageCmd.text, hjson, servePayload_no_text hdocument (by decide) rfl]

theorem length_deselectText : deselectText.length < ibufSize := by decide +kernel

theorem serve_deselect
    (hfirst : SelectedFirst scales st)
    (fresh : Bytes) :
    ∃ res, servePayload scales st deselectText env fresh = some (res, none) ∧
      SelectedFirst scales res.session := by
  have hdocument : Document 1 (commandJson (.string (utf8 "-1")) []) deselectText :=
    document_stringify (.string (by decide +kernel)) List.not_mem_nil
  exact servePayload_deselect hfirst hdocument (by decide) length_deselectText
    (by decide +kernel) fresh

/-- What the daemon makes of a text from the page. -/
theorem Asks.served
    {asked : Option PageCmd} {text : List UInt8} {fresh : Bytes}
    (h : Asks scales asked text)
    (hids : ∀ sc ∈ scales, IdFits sc.id)
    (hfirst : SelectedFirst scales st)
    (henv : env.answer.length ≤ obufSize)
    {res : MessageResult} {reply : Option (List UInt8)}
    (hserve : servePayload scales st text env fresh = some (res, reply)) :
    SelectedFirst scales res.session ∧ reply.isSome = asked.isSome ∧
      List.Forall₂ (Answers scales) (asked.toList.map fun c => (c, ⟨text, env, res, reply⟩))
        reply.toList := by
  have hlen : text.length < ibufSize := by
    by_contra hlong
    rw [servePayload, if_pos (not_lt.mp hlong)] at hserve
    cases hserve
  cases h with
  | @command c i hreal hfind hplain =>
      obtain ⟨res', text', hserve', hanswers, hkept⟩ :=
        serve_text hids hreal hfind hplain hlen hfirst henv fresh
      obtain ⟨rfl, rfl⟩ := Prod.mk.inj (Option.some.inj (hserve.symm.trans hserve'))
      exact ⟨hkept, rfl, .cons hanswers .nil⟩
  | @number c hchan hplain =>
      rw [serve_number hchan hplain] at hserve
      cases hserve
  | deselect =>
      obtain ⟨res', hserve', hkept⟩ := serve_deselect hfirst fresh
      obtain ⟨rfl, rfl⟩ := Prod.mk.inj (Option.some.inj (hserve.symm.trans hserve'))
      exact ⟨hkept, rfl, .nil⟩

end Serving

/-- A response is read as one to the command that it answers. -/
theorem Answers.readsAs
    {text : List UInt8} {c c' : PageCmd} {call : ServedCall} {ok : Bool}
    (h : Answers scales (c, call) text)
    (hids : ∀ sc ∈ scales, IdFits sc.id)
    (hreads : ReadsAs text c' ok) :
    c' = c := by
  obtain ⟨-, -, i, r, hfind, hdocument, hresponds⟩ := h
  obtain ⟨r', hdocument', hchan, hcmd, -⟩ := hreads
  have hjson : r'.json = r.json := by
    have hparse := Cjson.parse_document hdocument (by decide)
    rw [Cjson.parse_document hdocument' (by decide)] at hparse
    exact Option.some.inj hparse
  simp only [CmdResponse.json, Json.ofMembers, List.map_cons, Json.object.injEq,
    List.cons.injEq, Prod.mk.injEq, Json.string.injEq, true_and] at hjson
  obtain ⟨hsame, hsame', -⟩ := hjson
  have hprint : Cjson.printInt c'.chan = Cjson.printInt c.chan := by
    rw [← hchan, hsame, hresponds.chan_eq]
  obtain ⟨sc, hsc, hid⟩ := id_mem_of_findScale hfind
  have hfits : IdFits c.chan := hid ▸ hids sc hsc
  have hfits' : IdFits c'.chan := by rwa [IdFits, hprint]
  have hchans : c'.chan = c.chan := by
    rw [← atoi_printInt hfits', hprint, atoi_printInt hfits]
  have hcmds : c'.cmd = c.cmd := utf8_injective (by rw [← hcmd, hsame', hresponds.cmd_eq])
  cases c
  cases c'
  simp_all

/-! ### What is on its way -/

/-- The texts on their way, those to the page from the last calls that published one, and the
commands whose texts were lost. -/
structure CalibrationLink.UnderWay (scales : List ScaleSys) (s : CalibrationLink)
    (asked : List (Option PageCmd)) (answered : List (PageCmd × ServedCall))
    (lost : List PageCmd) : Prop where
  commands : List.Forall₂ (Asks scales) asked s.toDaemon
  responses : List.Forall₂ (Answers scales) answered s.toPage
  calls : answered.map Prod.snd <:+ s.replied
  waiting : s.page.waiting.Perm (answered.map Prod.fst ++ (asked.reduceOption ++ lost))

/-- The invariant of the link. -/
structure CalibrationLink.Inv (scales : List ScaleSys) (mayLose : Bool) (s : CalibrationLink) :
    Prop where
  selected : s.page.selectedChannel = -1 ∨ ∃ i, findScale scales s.page.selectedChannel = some i
  first : ∀ st, s.daemon = some st → SelectedFirst scales st
  underWay : ∃ asked answered lost, s.UnderWay scales asked answered lost ∧
    (mayLose = false → lost = [])

section Steps

variable {link : CalibrationLink} {mayLose : Bool}

theorem start_linkInv : CalibrationLink.start.Inv scales mayLose where
  selected := .inl rfl
  first := by
    intro st hst
    obtain rfl := Option.some.inj hst
    exact fun k hk => nomatch hk
  underWay := ⟨[], [], [], ⟨.nil, .nil, List.suffix_rfl, .refl _⟩, fun _ => rfl⟩

/-- What the page publishes is asked for. -/
theorem CalibrationLink.UnderWay.page
    {asked : List (Option PageCmd)} {answered : List (PageCmd × ServedCall)}
    {lost : List PageCmd} {texts : List (List UInt8)} {p : Page}
    (h : link.UnderWay scales asked answered lost)
    (houtput : PageOutput link.page p texts)
    (hselected : link.page.selectedChannel = -1 ∨
      ∃ i, findScale scales link.page.selectedChannel = some i)
    (hplain : ∀ c, publishedCmd link.page p = some c → (0 : UInt8) ∉ utf8 c.cmd) :
    ∃ asked', CalibrationLink.UnderWay scales
      { link with page := p, toDaemon := link.toDaemon ++ texts } asked' answered lost := by
  obtain ⟨hcommands, hresponses, hcalls, hwaiting⟩ := h
  cases houtput with
  | silent hsame =>
      refine ⟨asked, by simpa using hcommands, hresponses, hcalls, ?_⟩
      rw [hsame]
      exact hwaiting
  | deselect hsame =>
      refine ⟨asked ++ [none], List.rel_append hcommands (.cons .deselect .nil), hresponses,
        hcalls, ?_⟩
      rw [hsame]
      simpa [List.reduceOption_append] using hwaiting
  | @command c hpublished hchan hnow =>
      have hplain := hplain c hpublished
      by_cases hnumber : c.chan = -1
      · refine ⟨asked ++ [none], List.rel_append hcommands (.cons (.number hnumber hplain) .nil),
          hresponses, hcalls, ?_⟩
        rw [hnow, if_pos hnumber]
        simpa [List.reduceOption_append] using hwaiting
      · obtain ⟨i, hfind⟩ := hselected.resolve_left (hchan ▸ hnumber)
        rw [← hchan] at hfind
        refine ⟨asked ++ [some c],
          List.rel_append hcommands (.cons (.command hnumber hfind hplain) .nil), hresponses, hcalls,
          ?_⟩
        rw [hnow, if_neg hnumber]
        have hmoved : (answered.map Prod.fst ++ (asked.reduceOption ++ lost) ++ [c]).Perm
            (answered.map Prod.fst ++ ((asked ++ [some c]).reduceOption ++ lost)) := by
          have hlast : [some c].reduceOption = [c] := rfl
          rw [List.reduceOption_append, hlast, List.append_assoc, List.append_assoc,
            List.append_assoc]
          exact (List.perm_append_comm.append_left _).append_left _
        exact (hwaiting.append_right [c]).trans hmoved

/-- The texts of the form hold no NUL, nor do the commands. -/
theorem PageEvent.Offered.plain
    {event : PageEvent}
    (h : event.Offered scales s')
    (hstep : pageStep s event = some s') :
    ∀ c, publishedCmd s s' = some c → (0 : UInt8) ∉ utf8 c.cmd := by
  intro c hpublished
  obtain ⟨mode, hmode⟩ := currentCmd_of_published hpublished
  cases event with
  | change chan =>
      obtain rfl := Option.some.inj hstep
      rw [publishedCmd_none (.inr (change_eq s chan).2.1)] at hpublished
      cases hpublished
  | response c ok => exact h.elim
  | _ => exact h c mode hmode

theorem CalibrationLink.Inv.page
    {event : PageEvent} {p : Page}
    (h : link.Inv scales mayLose)
    (hstep : pageStep link.page event = some p)
    (hoffered : event.Offered scales p) :
    CalibrationLink.Inv scales mayLose
      { link with page := p, toDaemon := link.toDaemon ++ pageTexts link.page event p } := by
  have hresponse : ∀ c ok, event ≠ .response c ok := by
    rintro c ok rfl
    exact hoffered
  obtain ⟨houtput, hselected⟩ := pageStep_output hstep hresponse
  have hplain := hoffered.plain hstep
  obtain ⟨asked, answered, lost, hunder, hlost⟩ := h.underWay
  obtain ⟨asked', hunder'⟩ := hunder.page houtput h.selected hplain
  refine ⟨?_, h.first, asked', answered, lost, hunder', hlost⟩
  rcases hselected with hsame | hchange
  · rw [hsame]
    exact h.selected
  · rw [hchange] at hoffered
    rcases hoffered with hnone | ⟨sc, hsc, hid⟩
    · exact .inl hnone
    · exact .inr (hid ▸ findScale_of_mem hsc)

/-- The daemon has served the first text on its way. -/
theorem CalibrationLink.Inv.serve
    {text : List UInt8} {rest : List (List UInt8)} {st : Session} {env : ExecEnv} {fresh : Bytes}
    {res : MessageResult} {reply : Option (List UInt8)}
    (h : link.Inv scales mayLose)
    (hids : ∀ sc ∈ scales, IdFits sc.id)
    (htext : link.toDaemon = text :: rest)
    (hdaemon : link.daemon = some st)
    (henv : env.answer.length ≤ obufSize)
    (hserve : servePayload scales st text env fresh = some (res, reply)) :
    CalibrationLink.Inv scales mayLose
      { link with
        toDaemon := rest
        daemon := some res.session
        toPage := link.toPage ++ reply.toList
        served := link.served ++ [⟨text, env, res, reply⟩] } := by
  obtain ⟨asked, answered, lost, ⟨hcommands, hresponses, hcalls, hwaiting⟩, hlost⟩ := h.underWay
  rw [htext] at hcommands
  obtain ⟨q, asked', hfirst, hrest, rfl⟩ := List.forall₂_cons_right_iff.mp hcommands
  obtain ⟨hkept, hsome, hanswers⟩ := hfirst.served hids (h.first st hdaemon) henv hserve
  refine ⟨h.selected, ?_, asked', _, lost,
    ⟨hrest, List.rel_append hresponses hanswers, ?_, ?_⟩, hlost⟩
  · intro st' hst'
    obtain rfl := Option.some.inj hst'
    exact hkept
  · rw [CalibrationLink.replied, List.filter_append, List.map_append]
    have hlast : (q.toList.map fun c => (c, (⟨text, env, res, reply⟩ : ServedCall))).map Prod.snd =
        [(⟨text, env, res, reply⟩ : ServedCall)].filter fun call => call.reply.isSome := by
      cases q with
      | none => simp [hsome]
      | some c => simp [hsome]
    rw [hlast]
    exact (List.suffix_append_inj_of_length_eq rfl).mpr ⟨hcalls, rfl⟩
  · refine hwaiting.trans (.of_eq ?_)
    cases q with
    | none => simp [List.reduceOption_cons_of_none]
    | some c => simp [List.reduceOption_cons_of_some]

/-- The first response on its way answers a command that waits. -/
theorem CalibrationLink.Inv.answered
    {text : List UInt8} {rest : List (List UInt8)} {c : PageCmd} {ok : Bool}
    (h : link.Inv scales mayLose)
    (hids : ∀ sc ∈ scales, IdFits sc.id)
    (htext : link.toPage = text :: rest)
    (hreads : ReadsAs text c ok) :
    c ∈ link.page.waiting ∧ CalibrationLink.Inv scales mayLose
      { link with
        page := Page.onResponse { link.page with waiting := link.page.waiting.erase c } c ok
        toPage := rest } := by
  obtain ⟨asked, answered, lost, ⟨hcommands, hresponses, hcalls, hwaiting⟩, hlost⟩ := h.underWay
  rw [htext] at hresponses
  obtain ⟨⟨c', call⟩, answered', hfirst, hrest, rfl⟩ := List.forall₂_cons_right_iff.mp hresponses
  obtain rfl := hfirst.readsAs hids hreads
  obtain ⟨hframe, hselected, -⟩ :=
    onResponse_frame { link.page with waiting := link.page.waiting.erase c } c ok
  refine ⟨hwaiting.mem_iff.mpr List.mem_cons_self, ?_, h.first, asked, answered', lost,
    ⟨hcommands, hrest, (List.suffix_cons _ _).trans hcalls, ?_⟩, hlost⟩
  · simp only [hselected]
    exact h.selected
  · simp only [hframe]
    simpa using hwaiting.erase c

/-- **Every run of the link is a run of the page.** -/
theorem linkRun_inv
    {events : List PageEvent}
    (hids : ∀ sc ∈ scales, IdFits sc.id)
    (h : LinkRun scales mayLose events link) :
    runSteps pageStep Page.start events = some link.page ∧ link.Inv scales mayLose := by
  induction h with
  | start => exact ⟨rfl, start_linkInv⟩
  | page before hstep hoffered ih =>
      obtain ⟨hrun, hinv⟩ := ih
      refine ⟨?_, hinv.page hstep hoffered⟩
      rw [runSteps_append_singleton, hrun, Option.bind_some, hstep]
  | serve before htext hdaemon henv hserve ih =>
      exact ⟨ih.1, ih.2.serve hids htext hdaemon henv hserve⟩
  | die before htext hdaemon henv hserve ih =>
      obtain ⟨hrun, hselected, -, asked, answered, lost,
        ⟨hcommands, hresponses, hcalls, hwaiting⟩, hlost⟩ := ih
      exact ⟨hrun, hselected, fun st hst => (Option.some_ne_none st hst.symm).elim, asked, answered,
        lost, ⟨hcommands, hresponses, hcalls, hwaiting⟩, hlost⟩
  | deliver before htext hreads ih =>
      obtain ⟨hrun, hinv⟩ := ih
      obtain ⟨hmem, hnext⟩ := hinv.answered hids htext hreads
      refine ⟨?_, hnext⟩
      rw [runSteps_append_singleton, hrun, Option.bind_some, pageStep, if_pos hmem]
  | loseCommand before hlose htext ih =>
      obtain ⟨hrun, hselected, hfirst, asked, answered, lost,
        ⟨hcommands, hresponses, hcalls, hwaiting⟩, -⟩ := ih
      rw [htext] at hcommands
      obtain ⟨q, asked', -, hrest, rfl⟩ := List.forall₂_cons_right_iff.mp hcommands
      refine ⟨hrun, hselected, hfirst, asked', answered, q.toList ++ lost,
        ⟨hrest, hresponses, hcalls, ?_⟩, fun hnot => absurd (hlose.symm.trans hnot) (by decide)⟩
      refine hwaiting.trans (List.Perm.append_left (answered.map Prod.fst) ?_)
      cases q with
      | none => rw [List.reduceOption_cons_of_none]; rfl
      | some c =>
          rw [List.reduceOption_cons_of_some]
          exact List.perm_middle.symm
  | loseResponse before hlose htext ih =>
      obtain ⟨hrun, hselected, hfirst, asked, answered, lost,
        ⟨hcommands, hresponses, hcalls, hwaiting⟩, -⟩ := ih
      rw [htext] at hresponses
      obtain ⟨⟨c, call⟩, answered', -, hrest, rfl⟩ := List.forall₂_cons_right_iff.mp hresponses
      refine ⟨hrun, hselected, hfirst, asked, answered', c :: lost,
        ⟨hcommands, hrest, (List.suffix_cons _ _).trans hcalls, ?_⟩,
        fun hnot => absurd (hlose.symm.trans hnot) (by decide)⟩
      refine hwaiting.trans ?_
      rw [List.map_cons, ← List.append_assoc, ← List.append_assoc]
      exact List.perm_middle.symm

/-- **The link refines the page.**  In every interleaving, with texts lost or not, the responses
that the page handles are to commands that wait; so the law of the page holds as long as no
configuration and no other device comes in between. -/
theorem link_refines_page
    {events : List PageEvent}
    (hids : ∀ sc ∈ scales, IdFits sc.id)
    (h : LinkRun scales mayLose events link) :
    runSteps pageStep Page.start events = some link.page ∧
      (MeetsAlong pageStep Undisturbed Page.start events → PageLaw link.page) := by
  obtain ⟨hrun, -⟩ := linkRun_inv hids h
  refine ⟨hrun, fun hmeets => ?_⟩
  have hlaw : HoldsAlong pageStep PageLaw Page.start events :=
    holdsAlong_of_meetsAlong (fun _ hinv => hinv.law) (fun _ _ _ hinv => hinv.step) start_pageInv
      hmeets
  exact hlaw.last hrun

/-- **What waits is under way.**  Where no text is lost, each command that waits is in a text on
its way to the daemon, or a response to it is on its way to the page, once each.  The responses
come from the last calls of the run that published one, in order, each with the text of its
command; the call has used the port of the scale with the channel of the command. -/
theorem waiting_is_under_way
    {events : List PageEvent}
    (hids : ∀ sc ∈ scales, IdFits sc.id)
    (h : LinkRun scales false events link) :
    ∃ (asked : List (Option PageCmd)) (answered : List (PageCmd × ServedCall)),
      List.Forall₂ (Asks scales) asked link.toDaemon ∧
      List.Forall₂ (Answers scales) answered link.toPage ∧
      answered.map Prod.snd <:+ link.replied ∧
      link.page.waiting.Perm (answered.map Prod.fst ++ asked.reduceOption) := by
  obtain ⟨asked, answered, lost, ⟨hcommands, hresponses, hcalls, hwaiting⟩, hlost⟩ :=
    (linkRun_inv hids h).2.underWay
  rw [hlost rfl, List.append_nil] at hwaiting
  exact ⟨asked, answered, hcommands, hresponses, hcalls, hwaiting⟩

/-! ### One command -/

/-- The first command for the channel 1. -/
def firstCmd : PageCmd := ⟨1, "CE\r"⟩

theorem bareScale_fits : ∀ sc ∈ [bareScale], IdFits sc.id := by
  intro sc hsc
  obtain rfl := List.mem_singleton.mp hsc
  decide +kernel

/-- The device is selected, and its first parameter is asked for. -/
theorem firstCmd_asked :
    ∃ link, LinkRun [bareScale] false [.change 1, .expire .getParameters ""] link ∧
      link.toDaemon = [firstCmd.text] ∧ link.daemon = some .initial ∧ link.toPage = [] ∧
      link.served = [] := by
  have hchange : LinkRun [bareScale] false [.change 1] _ :=
    .page .start rfl (.inr ⟨bareScale, List.mem_singleton.mpr rfl, rfl⟩)
  have hplain : (0 : UInt8) ∉ utf8 firstCmd.cmd := by decide +kernel
  refine ⟨_, .page hchange rfl ?_, rfl, rfl, rfl, rfl⟩
  intro c mode hc
  obtain ⟨rfl, -⟩ := Prod.mk.inj (Option.some.inj hc)
  exact hplain

/-- The daemon serves it: the flow stops, and the terminal answers with two bytes. -/
theorem firstCmd_served :
    ∃ link call text, LinkRun [bareScale] false [.change 1, .expire .getParameters ""] link ∧
      link.toDaemon = [] ∧ link.toPage = [text] ∧ link.served = [call] ∧
      Answers [bareScale] (firstCmd, call) text ∧ call.env.answer = [0x31, 0x0d] := by
  obtain ⟨link, hrun, htext, hdaemon, hnone, hnotServed⟩ := firstCmd_asked
  have hplain : (0 : UInt8) ∉ utf8 firstCmd.cmd := by decide +kernel
  have hlen : firstCmd.text.length < ibufSize := by decide +kernel
  have hreal : firstCmd.chan ≠ -1 := by decide
  have hinitial : SelectedFirst [bareScale] .initial := fun k hk => nomatch hk
  have hfind : findScale [bareScale] firstCmd.chan = some 0 := rfl
  have henv : (⟨0, [0x44, 0x3a], [0x31, 0x0d]⟩ : ExecEnv).answer.length ≤ obufSize := by decide
  obtain ⟨res, reply, hserve, hanswers, -⟩ :=
    serve_text bareScale_fits hreal hfind hplain hlen hinitial henv (fun _ => 0)
  have hserved := LinkRun.serve hrun htext hdaemon henv hserve
  exact ⟨_, _, reply, hserved, rfl, by rw [hnone]; rfl, by rw [hnotServed]; rfl, hanswers, rfl⟩

/-- The page gets the response. -/
theorem firstCmd_answered :
    ∃ ok link, LinkRun [bareScale] false
      [.change 1, .expire .getParameters "", .response firstCmd ok] link := by
  obtain ⟨link, call, text, hrun, -, htext, -, ⟨-, -, i, r, -, hdocument, hresponds⟩, -⟩ :=
    firstCmd_served
  refine ⟨decide (r.retCode = "OK"), _, .deliver hrun htext ?_⟩
  exact ⟨r, hdocument, hresponds.chan_eq, hresponds.cmd_eq, rfl⟩

theorem link_refines_page_firstCmd :
    ∃ ok link, LinkRun [bareScale] false
        [.change 1, .expire .getParameters "", .response firstCmd ok] link ∧
      runSteps pageStep Page.start
        [.change 1, .expire .getParameters "", .response firstCmd ok] = some link.page ∧
      (MeetsAlong pageStep Undisturbed Page.start
        [.change 1, .expire .getParameters "", .response firstCmd ok] → PageLaw link.page) := by
  obtain ⟨ok, link, hrun⟩ := firstCmd_answered
  exact ⟨ok, link, hrun, link_refines_page bareScale_fits hrun⟩

/-- The command waits, and the response to it is on its way. -/
theorem waiting_is_under_way_firstCmd :
    ∃ link call text, LinkRun [bareScale] false [.change 1, .expire .getParameters ""] link ∧
      link.toDaemon = [] ∧ link.toPage = [text] ∧ link.served = [call] ∧
      call.env.answer = [0x31, 0x0d] ∧
      ∃ (asked : List (Option PageCmd)) (answered : List (PageCmd × ServedCall)),
        List.Forall₂ (Asks [bareScale]) asked link.toDaemon ∧
        List.Forall₂ (Answers [bareScale]) answered link.toPage ∧
        answered.map Prod.snd <:+ link.replied ∧
        link.page.waiting.Perm (answered.map Prod.fst ++ asked.reduceOption) := by
  obtain ⟨link, call, text, hrun, hnone, htext, hserved, -, hanswer⟩ := firstCmd_served
  exact ⟨link, call, text, hrun, hnone, htext, hserved, hanswer,
    waiting_is_under_way bareScale_fits hrun⟩

end Steps

end CalibrationLink

end Webapps
end MatrixBin
