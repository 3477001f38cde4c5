import MatrixBin.Cjson.RoundTrip
import MatrixBin.Scaled.MqttBuffers
import MatrixBin.Scaled.ScaleSearch

/-!
# The texts of the calibration topics (`mqtt_thread.c`)

`on_message` parses a payload with cJSON, serves the command and publishes the response as cJSON
prints it.  Here it is a function from the bytes of a payload to those of the response; an answer
that does not fit `obuf` is left to the model of the buffers.

`servePayload_command` says that a command for a scale of the table is always answered, by a text
that says which command it answers.
-/

namespace MatrixBin
namespace Scaled

open Library Library.JsonText

/-- What `on_message` looks up in a parsed payload. -/
def calibrJson (jmsg : Json) : CalibrJson where
  chan := (jmsg.getObjectItem "chan").map Json.getStringValue
  cmd := (jmsg.getObjectItem "cmd").map Json.getStringValue

/-- `jresp` -/
def CmdResponse.json (r : CmdResponse) : Json :=
  .ofMembers [("chan", .string r.chan), ("cmd", .string r.cmd), ("response", .string r.response),
    ("ret_code", .ofText r.retCode)]

/-- The message of a payload.  Without `CJSON_VERSION_FULL` it is parsed up to its first zero. -/
def calibrMsgOf (payload : List UInt8) : CalibrMsg :=
  ⟨"calibration/cmd", (Cjson.parse (stringAt payload)).map calibrJson⟩

/-- `on_message` for the topic `calibration/cmd`: its result and the published text; `none` where
`ibuf` is left or a null string is read. -/
def servePayload (scales : List ScaleSys) (st : Session) (payload : List UInt8) (env : ExecEnv)
    (fresh : Bytes) : Option (MessageResult × Option (List UInt8)) :=
  if ibufSize ≤ payload.length then none
  else
    (onMessage scales st (calibrMsgOf payload) env).bind fun res =>
      match res.response with
      | none => some (res, none)
      | some r =>
          -- `strlen(json_resp)` is not defined for a text that could not be printed
          (Cjson.print true (fun _ _ => []) fresh r.json).join.map fun text => (res, some text)

/-- The request of a command; the channel is no text when the page has deselected the device. -/
def commandJson (chan : Json) (cmd : List UInt8) : Json :=
  .ofMembers [("chan", chan), ("cmd", .string cmd)]

section Texts

variable {scales : List ScaleSys} {st : Session} {env : ExecEnv}

/-! ### Looking up and printing -/

theorem calibrJson_commandJson
    (chan : Json)
    (cmd : List UInt8) :
    calibrJson (commandJson chan cmd) = ⟨some chan.getStringValue, some (some cmd)⟩ := by
  have hnames : (utf8 "chan").map lowerByte ≠ (utf8 "cmd").map lowerByte := by decide +kernel
  simp only [calibrJson, commandJson, Json.ofMembers, Json.getObjectItem, List.map_cons,
    List.map_nil, List.find?_cons, hnames, decide_true, decide_false, Option.map_some,
    Json.getStringValue]

theorem calibrMsgOf_document
    {depth : Nat} {v : Json} {payload : List UInt8}
    (h : Document depth v payload)
    (hdepth : depth ≤ Cjson.nestingLimit) :
    calibrMsgOf payload = ⟨"calibration/cmd", some (calibrJson v)⟩ := by
  rw [calibrMsgOf, Cjson.parse_document h hdepth, Option.map_some]

theorem length_escapeText_le
    (text : List UInt8) :
    (Cjson.escapeText text).length ≤ 6 * text.length := by
  have hbyte : ∀ b, Cjson.escapeCharacters b ≤ 5 := by
    intro b
    rw [Cjson.escapeCharacters]
    split_ifs <;> omega
  induction text with
  | nil => exact le_rfl
  | cons b text ih =>
      have hcons : Cjson.escapeText (b :: text) = Cjson.escapeByte b ++ Cjson.escapeText text := rfl
      have := hbyte b
      rw [hcons, List.length_append, Cjson.length_escapeByte, List.length_cons]
      omega

/-- The strings of a response that comes from `ibuf` and `obuf`. -/
structure CmdResponse.Short (r : CmdResponse) : Prop where
  chan : (0 : UInt8) ∉ r.chan
  cmd : (0 : UInt8) ∉ r.cmd
  request : (Cjson.escapeText r.chan).length + (Cjson.escapeText r.cmd).length ≤ ibufSize
  response : (0 : UInt8) ∉ r.response ∧ r.response.length ≤ obufSize
  retCode : r.retCode = "OK" ∨ r.retCode = "COMM_ERR"

/-- What is printed for a response is a document of it. -/
theorem CmdResponse.Short.printed
    {r : CmdResponse}
    (h : r.Short)
    (fresh : Bytes) :
    ∃ text, Cjson.print true (fun _ _ => []) fresh r.json = some (some text) ∧
      Document 1 r.json text := by
  obtain ⟨hchan, hcmd, hrequest, ⟨hresponse, hlen⟩, hret⟩ := h
  have hkeys : (0 : UInt8) ∉ utf8 "chan" ∧ (0 : UInt8) ∉ utf8 "cmd" ∧
      (0 : UInt8) ∉ utf8 "response" ∧ (0 : UInt8) ∉ utf8 "ret_code" := by decide +kernel
  have hcode : (0 : UInt8) ∉ utf8 r.retCode ∧ (utf8 r.retCode).length ≤ 8 := by
    rcases hret with h | h
    · rw [h]
      decide +kernel
    · rw [h]
      decide +kernel
  have hfits : Fits Cjson.IsInt32 1 (.value r.json) :=
    .object (.members hkeys.1 (.string hchan) (.members hkeys.2.1 (.string hcmd)
      (.members hkeys.2.2.1 (.string hresponse) (.members hkeys.2.2.2 (.string hcode.1)
        .noMembers))))
  have hanswer := length_escapeText_le r.response
  have hreturn := length_escapeText_le (utf8 r.retCode)
  have hkey (key : String) := length_escapeText_le (utf8 key)
  have hlens : (utf8 "chan").length = 4 ∧ (utf8 "cmd").length = 3 ∧
      (utf8 "response").length = 8 ∧ (utf8 "ret_code").length = 8 := by decide +kernel
  have h₁ := hkey "chan"
  have h₂ := hkey "cmd"
  have h₃ := hkey "response"
  have h₄ := hkey "ret_code"
  rw [ibufSize] at hrequest
  rw [obufSize] at hlen
  refine Cjson.print_document hfits ?_ fresh
  simp only [CmdResponse.json, Json.ofMembers, Json.ofText, List.map_cons, List.map_nil,
    Cjson.render, Cjson.renderMembers, Cjson.renderMember, quoted, if_true, List.length_append,
    List.length_cons, List.length_nil, List.length_replicate, reduceCtorEq, if_false,
    Cjson.intMax]
  omega

/-! ### Serving a command -/

/-- What `exec_ldu_cmd` got from the terminal of the scale `i`, and what the response says of it:
the bytes read from the port up to their terminator, or the error texts when nothing was read or
the flow was not stopped. -/
inductive FromPort (i : Nat) (env : ExecEnv) : Option (Nat × Bool) → CmdResponse → Prop
  | answered
      {r : CmdResponse} {paused : Bool}
      (hread : env.answer ≠ [])
      (htext : r.response = env.answer.dropLast.takeWhile (· ≠ 0))
      (hok : r.retCode = "OK") :
      FromPort i env (some (i, paused)) r
  | silent
      {r : CmdResponse} {paused : Bool}
      (hread : env.answer = [])
      (htext : r.response = utf8 "NO")
      (herror : r.retCode = "COMM_ERR") :
      FromPort i env (some (i, paused)) r
  | notStopped
      {r : CmdResponse}
      (hstop : ¬ env.StopSucceeds)
      (htext : r.response = utf8 "NO")
      (herror : r.retCode = "COMM_ERR") :
      FromPort i env none r

/-- A call of `on_message` that responds to a command for the scale `i`. -/
structure Responds (chan cmd : List UInt8) (i : Nat) (env : ExecEnv) (res : MessageResult)
    (r : CmdResponse) : Prop where
  published : res.response = some r
  chan_eq : r.chan = chan
  cmd_eq : r.cmd = cmd
  fromPort : FromPort i env res.read r

theorem utf8_no : [0x4e, 0x4f] = utf8 "NO" := by decide +kernel

theorem FromPort.retCode
    {i : Nat} {read : Option (Nat × Bool)} {r : CmdResponse}
    (h : FromPort i env read r) :
    r.retCode = "OK" ∨ r.retCode = "COMM_ERR" := by
  cases h with
  | answered _ _ hok => exact .inl hok
  | silent _ _ herror => exact .inr herror
  | notStopped _ _ herror => exact .inr herror

/-- The text of a response is a C string that `obuf` holds. -/
theorem FromPort.text
    {i : Nat} {read : Option (Nat × Bool)} {r : CmdResponse}
    (h : FromPort i env read r)
    (henv : env.answer.length ≤ obufSize) :
    (0 : UInt8) ∉ r.response ∧ r.response.length ≤ obufSize := by
  have hno : (0 : UInt8) ∉ utf8 "NO" ∧ (utf8 "NO").length ≤ obufSize := by
    rw [← utf8_no]
    decide
  cases h with
  | answered hread htext hok =>
      rw [htext]
      refine ⟨fun hzero => ?_, ?_⟩
      · simpa using List.mem_takeWhile_imp hzero
      · calc (env.answer.dropLast.takeWhile (· ≠ 0)).length
            ≤ env.answer.dropLast.length := (List.takeWhile_prefix _).length_le
          _ ≤ env.answer.length := by
            rw [List.length_dropLast]
            exact Nat.sub_le _ _
          _ ≤ obufSize := henv
  | silent _ htext _ =>
      rw [htext]
      exact hno
  | notStopped _ htext _ =>
      rw [htext]
      exact hno

/-- The response to a read of the port. -/
theorem fromPort_cmdResponse
    (chan cmd : List UInt8)
    (i : Nat)
    (paused : Bool) :
    FromPort i env (some (i, paused)) (cmdResponse chan cmd env.answer.length env.answer) := by
  by_cases hread : env.answer = []
  · have hr : cmdResponse chan cmd env.answer.length env.answer =
        ⟨chan, cmd, [0x4e, 0x4f], "COMM_ERR"⟩ := by
      rw [hread]
      rfl
    rw [hr]
    exact .silent hread utf8_no rfl
  · have hpos := List.length_pos_iff.mpr hread
    have hr : cmdResponse chan cmd env.answer.length env.answer =
        ⟨chan, cmd, env.answer.dropLast.takeWhile (· ≠ 0), "OK"⟩ := by
      rw [cmdResponse, if_neg (by omega), List.dropLast_eq_take, Int.toNat_natCast]
    rw [hr]
    exact .answered hread rfl rfl

theorem cmdResponse_request
    (chan cmd : List UInt8)
    (len : ℤ)
    (obuf : List UInt8) :
    (cmdResponse chan cmd len obuf).chan = chan ∧ (cmdResponse chan cmd len obuf).cmd = cmd := by
  rw [cmdResponse]
  split_ifs
  · exact ⟨rfl, rfl⟩
  · exact ⟨rfl, rfl⟩

/-- A command for a scale of the table has a response. -/
theorem onMessage_command
    {chan : List UInt8} {i : Nat}
    (hfirst : SelectedFirst scales st)
    (hreal : atoi chan ≠ -1)
    (hfind : findScale scales (atoi chan) = some i)
    (cmd : List UInt8) :
    ∃ res r, onMessage scales st
        ⟨"calibration/cmd", some ⟨some (some chan), some (some cmd)⟩⟩ env = some res ∧
      Responds chan cmd i env res r ∧ SelectedFirst scales res.session := by
  obtain ⟨hselected, -⟩ := selectScale_selects hfirst (atoi chan)
  rw [mqttScale, if_neg hreal, hfind] at hselected
  obtain ⟨⟨i', switchMode⟩, hsel, rfl⟩ := Option.map_eq_some_iff.mp hselected
  have hpair : selectScale scales st (atoi chan) =
      ((selectScale scales st (atoi chan)).1, some (i', switchMode)) := Prod.ext rfl hsel
  have hserve : onMessage scales st
      ⟨"calibration/cmd", some ⟨some (some chan), some (some cmd)⟩⟩ env =
        some (serveCmd scales st chan cmd env) := rfl
  have hstep : sessionStep scales st
      (⟨"calibration/cmd", some ⟨some (some chan), some (some cmd)⟩⟩, env) =
        some (serveCmd scales st chan cmd env).session := rfl
  have hkept := sessionStep_selects hfirst hstep
  set t := (selectScale scales st (atoi chan)).1 with ht
  by_cases hstop : switchMode = true ∧ ¬ env.StopSucceeds
  · -- the flow was not stopped
    have hexec : execLduCmd t i' switchMode env = (t, -1, env.stopped, none) := if_pos hstop
    have hres : serveCmd scales st chan cmd env =
        ⟨t, none, some (cmdResponse chan cmd (-1) env.stopped)⟩ := by
      rw [serveCmd, hpair]
      simp only [hexec]
    obtain ⟨hchan, hcmd⟩ := cmdResponse_request chan cmd (-1) env.stopped
    have hport : FromPort i' env none (cmdResponse chan cmd (-1) env.stopped) :=
      .notStopped hstop.2 utf8_no rfl
    exact ⟨_, _, hserve, by rw [hres]; exact ⟨rfl, hchan, hcmd, hport⟩, hkept⟩
  · obtain ⟨t', paused, hexec⟩ : ∃ t' paused, execLduCmd t i' switchMode env =
        (t', (env.answer.length : ℤ), env.answer, some (i', paused)) :=
      ⟨_, _, if_neg hstop⟩
    have hres : serveCmd scales st chan cmd env =
        ⟨t', some (i', paused), some (cmdResponse chan cmd env.answer.length env.answer)⟩ := by
      rw [serveCmd, hpair]
      simp only [hexec]
    obtain ⟨hchan, hcmd⟩ := cmdResponse_request chan cmd env.answer.length env.answer
    have hport := @fromPort_cmdResponse env chan cmd i' paused
    exact ⟨_, _, hserve, by rw [hres]; exact ⟨rfl, hchan, hcmd, hport⟩, hkept⟩

/-- **A command is answered.**  The document of a command for a scale of the table is served, and
the published text is a document of its response. -/
theorem servePayload_command
    {chan cmd payload : List UInt8} {depth i : Nat}
    (hfirst : SelectedFirst scales st)
    (hpayload : Document depth (commandJson (.string chan) cmd) payload)
    (hdepth : depth ≤ Cjson.nestingLimit)
    (hlen : payload.length < ibufSize)
    (hchan : (0 : UInt8) ∉ chan)
    (hcmd : (0 : UInt8) ∉ cmd)
    (hescaped : (Cjson.escapeText chan).length + (Cjson.escapeText cmd).length ≤ ibufSize)
    (hreal : atoi chan ≠ -1)
    (hfind : findScale scales (atoi chan) = some i)
    (henv : env.answer.length ≤ obufSize)
    (fresh : Bytes) :
    ∃ res r text, servePayload scales st payload env fresh = some (res, some text) ∧
      Document 1 r.json text ∧ Responds chan cmd i env res r ∧
        SelectedFirst scales res.session := by
  obtain ⟨res, r, hres, hresponds, hkept⟩ := @onMessage_command _ _ env _ _ hfirst hreal hfind cmd
  have hresponse := hresponds.published
  have hshort : r.Short := by
    refine ⟨?_, ?_, ?_, hresponds.fromPort.text henv, hresponds.fromPort.retCode⟩
    · rwa [hresponds.chan_eq]
    · rwa [hresponds.cmd_eq]
    · rwa [hresponds.chan_eq, hresponds.cmd_eq]
  obtain ⟨text, hprint, hdocument⟩ := hshort.printed fresh
  refine ⟨res, r, text, ?_, hdocument, hresponds, hkept⟩
  rw [servePayload, if_neg (not_le.mpr hlen), calibrMsgOf_document hpayload hdepth,
    calibrJson_commandJson, Json.getStringValue, hres]
  simp only [Option.bind_some, hresponse, hprint, Option.join_some, Option.map_some]

/-- A command without a scale ends the session, and is not answered. -/
theorem servePayload_deselect
    {chan cmd payload : List UInt8} {depth : Nat}
    (hfirst : SelectedFirst scales st)
    (hpayload : Document depth (commandJson (.string chan) cmd) payload)
    (hdepth : depth ≤ Cjson.nestingLimit)
    (hlen : payload.length < ibufSize)
    (hnone : atoi chan = -1)
    (fresh : Bytes) :
    ∃ res, servePayload scales st payload env fresh = some (res, none) ∧
      SelectedFirst scales res.session := by
  obtain ⟨hselected, hkept⟩ := selectScale_selects hfirst (atoi chan)
  rw [mqttScale, if_pos hnone, Option.map_eq_none_iff] at hselected
  have hpair : selectScale scales st (atoi chan) =
      ((selectScale scales st (atoi chan)).1, none) := Prod.ext rfl hselected
  have hserve : serveCmd scales st chan cmd env =
      ⟨(selectScale scales st (atoi chan)).1, none, none⟩ := by
    rw [serveCmd, hpair]
  refine ⟨⟨(selectScale scales st (atoi chan)).1, none, none⟩, ?_, hkept⟩
  rw [servePayload, if_neg (not_le.mpr hlen), calibrMsgOf_document hpayload hdepth,
    calibrJson_commandJson, Json.getStringValue]
  simp only [onMessage, ne_eq, not_true_eq_false, if_false, Option.bind_some, hserve]

/-- A channel that is no text is read as a string. -/
theorem servePayload_no_text
    {chan : Json} {cmd payload : List UInt8} {depth : Nat}
    (hpayload : Document depth (commandJson chan cmd) payload)
    (hdepth : depth ≤ Cjson.nestingLimit)
    (hchan : chan.getStringValue = none)
    (fresh : Bytes) :
    servePayload scales st payload env fresh = none := by
  rw [servePayload, calibrMsgOf_document hpayload hdepth, calibrJson_commandJson, hchan]
  split
  · rfl
  · rfl

end Texts

end Scaled
end MatrixBin
