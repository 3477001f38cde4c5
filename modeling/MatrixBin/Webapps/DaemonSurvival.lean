import MatrixBin.Webapps.CalibrationLink

/-!
# What the page can do to the daemon (`calibration.js`, `mqtt_thread.c`)

`initialize` takes the selection of a device back by the number -1.  The function that executes
the list of a button does not look at the selection: it publishes a channel that is no text, and
`on_message` hands the null string of it to `atoi`.

`daemon_dies_iff` says after which events of the page the daemon can die, if no text is lost.
-/

namespace MatrixBin
namespace Webapps

open Library Library.JsonText Scaled

/-- The event publishes no command under a deselected device, and none that `ibuf` does not
hold. -/
def Harmless (s : Page) (event : PageEvent) : Prop :=
  ∀ s', pageStep s event = some s' →
    ∀ c, publishedCmd s s' = some c → c.chan ≠ -1 ∧ c.text.length < ibufSize

/-- The daemon does not survive the text, whatever its session and the terminal. -/
def Deadly (scales : List ScaleSys) (text : List UInt8) : Prop :=
  ∀ st env fresh, servePayload scales st text env fresh = none

section DaemonSurvival

variable {scales : List ScaleSys} {s s' : Page} {link : CalibrationLink}

/-! ### The commands of the page -/

/-- Only the handlers publish commands. -/
theorem published_event
    {event : PageEvent} {c : PageCmd}
    (hstep : pageStep s event = some s')
    (hpublished : publishedCmd s s' = some c) :
    (∀ chan, event ≠ .change chan) ∧ event ≠ .configuration ∧
      ∀ c' ok, event ≠ .response c' ok := by
  have hnot : ¬ (s'.currentCmd = none ∨ s'.currentCmd = s.currentCmd) := fun h => by
    rw [publishedCmd_none h] at hpublished
    cases hpublished
  refine ⟨?_, ?_, ?_⟩
  · rintro chan rfl
    obtain rfl := Option.some.inj hstep
    exact hnot (.inr (change_eq s chan).2.1)
  · rintro rfl
    obtain rfl := Option.some.inj hstep
    exact hnot (.inl rfl)
  · rintro c' ok rfl
    rw [pageStep, Option.ite_none_right_eq_some] at hstep
    obtain rfl := Option.some.inj hstep.2
    exact hnot (onResponse_frame { s with waiting := s.waiting.erase c' } c' ok).2.2

/-- A command is for the selected device. -/
theorem published_chan
    {event : PageEvent} {c : PageCmd}
    (hstep : pageStep s event = some s')
    (hpublished : publishedCmd s s' = some c) :
    c.chan = s.selectedChannel := by
  obtain ⟨hchange, hconfiguration, hresponse⟩ := published_event hstep hpublished
  cases pageStep_handles hstep hchange hconfiguration hresponse with
  | quiet hcurrent _ _ =>
      rw [publishedCmd_none (.inr hcurrent)] at hpublished
      cases hpublished
  | @publishes c' mode hfree hcurrent hchan _ _ =>
      have hsame : publishedCmd s s' = some c' := by rw [publishedCmd, hfree, hcurrent]
      obtain rfl := Option.some.inj (hpublished.symm.trans hsame)
      exact hchan

/-- Only the list of a button goes on without a device. -/
theorem published_deselected
    {event : PageEvent} {c : PageCmd}
    (hstep : pageStep s event = some s')
    (hpublished : publishedCmd s s' = some c)
    (hchan : c.chan = -1) :
    ∃ request, event = .expire .execCommand request := by
  have hselected := (published_chan hstep hpublished).symm.trans hchan
  obtain ⟨hchange, hconfiguration, hresponse⟩ := published_event hstep hpublished
  have hsame (hcurrent : s'.currentCmd = s.currentCmd) : False := by
    rw [publishedCmd_none (.inr hcurrent)] at hpublished
    cases hpublished
  cases event with
  | change chan => exact absurd rfl (hchange chan)
  | configuration => exact absurd rfl hconfiguration
  | response c' ok => exact absurd rfl (hresponse c' ok)
  | expire timer request =>
      rw [pageStep, Option.ite_none_right_eq_some] at hstep
      obtain rfl := Option.some.inj hstep.2
      cases timer with
      | getParameters =>
          exact (hsame (by simp [Page.run, Page.getParameters, hselected])).elim
      | getCurrentParameters =>
          exact (hsame (by simp [Page.run, Page.getCurrentParameters, hselected])).elim
      | sendManual =>
          exact (hsame (by simp [Page.run, Page.sendManual, hselected])).elim
      | execCommand => exact ⟨request, rfl⟩
  | send request =>
      obtain rfl := Option.some.inj hstep
      exact (hsame (by simp [Page.sendManual, hselected])).elim
  | click button values =>
      obtain rfl := Option.some.inj hstep
      exact (hsame (by simp [Page.click, hselected])).elim

/-! ### The deadly texts -/

theorem deadly_of_long
    {text : List UInt8}
    (h : ibufSize ≤ text.length) :
    Deadly scales text := by
  intro st env fresh
  rw [servePayload, if_pos h]

/-- A text from the page that kills the daemon once always does. -/
theorem Asks.deadly
    {asked : Option PageCmd} {text : List UInt8} {st : Session} {env : ExecEnv} {fresh : Bytes}
    (h : Asks scales asked text)
    (hids : ∀ sc ∈ scales, IdFits sc.id)
    (hfirst : SelectedFirst scales st)
    (henv : env.answer.length ≤ obufSize)
    (hserve : servePayload scales st text env fresh = none) :
    Deadly scales text := by
  by_cases hlong : ibufSize ≤ text.length
  · exact deadly_of_long hlong
  cases h with
  | @command c i hreal hfind hplain =>
      obtain ⟨res, reply, hserve', -⟩ :=
        serve_text hids hreal hfind hplain (not_le.mp hlong) hfirst henv fresh
      rw [hserve] at hserve'
      cases hserve'
  | @number c hchan hplain => exact fun _ _ fresh => serve_number hchan hplain fresh
  | deselect =>
      obtain ⟨res, hserve', -⟩ := serve_deselect hfirst fresh
      rw [hserve] at hserve'
      cases hserve'

/-- A command kills the daemon exactly if it is not for a device, or too long. -/
theorem deadly_text_iff
    {c : PageCmd}
    (hids : ∀ sc ∈ scales, IdFits sc.id)
    (hselected : c.chan = -1 ∨ ∃ i, findScale scales c.chan = some i)
    (hplain : (0 : UInt8) ∉ utf8 c.cmd) :
    ¬ Deadly scales c.text ↔ c.chan ≠ -1 ∧ c.text.length < ibufSize := by
  constructor
  · intro hserved
    refine ⟨fun hchan => hserved fun _ _ fresh => serve_number hchan hplain fresh, ?_⟩
    by_contra hlong
    exact hserved (deadly_of_long (not_lt.mp hlong))
  · rintro ⟨hreal, hlen⟩ hdeadly
    obtain ⟨i, hfind⟩ := hselected.resolve_left hreal
    have hinitial : SelectedFirst scales .initial := fun k hk => nomatch hk
    have henv : (⟨0, [], []⟩ : ExecEnv).answer.length ≤ obufSize := Nat.zero_le _
    obtain ⟨res, reply, hserve, -⟩ :=
      serve_text hids hreal hfind hplain hlen hinitial henv (fun _ => 0)
    rw [hdeadly] at hserve
    cases hserve

theorem not_deadly_deselectText : ¬ Deadly scales deselectText := by
  intro hdeadly
  have hinitial : SelectedFirst scales .initial := fun k hk => nomatch hk
  obtain ⟨res, hserve, -⟩ : ∃ res, servePayload scales .initial deselectText ⟨0, [], []⟩
      (fun _ => 0) = some (res, none) ∧ SelectedFirst scales res.session :=
    serve_deselect hinitial (fun _ => 0)
  rw [hdeadly] at hserve
  cases hserve

/-- An event is harmless exactly if no text that it publishes is deadly. -/
theorem harmless_iff
    {event : PageEvent}
    (hids : ∀ sc ∈ scales, IdFits sc.id)
    (hselected : s.selectedChannel = -1 ∨ ∃ i, findScale scales s.selectedChannel = some i)
    (hstep : pageStep s event = some s')
    (hoffered : event.Offered scales s') :
    Harmless s event ↔ ∀ text ∈ pageTexts s event s', ¬ Deadly scales text := by
  have honly : Harmless s event ↔
      ∀ c, publishedCmd s s' = some c → c.chan ≠ -1 ∧ c.text.length < ibufSize := by
    constructor
    · intro h
      exact h s' hstep
    · intro h t ht
      obtain rfl := Option.some.inj (hstep.symm.trans ht)
      exact h
  have hplain := hoffered.plain hstep
  have htexts : (∀ c, publishedCmd s s' = some c → c.chan ≠ -1 ∧ c.text.length < ibufSize) ↔
      ∀ text ∈ ((publishedCmd s s').map PageCmd.text).toList, ¬ Deadly scales text := by
    cases hpublished : publishedCmd s s' with
    | none => simp
    | some c =>
        have hchan : c.chan = -1 ∨ ∃ i, findScale scales c.chan = some i := by
          rw [published_chan hstep hpublished]
          exact hselected
        simp [deadly_text_iff hids hchan (hplain c hpublished)]
  rw [honly]
  cases event with
  | change chan =>
      have hnone : publishedCmd s s' = none := by
        obtain rfl := Option.some.inj hstep
        exact publishedCmd_none (.inr (change_eq s chan).2.1)
      rw [hnone, pageTexts]
      split_ifs
      · simp [not_deadly_deselectText]
      · simp
  | _ => exact htexts

/-! ### Runs -/

/-- While the daemon lives, the deadly texts of the run so far are on their way to it. -/
structure Survival (scales : List ScaleSys) (events : List PageEvent) (link : CalibrationLink) :
    Prop where
  alive : link.daemon ≠ none →
    (MeetsAlong pageStep Harmless Page.start events ↔ ∀ text ∈ link.toDaemon, ¬ Deadly scales text)
  dead : link.daemon = none → ¬ MeetsAlong pageStep Harmless Page.start events

theorem linkRun_survival
    {events : List PageEvent}
    (hids : ∀ sc ∈ scales, IdFits sc.id)
    (h : LinkRun scales false events link) :
    Survival scales events link := by
  induction h with
  | start => exact ⟨fun _ => by simp [MeetsAlong, CalibrationLink.start], by
      simp [CalibrationLink.start]⟩
  | @page events s event p before hstep hoffered ih =>
      obtain ⟨hrun, hinv⟩ := linkRun_inv hids before
      have hmeets : MeetsAlong pageStep Harmless Page.start (events ++ [event]) ↔
          MeetsAlong pageStep Harmless Page.start events ∧
            ∀ text ∈ pageTexts s.page event p, ¬ Deadly scales text := by
        rw [meetsAlong_append_singleton hrun, ← harmless_iff hids hinv.selected hstep hoffered]
        exact and_congr_right fun _ => ⟨fun h => h p hstep, fun h _ _ => h⟩
      refine ⟨fun halive => ?_, fun hdead hall => ih.dead hdead (hmeets.mp hall).1⟩
      rw [hmeets, ih.alive halive]
      simp only [List.mem_append, or_imp, forall_and]
  | @serve events s text rest st env fresh res reply before htext hdaemon henv hserve ih =>
      refine ⟨fun _ => ?_, fun hdead => absurd hdead (Option.some_ne_none _)⟩
      have hnot : ¬ Deadly scales text := fun hdeadly => by
        rw [hdeadly] at hserve
        cases hserve
      rw [ih.alive (by rw [hdaemon]; exact Option.some_ne_none st), htext]
      simp [hnot]
  | @die events s text rest st env fresh before htext hdaemon henv hserve ih =>
      refine ⟨fun halive => absurd rfl halive, fun _ hall => ?_⟩
      obtain ⟨-, hinv⟩ := linkRun_inv hids before
      obtain ⟨asked, answered, lost, ⟨hcommands, -, -⟩, -⟩ := hinv.underWay
      rw [htext] at hcommands
      obtain ⟨q, asked', hfirst, -, -⟩ := List.forall₂_cons_right_iff.mp hcommands
      have halive : s.daemon ≠ none := by
        rw [hdaemon]
        exact Option.some_ne_none st
      refine (ih.alive halive).mp hall text (by rw [htext]; exact List.mem_cons_self) ?_
      exact hfirst.deadly hids (hinv.first st hdaemon) henv hserve
  | @deliver events s text rest c ok before htext hreads ih =>
      obtain ⟨hrun, hinv⟩ := linkRun_inv hids before
      have hharmless : Harmless s.page (.response c ok) := by
        intro t ht c' hpublished
        exact absurd rfl ((published_event ht hpublished).2.2 c ok)
      have hmeets : MeetsAlong pageStep Harmless Page.start (events ++ [.response c ok]) ↔
          MeetsAlong pageStep Harmless Page.start events := by
        rw [meetsAlong_append_singleton hrun]
        exact and_iff_left fun _ _ => hharmless
      exact ⟨fun halive => hmeets.trans (ih.alive halive), fun hdead hall =>
        ih.dead hdead (hmeets.mp hall)⟩
  | loseCommand before hlose => cases hlose
  | loseResponse before hlose => cases hlose

/-- A daemon with a deadly text on its way serves until it dies. -/
theorem linkRun_dies
    {events : List PageEvent} {queue : List (List UInt8)} {text : List UInt8} {st : Session}
    (h : LinkRun scales false events link)
    (hqueue : link.toDaemon = queue)
    (hdaemon : link.daemon = some st)
    (htext : text ∈ queue)
    (hdeadly : Deadly scales text) :
    ∃ link', LinkRun scales false events link' ∧ link'.daemon = none := by
  induction queue generalizing link st with
  | nil => exact absurd htext List.not_mem_nil
  | cons first rest ih =>
      have henv : (⟨0, [], []⟩ : ExecEnv).answer.length ≤ obufSize := Nat.zero_le _
      cases hserve : servePayload scales st first ⟨0, [], []⟩ (fun _ => 0) with
      | none => exact ⟨_, .die h hqueue hdaemon henv hserve, rfl⟩
      | some served =>
          obtain ⟨res, reply⟩ := served
          have hrest : text ∈ rest := by
            rcases List.mem_cons.mp htext with rfl | hrest
            · rw [hdeadly] at hserve
              cases hserve
            · exact hrest
          exact ih (.serve h hqueue hdaemon henv hserve) rfl rfl hrest

/-- **When the page kills the daemon.**  Where no text is lost, the daemon can die after the events
of a run exactly if one of them published a command under a deselected device or one that `ibuf`
does not hold; the former is only done by the timer of a list. -/
theorem daemon_dies_iff
    {events : List PageEvent}
    (hids : ∀ sc ∈ scales, IdFits sc.id)
    (h : LinkRun scales false events link) :
    ((∃ link', LinkRun scales false events link' ∧ link'.daemon = none) ↔
      ¬ MeetsAlong pageStep Harmless Page.start events) ∧
    ∀ (s s' : Page) (event : PageEvent) (c : PageCmd), pageStep s event = some s' →
      publishedCmd s s' = some c → c.chan = -1 →
        ∃ request, event = .expire .execCommand request := by
  refine ⟨⟨?_, fun hnot => ?_⟩, fun s s' event c hstep hpublished hchan =>
    published_deselected hstep hpublished hchan⟩
  · rintro ⟨link', hrun, hdead⟩
    exact (linkRun_survival hids hrun).dead hdead
  · cases hdaemon : link.daemon with
    | none => exact ⟨link, h, hdaemon⟩
    | some st =>
        have halive : link.daemon ≠ none := by
          rw [hdaemon]
          exact Option.some_ne_none st
        have hdeadly := mt ((linkRun_survival hids h).alive halive).mpr hnot
        simp only [not_forall, not_not] at hdeadly
        obtain ⟨text, htext, hdeadly⟩ := hdeadly
        exact linkRun_dies h rfl hdaemon htext hdeadly

/-- A list is begun, and the device is deselected before its timer. -/
def listWithoutDevice : List PageEvent :=
  [.change 1, .click .fmSave (fun _ => ""), .change (-1), .expire .execCommand ""]

theorem daemon_dies_iff_listWithoutDevice :
    ∃ link, LinkRun [bareScale] false listWithoutDevice link ∧ link.daemon = none := by
  have hchange : LinkRun [bareScale] false [.change 1] _ :=
    .page .start rfl (.inr ⟨bareScale, List.mem_singleton.mpr rfl, rfl⟩)
  have hclick : LinkRun [bareScale] false [.change 1, .click .fmSave (fun _ => "")] _ :=
    .page hchange rfl (fun c mode hc => nomatch hc)
  have hdeselect : LinkRun [bareScale] false
      [.change 1, .click .fmSave (fun _ => ""), .change (-1)] _ :=
    .page hclick rfl (.inl rfl)
  have hplain : (0 : UInt8) ∉ utf8 "WP\r" := by decide +kernel
  obtain ⟨link, hrun⟩ : ∃ link, LinkRun [bareScale] false listWithoutDevice link := by
    refine ⟨_, .page hdeselect rfl ?_⟩
    intro c mode hc
    obtain ⟨rfl, -⟩ := Prod.mk.inj (Option.some.inj hc)
    exact hplain
  refine (daemon_dies_iff bareScale_fits hrun).1.mpr fun hmeets => ?_
  obtain ⟨-, hmeets⟩ := hmeets _ rfl
  obtain ⟨-, hmeets⟩ := hmeets _ rfl
  obtain ⟨-, hmeets⟩ := hmeets _ rfl
  obtain ⟨hharmless, -⟩ := hmeets _ rfl
  exact (hharmless _ rfl _ rfl).1 rfl

end DaemonSurvival

end Webapps
end MatrixBin
