import NiraOS.Greeter.Dialogue

/-!
# The login button

The button of the login screen (`desktop/greeter/qml/Main.qml`) over the states of `GreeterIPC`: it
is the only way on for the user.  The state keeps count of the requests on the connection that the
server has not answered; a frame answers one.

When nothing is under way, the user can go on:

```text
phase             what is under way                       the button
Idle              nothing                                 starts a connection
CreatingSession   the connection or a request             disabled
Authenticating    a request, unless an answer is awaited  sends the answer
Authenticated     the fade-out                            disabled
StartingSession   the session                             disabled
```
-/

namespace NiraOS.Greeter

/-! ## The button -/

namespace GreeterIPC

variable (g : GreeterIPC)

def busy : Bool :=
  g.phase = .creatingSession || (g.phase = .authenticating && !g.awaitingResponse) || g.phase =
    .startingSession

/-- `loginBtn.enabled`. -/
def loginEnabled : Bool := !g.authenticated && (!g.busy || g.awaitingResponse)

/-- `loginBtn.onClicked`, with the user chosen and the text in the password field. -/
def loginClicked (user text : String) : GreeterIPC :=
  if g.awaitingResponse then g.submitPassword text
  else if user ≠ "" then g.startAuth user text
  else g

end GreeterIPC

def Record.IsWrite : Record → Prop
  | .wrote _ => True
  | _ => False

instance : DecidablePred Record.IsWrite
  | .wrote _ => inferInstanceAs (Decidable True)
  | .attempt _ | .handled _ _ | .emitted _ => inferInstanceAs (Decidable False)

/-- How many requests were written. -/
def writes (log : List Record) : ℕ := log.countP fun r => r.IsWrite

/-! ## The screen -/

structure Screen where
  greeter : GreeterIPC
  /-- Requests on the open connection that no frame has answered. -/
  unanswered : ℕ

inductive ScreenEvent
  | press (user text : String)
  /-- The fade-out has ended. -/
  | fadedOut
  | connected
  | frame (payload : List UInt8)
  | invalidLength
  | error (errorString : String) (closes : Bool)

section Screen

variable (parse : List UInt8 → Option JsonObject)

def ScreenEvent.act (g : GreeterIPC) : ScreenEvent → Option GreeterIPC
  | .press user text => if g.loginEnabled then some (g.loginClicked user text) else none
  | .fadedOut => occur parse g .startSession
  | .connected => occur parse g .connected
  | .frame payload => occur parse g (.frame payload)
  | .invalidLength => occur parse g .invalidLength
  | .error errorString closes => occur parse g (.error errorString closes)

/-- A frame answers a request. -/
def ScreenEvent.answered (e : ScreenEvent) (unanswered : ℕ) : ℕ :=
  match e with
  | .frame _ => unanswered - 1
  | _ => unanswered

/-- What is unanswered when `sent` more requests were written: nothing without a connection. -/
def underWay (c : Core) (unanswered sent : ℕ) : ℕ :=
  if c.socket = .connected then unanswered + sent else 0

def Screen.after (s : Screen) (e : ScreenEvent) (g : GreeterIPC) : Screen where
  greeter := g
  unanswered := underWay g.core (e.answered s.unanswered) (writes g.log - writes s.greeter.log)

def screen : Transition.System Screen ScreenEvent where
  init s := s = ⟨.new, 0⟩
  step s e := (e.act parse s.greeter).map (s.after e)

/-- The server sends what the protocol knows, and prompts only during the dialogue. -/
def Regular (s : Screen) : ScreenEvent → Prop
  | .frame payload => ∃ message, parse payload = some message ∧
      (((CredentialPrompt message ∨ Notice message) ∧ s.greeter.phase.Open) ∨
        field message "type" = "success" ∨ field message "type" = "error")
  | _ => True

end Screen

/-- No connection attempt and no request is under way. -/
def Screen.Quiet (s : Screen) : Prop := s.greeter.socket ≠ .connecting ∧ s.unanswered = 0

/-- The button is enabled, and pressing it does something. -/
def GreeterIPC.Responsive (g : GreeterIPC) : Prop :=
  g.loginEnabled = true ∧ ∀ user text, Text.trim user ≠ "" →
    ∃ records, (g.loginClicked user text).log = g.log ++ records ∧
      ∃ r ∈ records, r.IsAttempt ∨ r.IsWrite

/-! ## The invariant -/

/-- What is under way in each phase. -/
structure Live (c : Core) (unanswered : ℕ) : Prop where
  creating : c.phase = .creatingSession → c.authenticated = false ∧ c.awaitingResponse = false ∧
    c.credentialSubmitted = false ∧
    (c.socket = .connecting ∨ c.socket = .connected ∧ 0 < unanswered)
  authenticating : c.phase = .authenticating → c.authenticated = false ∧ c.socket = .connected ∧
    c.credentialSubmitted = true ∧ (c.awaitingResponse = true ∨ 0 < unanswered)
  idle : c.phase = .idle → c.authenticated = false ∧ c.awaitingResponse = false

section Steps

variable {parse : List UInt8 → Option JsonObject} {c : Core} {g g' : GreeterIPC} {n sent : ℕ}
    {s s' : Screen} {e : ScreenEvent}

/-- The phases that wait for nothing. -/
theorem Live.of_closed (h : ¬ c.phase.Open)
    (hidle : c.phase = .idle → c.authenticated = false ∧ c.awaitingResponse = false) :
    Live c n where
  creating hphase := absurd (.inl hphase) h
  authenticating hphase := absurd (.inr hphase) h
  idle := hidle

/-- A request that waits for its answer, in the middle of the conversation. -/
theorem Live.of_authenticating (hphase : c.phase = .authenticating)
    (hflag : c.authenticated = false)
    (hsocket : c.socket = .connected) (hsubmitted : c.credentialSubmitted = true)
    (hunder : c.awaitingResponse = true ∨ 0 < n) : Live c n where
  creating hcreating := nomatch hphase.symm.trans hcreating
  authenticating _ := ⟨hflag, hsocket, hsubmitted, hunder⟩
  idle hidle := nomatch hphase.symm.trans hidle

theorem live_failed (c : Core) : Live c.failed n := by
  refine .of_closed ?_ fun _ => ⟨rfl, rfl⟩
  rintro (h | h) <;> nomatch h

theorem underWay_connected (h : c.socket = .connected) : underWay c n sent = n + sent := if_pos h

/-- More requests do no harm, and without a connection none matters. -/
theorem Live.more (h : Live c n) : Live c (underWay c n sent) where
  creating hphase := by
    obtain ⟨hflag, hawaiting, hsubmitted, hunder⟩ := h.creating hphase
    refine ⟨hflag, hawaiting, hsubmitted, hunder.imp id fun ⟨hsocket, hpos⟩ => ⟨hsocket, ?_⟩⟩
    rw [underWay_connected hsocket]
    omega
  authenticating hphase := by
    obtain ⟨hflag, hsocket, hsubmitted, hunder⟩ := h.authenticating hphase
    refine ⟨hflag, hsocket, hsubmitted, hunder.imp id fun hpos => ?_⟩
    rw [underWay_connected hsocket]
    omega
  idle := h.idle

/-- Any request under way will do. -/
theorem Live.positive (h : Live c n) (hsocket : c.socket = .connected) {m : ℕ} (hm : 0 < m) :
    Live c m where
  creating hphase := by
    obtain ⟨hflag, hawaiting, hsubmitted, -⟩ := h.creating hphase
    exact ⟨hflag, hawaiting, hsubmitted, .inr ⟨hsocket, hm⟩⟩
  authenticating hphase := by
    obtain ⟨hflag, -, hsubmitted, -⟩ := h.authenticating hphase
    exact ⟨hflag, hsocket, hsubmitted, .inr hm⟩
  idle := h.idle

/-! ### What is written -/

/-- A request among the new records. -/
theorem writes_lt (records : List Record) (hlog : g'.log = g.log ++ records)
    (h : ∃ r ∈ records, r.IsWrite) :
    0 < writes g'.log - writes g.log := by
  obtain ⟨r, hr, hwrite⟩ := h
  have hpos : 0 < records.countP fun r => r.IsWrite :=
    List.countP_pos_iff.mpr ⟨r, hr, decide_eq_true hwrite⟩
  rw [hlog, writes, List.countP_append, writes]
  omega

theorem log_submitPassword (hopen : g.phase.Open) (hsocket : g.socket = .connected)
    (password : String) :
    (g.submitPassword password).log = g.log ++ [.wrote (postAuthMessageResponse password)] := by
  have hdialogue : ¬ (g.phase ≠ .creatingSession ∧ g.phase ≠ .authenticating) :=
    fun h => not_or.mpr h hopen
  unfold GreeterIPC.submitPassword GreeterIPC.sendJson
  rw [if_neg hdialogue, if_pos hsocket]
  rfl

theorem log_sendCreateSession (hphase : g.phase = .creatingSession)
    (hsocket : g.socket = .connected) :
    g.sendCreateSession.log =
      g.log ++ [.wrote (createSession g.currentUser), .emitted .statusChanged] := by
  unfold GreeterIPC.sendCreateSession GreeterIPC.sendJson
  rw [if_neg (not_not.mpr hphase), if_pos hsocket, List.append_cons]
  rfl

/-- A prompt is answered at once when nothing was submitted yet, and a notice always. -/
theorem writes_prompt {message : JsonObject} (hsocket : g.socket = .connected)
    (hopen : g.phase.Open)
    (h : CredentialPrompt message ∧ g.credentialSubmitted = false ∨
      ¬ CredentialPrompt message ∧ Notice message) :
    0 < writes (g.handleMessage message).log - writes g.log := by
  have hlog : (g.handleMessage message).log =
      (g.dispatch message).log ++ [.handled message (g.dispatch message).phase] := rfl
  rcases h with ⟨hcredential, hfirst⟩ | ⟨hcredential, hnotice⟩
  · have hdispatch : g.dispatch message = _ := if_pos hcredential.1
    have hanswer :=
      log_submitPassword (g := { g.shown message with pendingPassword := "" }) hopen hsocket
        g.pendingPassword
    refine writes_lt [.emitted .statusChanged, .wrote (postAuthMessageResponse g.pendingPassword),
      .handled message (g.dispatch message).phase] ?_ ⟨_,
        List.mem_cons_of_mem _ List.mem_cons_self, trivial⟩
    rw [hlog, hdispatch, GreeterIPC.handlePrompt_eq _ _ hcredential.1, if_pos hcredential,
      if_pos hfirst, hanswer]
    simp only [GreeterIPC.shown, GreeterIPC.record, List.append_assoc, List.cons_append,
      List.nil_append]
  · have hdispatch : g.dispatch message = _ := if_pos hnotice.1
    refine writes_lt [.emitted .statusChanged, .wrote acknowledge,
      .handled message (g.dispatch message).phase] ?_ ⟨_,
        List.mem_cons_of_mem _ List.mem_cons_self, trivial⟩
    have hsend : ((g.shown message).sendJson acknowledge).log =
        (g.shown message).log ++ [.wrote acknowledge] :=
      congrArg GreeterIPC.log (if_pos hsocket)
    rw [hlog, hdispatch, GreeterIPC.handlePrompt_eq _ _ hnotice.1, if_neg hcredential,
      if_pos hnotice, hsend]
    simp only [GreeterIPC.shown, GreeterIPC.record, List.append_assoc, List.cons_append,
      List.nil_append]

/-! ### Events -/

theorem live_submitPassword (h : Live g.core n) (hawaiting : g.awaitingResponse = true)
    (text : String) :
    Live (g.submitPassword text).core
      (underWay (g.submitPassword text).core n
        (writes (g.submitPassword text).log - writes g.log)) := by
  by_cases hopen : g.core.phase.Open
  · have hcore : (g.submitPassword text).core = _ :=
      (g.core_submitPassword text).trans (if_pos hopen)
    rcases hopen with hcreating | hauthenticating
    · -- while the session is created no answer is awaited
      have hnone := (h.creating hcreating).2.1
      nomatch hawaiting.symm.trans hnone
    · obtain ⟨hflag, hsocket, -, -⟩ := h.authenticating hauthenticating
      have hsent :=
        writes_lt _ (log_submitPassword (.inr hauthenticating) hsocket text) ⟨_,
          List.mem_cons_self, trivial⟩
      have hsame : (g.submitPassword text).core.socket = .connected := by
        rw [hcore]
        exact hsocket
      rw [underWay_connected hsame, hcore]
      exact .of_authenticating rfl hflag hsocket rfl (.inr (by omega))
  · have heq : g.submitPassword text = g := if_pos (not_or.mp hopen)
    rw [heq]
    exact h.more

theorem live_press {user text : String} (h : Live g.core n) :
    Live (g.loginClicked user text).core
      (underWay (g.loginClicked user text).core n
        (writes (g.loginClicked user text).log - writes g.log)) := by
  unfold GreeterIPC.loginClicked
  split_ifs with hawaiting huser
  · exact live_submitPassword h hawaiting text
  · rw [GreeterIPC.core_startAuth]
    split_ifs
    · exact h.more
    · exact ⟨fun _ => ⟨rfl, rfl, rfl, .inl rfl⟩, nofun, nofun⟩
  · exact h.more

theorem live_handleMessage {message : JsonObject} (h : Live g.core n)
    (hsocket : g.socket = .connected)
    (hregular : ((CredentialPrompt message ∨ Notice message) ∧ g.phase.Open) ∨
        field message "type" = "success" ∨ field message "type" = "error") :
    Live (g.handleMessage message).core
      (n - 1 + (writes (g.handleMessage message).log - writes g.log)) := by
  rw [GreeterIPC.core_handleMessage]
  split_ifs with hcredential hsuccess herror
  · obtain ⟨-, hopen⟩ := hregular.resolve_right (by rw [hcredential.1]; decide)
    unfold Core.prompted
    rcases hopen with hcreating | hauthenticating
    · -- the password is sent
      obtain ⟨hflag, -, hfirst, -⟩ := h.creating hcreating
      have hsent := writes_prompt hsocket (.inl hcreating) (.inl ⟨hcredential, hfirst⟩)
      rw [if_pos hfirst, Core.submitted, if_pos (.inl hcreating)]
      exact .of_authenticating rfl hflag hsocket rfl (.inr (by omega))
    · obtain ⟨hflag, -, hsubmitted, -⟩ := h.authenticating hauthenticating
      rw [if_neg (by rw [hsubmitted]; decide)]
      exact .of_authenticating hauthenticating hflag hsocket hsubmitted (.inl rfl)
  · unfold Core.succeeded
    split_ifs with hstarting
    · refine .of_closed ?_ h.idle
      rw [hstarting]
      decide
    · exact ⟨nofun, nofun, nofun⟩
  · exact live_failed _
  · obtain ⟨hprompt, hopen⟩ := hregular.resolve_right (not_or.mpr ⟨hsuccess, herror⟩)
    have hsent := writes_prompt hsocket hopen (.inr ⟨hcredential, hprompt.resolve_left hcredential⟩)
    exact h.positive hsocket (by omega)

theorem live_connected (h : Live g.core n) (hconnecting : g.socket = .connecting) :
    Live { g with socket := .connected }.sendCreateSession.core
      (underWay { g with socket := .connected }.sendCreateSession.core n
        (writes { g with socket := .connected }.sendCreateSession.log - writes g.log)) := by
  rw [GreeterIPC.core_sendCreateSession]
  by_cases hcreating : g.phase = .creatingSession
  · have hsent :=
      writes_lt _ (log_sendCreateSession (g := { g with socket := .connected }) hcreating rfl)
      ⟨_, List.mem_cons_self, trivial⟩
    obtain ⟨hflag, hawaiting, hsubmitted, -⟩ := h.creating hcreating
    rw [underWay_connected rfl]
    refine ⟨fun _ => ⟨hflag, hawaiting, hsubmitted, .inr ⟨rfl, Nat.add_pos_right n hsent⟩⟩,
      fun hphase => ?_, fun hphase => ?_⟩
    · nomatch hcreating.symm.trans hphase
    · nomatch hcreating.symm.trans hphase
  · refine .of_closed ?_ h.idle
    rintro (hphase | hphase)
    · exact hcreating hphase
    · nomatch hconnecting.symm.trans (h.authenticating hphase).2.1

theorem live_onError (h : Live g.core n) (errorString : String) (socket : SocketState) {m : ℕ} :
    Live { g.onError errorString with socket }.core m := by
  unfold GreeterIPC.onError
  split_ifs with hstarting
  · have hclosed : ¬ g.phase.Open := by
      rw [hstarting]
      decide
    exact .of_closed hclosed h.idle
  · refine .of_closed ?_ fun _ => ⟨rfl, rfl⟩
    rintro (hphase | hphase) <;> nomatch hphase

/-- **Step.** -/
theorem live_step (h : Live s.greeter.core s.unanswered) (hregular : Regular parse s e)
    (hstep : (screen parse).step s e = some s') : Live s'.greeter.core s'.unanswered := by
  obtain ⟨g', hact, rfl⟩ := Option.map_eq_some_iff.mp hstep
  change Live g'.core (underWay g'.core (e.answered s.unanswered)
    (writes g'.log - writes s.greeter.log))
  cases e with
  | press user text =>
      simp only [ScreenEvent.act] at hact
      split_ifs at hact
      obtain rfl := Option.some.inj hact
      exact live_press h
  | fadedOut =>
      obtain rfl := Option.some.inj hact
      rw [GreeterIPC.core_startSession]
      split_ifs
      · exact ⟨by simp, by simp, by simp⟩
      · exact h.more
  | connected =>
      simp only [ScreenEvent.act, occur] at hact
      split_ifs at hact with hconnecting
      obtain rfl := Option.some.inj hact
      exact live_connected h hconnecting
  | frame payload =>
      obtain ⟨message, hmessage, hknown⟩ := hregular
      simp only [ScreenEvent.act, occur] at hact
      split_ifs at hact with hsocket
      obtain rfl := Option.some.inj hact
      rw [GreeterIPC.handlePayload, hmessage]
      have hlive := live_handleMessage h hsocket hknown
      have hsame : (s.greeter.handleMessage message).core.socket = .connected :=
        (SameStream.handleMessage s.greeter message).1.trans hsocket
      rw [underWay_connected hsame]
      exact hlive
  | invalidLength =>
      simp only [ScreenEvent.act, occur] at hact
      split_ifs at hact
      obtain rfl := Option.some.inj hact
      refine .of_closed ?_ fun _ => ⟨rfl, rfl⟩
      rintro (h | h) <;> cases h
  | error errorString closes =>
      simp only [ScreenEvent.act, occur] at hact
      split at hact
      · cases hact
      · obtain rfl := Option.some.inj hact
        exact live_onError h errorString _
      · obtain rfl := Option.some.inj hact
        exact live_onError h errorString _

end Steps

/-! ## The user can go on -/

theorem log_startAuth {g : GreeterIPC} {user text : String} (huser : Text.trim user ≠ "") :
    (g.startAuth user text).log =
      g.log ++ [.emitted .statusChanged, .attempt (Text.trim user)] := by
  unfold GreeterIPC.startAuth
  dsimp only
  rw [if_neg huser]
  rfl

theorem Live.responsive {g : GreeterIPC} (h : Live g.core 0) (hquiet : g.socket ≠ .connecting)
    (hphase : g.phase = .idle ∨ g.phase.Open) : g.Responsive := by
  rcases hphase with hidle | hcreating | hauthenticating
  · -- a new attempt
    obtain ⟨hflag, hawaiting⟩ := h.idle hidle
    change g.authenticated = false at hflag
    change g.awaitingResponse = false at hawaiting
    refine ⟨by simp [GreeterIPC.loginEnabled, GreeterIPC.busy, hflag,
      hidle], fun user text huser => ?_⟩
    have hchosen : user ≠ "" := by
      rintro rfl
      exact huser (by decide)
    refine ⟨[.emitted .statusChanged, .attempt (Text.trim user)], ?_, .attempt (Text.trim user),
      List.mem_cons_of_mem _ List.mem_cons_self, .inl trivial⟩
    rw [GreeterIPC.loginClicked, if_neg (by rw [hawaiting]; decide), if_pos hchosen]
    exact log_startAuth huser
  · obtain ⟨-, -, -, hconnecting | ⟨-, hunder⟩⟩ := h.creating hcreating
    · exact absurd hconnecting hquiet
    · exact absurd hunder (Nat.lt_irrefl 0)
  · -- the answer
    obtain ⟨hflag, hsocket, -, hawaiting⟩ := h.authenticating hauthenticating
    replace hawaiting : g.awaitingResponse = true := hawaiting.resolve_right (Nat.lt_irrefl 0)
    change g.authenticated = false at hflag
    refine ⟨by simp [GreeterIPC.loginEnabled, hflag, hawaiting], fun user text _ => ?_⟩
    refine ⟨[.wrote (postAuthMessageResponse text)], ?_, _, List.mem_cons_self, .inr trivial⟩
    rw [GreeterIPC.loginClicked, if_pos hawaiting]
    exact log_submitPassword (.inr hauthenticating) hsocket text

/-- **The greeter does not lock up**: when nothing is under way and the login has not come through,
the button lets the user go on. -/
theorem login_goesOn (parse : List UInt8 → Option JsonObject) {s : Screen}
    (h : (screen parse).ReachableWhere (Regular parse) s) (hquiet : s.Quiet) :
    s.greeter.phase = .authenticated ∨ s.greeter.phase = .startingSession ∨
    s.greeter.Responsive := by
  have hlive : Live s.greeter.core s.unanswered := by
    refine h.invariant (I := fun s => Live s.greeter.core s.unanswered) ?_
      fun _ _ _ _ hs hok hstep => live_step hs hok hstep
    rintro _ rfl
    exact ⟨nofun, nofun, fun _ => ⟨rfl, rfl⟩⟩
  rw [hquiet.2] at hlive
  cases hphase : s.greeter.phase with
  | idle => exact .inr (.inr (hlive.responsive hquiet.1 (.inl hphase)))
  | creatingSession => exact .inr (.inr (hlive.responsive hquiet.1 (.inr (.inl hphase))))
  | authenticating => exact .inr (.inr (hlive.responsive hquiet.1 (.inr (.inr hphase))))
  | authenticated => exact .inl rfl
  | startingSession => exact .inr (.inl rfl)

/-- A service that accepts everybody. -/
def accepting : List UInt8 → Option JsonObject := fun _ => some [("type", .str "success")]

def afterAttempt : Screen := ⟨GreeterIPC.new.startAuth "user" "secret", 0⟩

/-- The service cannot be reached. -/
theorem login_goesOn_refused :
    ∃ s, (screen accepting).ReachableWhere (Regular accepting) s ∧ s.Quiet ∧
    s.greeter.phase = .idle ∧
      (s.greeter.phase = .authenticated ∨ s.greeter.phase = .startingSession ∨
        s.greeter.Responsive) := by
  have hattempt : (screen accepting).ReachableWhere (Regular accepting) afterAttempt :=
    .step (e := ScreenEvent.press "user" "secret") (.init rfl) trivial rfl
  have hrefused := hattempt.step (e := ScreenEvent.error "refused" true) trivial rfl
  exact ⟨_, hrefused, ⟨by decide, rfl⟩, rfl, login_goesOn accepting hrefused ⟨by decide, rfl⟩⟩

/-- Once the session has started, the button is disabled for good. -/
theorem not_responsive_started : ∃ s, (screen accepting).Reachable s ∧ s.Quiet ∧
    s.greeter.phase ≠ .authenticated ∧ ¬ s.greeter.Responsive := by
  have hrun : ((screen accepting).run ⟨.new, 0⟩ [.press "user" "secret", .connected, .frame [],
    .fadedOut, .frame []]).any
      (fun s => (s.greeter.socket ≠ .connecting ∧ s.unanswered = 0) ∧
        s.greeter.phase ≠ .authenticated ∧
        s.greeter.loginEnabled = false) = true := by decide
  obtain ⟨s, hs, htest⟩ := Transition.System.exists_reachable_of_run rfl hrun
  obtain ⟨hquiet, hphase, hdisabled⟩ := of_decide_eq_true htest
  refine ⟨s, hs, hquiet, hphase, fun hresponsive => ?_⟩
  nomatch hdisabled.symm.trans hresponsive.1

end NiraOS.Greeter
