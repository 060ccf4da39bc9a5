import NiraOS.Greeter.Dialogue

/-!
# What becomes of the password

`startAuth` keeps the password until a prompt asks for it.  Every way back to `Idle` and into
`Authenticated` drops it and the wait for an answer, but for two: an invalid length leaves the
password, and a second prompt sets the wait whatever the phase is.

Where the password goes is told by comparing runs that differ in it only: what the object did is the
same, up to one write in answer to a prompt on the connection that was opened with it.
-/

namespace NiraOS.Greeter

/-! ## Forgetting -/

/-- Outside a dialogue, no password is kept and no answer awaited. -/
def Core.Forgetful (c : Core) : Prop :=
  ¬ c.phase.Open → c.pendingPassword = "" ∧ c.awaitingResponse = false

section Forgetting

variable (parse : List UInt8 → Option JsonObject)

/-- An invalid length comes when no password is kept, and a prompt after the first one comes during
the dialogue. -/
def Guarded (g : GreeterIPC) : Occurrence → Prop
  | .invalidLength => g.pendingPassword = ""
  | .frame payload => ∀ message, parse payload = some message → CredentialPrompt message →
      g.credentialSubmitted = true → g.phase.Open
  | _ => True

variable {parse} {c : Core} {g g' : GreeterIPC} {e : Occurrence}

theorem Core.Forgetful.of_open (h : c.phase.Open) : c.Forgetful := fun hclosed => absurd h hclosed

theorem Core.Forgetful.submitted (hc : c.Forgetful) : c.submitted.Forgetful := by
  unfold Core.submitted
  split
  · exact .of_open (.inr rfl)
  · exact hc

/-- A failure forgets, if the password is gone. -/
theorem Core.forgetful_failed (h : c.pendingPassword = "") : c.failed.Forgetful := fun _ => ⟨h, rfl⟩

theorem Core.Forgetful.prompted (hc : c.Forgetful)
    (hopen : c.credentialSubmitted = true → c.phase.Open) :
    c.prompted.Forgetful := by
  unfold Core.prompted
  split
  · refine Core.Forgetful.submitted ?_
    exact fun hclosed => ⟨rfl, (hc hclosed).2⟩
  · next hsubmitted => exact .of_open (hopen (eq_true_of_ne_false hsubmitted))

theorem Core.Forgetful.succeeded (hc : c.Forgetful) : c.succeeded.Forgetful := by
  unfold Core.succeeded
  split
  · exact hc
  · exact fun _ => ⟨rfl, rfl⟩

theorem forgetful_handlePayload (hg : g.core.Forgetful) {payload : List UInt8}
    (hguarded : Guarded parse g (.frame payload)) :
    (g.handlePayload parse payload).core.Forgetful := by
  unfold GreeterIPC.handlePayload
  split
  · exact hg
  · next message hmessage =>
      rw [GreeterIPC.core_handleMessage]
      split_ifs with hprompt
      · exact hg.prompted (hguarded message hmessage hprompt)
      · exact hg.succeeded
      · exact Core.forgetful_failed rfl
      · exact hg

theorem forgetful_onError (hg : g.core.Forgetful) (errorString : String) :
    (g.onError errorString).core.Forgetful := by
  rw [GreeterIPC.core_onError]
  split
  · exact hg
  · exact Core.forgetful_failed rfl

/-- **Step.** -/
theorem forgetful_step (hg : g.core.Forgetful) (hguarded : Guarded parse g e)
    (h : occur parse g e = some g') :
    g'.core.Forgetful := by
  cases e with
  | startAuth username password =>
      obtain rfl := Option.some.inj h
      rw [GreeterIPC.core_startAuth]
      split
      · exact hg
      · exact .of_open (.inl rfl)
  | submitPassword password =>
      obtain rfl := Option.some.inj h
      rw [GreeterIPC.core_submitPassword]
      exact hg.submitted
  | startSession =>
      obtain rfl := Option.some.inj h
      rw [GreeterIPC.core_startSession]
      split
      · next hphase =>
          have hclosed : ¬ g.core.phase.Open := by
            change ¬ g.phase.Open
            rw [hphase]
            decide
          exact fun _ => hg hclosed
      · exact hg
  | connected =>
      simp only [occur] at h
      split_ifs at h
      obtain rfl := Option.some.inj h
      rw [GreeterIPC.core_sendCreateSession]
      exact hg
  | frame payload =>
      simp only [occur] at h
      split_ifs at h
      obtain rfl := Option.some.inj h
      exact forgetful_handlePayload hg hguarded
  | invalidLength =>
      simp only [occur] at h
      split_ifs at h
      obtain rfl := Option.some.inj h
      exact fun _ => ⟨hguarded, rfl⟩
  | error errorString closes =>
      have herror := forgetful_onError hg errorString
      simp only [occur] at h
      split at h
      · nomatch h
      · obtain rfl := Option.some.inj h
        exact herror
      · obtain rfl := Option.some.inj h
        exact herror
  | disconnected =>
      simp only [occur] at h
      split_ifs at h
      obtain rfl := Option.some.inj h
      exact hg

end Forgetting

/-! ## Where the password goes -/

section Secrecy

/-- The object apart from the password that it keeps, and from what it did so far. -/
def GreeterIPC.keeping (g : GreeterIPC) (password : String) (log : List Record) : GreeterIPC :=
  { g with pendingPassword := password, log := log }

def GreeterIPC.withLog (g : GreeterIPC) (log : List Record) : GreeterIPC := { g with log := log }

/-- What a handler makes of the password, and how the log grows. -/
inductive Use : (String → List Record → GreeterIPC) → Prop
  | blind (g : GreeterIPC) {records : List Record} (hrecords : ∀ r ∈ records, ¬ r.IsAttempt) :
      Use fun password log => g.keeping password (log ++ records)
  | forgets (g : GreeterIPC) (records : List Record) : Use fun _ log => g.withLog (log ++ records)
  | writes (g : GreeterIPC) {records : List Record} {message : JsonObject} {phase : Phase}
      (hrecords : ∀ r ∈ records, ¬ r.IsAttempt) (hprompt : CredentialPrompt message) :
      Use fun password log => g.withLog
        (log ++ records ++ [.wrote (postAuthMessageResponse password), .handled message phase])

/-- A handler that only grows the log. -/
def Blind (g : GreeterIPC) (handler : GreeterIPC → GreeterIPC) : Prop :=
  ∃ (g' : GreeterIPC) (records : List Record), (∀ r ∈ records, ¬ r.IsAttempt) ∧
    ∀ password log, handler (g.keeping password log) = g'.keeping password (log ++ records)

section Handlers

variable (g : GreeterIPC)

theorem Blind.id : Blind g fun g => g := by
  refine ⟨g, [], nofun, fun password log => ?_⟩
  rw [List.append_nil]

theorem Blind.use {g : GreeterIPC} {handler : GreeterIPC → GreeterIPC} (h : Blind g handler) :
    Use fun password log => handler (g.keeping password log) := by
  obtain ⟨g', records, hrecords, heq⟩ := h
  rw [funext fun password => funext fun log => heq password log]
  exact .blind g' hrecords

theorem blind_sendJson (object : JsonObject) : Blind g fun g => g.sendJson object := by
  by_cases hsocket : g.socket = .connected
  · exact ⟨g, [.wrote object], by simp [Record.IsAttempt], fun password log => if_pos hsocket⟩
  · refine ⟨g, [], by simp, fun password log => ?_⟩
    rw [List.append_nil]
    exact if_neg hsocket

/-- What was told first, and then a message that is sent. -/
theorem Blind.sendJson {g : GreeterIPC} {handler : GreeterIPC → GreeterIPC} (g' : GreeterIPC)
    (records : List Record)
    (hrecords : ∀ r ∈ records, ¬ r.IsAttempt) (object : JsonObject)
    (h : ∀ password log, handler (g.keeping password log) =
      (g'.keeping password (log ++ records)).sendJson object) :
    Blind g handler := by
  obtain ⟨g'', sent, hsent, heq⟩ := blind_sendJson g' object
  refine ⟨g'', records ++ sent, fun r hr => ?_, fun password log => ?_⟩
  · rcases List.mem_append.mp hr with hr | hr
    · exact hrecords r hr
    · exact hsent r hr
  · rw [h, ← List.append_assoc]
    exact heq _ _

theorem Blind.record {g : GreeterIPC} {handler : GreeterIPC → GreeterIPC} (h : Blind g handler)
    (more : List Record)
    (hmore : ∀ r ∈ more, ¬ r.IsAttempt) : Blind g fun g => (handler g).record more := by
  obtain ⟨g', records, hrecords, heq⟩ := h
  refine ⟨g', records ++ more, fun r hr => ?_, fun password log => ?_⟩
  · rcases List.mem_append.mp hr with hr | hr
    · exact hrecords r hr
    · exact hmore r hr
  · rw [← List.append_assoc]
    exact congrArg (fun g : GreeterIPC => g.record more) (heq password log)

theorem blind_submitPassword (text : String) : Blind g fun g => g.submitPassword text := by
  by_cases hclosed : g.phase ≠ .creatingSession ∧ g.phase ≠ .authenticating
  · refine ⟨g, [], nofun, fun password log => ?_⟩
    rw [List.append_nil]
    exact if_pos hclosed
  · refine Blind.sendJson { g with
      phase := .authenticating, credentialSubmitted := true, awaitingResponse := false }
      [] nofun (postAuthMessageResponse text) fun password log => ?_
    rw [List.append_nil]
    exact if_neg hclosed

theorem blind_startSession : Blind g fun g => g.startSession := by
  by_cases hphase : g.phase = .authenticated
  · refine Blind.sendJson { g with
      phase := .startingSession, statusMessage := "Starting session..." }
      [.emitted .statusChanged] (by simp [Record.IsAttempt]) startSessionRequest
        fun password log => ?_
    exact if_neg (not_not.mpr hphase)
  · refine ⟨g, [], by simp, fun password log => ?_⟩
    rw [List.append_nil]
    exact if_pos hphase

theorem blind_sendCreateSession : Blind g fun g => g.sendCreateSession := by
  by_cases hphase : g.phase = .creatingSession
  · obtain ⟨g', sent, hsent, heq⟩ := blind_sendJson g (createSession g.currentUser)
    have hstatus : Blind g fun g =>
        { g.sendJson (createSession g.currentUser) with statusMessage := "Authenticating..." } :=
      ⟨{ g' with statusMessage := "Authenticating..." }, sent, hsent, fun password log =>
        congrArg (fun g : GreeterIPC => { g with statusMessage := "Authenticating..." })
          (heq password log)⟩
    obtain ⟨g'', records, hrecords, heq⟩ :=
      hstatus.record [.emitted .statusChanged] (by simp [Record.IsAttempt])
    exact ⟨g'', records, hrecords,
      fun password log => (if_neg (not_not.mpr hphase)).trans (heq password log)⟩
  · refine ⟨g, [], by simp, fun password log => ?_⟩
    rw [List.append_nil]
    exact if_pos hphase

/-! ### Messages -/

variable (message : JsonObject)

/-- A message whose handler only grows the log. -/
theorem use_of_blind {g : GreeterIPC} {message : JsonObject}
    (h : Blind g fun g => g.dispatch message) :
    Use fun password log => (g.keeping password log).handleMessage message := by
  obtain ⟨g', records, hrecords, heq⟩ := h
  have hblind : Blind g fun g => g.handleMessage message := by
    refine ⟨g', records ++ [.handled message g'.phase], fun r hr => ?_, fun password log => ?_⟩
    · rcases List.mem_append.mp hr with hr | hr
      · exact hrecords r hr
      · rw [List.mem_singleton.mp hr]
        exact id
    · rw [← List.append_assoc]
      exact congrArg (fun g : GreeterIPC => g.record [.handled message g.phase]) (heq password log)
  exact hblind.use

/-- A message whose handler drops the password. -/
theorem use_of_forgets {g : GreeterIPC} {message : JsonObject} (g' : GreeterIPC)
    (records : List Record)
    (h : ∀ password log, (g.keeping password log).dispatch message = g'.withLog (log ++ records)) :
    Use fun password log => (g.keeping password log).handleMessage message := by
  have heq (password : String) (log : List Record) :
      (g.keeping password log).handleMessage message =
        g'.withLog (log ++ (records ++ [.handled message g'.phase])) := by
    rw [← List.append_assoc]
    exact congrArg (fun g : GreeterIPC => g.record [.handled message g.phase]) (h password log)
  rw [funext fun password => funext fun log => heq password log]
  exact .forgets g' _

/-- A prompt that the password answers. -/
theorem use_of_writes {g : GreeterIPC} {message : JsonObject} {records : List Record}
    (g' : GreeterIPC)
    (hrecords : ∀ r ∈ records, ¬ r.IsAttempt) (hprompt : CredentialPrompt message)
    (h : ∀ password log, (g.keeping password log).dispatch message =
      g'.withLog (log ++ records ++ [.wrote (postAuthMessageResponse password)])) :
    Use fun password log => (g.keeping password log).handleMessage message := by
  have heq (password : String)
    (log : List Record) : (g.keeping password log).handleMessage message =
      g'.withLog (log ++ records ++
        [.wrote (postAuthMessageResponse password), .handled message g'.phase]) := by
    rw [List.append_cons (log ++ records)]
    exact congrArg (fun g : GreeterIPC => g.record [.handled message g.phase]) (h password log)
  rw [funext fun password => funext fun log => heq password log]
  exact .writes g' hrecords hprompt

/-- The status that a prompt sets. -/
def promptStatus (message : JsonObject) : String :=
  if field message "auth_message" = "" then "Password:" else field message "auth_message"

theorem use_handlePrompt (hsocket : g.socket = .connected)
    (htype : field message "type" = "auth_message") :
    Use fun password log => (g.keeping password log).handleMessage message := by
  have hdispatch (password : String) (log : List Record) :
      (g.keeping password log).dispatch message = (g.keeping password log).handlePrompt message :=
        if_pos htype
  have hemitted : ∀ r ∈ [Record.emitted .statusChanged], ¬ r.IsAttempt := by simp [Record.IsAttempt]
  by_cases hcredential : CredentialPrompt message
  · by_cases hfirst : g.credentialSubmitted = false
    · have hprompt (password : String)
        (log : List Record) : (g.keeping password log).dispatch message =
          ({ g with statusMessage := promptStatus message, pendingPassword := "" }.withLog
            (log ++ [Record.emitted .statusChanged])).submitPassword password := by
        rw [hdispatch, GreeterIPC.handlePrompt_eq _ _ htype, if_pos hcredential]
        exact if_pos hfirst
      by_cases hclosed : g.phase ≠ .creatingSession ∧ g.phase ≠ .authenticating
      · -- nobody waits for the answer
        exact use_of_forgets _ _ fun password log => (hprompt password log).trans (if_pos hclosed)
      · refine use_of_writes
          { g with
            statusMessage := promptStatus message
            pendingPassword := ""
            phase := .authenticating
            credentialSubmitted := true
            awaitingResponse := false }
          hemitted hcredential fun password log => (hprompt password log).trans ?_
        exact (if_neg hclosed).trans (if_pos hsocket)
    · refine use_of_blind ⟨{ g with
        statusMessage := promptStatus message, awaitingResponse := true },
        [.emitted .statusChanged, .emitted .statusChanged], by simp [Record.IsAttempt],
        fun password log => ?_⟩
      refine (hdispatch password log).trans ?_
      rw [GreeterIPC.handlePrompt_eq _ _ htype, if_pos hcredential, List.append_cons]
      exact if_neg hfirst
  · by_cases hnotice : Notice message
    · refine use_of_blind (Blind.sendJson { g with
        statusMessage := promptStatus message } _ hemitted acknowledge ?_)
      intro password log
      rw [hdispatch, GreeterIPC.handlePrompt_eq _ _ htype, if_neg hcredential, if_pos hnotice]
      rfl
    · refine use_of_blind ⟨{ g with statusMessage := promptStatus message }, _, hemitted,
        fun password log => ?_⟩
      refine (hdispatch password log).trans ?_
      rw [GreeterIPC.handlePrompt_eq _ _ htype, if_neg hcredential, if_neg hnotice]
      rfl

/-- **A message** and the password. -/
theorem use_handleMessage (hsocket : g.socket = .connected) :
    Use fun password log => (g.keeping password log).handleMessage message := by
  by_cases hprompt : field message "type" = "auth_message"
  · exact use_handlePrompt g message hsocket hprompt
  by_cases hsuccess : field message "type" = "success"
  · have hdispatch (password : String) (log : List Record) :
        (g.keeping password log).dispatch message = (g.keeping password log).handleSuccess :=
      (if_neg hprompt).trans (if_pos hsuccess)
    by_cases hstarting : g.phase = .startingSession
    · refine use_of_blind ⟨{ g with statusMessage := "Session started" }, [.emitted .statusChanged],
        by simp [Record.IsAttempt], fun password log => ?_⟩
      exact (hdispatch password log).trans (if_pos hstarting)
    · refine use_of_forgets
        { g with
          phase := .authenticated
          authenticated := true
          awaitingResponse := false
          pendingPassword := ""
          statusMessage := "Authentication successful" }
        [.emitted .statusChanged, .emitted .authSucceeded] fun password log => ?_
      exact (hdispatch password log).trans (if_neg hstarting)
  by_cases herror : field message "type" = "error"
  · have hdispatch (password : String) (log : List Record) :
        (g.keeping password log).dispatch message = (g.keeping password log).handleError message :=
      (if_neg hprompt).trans ((if_neg hsuccess).trans (if_pos herror))
    exact use_of_forgets (g.handleError message) [.emitted .statusChanged,
      .emitted (.authFailed _)] hdispatch
  · refine use_of_blind ⟨g, [], by simp, fun password log => ?_⟩
    rw [List.append_nil]
    exact (if_neg hprompt).trans ((if_neg hsuccess).trans (if_neg herror))

theorem use_onError (errorString : String) (socket : SocketState) :
    Use fun password log => { (g.keeping password log).onError errorString with socket } := by
  by_cases hstarting : g.phase = .startingSession
  · have hblind : Blind g fun g => { g.onError errorString with socket } := by
      refine ⟨{ g with socket }, [], nofun, fun password log => ?_⟩
      rw [List.append_nil]
      exact congrArg (fun g : GreeterIPC => { g with socket }) (if_pos hstarting)
    exact hblind.use
  · have heq (password : String)
      (log : List Record) : { (g.keeping password log).onError errorString with socket } =
        { g.onError errorString with socket }.withLog (log ++ [Record.emitted .statusChanged,
          Record.emitted (.authFailed ("Connection error: " ++ errorString))]) := by
      have hleft : (g.keeping password log).onError errorString = _ := if_neg hstarting
      have hright : g.onError errorString = _ := if_neg hstarting
      rw [hleft, hright]
      rfl
    rw [funext fun password => funext fun log => heq password log]
    exact .forgets _ _

/-- **An occurrence** and the password: whether it can occur does not depend on it. -/
theorem use_occur (parse : List UInt8 → Option JsonObject) (e : Occurrence) :
    (∀ password log, occur parse (g.keeping password log) e = none) ∨
      ∃ after : String → List Record → GreeterIPC, Use after ∧
        ∀ password log, occur parse (g.keeping password log) e = some (after password log) := by
  cases e with
  | startAuth username text =>
      refine .inr ⟨fun password log => (g.keeping password log).startAuth username text, ?_,
        fun _ _ => rfl⟩
      by_cases hblank : Text.trim username = ""
      · have hblind : Blind g fun g => g.startAuth username text :=
          ⟨{ g with statusMessage := "Username cannot be empty." },
            [.emitted .statusChanged, .emitted (.authFailed "Username cannot be empty.")],
            by simp [Record.IsAttempt], fun password log => if_pos hblank⟩
        exact hblind.use
      · have heq (password : String)
          (log : List Record) : (g.keeping password log).startAuth username text =
            (g.startAuth username text).withLog
              (log ++ [.emitted .statusChanged, .attempt (Text.trim username)]) := by
          unfold GreeterIPC.startAuth
          dsimp only
          rw [if_neg hblank, if_neg hblank]
          rfl
        rw [funext fun password => funext fun log => heq password log]
        exact .forgets _ _
  | submitPassword text => exact .inr ⟨_, (blind_submitPassword g text).use, fun _ _ => rfl⟩
  | startSession => exact .inr ⟨_, (blind_startSession g).use, fun _ _ => rfl⟩
  | connected =>
      by_cases hsocket : g.socket = .connecting
      · have hconnected := blind_sendCreateSession { g with socket := .connected }
        exact .inr ⟨_, hconnected.use, fun _ _ => if_pos hsocket⟩
      · exact .inl fun _ _ => if_neg hsocket
  | frame payload =>
      by_cases hsocket : g.socket = .connected
      · refine .inr ⟨fun password log => (g.keeping password log).handlePayload parse payload, ?_,
          fun _ _ => if_pos hsocket⟩
        unfold GreeterIPC.handlePayload
        cases parse payload with
        | none => exact (Blind.id g).use
        | some message => exact use_handleMessage g message hsocket
      · exact .inl fun _ _ => if_neg hsocket
  | invalidLength =>
      by_cases hsocket : g.socket = .connected
      · refine .inr ⟨fun password log => GreeterIPC.finish (g.keeping password log, none), ?_,
          fun _ _ => if_pos hsocket⟩
        have hblind : Blind g fun g => GreeterIPC.finish (g, none) :=
          ⟨GreeterIPC.finish (g, none), [.emitted .statusChanged,
            .emitted (.authFailed "Invalid response from the login service.")],
            by simp [Record.IsAttempt], fun _ _ => rfl⟩
        exact hblind.use
      · exact .inl fun _ _ => if_neg hsocket
  | error errorString closes =>
      cases hsocket : g.socket with
      | unconnected =>
          refine .inl fun password log => ?_
          simp only [occur, GreeterIPC.keeping, hsocket]
      | connecting =>
          refine .inr ⟨_, use_onError g errorString .unconnected, fun password log => ?_⟩
          simp only [occur, GreeterIPC.keeping, hsocket]
      | connected =>
          refine .inr ⟨_, use_onError g errorString (if closes then .unconnected else .connected),
            fun password log => ?_⟩
          simp only [occur, GreeterIPC.keeping, hsocket]
  | disconnected =>
      by_cases hsocket : g.socket = .connected
      · have hblind : Blind g fun g => { g with socket := .unconnected } := by
          refine ⟨{ g with socket := .unconnected }, [], by simp, fun password log => ?_⟩
          rw [List.append_nil]
          rfl
        exact .inr ⟨_, hblind.use, fun _ _ => if_pos hsocket⟩
      · exact .inl fun _ _ => if_neg hsocket

end Handlers

/-! ### Runs -/

/-- What the passwords make of a run, where `opened` is the log when the connection was opened: the
password is still kept, or it is gone, or it was written once. -/
inductive Tells (opened : List Record) : (String → GreeterIPC) → Prop
  | kept (g : GreeterIPC) {since : List Record} (hsince : ∀ r ∈ since, ¬ r.IsAttempt) :
      Tells opened fun password => g.keeping password (opened ++ since)
  | gone (g : GreeterIPC) : Tells opened fun _ => g
  | written (g : GreeterIPC) {since after : List Record} {message : JsonObject} {phase : Phase}
      (hsince : ∀ r ∈ since, ¬ r.IsAttempt) (hprompt : CredentialPrompt message) :
      Tells opened fun password => g.withLog
        (opened ++ since ++ .wrote (postAuthMessageResponse password) ::
          .handled message phase :: after)

/-- What the object did does not depend on the password, or only in one write: the answer to a
prompt on the connection. -/
def WrittenOnce (opened : List Record) (log : String → List Record) : Prop :=
  (∃ log', ∀ password, log password = log') ∨
    ∃ since message phase after, (∀ r ∈ since, ¬ r.IsAttempt) ∧ CredentialPrompt message ∧
      ∀ password, log password =
        opened ++ since ++ .wrote (postAuthMessageResponse password) ::
          .handled message phase :: after

section Runs

variable {opened : List Record} {final : String → GreeterIPC}

theorem Tells.writtenOnce (h : Tells opened final) :
    WrittenOnce opened fun password => (final password).log := by
  cases h with
  | kept g hsince => exact .inl ⟨_, fun _ => rfl⟩
  | gone g => exact .inl ⟨_, fun _ => rfl⟩
  | written g hsince hprompt => exact .inr ⟨_, _, _, _, hsince, hprompt, fun _ => rfl⟩

/-- While the password is kept. -/
theorem Use.tells {after : String → List Record → GreeterIPC} (h : Use after) {since : List Record}
    (hsince : ∀ r ∈ since, ¬ r.IsAttempt) :
    Tells opened fun password => after password (opened ++ since) := by
  cases h with
  | blind g hrecords =>
      simp only [List.append_assoc]
      exact .kept g fun r hr => (List.mem_append.mp hr).elim (hsince r) (hrecords r)
  | forgets g records => exact .gone _
  | @writes g records message phase hrecords hprompt =>
      have hall : ∀ r ∈ since ++ records, ¬ r.IsAttempt :=
        fun r hr => (List.mem_append.mp hr).elim (hsince r) (hrecords r)
      have hwritten := @Tells.written opened g (since ++ records) [] message phase hall hprompt
      rwa [← List.append_assoc] at hwritten

/-- After the password was written. -/
theorem Use.tells_written {after : String → List Record → GreeterIPC} (h : Use after)
    {since later : List Record}
    {message : JsonObject} {phase : Phase} (hsince : ∀ r ∈ since, ¬ r.IsAttempt)
    (hprompt : CredentialPrompt message)
    (kept : String) : Tells opened fun password => after kept
      (opened ++ since ++ .wrote (postAuthMessageResponse password) :: .handled message phase ::
        later) := by
  -- what comes later is added behind
  have hlater (g : GreeterIPC) (more : List Record) : Tells opened fun password =>
    g.withLog (opened ++ since ++
      .wrote (postAuthMessageResponse password) :: .handled message phase :: later ++ more) := by
    simp only [List.append_assoc, List.cons_append]
    simp only [← List.append_assoc opened since]
    exact .written g hsince hprompt
  cases h with
  | blind g hrecords => exact hlater { g with pendingPassword := kept } _
  | forgets g records => exact hlater g records
  | @writes g records message' phase' hrecords hprompt' =>
      have hmore :=
        hlater g (records ++ [.wrote (postAuthMessageResponse kept), .handled message' phase'])
      simp only [← List.append_assoc] at hmore ⊢
      exact hmore

/-- **Step.** -/
theorem tells_occur (parse : List UInt8 → Option JsonObject) (h : Tells opened final)
    (e : Occurrence) :
    (∀ password, occur parse (final password) e = none) ∨
      ∃ final', Tells opened final' ∧
        ∀ password, occur parse (final password) e = some (final' password) := by
  cases h with
  | @kept g since hsince =>
      rcases use_occur g parse e with hnone | ⟨after, huse, hafter⟩
      · exact .inl fun password => hnone password _
      · exact .inr ⟨_, huse.tells hsince, fun password => hafter password _⟩
  | gone g =>
      cases hoccur : occur parse g e with
      | none => exact .inl fun _ => hoccur
      | some g' => exact .inr ⟨_, .gone g', fun _ => hoccur⟩
  | @written g since later message phase hsince hprompt =>
      -- what is kept now is the same in all runs
      rcases use_occur g parse e with hnone | ⟨after, huse, hafter⟩
      · exact .inl fun password => hnone g.pendingPassword _
      · exact .inr ⟨_, huse.tells_written hsince hprompt g.pendingPassword, fun password =>
          hafter g.pendingPassword _⟩

/-- **Run.** -/
theorem tells_run (parse : List UInt8 → Option JsonObject) (h : Tells opened final)
    (es : List Occurrence) :
    (∀ password, (dialogue parse).run (final password) es = none) ∨
      ∃ final', Tells opened final' ∧
        ∀ password, (dialogue parse).run (final password) es = some (final' password) := by
  induction es generalizing final with
  | nil => exact .inr ⟨final, h, fun _ => rfl⟩
  | cons e es ih =>
      rcases tells_occur parse h e with hnone | ⟨final', htells, hfinal'⟩
      · refine .inl fun password => ?_
        rw [Transition.System.run, show (dialogue parse).step _ _ = _ from hnone password]
        rfl
      · have hrun (password : String) : (dialogue parse).run (final password) (e :: es) =
            (dialogue parse).run (final' password) es := by
          rw [Transition.System.run, show (dialogue parse).step _ _ = _ from hfinal' password]
          rfl
        simp only [hrun]
        exact ih htells

/-- From `startAuth` on. -/
theorem tells_startAuth (g : GreeterIPC) (username : String) :
    Tells (g.startAuth username "").log fun password => g.startAuth username password := by
  by_cases hblank : Text.trim username = ""
  · have heq (password : String) : g.startAuth username password = g.startAuth username "" :=
      Eq.trans (if_pos hblank) (if_pos hblank).symm
    generalize g.startAuth username "" = g' at heq ⊢
    rw [funext heq]
    exact .gone g'
  · have heq (password : String) : g.startAuth username password =
        (g.startAuth username "").keeping password ((g.startAuth username "").log ++ []) := by
      have hleft : g.startAuth username password = _ := if_neg hblank
      have hright : g.startAuth username "" = _ := if_neg hblank
      rw [hleft, hright, List.append_nil]
      rfl
    generalize g.startAuth username "" = g' at heq ⊢
    rw [funext heq]
    exact .kept g' (List.forall_mem_nil _)

end Runs

end Secrecy

/-- **The greeter forgets secrets**, where its steps meet the condition; and whatever happens, the
password goes nowhere but into one answer on the connection that was opened with it. -/
theorem secrets (parse : List UInt8 → Option JsonObject) :
    (∀ g, (dialogue parse).ReachableWhere (Guarded parse) g →
      g.phase = .idle ∨ g.phase = .authenticated ∨ g.phase = .startingSession →
        g.pendingPassword = "" ∧ g.awaitingResponse = false) ∧
    ∀ g, (dialogue parse).Reachable g → ∀ (username : String) (es : List Occurrence),
      (∀ password, (dialogue parse).run (g.startAuth username password) es = none) ∨
      ∃ final : String → GreeterIPC,
        (∀ password, (dialogue parse).run (g.startAuth username password) es =
        some (final password)) ∧
          WrittenOnce (g.startAuth username "").log fun password => (final password).log := by
  constructor
  · intro g hreach hphase
    have hforgetful : g.core.Forgetful := by
      refine hreach.invariant (I := fun g => g.core.Forgetful) ?_ fun _ _ _ _ hg hok hstep =>
        forgetful_step hg hok hstep
      rintro _ rfl
      exact fun _ => ⟨rfl, rfl⟩
    refine hforgetful ?_
    change ¬ g.phase.Open
    rcases hphase with h | h | h <;> rw [h] <;> decide
  · intro g _ username es
    rcases tells_run parse (tells_startAuth g username) es with hnone | ⟨final, htells, hrun⟩
    · exact .inl hnone
    · exact .inr ⟨final, hrun, htells.writtenOnce⟩

/-- The service cannot be reached. -/
theorem secrets_refused : ∃ g, (dialogue fun _ => none).ReachableWhere (Guarded fun _ => none) g ∧
    g.phase = .idle ∧ g.pendingPassword = "" ∧ g.awaitingResponse = false := by
  have hattempt : (dialogue fun _ => none).ReachableWhere (Guarded fun _ => none)
      (GreeterIPC.new.startAuth "user" "secret") :=
    .step (.init rfl) (e := .startAuth "user" "secret") trivial rfl
  have hrefused := hattempt.step (e := Occurrence.error "refused" true) trivial rfl
  exact ⟨_, hrefused, rfl, (secrets _).1 _ hrefused (.inl rfl)⟩

/-- An invalid length while the password is kept. -/
theorem not_forgetful_invalidLength : ∃ g, (dialogue fun _ => none).Reachable g ∧
    g.phase = .idle ∧ g.pendingPassword = "secret" := by
  have hrun : ((dialogue fun _ => none).run .new [.startAuth "user" "secret", .connected,
    .invalidLength]).any
      (fun g => g.phase = .idle ∧ g.pendingPassword = "secret") = true := by decide
  obtain ⟨g, hg, htest⟩ := Transition.System.exists_reachable_of_run rfl hrun
  exact ⟨g, hg, of_decide_eq_true htest⟩

end NiraOS.Greeter
