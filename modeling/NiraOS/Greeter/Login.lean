import NiraOS.Lib.Transition
import NiraOS.Greeter.Ipc

/-!
# Login safety

`GreeterIPC` driven by two independent parties, the login screen and the socket,
over unbounded runs with reconnects.  The socket is Qt's: `connected` follows a
`connectToServer` that has not failed, an error ends a connection attempt, and
bytes arrive on an established connection only.  The login screen calls
`submitPassword` only while `awaitingResponse` is true; its other calls come in
any order.

The claims about login are about the log, so the invariant is too: `greeted`
says that an established connection has been sent `create_session` for the
current user, and from it a success message yields `Evidence`.
-/

namespace NiraOS.Greeter

/-! ## The system -/

inductive Event
  | startAuth (username password : String)
  | submitPassword (password : String)
  | startSession
  | connected
  | readyRead (bytes : List UInt8)
  /-- An error of the socket; one that does not close it leaves it connected. -/
  | error (errorString : String) (closes : Bool)
  | disconnected

def step (parse : List UInt8 → Option JsonObject) (g : GreeterIPC) : Event → Option GreeterIPC
  | .startAuth username password => some (g.startAuth username password)
  | .submitPassword password =>
      if g.awaitingResponse = true then some (g.submitPassword password) else none
  | .startSession => some g.startSession
  | .connected =>
      if g.socket = .connecting
        then some { g with socket := .connected }.sendCreateSession else none
  | .readyRead bytes =>
      if g.socket = .connected then some (g.onReadyRead parse bytes) else none
  | .error errorString closes =>
      match g.socket with
      | .unconnected => none
      | .connecting => some { g.onError errorString with socket := .unconnected }
      | .connected =>
          some { g.onError errorString with
            socket := if closes then .unconnected else .connected }
  | .disconnected =>
      if g.socket = .connected then some { g with socket := .unconnected } else none

def system (parse : List UInt8 → Option JsonObject) : Transition.System GreeterIPC Event where
  init g := g = .new
  step := step parse

/-! ## Reading the log -/

def Record.IsAttempt : Record → Prop
  | .attempt _ => True
  | _ => False

/-- A `start_session` request was written. -/
def Record.IsStart : Record → Prop
  | .wrote object => field object "type" = "start_session"
  | _ => False

/-- A success or error message was handled. -/
def Record.IsVerdict : Record → Prop
  | .handled message _ => field message "type" = "success" ∨ field message "type" = "error"
  | _ => False

/-- A success message put the machine in `Authenticated`. -/
def Record.Enters : Record → Prop
  | .handled message phase => field message "type" = "success" ∧ phase = .authenticated
  | _ => False

instance : DecidablePred Record.IsAttempt
  | .attempt _ => inferInstanceAs (Decidable True)
  | .wrote _ | .handled _ _ | .emitted _ => inferInstanceAs (Decidable False)

instance : DecidablePred Record.IsStart
  | .wrote _ => inferInstanceAs (Decidable (_ = _))
  | .attempt _ | .handled _ _ | .emitted _ => inferInstanceAs (Decidable False)

/-- The records of the current connection: those after the last attempt. -/
def current (log : List Record) : List Record :=
  (log.reverse.takeWhile fun r => ¬ r.IsAttempt).reverse

/-- The last success or error of a connection is a success, received after
`create_session` for `user` was written on it. -/
def Evidence (user : String) (connection : List Record) : Prop :=
  ∃ before between success after, connection = before ++ .wrote (createSession user) ::
      between ++ success :: after ∧
    success.Enters ∧ ∀ r ∈ after, ¬ r.IsVerdict

/-- A success has put the machine in `Authenticated` and no `start_session` was
written since. -/
def Armed (log : List Record) : Prop :=
  ∃ before success after, log = before ++ success :: after ∧ success.Enters ∧
    ∀ r ∈ after, ¬ r.IsStart

/-- Every `start_session` was written after a success message of its own. -/
def StartsOk (log : List Record) : Prop :=
  ∀ before start after, log = before ++ start :: after → start.IsStart → Armed before

/-! ### How the log grows -/

theorem current_append {log records : List Record} (h : ∀ r ∈ records, ¬ r.IsAttempt) :
    current (log ++ records) = current log ++ records := by
  have hall : ∀ r ∈ records.reverse, (decide (¬ r.IsAttempt)) = true := by
    intro r hr
    simpa using h r (by simpa using hr)
  unfold current
  rw [List.reverse_append, List.takeWhile_append_of_pos hall, List.reverse_append,
    List.reverse_reverse]

theorem Evidence.append {user : String} {connection records : List Record}
    (h : Evidence user connection) (hrecords : ∀ r ∈ records, ¬ r.IsVerdict) :
    Evidence user (connection ++ records) := by
  obtain ⟨before, between, success, after, rfl, henters, hafter⟩ := h
  refine ⟨before, between, success, after ++ records, by simp, henters, ?_⟩
  intro r hr
  rcases List.mem_append.mp hr with hr | hr
  · exact hafter r hr
  · exact hrecords r hr

/-- A success handled on a connection that was greeted is evidence. -/
theorem Evidence.of_success {user : String} {connection : List Record} (records : List Record)
    {success : Record}
    (hgreeted : .wrote (createSession user) ∈ connection) (henters : success.Enters) :
    Evidence user (connection ++ (records ++ [success])) := by
  obtain ⟨before, between, rfl⟩ := List.append_of_mem hgreeted
  exact ⟨before, between ++ records, success, [], by simp, henters, by simp⟩

theorem Armed.append {log records : List Record} (h : Armed log)
    (hrecords : ∀ r ∈ records, ¬ r.IsStart) : Armed (log ++ records) := by
  obtain ⟨before, success, after, rfl, henters, hafter⟩ := h
  refine ⟨before, success, after ++ records, by simp, henters, ?_⟩
  intro r hr
  rcases List.mem_append.mp hr with hr | hr
  · exact hafter r hr
  · exact hrecords r hr

/-- A log grows by one record: a `start_session` needs an armed log. -/
theorem StartsOk.snoc {log : List Record} (h : StartsOk log) {r : Record}
    (hr : r.IsStart → Armed log) : StartsOk (log ++ [r]) := by
  intro before start after heq hstart
  rcases List.eq_nil_or_concat after with rfl | ⟨after, last, rfl⟩
  · obtain ⟨hlog, hlast⟩ := List.append_inj' heq rfl
    rw [← (List.cons.inj hlast).1] at hstart
    exact hlog ▸ hr hstart
  · rw [List.concat_eq_append, ← List.cons_append, ← List.append_assoc] at heq
    exact h before start after (List.append_inj' heq rfl).1 hstart

theorem StartsOk.append {log records : List Record} (h : StartsOk log)
    (hrecords : ∀ r ∈ records, ¬ r.IsStart) : StartsOk (log ++ records) := by
  induction records generalizing log with
  | nil => simpa using h
  | cons r records ih =>
      rw [List.append_cons]
      refine ih (h.snoc fun hr => absurd hr (hrecords r (List.mem_cons_self ..))) ?_
      exact fun r' hr' => hrecords r' (List.mem_cons_of_mem _ hr')

/-! ## The invariant -/

/-- Neither a connection attempt nor a `start_session` nor a verdict. -/
structure Record.Neutral (r : Record) : Prop where
  not_attempt : ¬ r.IsAttempt
  not_start : ¬ r.IsStart
  not_verdict : ¬ r.IsVerdict

theorem neutral_emitted (signal : Signal) : (Record.emitted signal).Neutral :=
  ⟨id, id, id⟩

theorem neutral_wrote {object : JsonObject} (h : field object "type" ≠ "start_session") :
    (Record.wrote object).Neutral :=
  ⟨id, h, id⟩

/-- `authenticated` mirrors the phase. -/
def FlagOk (g : GreeterIPC) : Prop :=
  g.authenticated = true ↔ g.phase = .authenticated ∨ g.phase = .startingSession

/-- The invariant of the login machine. -/
structure Safe (g : GreeterIPC) : Prop where
  flag : FlagOk g
  connecting : g.socket = .connecting → g.phase = .creatingSession ∧ g.awaitingResponse = false
  greeted : g.socket = .connected → .wrote (createSession g.currentUser) ∈ current g.log
  evidence : g.phase = .authenticated → Evidence g.currentUser (current g.log)
  armed : g.phase = .authenticated → Armed g.log
  starts : StartsOk g.log

theorem Safe.new : Safe .new where
  flag := by simp [FlagOk, GreeterIPC.new]
  connecting := by simp [GreeterIPC.new]
  greeted := by simp [GreeterIPC.new]
  evidence := by simp [GreeterIPC.new]
  armed := by simp [GreeterIPC.new]
  starts := by
    intro before start after h
    simp [GreeterIPC.new] at h

/-- A handler that stays on the connection, writes no `start_session` and does
not enter `Authenticated` keeps the invariant, if it keeps the flag right.  A
verdict may be handled unless the machine stays in `Authenticated`. -/
theorem Safe.extend {g g' : GreeterIPC} (hg : Safe g) (records : List Record)
    (hlog : g'.log = g.log ++ records)
    (hattempt : ∀ r ∈ records, ¬ r.IsAttempt) (hstart : ∀ r ∈ records, ¬ r.IsStart)
    (hverdict : g'.phase = .authenticated → ∀ r ∈ records, ¬ r.IsVerdict)
    (huser : g'.currentUser = g.currentUser)
    (hconnected : g'.socket = .connected → g.socket = .connected)
    (hconnecting : g'.socket = .connecting →
      g'.phase = .creatingSession ∧ g'.awaitingResponse = false)
    (hflag : FlagOk g') (hphase : g'.phase = .authenticated → g.phase = .authenticated) :
    Safe g' where
  flag := hflag
  connecting := hconnecting
  greeted h := by
    rw [hlog, current_append hattempt, huser]
    exact List.mem_append_left _ (hg.greeted (hconnected h))
  evidence h := by
    rw [hlog, current_append hattempt, huser]
    exact (hg.evidence (hphase h)).append (hverdict h)
  armed h := by
    rw [hlog]
    exact (hg.armed (hphase h)).append hstart
  starts := by
    rw [hlog]
    exact hg.starts.append hstart

/-- The common case of `extend`: phase, flag and connection are untouched. -/
theorem Safe.extend_neutral {g g' : GreeterIPC} (hg : Safe g) (records : List Record)
    (hlog : g'.log = g.log ++ records) (hneutral : ∀ r ∈ records, r.Neutral)
    (huser : g'.currentUser = g.currentUser) (hsocket : g'.socket = g.socket)
    (hphase : g'.phase = g.phase) (hflag : g'.authenticated = g.authenticated)
    (hawaiting : g'.socket = .connecting → g'.awaitingResponse = g.awaitingResponse) : Safe g' := by
  refine hg.extend _ hlog (fun r hr => (hneutral r hr).not_attempt)
    (fun r hr => (hneutral r hr).not_start) (fun _ r hr => (hneutral r hr).not_verdict) huser
    (hsocket ▸ id) ?_ ?_ (hphase ▸ id)
  · intro h
    rw [hphase, hawaiting h]
    exact hg.connecting (hsocket ▸ h)
  · unfold FlagOk
    rw [hphase, hflag]
    exact hg.flag

/-! ### The handlers -/

/-- `sendJson` writes the object or nothing. -/
theorem GreeterIPC.sendJson_eq_record (g : GreeterIPC) (object : JsonObject) :
    ∃ records, g.sendJson object = g.record records ∧ ∀ r ∈ records, r = .wrote object := by
  unfold GreeterIPC.sendJson
  split
  · exact ⟨[.wrote object], rfl, by simp⟩
  · exact ⟨[], by simp [GreeterIPC.record], by simp⟩

theorem Safe.startAuth {g : GreeterIPC} (hg : Safe g) (username password : String) :
    Safe (g.startAuth username password) := by
  simp only [GreeterIPC.startAuth]
  split
  · refine hg.extend_neutral _ rfl ?_ rfl rfl rfl rfl fun _ => rfl
    simp [neutral_emitted]
  · -- the attempt opens an empty connection
    exact {
      flag := by simp [FlagOk, GreeterIPC.record]
      connecting := by simp [GreeterIPC.record]
      greeted := by simp [GreeterIPC.record]
      evidence := by simp [GreeterIPC.record]
      armed := by simp [GreeterIPC.record]
      starts := hg.starts.append (by simp [Record.IsStart]) }

theorem Safe.submitPassword {g : GreeterIPC} (hg : Safe g) (h : g.socket ≠ .connecting)
    (password : String) : Safe (g.submitPassword password) := by
  unfold GreeterIPC.submitPassword
  split
  · exact hg
  next hphase =>
    have hunauthenticated : g.authenticated = false := by
      have hflag := hg.flag
      unfold FlagOk at hflag
      cases hp : g.phase <;> simp_all
    obtain ⟨records, heq, hrecords⟩ := GreeterIPC.sendJson_eq_record
      { g with phase := .authenticating, credentialSubmitted := true, awaitingResponse := false }
      (postAuthMessageResponse password)
    rw [heq]
    have hneutral : ∀ r ∈ records, r.Neutral := by
      intro r hr
      rw [hrecords r hr]
      exact neutral_wrote (by simp [field, postAuthMessageResponse, Json.toString])
    exact hg.extend _ rfl (fun r hr => (hneutral r hr).not_attempt)
      (fun r hr => (hneutral r hr).not_start) (fun _ r hr => (hneutral r hr).not_verdict) rfl id
      (fun h' => absurd h' h) (by simp [FlagOk, GreeterIPC.record, hunauthenticated])
      (by simp [GreeterIPC.record])

/-- The only handler that writes `start_session`: the log is armed. -/
theorem Safe.startSession {g : GreeterIPC} (hg : Safe g) : Safe g.startSession := by
  unfold GreeterIPC.startSession
  split
  · exact hg
  next hphase =>
    replace hphase : g.phase = .authenticated := by simpa using hphase
    -- leaving `Authenticated` keeps the flag
    have hleft : Safe ({ g with
        phase := .startingSession, statusMessage := "Starting session..." }.record
          [.emitted .statusChanged]) := by
      refine hg.extend _ rfl (by simp [Record.IsAttempt]) (by simp [Record.IsStart])
        (by simp [GreeterIPC.record]) rfl id ?_ ?_ (by simp [GreeterIPC.record])
      · intro h
        have hcreating := (hg.connecting h).1
        simp [hphase] at hcreating
      · have hauthenticated := hg.flag.mpr (.inl hphase)
        simp [FlagOk, GreeterIPC.record, hauthenticated]
    unfold GreeterIPC.sendJson
    split
    · exact {
        flag := hleft.flag
        connecting := hleft.connecting
        greeted := fun h => by
          change _ ∈ current (_ ++ _)
          rw [current_append (by simp [Record.IsAttempt])]
          exact List.mem_append_left _ (hleft.greeted h)
        evidence := by simp [GreeterIPC.record]
        armed := by simp [GreeterIPC.record]
        starts := by
          refine hleft.starts.snoc fun _ => ?_
          exact (hg.armed hphase).append (by simp [Record.IsStart]) }
    · exact hleft

theorem Safe.sendCreateSession {g : GreeterIPC} (hg : Safe g) (hsocket : g.socket = .connecting) :
    Safe { g with socket := .connected }.sendCreateSession := by
  have hcreating := (hg.connecting hsocket).1
  simp only [GreeterIPC.sendCreateSession, GreeterIPC.sendJson, GreeterIPC.record, hcreating,
    ne_eq, not_true_eq_false, if_false, if_true, List.append_assoc, List.singleton_append]
  exact {
    flag := by simpa [FlagOk, hcreating] using hg.flag
    connecting := by simp
    greeted := fun _ => by
      rw [current_append (by simp [Record.IsAttempt])]
      simp
    evidence := by simp
    armed := by simp
    starts := hg.starts.append (by simp [Record.IsStart, field, createSession, Json.toString]) }

/-- Failing puts the machine in `Idle`, whatever it was told. -/
theorem Safe.fail {g : GreeterIPC} (hg : Safe g) (h : g.socket ≠ .connecting) (reason : String) :
    Safe (g.fail reason) := by
  refine hg.extend _ rfl (by simp [Record.IsAttempt]) (by simp [Record.IsStart])
    (by simp [GreeterIPC.fail, GreeterIPC.record]) rfl id (fun h' => absurd h' h) ?_ ?_
  · simp [FlagOk, GreeterIPC.fail, GreeterIPC.record]
  · simp [GreeterIPC.fail, GreeterIPC.record]

/-- Dropping the connection and the password matters to nothing else. -/
theorem Safe.disconnect {g g' : GreeterIPC} (hg : Safe g) (hsocket : g'.socket = .unconnected)
    (hlog : g'.log = g.log) (huser : g'.currentUser = g.currentUser) (hphase : g'.phase = g.phase)
    (hflag : g'.authenticated = g.authenticated) : Safe g' := by
  refine hg.extend [] (by simpa using hlog) (by simp) (by simp) (by simp) huser
    (by simp [hsocket]) (by simp [hsocket]) ?_ (hphase ▸ id)
  unfold FlagOk
  rw [hphase, hflag]
  exact hg.flag

theorem Safe.onError {g : GreeterIPC} (hg : Safe g) (h : g.socket ≠ .connecting)
    (errorString : String) : Safe (g.onError errorString) := by
  unfold GreeterIPC.onError
  split
  · exact hg
  · have hcleared : Safe { g with pendingPassword := "" } :=
      hg.extend_neutral [] (by simp) (by simp) rfl rfl rfl rfl fun _ => rfl
    exact hcleared.fail h _

theorem GreeterIPC.onError_socket (g : GreeterIPC) (socket : SocketState) (errorString : String) :
    { g.onError errorString with socket } = { g with socket }.onError errorString := by
  unfold GreeterIPC.onError
  split <;> rfl

/-! ### Messages -/

theorem Safe.handlePrompt {g : GreeterIPC} (hg : Safe g) (hsocket : g.socket = .connected)
    (message : JsonObject) : Safe (g.handlePrompt message) := by
  simp only [GreeterIPC.handlePrompt]
  have hstatus (status : String) :
      Safe ({ g with statusMessage := status }.record [.emitted .statusChanged]) :=
    hg.extend_neutral _ rfl (by simp [neutral_emitted]) rfl rfl rfl rfl fun _ => rfl
  generalize (if field message "auth_message" = "" then _ else _) = status
  have hconnected : ({ g with statusMessage := status }.record
      [.emitted .statusChanged]).socket ≠ .connecting := by
    simp [GreeterIPC.record, hsocket]
  split_ifs
  · -- the stored credential is submitted, once
    have hcleared : Safe ({ g with statusMessage := status, pendingPassword := "" }.record
        [.emitted .statusChanged]) :=
      hg.extend_neutral _ rfl (by simp [neutral_emitted]) rfl rfl rfl rfl fun _ => rfl
    exact hcleared.submitPassword hconnected _
  · exact (hstatus status).extend_neutral _ rfl (by simp [neutral_emitted]) rfl rfl rfl rfl
      fun h => absurd h hconnected
  · obtain ⟨records, heq, hrecords⟩ := GreeterIPC.sendJson_eq_record
      ({ g with statusMessage := status }.record [.emitted .statusChanged]) acknowledge
    rw [heq]
    refine (hstatus status).extend_neutral _ rfl ?_ rfl rfl rfl rfl fun _ => rfl
    intro r hr
    rw [hrecords r hr]
    exact neutral_wrote (by simp [field, acknowledge, Json.toString])
  · exact hstatus status

/-- Handling a message is safe if dispatching it was and it is no verdict, or if
it leaves the machine outside `Authenticated`. -/
theorem Safe.handled {g : GreeterIPC} (hg : Safe g) (message : JsonObject) (phase : Phase)
    (h : g.phase ≠ .authenticated ∨
      field message "type" ≠ "success" ∧ field message "type" ≠ "error") :
    Safe (g.record [.handled message phase]) := by
  refine hg.extend _ rfl (by simp [Record.IsAttempt]) (by simp [Record.IsStart]) ?_ rfl id
    hg.connecting hg.flag id
  intro hphase r hr hverdict
  obtain rfl : r = .handled message phase := by simpa using hr
  rcases h with h | ⟨hsuccess, herror⟩
  · exact h hphase
  · exact hverdict.elim hsuccess herror

/-- A success on a greeted connection enters `Authenticated` with its evidence. -/
theorem Safe.success {g : GreeterIPC} (hg : Safe g) (hsocket : g.socket = .connected)
    {message : JsonObject} (hsuccess : field message "type" = "success") :
    Safe (g.handleSuccess.record [.handled message g.handleSuccess.phase]) := by
  by_cases hstarting : g.phase = .startingSession
  · have heq : g.handleSuccess = { g with statusMessage := "Session started" }.record
        [.emitted .statusChanged] := if_pos hstarting
    have hstatus : Safe g.handleSuccess := by
      rw [heq]
      exact hg.extend_neutral _ rfl (by simp [neutral_emitted]) rfl rfl rfl rfl fun _ => rfl
    exact hstatus.handled message _ (.inl (by simp [heq, GreeterIPC.record, hstarting]))
  · have henters : (Record.handled message .authenticated).Enters := ⟨hsuccess, rfl⟩
    simp only [GreeterIPC.handleSuccess, hstarting, if_false, GreeterIPC.record, List.append_assoc,
      List.cons_append, List.nil_append]
    exact {
      flag := by simp [FlagOk]
      connecting := by simp [hsocket]
      greeted := fun _ => by
        rw [current_append (by simp [Record.IsAttempt])]
        exact List.mem_append_left _ (hg.greeted hsocket)
      evidence := fun _ => by
        rw [current_append (by simp [Record.IsAttempt])]
        exact Evidence.of_success [_, _] (hg.greeted hsocket) henters
      armed := fun _ => ⟨g.log ++ [.emitted .statusChanged, .emitted .authSucceeded], _, [],
        by simp, henters, by simp⟩
      starts := hg.starts.append (by simp [Record.IsStart]) }

theorem Safe.handleMessage {g : GreeterIPC} (hg : Safe g) (hsocket : g.socket = .connected)
    (message : JsonObject) : Safe (g.handleMessage message) := by
  simp only [GreeterIPC.handleMessage, GreeterIPC.dispatch]
  split_ifs with hprompt hsuccess herror
  · exact (hg.handlePrompt hsocket message).handled message _ (.inr (by simp [hprompt]))
  · exact hg.success hsocket hsuccess
  · have hcleared : Safe { g with pendingPassword := "" } :=
      hg.extend_neutral [] (by simp) (by simp) rfl rfl rfl rfl fun _ => rfl
    exact (hcleared.fail (by simp [hsocket]) _).handled message _
      (.inl (by simp [GreeterIPC.fail, GreeterIPC.record]))
  · exact hg.handled message _ (.inr ⟨hsuccess, herror⟩)

/-- The connection and the bytes read from it are the same. -/
def SameStream (g g' : GreeterIPC) : Prop :=
  g'.socket = g.socket ∧ g'.readBuffer = g.readBuffer

theorem SameStream.sendJson (g : GreeterIPC) (object : JsonObject) :
    SameStream g (g.sendJson object) := by
  unfold GreeterIPC.sendJson
  split <;> exact ⟨rfl, rfl⟩

theorem SameStream.submitPassword (g : GreeterIPC) (password : String) :
    SameStream g (g.submitPassword password) := by
  unfold GreeterIPC.submitPassword
  split
  · exact ⟨rfl, rfl⟩
  · exact SameStream.sendJson _ _

theorem SameStream.handlePrompt (g : GreeterIPC) (message : JsonObject) :
    SameStream g (g.handlePrompt message) := by
  simp only [GreeterIPC.handlePrompt]
  generalize (if field message "auth_message" = "" then _ else _) = status
  split_ifs
  · exact SameStream.submitPassword _ _
  · exact ⟨rfl, rfl⟩
  · exact SameStream.sendJson _ _
  · exact ⟨rfl, rfl⟩

/-- No message touches the socket or the read buffer. -/
theorem SameStream.handleMessage (g : GreeterIPC) (message : JsonObject) :
    SameStream g (g.handleMessage message) := by
  simp only [GreeterIPC.handleMessage, GreeterIPC.dispatch]
  split_ifs
  · exact SameStream.handlePrompt _ _
  · unfold GreeterIPC.handleSuccess
    split <;> exact ⟨rfl, rfl⟩
  · exact ⟨rfl, rfl⟩
  · exact ⟨rfl, rfl⟩

/-- The reading loop keeps the invariant: a round ends the loop, closes the
connection, or handles one payload on the connection it came in. -/
theorem Safe.drain (parse : List UInt8 → Option JsonObject) {fuel : ℕ} {g : GreeterIPC}
    (hg : Safe g) (hsocket : g.socket = .connected) : Safe (g.drain parse fuel) := by
  induction fuel generalizing g with
  | zero => exact hg
  | succ fuel ih =>
      simp only [GreeterIPC.drain]
      split_ifs
      · exact hg
      · refine Safe.fail ?_ (by simp) _
        exact hg.disconnect rfl rfl rfl rfl rfl
      · exact hg
      · have hread : Safe { g with
            readBuffer := g.readBuffer.drop (4 + payloadLength g.readBuffer) } :=
          hg.extend_neutral [] (by simp) (by simp) rfl rfl rfl rfl fun _ => rfl
        split
        · exact ih hread hsocket
        · refine ih (hread.handleMessage hsocket _) ?_
          rw [(SameStream.handleMessage ..).1]
          exact hsocket

/-! ## Every run -/

theorem step_safe {parse : List UInt8 → Option JsonObject} {g g' : GreeterIPC} {event : Event}
    (hg : Safe g) (h : step parse g event = some g') : Safe g' := by
  cases event with
  | startAuth username password =>
      obtain rfl := Option.some.inj h
      exact hg.startAuth username password
  | submitPassword password =>
      simp only [step] at h
      split_ifs at h with hawaiting
      obtain rfl := Option.some.inj h
      refine hg.submitPassword (fun hconnecting => ?_) password
      have hfalse := (hg.connecting hconnecting).2
      simp [hawaiting] at hfalse
  | startSession =>
      obtain rfl := Option.some.inj h
      exact hg.startSession
  | connected =>
      simp only [step] at h
      split_ifs at h with hsocket
      obtain rfl := Option.some.inj h
      exact hg.sendCreateSession hsocket
  | readyRead bytes =>
      simp only [step] at h
      split_ifs at h with hsocket
      obtain rfl := Option.some.inj h
      refine Safe.drain parse ?_ hsocket
      exact hg.extend_neutral [] (by simp) (by simp) rfl rfl rfl rfl fun _ => rfl
  | error errorString closes =>
      have hclosed : Safe { g with socket := .unconnected } := hg.disconnect rfl rfl rfl rfl rfl
      simp only [step] at h
      split at h
      · cases h
      · obtain rfl := Option.some.inj h
        rw [GreeterIPC.onError_socket]
        exact hclosed.onError (by simp) errorString
      next hsocket =>
        obtain rfl := Option.some.inj h
        rw [GreeterIPC.onError_socket]
        cases closes with
        | true => exact hclosed.onError (by simp) errorString
        | false =>
            rw [if_neg (by simp), ← hsocket]
            exact hg.onError (by simp [hsocket]) errorString
  | disconnected =>
      simp only [step] at h
      split_ifs at h
      obtain rfl := Option.some.inj h
      exact hg.disconnect rfl rfl rfl rfl rfl

theorem reachable_safe {parse : List UInt8 → Option JsonObject} {g : GreeterIPC}
    (h : (system parse).Reachable g) : Safe g :=
  h.invariant (I := Safe) (by rintro _ rfl; exact Safe.new)
    fun _ _ _ _ hs _ hstep => step_safe hs hstep

/-! ## Who writes `start_session` -/

/-- What was added to the log holds no `start_session`. -/
def NoStart (g g' : GreeterIPC) : Prop :=
  ∃ records, g'.log = g.log ++ records ∧ ∀ r ∈ records, ¬ r.IsStart

theorem NoStart.of_log_eq {g g' : GreeterIPC} (h : g'.log = g.log) : NoStart g g' :=
  ⟨[], by simpa using h, by simp⟩

theorem NoStart.trans {g₁ g₂ g₃ : GreeterIPC} (h : NoStart g₁ g₂) (h' : NoStart g₂ g₃) :
    NoStart g₁ g₃ := by
  obtain ⟨records, hlog, hrecords⟩ := h
  obtain ⟨records', hlog', hrecords'⟩ := h'
  refine ⟨records ++ records', by rw [hlog', hlog, List.append_assoc], ?_⟩
  intro r hr
  rcases List.mem_append.mp hr with hr | hr
  · exact hrecords r hr
  · exact hrecords' r hr

/-- Fields other than the log do not matter. -/
theorem NoStart.keep {g₁ g₂ g₃ : GreeterIPC} (h : NoStart g₁ g₂)
    (hlog : g₃.log = g₂.log := by rfl) : NoStart g₁ g₃ :=
  h.trans (.of_log_eq hlog)

theorem NoStart.record {g g' : GreeterIPC} (h : NoStart g g') {records : List Record}
    (hrecords : ∀ r ∈ records, ¬ r.IsStart) : NoStart g (g'.record records) :=
  h.trans ⟨records, rfl, hrecords⟩

theorem NoStart.sendJson {g g' : GreeterIPC} (h : NoStart g g') {object : JsonObject}
    (hobject : field object "type" ≠ "start_session") : NoStart g (g'.sendJson object) := by
  unfold GreeterIPC.sendJson
  split
  · exact h.record (by simpa [Record.IsStart] using hobject)
  · exact h

theorem NoStart.submitPassword {g g' : GreeterIPC} (h : NoStart g g') (password : String) :
    NoStart g (g'.submitPassword password) := by
  unfold GreeterIPC.submitPassword
  split
  · exact h
  · exact NoStart.sendJson h.keep (by simp [field, postAuthMessageResponse, Json.toString])

theorem NoStart.fail {g g' : GreeterIPC} (h : NoStart g g') (reason : String) :
    NoStart g (g'.fail reason) :=
  h.keep.record (by simp [Record.IsStart])

theorem NoStart.handlePrompt {g g' : GreeterIPC} (h : NoStart g g') (message : JsonObject) :
    NoStart g (g'.handlePrompt message) := by
  simp only [GreeterIPC.handlePrompt]
  generalize (if field message "auth_message" = "" then _ else _) = status
  have hstatus : NoStart g ({ g' with statusMessage := status }.record [.emitted .statusChanged]) :=
    h.keep.record (by simp [Record.IsStart])
  split_ifs
  · exact NoStart.submitPassword hstatus.keep _
  · exact hstatus.keep.record (by simp [Record.IsStart])
  · exact hstatus.sendJson (by simp [field, acknowledge, Json.toString])
  · exact hstatus

theorem NoStart.handleMessage {g g' : GreeterIPC} (h : NoStart g g') (message : JsonObject) :
    NoStart g (g'.handleMessage message) := by
  refine NoStart.record ?_ (by simp [Record.IsStart])
  unfold GreeterIPC.dispatch
  split_ifs
  · exact h.handlePrompt message
  · unfold GreeterIPC.handleSuccess
    split_ifs <;> exact h.keep.record (by simp [Record.IsStart])
  · exact h.keep.fail _
  · exact h

theorem NoStart.drain (parse : List UInt8 → Option JsonObject) {fuel : ℕ} {g g' : GreeterIPC}
    (h : NoStart g g') : NoStart g (g'.drain parse fuel) := by
  induction fuel generalizing g' with
  | zero => exact h
  | succ fuel ih =>
      simp only [GreeterIPC.drain]
      split_ifs
      · exact h
      · exact h.keep.fail _
      · exact h
      · split
        · exact ih h.keep
        · exact ih (NoStart.handleMessage h.keep _)

theorem NoStart.onError {g g' : GreeterIPC} (h : NoStart g g') (errorString : String) :
    NoStart g (g'.onError errorString) := by
  unfold GreeterIPC.onError
  split
  · exact h
  · exact h.keep.fail _

/-- Outside phase `Authenticated` no step writes `start_session`. -/
theorem step_noStart {parse : List UInt8 → Option JsonObject} {g g' : GreeterIPC} {event : Event}
    (hphase : g.phase ≠ .authenticated) (h : step parse g event = some g') : NoStart g g' := by
  have hrefl : NoStart g g := .of_log_eq rfl
  cases event with
  | startAuth username password =>
      obtain rfl := Option.some.inj h
      simp only [GreeterIPC.startAuth]
      split <;> exact hrefl.keep.record (by simp [Record.IsStart])
  | submitPassword password =>
      simp only [step] at h
      split_ifs at h
      obtain rfl := Option.some.inj h
      exact hrefl.submitPassword password
  | startSession =>
      obtain rfl := Option.some.inj h
      exact .of_log_eq (by simp [GreeterIPC.startSession, hphase])
  | connected =>
      simp only [step] at h
      split_ifs at h
      obtain rfl := Option.some.inj h
      unfold GreeterIPC.sendCreateSession
      split_ifs
      · exact .of_log_eq rfl
      · refine NoStart.record (NoStart.keep ?_) (by simp [Record.IsStart])
        exact NoStart.sendJson (.of_log_eq rfl) (by simp [field, createSession, Json.toString])
  | readyRead bytes =>
      simp only [step] at h
      split_ifs at h
      obtain rfl := Option.some.inj h
      exact NoStart.drain parse (.of_log_eq rfl)
  | error errorString closes =>
      simp only [step] at h
      split at h
      · cases h
      · obtain rfl := Option.some.inj h
        exact (hrefl.onError errorString).keep
      · obtain rfl := Option.some.inj h
        exact (hrefl.onError errorString).keep
  | disconnected =>
      simp only [step] at h
      split_ifs at h
      obtain rfl := Option.some.inj h
      exact .of_log_eq rfl

/-! ## Login safety -/

structure LoginSafe (parse : List UInt8 → Option JsonObject) (g : GreeterIPC) : Prop where
  /-- A `start_session` is written in phase `Authenticated` only … -/
  written : ∀ event g', step parse g event = some g' → g.phase ≠ .authenticated → NoStart g g'
  /-- … and at most once for each success message that led there. -/
  starts : StartsOk g.log
  evidence : g.phase = .authenticated → Evidence g.currentUser (current g.log)
  flag : g.authenticated = true ↔ g.phase = .authenticated ∨ g.phase = .startingSession

/-- **A session is started only after authentication**, for every order of
calls, socket events and frames. -/
theorem reachable_loginSafe {parse : List UInt8 → Option JsonObject} {g : GreeterIPC}
    (h : (system parse).Reachable g) : LoginSafe parse g where
  written _ _ hstep hphase := step_noStart hphase hstep
  starts := (reachable_safe h).starts
  evidence := (reachable_safe h).evidence
  flag := (reachable_safe h).flag

/-- A server that knows one payload, a success message. -/
def acceptingServer : List UInt8 → Option JsonObject := fun payload =>
  if payload = [123] then some [("type", .str "success")] else none

def signIn : List Event :=
  [.startAuth " ada " "pw", .connected, .readyRead [1, 0, 0, 0, 123], .startSession]

/-- A user signs in, and the session is started. -/
theorem reachable_loginSafe_signIn :
    ∃ g, (system acceptingServer).run .new signIn = some g ∧ g.phase = .startingSession ∧
      LoginSafe acceptingServer g := by
  have hsome : ((system acceptingServer).run .new signIn).isSome = true := rfl
  obtain ⟨g, hrun⟩ := Option.isSome_iff_exists.mp hsome
  refine ⟨g, hrun, ?_, reachable_loginSafe (Transition.System.Reachable.run (.init rfl) hrun)⟩
  have hphase : ((system acceptingServer).run .new signIn).map (·.phase) =
    some .startingSession := rfl
  simpa [hrun] using hphase

end NiraOS.Greeter
