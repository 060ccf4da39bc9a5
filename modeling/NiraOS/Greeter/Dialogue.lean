import NiraOS.Greeter.Framing

/-!
# The dialogue, frame by frame

`GreeterIPC` as it meets one complete frame at a time.  Bytes that arrive are a number of frames and
perhaps an invalid length (`occurs_of_onReadyRead`), so every state that reading leaves is reached
here too, up to the bytes of a frame that is not complete yet.

What happens next depends on six members only (`Core`), and the handlers are functions on these.
-/

namespace NiraOS.Greeter

inductive Occurrence
  | startAuth (username password : String)
  | submitPassword (password : String)
  | startSession
  | connected
  | frame (payload : List UInt8)
  | invalidLength
  /-- An error of the socket; one that does not close it leaves it connected. -/
  | error (errorString : String) (closes : Bool)
  | disconnected

def occur (parse : List UInt8 → Option JsonObject) (g : GreeterIPC) : Occurrence → Option GreeterIPC
  | .startAuth username password => some (g.startAuth username password)
  | .submitPassword password => some (g.submitPassword password)
  | .startSession => some g.startSession
  | .connected =>
      if g.socket = .connecting
        then some { g with socket := .connected }.sendCreateSession else none
  | .frame payload => if g.socket = .connected then some (g.handlePayload parse payload) else none
  | .invalidLength => if g.socket = .connected then some (GreeterIPC.finish (g, none)) else none
  | .error errorString closes =>
      match g.socket with
      | .unconnected => none
      | .connecting => some { g.onError errorString with socket := .unconnected }
      | .connected =>
          some { g.onError errorString with
            socket := if closes then .unconnected else .connected }
  | .disconnected =>
      if g.socket = .connected then some { g with socket := .unconnected } else none

def dialogue (parse : List UInt8 → Option JsonObject) :
    Transition.System GreeterIPC Occurrence where
  init g := g = .new
  step := occur parse

section Reading

variable {parse : List UInt8 → Option JsonObject}

theorem GreeterIPC.handlePayload_socket (g : GreeterIPC) (payload : List UInt8) :
    (g.handlePayload parse payload).socket = g.socket := by
  unfold GreeterIPC.handlePayload
  split
  · rfl
  · exact (SameStream.handleMessage g _).1

theorem exists_run_of_read (fuel : ℕ) {g : GreeterIPC} (hsocket : g.socket = .connected)
    (stream : List UInt8) :
    ∃ events g' buffer, (dialogue parse).run g events = some g' ∧
      GreeterIPC.finish (greetdFormat.readFuel (GreeterIPC.handlePayload parse) fuel g stream) =
        g'.withBuffer buffer := by
  induction fuel generalizing g stream with
  | zero => exact ⟨[], g, stream, rfl, rfl⟩
  | succ fuel ih =>
      rw [Framing.Format.readFuel]
      cases greetdFormat.front stream with
      | incomplete => exact ⟨[], g, stream, rfl, rfl⟩
      | invalid =>
          refine ⟨[.invalidLength], GreeterIPC.finish (g, none), [], ?_, rfl⟩
          rw [Transition.System.run]
          change (if g.socket = .connected then some (GreeterIPC.finish (g, none))
            else none).bind _ = _
          rw [if_pos hsocket]
          rfl
      | frame payload rest =>
          obtain ⟨events, g', buffer, hrun, hread⟩ :=
            ih ((g.handlePayload_socket payload).trans hsocket) rest
          refine ⟨.frame payload :: events, g', buffer, ?_, hread⟩
          rw [Transition.System.run]
          change (if g.socket = .connected then some (g.handlePayload parse payload)
            else none).bind _ = _
          rw [if_pos hsocket]
          exact hrun

/-- **Bytes are frames.**  What reading leaves, a run of frames leaves. -/
theorem occurs_of_onReadyRead {g : GreeterIPC} (hsocket : g.socket = .connected)
    (bytes : List UInt8) :
    ∃ events g' buffer, (dialogue parse).run g events = some g' ∧
      g.onReadyRead parse bytes = g'.withBuffer buffer := by
  rw [GreeterIPC.onReadyRead_eq]
  exact exists_run_of_read _ hsocket _

end Reading

/-! ## What decides -/

structure Core where
  socket : SocketState
  phase : Phase
  pendingPassword : String
  awaitingResponse : Bool
  credentialSubmitted : Bool
  authenticated : Bool
  deriving DecidableEq

/-- In the middle of a dialogue. -/
def Phase.Open (phase : Phase) : Prop := phase = .creatingSession ∨ phase = .authenticating

instance (phase : Phase) : Decidable phase.Open := inferInstanceAs (Decidable (_ ∨ _))

namespace Core

def submitted (c : Core) : Core :=
  if c.phase.Open then { c with
    phase := .authenticating, credentialSubmitted := true, awaitingResponse := false } else c

def failed (c : Core) : Core :=
  { c with phase := .idle, authenticated := false, awaitingResponse := false }

def prompted (c : Core) : Core :=
  if c.credentialSubmitted = false then { c with pendingPassword := "" }.submitted
    else { c with awaitingResponse := true }

def succeeded (c : Core) : Core :=
  if c.phase = .startingSession then c
  else { c with
    phase := .authenticated, authenticated := true, awaitingResponse := false
    pendingPassword := "" }

end Core

/-- A prompt for something that the user knows. -/
def CredentialPrompt (message : JsonObject) : Prop :=
  field message "type" = "auth_message" ∧ (field message "auth_message_type" = "" ∨
    field message "auth_message_type" = "secret" ∨ field message "auth_message_type" = "visible")

/-- A prompt that is only acknowledged. -/
def Notice (message : JsonObject) : Prop :=
  field message "type" = "auth_message" ∧
    (field message "auth_message_type" = "info" ∨ field message "auth_message_type" = "error")

instance (message : JsonObject) : Decidable (CredentialPrompt message) :=
  inferInstanceAs (Decidable (_ ∧ _))

instance (message : JsonObject) : Decidable (Notice message) := inferInstanceAs (Decidable (_ ∧ _))

namespace GreeterIPC

def core (g : GreeterIPC) : Core :=
  ⟨g.socket, g.phase, g.pendingPassword, g.awaitingResponse, g.credentialSubmitted, g.authenticated⟩

section CoreLemmas

variable (g : GreeterIPC) (message : JsonObject)

theorem core_sendJson (object : JsonObject) : (g.sendJson object).core = g.core := by
  unfold sendJson
  split <;> rfl

theorem core_submitPassword (password : String) :
    (g.submitPassword password).core = g.core.submitted := by
  unfold submitPassword Core.submitted
  by_cases hopen : g.core.phase.Open
  · have hdialogue : ¬ (g.phase ≠ .creatingSession ∧ g.phase ≠ .authenticating) :=
      fun h => not_or.mpr h hopen
    rw [if_pos hopen, if_neg hdialogue, core_sendJson]
    rfl
  · have hnone : g.phase ≠ .creatingSession ∧ g.phase ≠ .authenticating := not_or.mp hopen
    rw [if_neg hopen, if_pos hnone]

/-- The text of a prompt is shown. -/
def shown : GreeterIPC :=
  { g with
    statusMessage :=
      if field message "auth_message" = "" then "Password:" else field message "auth_message"
  }.record [.emitted .statusChanged]

theorem handlePrompt_eq (htype : field message "type" = "auth_message") : g.handlePrompt message =
    if CredentialPrompt message then
      if g.credentialSubmitted = false
        then { g.shown message with pendingPassword := "" }.submitPassword g.pendingPassword
      else { g.shown message with awaitingResponse := true }.record [.emitted .statusChanged]
    else if Notice message then (g.shown message).sendJson acknowledge
    else g.shown message := by
  have hsubmitted : (g.shown message).credentialSubmitted = g.credentialSubmitted := rfl
  unfold CredentialPrompt Notice
  simp only [htype, true_and]
  rw [← hsubmitted]
  by_cases hcredential : field message "auth_message_type" = "" ∨
    field message "auth_message_type" = "secret" ∨
      field message "auth_message_type" = "visible"
  · by_cases hfirst : (g.shown message).credentialSubmitted = false
    · rw [if_pos hcredential, if_pos hfirst]
      exact if_pos ⟨hcredential, hfirst⟩
    · rw [if_pos hcredential, if_neg hfirst]
      exact (if_neg fun h => hfirst h.2).trans (if_pos hcredential)
  · rw [if_neg hcredential]
    exact (if_neg fun h => hcredential h.1).trans (if_neg hcredential)

theorem core_handlePrompt (htype : field message "type" = "auth_message") :
    (g.handlePrompt message).core =
    if CredentialPrompt message then g.core.prompted else g.core := by
  rw [handlePrompt_eq g message htype]
  unfold Core.prompted
  split_ifs with hcredential hfirst hnew hnew hnotice
  · rw [core_submitPassword]
    rfl
  · exact absurd hfirst hnew
  · exact absurd hnew hfirst
  · rfl
  · rw [core_sendJson]
    rfl
  · rfl

theorem core_handleSuccess : g.handleSuccess.core = g.core.succeeded := by
  unfold handleSuccess Core.succeeded
  by_cases hstarting : g.phase = .startingSession
  · rw [if_pos hstarting, if_pos (show g.core.phase = _ from hstarting)]
    rfl
  · rw [if_neg hstarting, if_neg (show ¬ g.core.phase = _ from hstarting)]
    rfl

/-- **A message**, by what it is. -/
theorem core_handleMessage : (g.handleMessage message).core =
    if CredentialPrompt message then g.core.prompted
    else if field message "type" = "success" then g.core.succeeded
    else if field message "type" = "error" then { g.core with pendingPassword := "" }.failed
    else g.core := by
  have hrecord : (g.handleMessage message).core = (g.dispatch message).core := rfl
  rw [hrecord, dispatch]
  by_cases hprompt : field message "type" = "auth_message"
  · rw [if_pos hprompt, core_handlePrompt g message hprompt, hprompt]
    rfl
  · have hno : ¬ CredentialPrompt message := fun h => hprompt h.1
    rw [if_neg hprompt, if_neg hno]
    split_ifs
    · exact core_handleSuccess g
    · rfl
    · rfl

theorem core_startAuth (username password : String) : (g.startAuth username password).core =
    if Text.trim username = "" then g.core
      else ⟨.connecting, .creatingSession, password, false, false, false⟩ := by
  unfold startAuth
  dsimp only
  split_ifs <;> rfl

theorem core_startSession : g.startSession.core =
    if g.phase = .authenticated then { g.core with phase := .startingSession } else g.core := by
  unfold startSession
  by_cases hphase : g.phase = .authenticated
  · rw [if_neg (not_not.mpr hphase), if_pos hphase, core_sendJson]
    rfl
  · rw [if_pos hphase, if_neg hphase]

theorem core_sendCreateSession : g.sendCreateSession.core = g.core := by
  unfold sendCreateSession
  split
  · rfl
  · exact core_sendJson g _

theorem core_onError (errorString : String) : (g.onError errorString).core =
    if g.phase = .startingSession then g.core
      else { g.core with pendingPassword := "" }.failed := by
  unfold onError
  split_ifs <;> rfl

end CoreLemmas

end GreeterIPC

end NiraOS.Greeter
