import NiraOS.Lib.Text
import Mathlib.Data.Nat.Notation

/-!
# The greeter's end of the greetd protocol

`GreeterIPC` (`desktop/greeter/src/GreeterIPC.cpp`): five phases, driven by the
login screen (`startAuth`, `submitPassword`, `startSession`) and by the socket
(`sendCreateSession`, `onReadyRead`, `onError`).

Parsing a payload is Qt's: `parse` is `QJsonDocument::fromJson` restricted to
objects, `none` for malformed JSON and for other documents.

Besides its members the model keeps `log`, what the object has done so far:
connection attempts, messages written and handled, signals emitted.
-/

namespace NiraOS.Greeter

/-! ## JSON values -/

inductive Json
  | null
  | bool (value : Bool)
  | number (literal : String)
  | str (value : String)
  | arr (items : List Json)
  | obj (fields : List (String × Json))

abbrev JsonObject := List (String × Json)

/-- `QJsonValue::toString`: the empty string unless the value is a string. -/
def Json.toString : Json → String
  | .str value => value
  | _ => ""

/-- `object.value(key).toString()`. -/
def field (object : JsonObject) (key : String) : String :=
  ((object.lookup key).getD .null).toString

/-! ## The object -/

inductive Phase
  | idle
  | creatingSession
  | authenticating
  | authenticated
  | startingSession
  deriving DecidableEq, Repr

inductive SocketState
  | unconnected
  | connecting
  | connected
  deriving DecidableEq, Repr

inductive Signal
  | statusChanged
  | authSucceeded
  | authFailed (reason : String)

inductive Record
  /-- `connectToServer`, for this user. -/
  | attempt (user : String)
  | wrote (object : JsonObject)
  /-- `handleMessage` returned, leaving the machine in this phase. -/
  | handled (message : JsonObject) (phase : Phase)
  | emitted (signal : Signal)

structure GreeterIPC where
  socket : SocketState
  currentUser : String
  pendingPassword : String
  statusMessage : String
  authenticated : Bool
  awaitingResponse : Bool
  credentialSubmitted : Bool
  phase : Phase
  readBuffer : List UInt8
  log : List Record

def GreeterIPC.new : GreeterIPC :=
  ⟨.unconnected, "", "", "", false, false, false, .idle, [], []⟩

def GreeterIPC.record (g : GreeterIPC) (records : List Record) : GreeterIPC :=
  { g with log := g.log ++ records }

/-- `sendJson` refuses to write while disconnected. -/
def GreeterIPC.sendJson (g : GreeterIPC) (object : JsonObject) : GreeterIPC :=
  if g.socket = .connected then g.record [.wrote object] else g

/-! ## The messages the greeter writes -/

def createSession (user : String) : JsonObject :=
  [("type", .str "create_session"), ("username", .str user)]

def postAuthMessageResponse (password : String) : JsonObject :=
  [("type", .str "post_auth_message_response"), ("response", .str password)]

/-- The acknowledgement of an informational prompt carries no response. -/
def acknowledge : JsonObject := [("type", .str "post_auth_message_response")]

def startSessionRequest : JsonObject :=
  [("type", .str "start_session"),
    ("cmd", .arr [.str "/usr/bin/start-nira-session"]),
    ("env", .arr [])]

/-! ## Calls from the login screen -/

def GreeterIPC.startAuth (g : GreeterIPC) (username password : String) : GreeterIPC :=
  let requestedUser := Text.trim username
  if requestedUser = "" then
    { g with statusMessage := "Username cannot be empty." }.record
      [.emitted .statusChanged, .emitted (.authFailed "Username cannot be empty.")]
  else
    -- an open socket is aborted first; `connectToServer` comes last
    { g with
      socket := .connecting
      readBuffer := []
      currentUser := requestedUser
      pendingPassword := password
      credentialSubmitted := false
      awaitingResponse := false
      authenticated := false
      phase := .creatingSession
      statusMessage := "Connecting..." }.record
      [.emitted .statusChanged, .attempt requestedUser]

def GreeterIPC.submitPassword (g : GreeterIPC) (password : String) : GreeterIPC :=
  if g.phase ≠ .creatingSession ∧ g.phase ≠ .authenticating then g
  else
    { g with
      phase := .authenticating
      credentialSubmitted := true
      awaitingResponse := false }.sendJson (postAuthMessageResponse password)

def GreeterIPC.startSession (g : GreeterIPC) : GreeterIPC :=
  if g.phase ≠ .authenticated then g
  else
    ({ g with
      phase := .startingSession
      statusMessage := "Starting session..." }.record
        [.emitted .statusChanged]).sendJson startSessionRequest

/-! ## Socket events -/

/-- The slot of `connected`. -/
def GreeterIPC.sendCreateSession (g : GreeterIPC) : GreeterIPC :=
  if g.phase ≠ .creatingSession then g
  else
    { g.sendJson (createSession g.currentUser) with
      statusMessage := "Authenticating..." }.record [.emitted .statusChanged]

/-- Enter `Idle` with a message for the user, as every failure does. -/
def GreeterIPC.fail (g : GreeterIPC) (reason : String) : GreeterIPC :=
  { g with
    phase := .idle
    authenticated := false
    awaitingResponse := false
    statusMessage := reason }.record [.emitted .statusChanged, .emitted (.authFailed reason)]

/-- The handler of `auth_message`. -/
def GreeterIPC.handlePrompt (g : GreeterIPC) (message : JsonObject) : GreeterIPC :=
  let prompt := field message "auth_message"
  let g := { g with statusMessage := if prompt = "" then "Password:" else prompt }.record
    [.emitted .statusChanged]
  let messageType := field message "auth_message_type"
  let requestsCredential := messageType = "" ∨ messageType = "secret" ∨ messageType = "visible"
  if requestsCredential ∧ g.credentialSubmitted = false then
    { g with pendingPassword := "" }.submitPassword g.pendingPassword
  else if requestsCredential then
    { g with awaitingResponse := true }.record [.emitted .statusChanged]
  else if messageType = "info" ∨ messageType = "error" then
    g.sendJson acknowledge
  else g

/-- The handler of `success`. -/
def GreeterIPC.handleSuccess (g : GreeterIPC) : GreeterIPC :=
  if g.phase = .startingSession then
    { g with statusMessage := "Session started" }.record [.emitted .statusChanged]
  else
    { g with
      phase := .authenticated
      authenticated := true
      awaitingResponse := false
      pendingPassword := ""
      statusMessage := "Authentication successful" }.record
      [.emitted .statusChanged, .emitted .authSucceeded]

/-- The handler of `error`. -/
def GreeterIPC.handleError (g : GreeterIPC) (message : JsonObject) : GreeterIPC :=
  let description := field message "description"
  { g with pendingPassword := "" }.fail
    (if description = "" then "Authentication failed." else description)

def GreeterIPC.dispatch (g : GreeterIPC) (message : JsonObject) : GreeterIPC :=
  if field message "type" = "auth_message" then g.handlePrompt message
  else if field message "type" = "success" then g.handleSuccess
  else if field message "type" = "error" then g.handleError message
  else g

def GreeterIPC.handleMessage (g : GreeterIPC) (message : JsonObject) : GreeterIPC :=
  (g.dispatch message).record [.handled message (g.dispatch message).phase]

def maxPayloadLength : ℕ := 1024 * 1024

/-- The native-endian `uint32` at the front of a frame (the target is
little-endian). -/
def payloadLength : List UInt8 → ℕ
  | b₀ :: b₁ :: b₂ :: b₃ :: _ =>
      b₀.toNat + 256 * b₁.toNat + 65536 * b₂.toNat + 16777216 * b₃.toNat
  | _ => 0

section Reading

variable (parse : List UInt8 → Option JsonObject)

/-- The loop of `onReadyRead`.  Every round consumes at least five bytes, so the
length of the buffer is fuel enough. -/
def GreeterIPC.drain : ℕ → GreeterIPC → GreeterIPC
  | 0, g => g
  | fuel + 1, g =>
      if g.readBuffer.length < 4 then g
      else
        let length := payloadLength g.readBuffer
        if length = 0 ∨ length > maxPayloadLength then
          { g with readBuffer := [], socket := .unconnected }.fail
            "Invalid response from the login service."
        else if g.readBuffer.length < 4 + length then g
        else
          let payload := (g.readBuffer.drop 4).take length
          let g := { g with readBuffer := g.readBuffer.drop (4 + length) }
          match parse payload with
          | none => drain fuel g
          | some message => drain fuel (g.handleMessage message)

def GreeterIPC.onReadyRead (g : GreeterIPC) (bytes : List UInt8) : GreeterIPC :=
  let g := { g with readBuffer := g.readBuffer ++ bytes }
  g.drain parse (g.readBuffer.length + 1)

end Reading

/-- `errorString` is Qt's text for the socket error. -/
def GreeterIPC.onError (g : GreeterIPC) (errorString : String) : GreeterIPC :=
  -- greetd closes the connection as it hands control to the user session
  if g.phase = .startingSession then g
  else { g with pendingPassword := "" }.fail ("Connection error: " ++ errorString)

end NiraOS.Greeter
