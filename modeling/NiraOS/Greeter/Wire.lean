import NiraOS.Greeter.Conversation
import NiraOS.Lib.Simulation

/-!
# The conversation, byte by byte

What greetd sends is framed and goes over a socket: it arrives in pieces, and `onReadyRead` keeps in
its buffer what is no complete frame yet.  The bytes that were sent on the connection and not
handled are

```text
read, in readBuffer   written by greetd, not read
            buffer ++ wire
```

and they are the frames of the messages that wait in the queue of the `Conversation` (`Represents`).
Reading a piece is handling the messages that it completes, so the bytes follow the conversation
(`simulates_conversation`), whatever the user and the socket do between the pieces.

greetd writes its JSON by `toJson`; what Qt makes of it is `parse`.
-/

namespace NiraOS.Greeter

/-! ## The wire -/

/-- The greeter with the connection as the system has it. -/
structure Wired where
  greeter : GreeterIPC
  /-- What greetd has sent on this connection. -/
  sent : List JsonObject
  /-- What of it was not read. -/
  wire : List UInt8

inductive Wired.Event
  | greeter (e : Greeter.Event)
  | reply (message : JsonObject)
  /-- So many of the bytes have arrived, and are read. -/
  | readyRead (arrived : ℕ)

section Wire

variable (parse : List UInt8 → Option JsonObject) (toJson : JsonObject → List UInt8)

/-- A message that greetd can send: Qt reads it, and it fits into a frame. -/
structure Sendable (message : JsonObject) : Prop where
  parsed : parse (toJson message) = some message
  nonempty : toJson message ≠ []
  fits : (toJson message).length ≤ maxPayloadLength

namespace Wired

/-- The greeter goes on; with the connection goes what is on the wire. -/
def goOn (s : Wired) (g : GreeterIPC) (wire : List UInt8) : Wired :=
  if g.socket = .connected then ⟨g, s.sent, wire⟩ else ⟨g, [], []⟩

def step (s : Wired) : Event → Option Wired
  | .greeter e => (act s.greeter e).map fun g => s.goOn g s.wire
  | .reply message =>
      if s.greeter.socket = .connected then
        some { s with sent := s.sent ++ [message], wire := s.wire ++ jsonFrame toJson message }
      else none
  | .readyRead arrived =>
      if s.greeter.socket = .connected then
        some (s.goOn (s.greeter.onReadyRead parse (s.wire.take arrived)) (s.wire.drop arrived))
      else none

def system : Transition.System Wired Event where
  init s := s = ⟨.new, [], []⟩
  step := step parse toJson

/-- greetd answers requests, each once, with what it can send. -/
def Proper (s : Wired) : Event → Prop
  | .reply message => Sendable parse toJson message ∧ s.sent.length < s.greeter.requests.length
  | _ => True

/-! ## What the bytes stand for -/

/-- The bytes that were not handled are the messages that were not. -/
structure Represents (s : Wired) (c : Conversation) : Prop where
  sent : s.sent = c.sent
  /-- Without a connection there is nothing under way. -/
  apart : c.greeter.socket ≠ .connected → s.wire = [] ∧ c.queue = []
  framed : ∃ buffer, s.greeter = c.greeter.withBuffer buffer ∧ (c.greeter.socket ≠ .unconnected →
    greetdFormat.front buffer = .incomplete ∧ buffer ++ s.wire = c.queue.flatMap (jsonFrame toJson))
  sendable : ∀ message ∈ c.queue, Sendable parse toJson message

end Wired

end Wire

section Simulation

variable {parse : List UInt8 → Option JsonObject} {toJson : JsonObject → List UInt8}
    {g g' : GreeterIPC}
  {buffer : List UInt8} {s s' : Wired} {c : Conversation}

/-! ## Calls and the buffer -/

theorem GreeterIPC.sendJson_withBuffer (g : GreeterIPC) (buffer : List UInt8)
    (object : JsonObject) :
    (g.withBuffer buffer).sendJson object = (g.sendJson object).withBuffer buffer := by
  unfold GreeterIPC.sendJson
  by_cases hsocket : g.socket = .connected
  · rw [if_pos hsocket]
    exact if_pos hsocket
  · rw [if_neg hsocket]
    exact if_neg hsocket

theorem GreeterIPC.submitPassword_withBuffer (g : GreeterIPC) (buffer : List UInt8)
    (password : String) :
    (g.withBuffer buffer).submitPassword password =
      (g.submitPassword password).withBuffer buffer := by
  unfold GreeterIPC.submitPassword
  by_cases hclosed : g.phase ≠ .creatingSession ∧ g.phase ≠ .authenticating
  · rw [if_pos hclosed]
    exact if_pos hclosed
  · rw [if_neg hclosed, ← GreeterIPC.sendJson_withBuffer]
    exact if_neg hclosed

theorem GreeterIPC.startSession_withBuffer (g : GreeterIPC) (buffer : List UInt8) :
    (g.withBuffer buffer).startSession = g.startSession.withBuffer buffer := by
  unfold GreeterIPC.startSession
  by_cases hphase : g.phase ≠ .authenticated
  · rw [if_pos hphase]
    exact if_pos hphase
  · rw [if_neg hphase, ← GreeterIPC.sendJson_withBuffer]
    exact if_neg hphase

theorem GreeterIPC.sendCreateSession_withBuffer (g : GreeterIPC) (buffer : List UInt8) :
    (g.withBuffer buffer).sendCreateSession = g.sendCreateSession.withBuffer buffer := by
  unfold GreeterIPC.sendCreateSession
  by_cases hphase : g.phase ≠ .creatingSession
  · rw [if_pos hphase]
    exact if_pos hphase
  · rw [if_neg hphase]
    refine (if_neg hphase).trans ?_
    rw [GreeterIPC.sendJson_withBuffer]
    rfl

theorem GreeterIPC.onError_withBuffer (g : GreeterIPC) (buffer : List UInt8)
    (errorString : String) :
    (g.withBuffer buffer).onError errorString = (g.onError errorString).withBuffer buffer := by
  unfold GreeterIPC.onError
  by_cases hphase : g.phase = .startingSession
  · rw [if_pos hphase]
    exact if_pos hphase
  · rw [if_neg hphase]
    exact if_neg hphase

/-- The socket as a call or an event leaves it: as it was, closed, or connected as it was asked to.
-/
def Follows (before after : SocketState) : Prop :=
  after = before ∨ after = .unconnected ∨ before = .connecting ∧ after = .connected

/-- **The buffer does not matter** to what the greeter does of its own; a new attempt clears it. -/
theorem act_withBuffer {e : Event} (hact : act (g.withBuffer buffer) e = some g') :
    ∃ g'' buffer', act g e = some g'' ∧ g' = g''.withBuffer buffer' ∧
      (buffer' = buffer ∧ Follows g.socket g''.socket ∨
        buffer' = [] ∧ g''.socket = .connecting) := by
  cases e with
  | startAuth username password =>
      obtain rfl := Option.some.inj hact
      refine ⟨g.startAuth username password, ?_⟩
      unfold GreeterIPC.startAuth
      dsimp only
      by_cases hempty : Text.trim username = ""
      · rw [if_pos hempty, if_pos hempty]
        exact ⟨buffer, congrArg some (if_pos hempty), rfl, .inl ⟨rfl, .inl rfl⟩⟩
      · rw [if_neg hempty, if_neg hempty]
        exact ⟨[], congrArg some (if_neg hempty), rfl, .inr ⟨rfl, rfl⟩⟩
  | submitPassword password =>
      obtain ⟨hawaiting, hg⟩ := Option.ite_none_right_eq_some.mp hact
      obtain rfl := Option.some.inj hg
      refine ⟨g.submitPassword password, buffer, if_pos hawaiting,
        g.submitPassword_withBuffer buffer password, ?_⟩
      exact .inl ⟨rfl, .inl (SameStream.submitPassword ..).1⟩
  | startSession =>
      obtain rfl := Option.some.inj hact
      refine ⟨g.startSession, buffer, rfl, g.startSession_withBuffer buffer, .inl ⟨rfl, .inl ?_⟩⟩
      have hcore := g.core_startSession
      split_ifs at hcore
      · exact congrArg Core.socket hcore
      · exact congrArg Core.socket hcore
  | connected =>
      obtain ⟨hconnecting, hg⟩ := Option.ite_none_right_eq_some.mp hact
      obtain rfl := Option.some.inj hg
      have hsent := GreeterIPC.sendCreateSession_withBuffer { g with socket := .connected } buffer
      refine ⟨_, buffer, if_pos hconnecting, hsent, ?_⟩
      exact .inl ⟨rfl, .inr (.inr ⟨hconnecting,
        congrArg Core.socket (GreeterIPC.core_sendCreateSession _)⟩)⟩
  | readyRead bytes => cases hact
  | error errorString closes =>
      simp only [act, step] at hact ⊢
      have hsocket : (g.withBuffer buffer).socket = g.socket := rfl
      rw [hsocket, GreeterIPC.onError_withBuffer] at hact
      cases hc : g.socket with
      | unconnected =>
          rw [hc] at hact
          cases hact
      | connecting =>
          rw [hc] at hact
          obtain rfl := Option.some.inj hact
          exact ⟨_, buffer, rfl, rfl, .inl ⟨rfl, .inr (.inl rfl)⟩⟩
      | connected =>
          rw [hc] at hact
          obtain rfl := Option.some.inj hact
          refine ⟨_, buffer, rfl, rfl, .inl ⟨rfl, ?_⟩⟩
          cases closes with
          | true => exact .inr (.inl rfl)
          | false => exact .inl rfl
  | disconnected =>
      obtain ⟨hconnected, hg⟩ := Option.ite_none_right_eq_some.mp hact
      obtain rfl := Option.some.inj hg
      exact ⟨{ g with socket := .unconnected }, buffer, if_pos hconnected, rfl,
        .inl ⟨rfl, .inr (.inl rfl)⟩⟩

/-! ## Bytes follow messages -/

theorem Wired.goOn_withBuffer (s : Wired) (g : GreeterIPC) (buffer wire : List UInt8) :
    s.goOn (g.withBuffer buffer) wire =
      if g.socket = .connected then ⟨g.withBuffer buffer, s.sent, wire⟩
        else ⟨g.withBuffer buffer, [], []⟩ :=
  rfl

theorem Wired.Represents.act (h : s.Represents parse toJson c) {e : Greeter.Event}
    (hact : Greeter.act s.greeter e = some g) :
    ∃ g', Greeter.act c.greeter e = some g' ∧
      (s.goOn g s.wire).Represents parse toJson (c.goOn g') := by
  obtain ⟨buffer, hgreeter, hframed⟩ := h.framed
  rw [hgreeter] at hact
  obtain ⟨g', buffer', hact', rfl, hbuffer⟩ := act_withBuffer hact
  refine ⟨g', hact', ?_⟩
  by_cases hconnected : g'.socket = .connected
  · rw [Wired.goOn_withBuffer, if_pos hconnected, Conversation.goOn_of_connected hconnected]
    have hopen : c.greeter.socket ≠ .unconnected ∧ buffer' = buffer := by
      rcases hbuffer with ⟨rfl, hsame | hclosed | ⟨hconnecting, -⟩⟩ | ⟨-, hconnecting⟩
      · rw [← hsame, hconnected]
        exact ⟨by decide, rfl⟩
      · cases hconnected.symm.trans hclosed
      · rw [hconnecting]
        exact ⟨by decide, rfl⟩
      · cases hconnected.symm.trans hconnecting
    obtain ⟨hopen, rfl⟩ := hopen
    exact ⟨h.sent, fun hclosed => absurd hconnected hclosed,
      ⟨buffer', rfl, fun _ => hframed hopen⟩, h.sendable⟩
  · rw [Wired.goOn_withBuffer, if_neg hconnected, Conversation.goOn_of_not_connected hconnected]
    refine ⟨rfl, fun _ => ⟨rfl, rfl⟩, ⟨buffer', rfl, fun hopen => ?_⟩, fun _ hmem =>
      absurd hmem List.not_mem_nil⟩
    -- the socket connects, so nothing was read
    have hempty : buffer' = [] := by
      rcases hbuffer with ⟨rfl, hsame | hclosed | ⟨-, hthere⟩⟩ | ⟨hempty, -⟩
      · rw [hsame] at hopen hconnected
        obtain ⟨hwire, hqueue⟩ := h.apart hconnected
        have hbytes := (hframed hopen).2
        rw [hwire, hqueue, List.append_nil] at hbytes
        exact hbytes
      · exact absurd hclosed hopen
      · exact absurd hthere hconnected
      · exact hempty
    rw [hempty]
    exact ⟨rfl, rfl⟩

/-- The conversation handles the first messages of the queue. -/
theorem Conversation.delivers (hconnected : c.greeter.socket = .connected)
    {first others : List JsonObject}
    (hqueue : c.queue = first ++ others) :
    (system.startingAt c).ReachableWhere Proper ⟨first.foldl GreeterIPC.handleMessage c.greeter,
      c.sent, others⟩ ∧
      (first.foldl GreeterIPC.handleMessage c.greeter).socket = .connected := by
  induction first generalizing c with
  | nil =>
      obtain rfl : c.queue = others := hqueue
      exact ⟨.init rfl, hconnected⟩
  | cons message first ih =>
      have hstep : c.step .deliver =
          some { c with greeter := c.greeter.handleMessage message, queue := first ++ others } := by
        rw [Conversation.step, hqueue]
        exact if_pos hconnected
      have hsocket : (c.greeter.handleMessage message).socket = .connected :=
        (SameStream.handleMessage ..).1.trans hconnected
      obtain ⟨hrun, hstill⟩ :=
        ih (c := { c with greeter := c.greeter.handleMessage message, queue := first ++ others })
          hsocket rfl
      exact ⟨(Transition.System.ReachableWhere.single (e := .deliver) trivial hstep).trans hrun,
        hstill⟩

/-- Payloads that Qt reads are handled as messages. -/
theorem foldl_handlePayload {messages : List JsonObject}
    (h : ∀ message ∈ messages, Sendable parse toJson message) (g : GreeterIPC) :
    (messages.map toJson).foldl (GreeterIPC.handlePayload parse) g =
      messages.foldl GreeterIPC.handleMessage g := by
  induction messages generalizing g with
  | nil => rfl
  | cons message messages ih =>
      rw [List.map_cons, List.foldl_cons, List.foldl_cons, GreeterIPC.handlePayload,
        (h message (List.mem_cons_self ..)).parsed]
      exact ih (fun other hother => h other (List.mem_cons_of_mem _ hother))
        (g.handleMessage message)

theorem flatMap_jsonFrame (messages : List JsonObject) :
    messages.flatMap (jsonFrame toJson) = (messages.map toJson).flatMap greetdFormat.frame := by
  rw [List.flatMap_map]
  rfl

theorem payloads_of_sendable {messages : List JsonObject}
    (h : ∀ message ∈ messages, Sendable parse toJson message) :
    ∀ payload ∈ messages.map toJson, payload ≠ [] ∧ payload.length ≤ greetdFormat.limit := by
  intro payload hpayload
  obtain ⟨message, hmessage, rfl⟩ := List.mem_map.mp hpayload
  exact ⟨(h message hmessage).nonempty, (h message hmessage).fits⟩

/-- **Reading a piece** is handling the messages that it completes. -/
theorem Wired.Represents.readyRead (h : s.Represents parse toJson c)
    (hconnected : c.greeter.socket = .connected)
    (arrived : ℕ) : ∃ c', (Conversation.system.startingAt c).ReachableWhere Conversation.Proper c' ∧
      (s.goOn (s.greeter.onReadyRead parse (s.wire.take arrived)) (s.wire.drop arrived)).Represents
        parse toJson c' := by
  obtain ⟨buffer, hgreeter, hframed⟩ := h.framed
  have hopen : c.greeter.socket ≠ .unconnected := by
    rw [hconnected]
    decide
  obtain ⟨-, hbytes⟩ := hframed hopen
  have hframes : (buffer ++ s.wire.take arrived) ++ s.wire.drop arrived =
      (c.queue.map toJson).flatMap greetdFormat.frame := by
    rw [List.append_assoc, List.take_append_drop, hbytes, flatMap_jsonFrame]
  obtain ⟨first, others, left, hmap, hread, hleft⟩ :=
    Framing.Format.read_piece (GreeterIPC.handlePayload parse) c.greeter
      (payloads_of_sendable h.sendable) (by decide)
      hframes
  obtain ⟨firstMessages, otherMessages, hqueue, rfl, rfl⟩ := List.map_eq_append_iff.mp hmap
  have hsendable : ∀ message ∈ firstMessages, Sendable parse toJson message := fun message hmem =>
    h.sendable message (hqueue ▸ List.mem_append_left _ hmem)
  obtain ⟨hrun, hsocket⟩ := Conversation.delivers hconnected hqueue
  refine ⟨_, hrun, ?_⟩
  have hgoes : s.greeter.onReadyRead parse (s.wire.take arrived) =
      (firstMessages.foldl GreeterIPC.handleMessage c.greeter).withBuffer left := by
    calc s.greeter.onReadyRead parse (s.wire.take arrived)
        = GreeterIPC.finish (greetdFormat.read (GreeterIPC.handlePayload parse) s.greeter
            (s.greeter.readBuffer ++ s.wire.take arrived)) := GreeterIPC.onReadyRead_eq ..
      _ = GreeterIPC.finish (greetdFormat.read (GreeterIPC.handlePayload parse) c.greeter
            (buffer ++ s.wire.take arrived)) :=
              by rw [hgreeter]; exact GreeterIPC.finish_read_withBuffer ..
      _ = ((firstMessages.map toJson).foldl (GreeterIPC.handlePayload parse) c.greeter).withBuffer
        left := by
          rw [hread]; rfl
      _ = (firstMessages.foldl GreeterIPC.handleMessage c.greeter).withBuffer left := by
          rw [foldl_handlePayload hsendable]
  rw [hgoes, Wired.goOn_withBuffer, if_pos hsocket]
  refine ⟨h.sent, fun hclosed => absurd hsocket hclosed, ⟨left, rfl, fun _ => ?_⟩,
    fun message hmem => ?_⟩
  · rw [flatMap_jsonFrame]
    exact ⟨Framing.Format.front_of_read hread, hleft⟩
  · exact h.sendable message (hqueue ▸ List.mem_append_right _ hmem)

/-- **The bytes follow the conversation.** -/
theorem simulates_conversation (parse : List UInt8 → Option JsonObject)
    (toJson : JsonObject → List UInt8) :
    Transition.System.Simulates (Wired.system parse toJson) (Wired.Proper parse toJson)
      Conversation.system
      Conversation.Proper (Wired.Represents parse toJson) where
  init s hinit := by
    obtain rfl := hinit
    refine ⟨⟨.new, [], []⟩, rfl, rfl, fun _ => ⟨rfl, rfl⟩,
      ⟨[], rfl, fun hopen => absurd rfl hopen⟩, ?_⟩
    exact fun _ hmem => absurd hmem List.not_mem_nil
  step s e s' c h hproper hstep := by
    obtain ⟨buffer, hgreeter, hframed⟩ := h.framed
    have hsocket : s.greeter.socket = c.greeter.socket := by
      rw [hgreeter]
      rfl
    cases e with
    | greeter e =>
        obtain ⟨g, hact, rfl⟩ := Option.map_eq_some_iff.mp hstep
        obtain ⟨g', hact', hrepresents⟩ := h.act hact
        have hturn : Conversation.system.step c (.greeter e) = some (c.goOn g') :=
          congrArg (Option.map c.goOn) hact'
        exact ⟨_, .single (e := .greeter e) trivial hturn, hrepresents⟩
    | reply message =>
        obtain ⟨hconnected, hs'⟩ := Option.ite_none_right_eq_some.mp hstep
        obtain rfl := Option.some.inj hs'
        obtain ⟨hsendable, hasked⟩ := hproper
        rw [hsocket] at hconnected
        have hturn : Conversation.system.step c (.reply message) =
            some { c with sent := c.sent ++ [message], queue := c.queue ++ [message] } :=
              if_pos hconnected
        have hasked' : c.sent.length < c.greeter.requests.length := by
          rw [h.sent, hgreeter] at hasked
          exact hasked
        refine ⟨_, .single (e := .reply message) hasked' hturn, ?_,
          fun hclosed => absurd hconnected hclosed, ?_, ?_⟩
        · dsimp only
          rw [h.sent]
        · refine ⟨buffer, hgreeter, fun hopen => ?_⟩
          obtain ⟨hincomplete, hbytes⟩ := hframed hopen
          refine ⟨hincomplete, ?_⟩
          dsimp only
          rw [← List.append_assoc, hbytes, List.flatMap_append, List.flatMap_singleton]
        · intro other hmem
          rcases List.mem_append.mp hmem with hbefore | hnew
          · exact h.sendable other hbefore
          · rwa [List.mem_singleton.mp hnew]
    | readyRead arrived =>
        obtain ⟨hconnected, hs'⟩ := Option.ite_none_right_eq_some.mp hstep
        obtain rfl := Option.some.inj hs'
        exact h.readyRead (hsocket.symm.trans hconnected) arrived

/-! ## What holds on the wire -/

/-- **Bytes are messages**: what the greeter is after any run of pieces, it is after a run of
messages. -/
theorem conversation_of_wired
    (h : (Wired.system parse toJson).ReachableWhere (Wired.Proper parse toJson) s) :
    ∃ c, Conversation.system.ReachableWhere Conversation.Proper c ∧ s.Represents parse toJson c :=
  (simulates_conversation parse toJson).reachable h

/-- greetd knows one message, a success. -/
def successOnly : List UInt8 → Option JsonObject := fun text =>
  if text = successText then some successMessage else none

def toSuccess : JsonObject → List UInt8 := fun _ => successText

theorem sendable_success : Sendable successOnly toSuccess successMessage :=
  ⟨if_pos rfl, by decide, by decide⟩

/-- A user signs in; the success of greetd arrives in two pieces, and the session is asked for. -/
def greetingRun : List Wired.Event := [.greeter (.startAuth "ada" "pw"), .greeter .connected]

def successRun : List Wired.Event := [.readyRead 2, .readyRead 20, .greeter .startSession]

def greeted : Wired :=
  ((Wired.system successOnly toSuccess).run ⟨.new, [], []⟩ greetingRun).getD ⟨.new, [], []⟩

def answered : Wired :=
  { greeted with sent := [successMessage], wire := jsonFrame toSuccess successMessage }

def signedIn : Wired := ((Wired.system successOnly toSuccess).run answered successRun).getD answered

theorem signedIn_proper :
    (Wired.system successOnly toSuccess).ReachableWhere (Wired.Proper successOnly toSuccess)
      signedIn := by
  have hgreeted : (Wired.system successOnly toSuccess).ReachableWhere
      (Wired.Proper successOnly toSuccess) greeted := by
    have hrun : (Wired.system successOnly toSuccess).run ⟨.new, [], []⟩ greetingRun =
        some greeted := rfl
    refine .run (.init rfl) ?_ hrun
    simp [greetingRun, Wired.Proper]
  have hanswered : (Wired.system successOnly toSuccess).ReachableWhere
      (Wired.Proper successOnly toSuccess) answered :=
    .step hgreeted (e := .reply successMessage) ⟨sendable_success, by decide⟩ rfl
  have hrun : (Wired.system successOnly toSuccess).run answered successRun = some signedIn := rfl
  refine hanswered.run ?_ hrun
  simp [successRun, Wired.Proper]

theorem conversation_signedIn : ∃ c, Conversation.system.ReachableWhere Conversation.Proper c ∧
    signedIn.Represents successOnly toSuccess c :=
  conversation_of_wired signedIn_proper

/-- **The greeter and greetd are in lock step.** -/
structure Wired.LockStep (toJson : JsonObject → List UInt8) (s : Wired) : Prop where
  /-- What greetd has sent on this connection was handled, in order and each message once, but for
  what is in the buffer or on the wire. -/
  inOrder : s.greeter.socket = .connected → ∃ unread, s.sent = s.greeter.answers ++ unread ∧
    s.greeter.readBuffer ++ s.wire = unread.flatMap (jsonFrame toJson) ∧ (s.wire = [] → unread = [])
  /-- One message at most is under way, a request or an answer. -/
  oneAtATime : s.greeter.socket = .connected → s.sent.length ≤ s.greeter.requests.length ∧
    s.greeter.requests.length ≤ s.greeter.answers.length + 1
  /-- When it is the user's turn there is none. -/
  usersTurn : s.greeter.socket = .connected → s.greeter.UsersTurn →
    s.sent = s.greeter.answers ∧ s.greeter.requests.length = s.greeter.answers.length ∧
      s.greeter.readBuffer = [] ∧ s.wire = []

/-- No message is left in bytes that are no complete frame. -/
theorem queue_of_incomplete {messages : List JsonObject}
    (hsendable : ∀ message ∈ messages, Sendable parse toJson message)
    (hincomplete : greetdFormat.front (messages.flatMap (jsonFrame toJson)) = .incomplete) :
    messages = [] := by
  cases messages with
  | nil => rfl
  | cons message messages =>
      have hmessage := hsendable message (List.mem_cons_self ..)
      have hfront : greetdFormat.front ((message :: messages).flatMap (jsonFrame toJson)) =
          .frame (toJson message) (messages.flatMap (jsonFrame toJson)) :=
        Framing.Format.front_frame hmessage.nonempty hmessage.fits
      cases hfront.symm.trans hincomplete

theorem Wired.Represents.lockStep (h : s.Represents parse toJson c) (hc : InStep c) :
    s.LockStep toJson := by
  obtain ⟨buffer, hgreeter, hframed⟩ := h.framed
  have hopen : c.greeter.socket = .connected → c.greeter.socket ≠ .unconnected := by
    intro hconnected
    rw [hconnected]
    decide
  refine ⟨fun hconnected => ?_, fun hconnected => ?_, fun hconnected husers => ?_⟩
  · rw [hgreeter] at hconnected ⊢
    obtain ⟨hincomplete, hbytes⟩ := hframed (hopen hconnected)
    refine ⟨c.queue, h.sent.trans (hc.order hconnected), hbytes, fun hwire => ?_⟩
    rw [hwire, List.append_nil] at hbytes
    rw [hbytes] at hincomplete
    exact queue_of_incomplete h.sendable hincomplete
  · rw [hgreeter, h.sent] at *
    exact hc.bounded hconnected
  · rw [hgreeter] at hconnected husers ⊢
    have hidle := hc.idle hconnected husers
    have horder := hc.order hconnected
    have hsent := (hc.bounded hconnected).1
    have hempty : c.queue = [] := by
      rw [horder, List.length_append] at hsent
      apply List.length_eq_zero_iff.mp
      omega
    obtain ⟨-, hbytes⟩ := hframed (hopen hconnected)
    rw [hempty] at horder hbytes
    obtain ⟨hbuffer, hwire⟩ := List.append_eq_nil_iff.mp hbytes
    exact ⟨h.sent.trans (horder.trans (List.append_nil _)), hidle, hbuffer, hwire⟩

theorem lockStep_of_proper
    (h : (Wired.system parse toJson).ReachableWhere (Wired.Proper parse toJson) s) :
    s.LockStep toJson := by
  obtain ⟨c, hc, hrepresents⟩ := (simulates_conversation parse toJson).reachable h
  exact hrepresents.lockStep (inStep_of_proper hc)

theorem lockStep_signedIn :
    signedIn.LockStep toSuccess ∧ signedIn.greeter.phase = .startingSession ∧
    signedIn.greeter.answers = [successMessage] ∧
      signedIn.greeter.requests = [createSession "ada", startSessionRequest] :=
  ⟨lockStep_of_proper signedIn_proper, rfl, rfl, rfl⟩

end Simulation

end NiraOS.Greeter
