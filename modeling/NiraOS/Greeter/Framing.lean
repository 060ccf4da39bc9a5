import NiraOS.Greeter.Login
import NiraOS.Lib.Framing

/-!
# The greeter's frames

`onReadyRead` reads the frames that `sendJson` writes: a native-endian `uint32` and a
payload of that many bytes.  It is the reader of `Lib.Framing` with `handleMessage` as its
handler (`drain_eq`), so the library's results apply: however the stream is cut into
reads, the same messages are handled, and what was framed is handled message by message.

A rejected length aborts the connection, so nothing of it is read any more.  No handler
opens a new connection.
-/

namespace NiraOS.Greeter

/-! ## Frames -/

/-- A `quint32` in memory, on a little-endian machine. -/
def lengthHeader (n : ℕ) : List UInt8 :=
  [UInt8.ofNat n, UInt8.ofNat (n / 256), UInt8.ofNat (n / 65536), UInt8.ofNat (n / 16777216)]

theorem payloadLength_append {stream : List UInt8} (rest : List UInt8) (h : 4 ≤ stream.length) :
    payloadLength (stream ++ rest) = payloadLength stream := by
  match stream, h with
  | _ :: _ :: _ :: _ :: _, _ => rfl

theorem payloadLength_lengthHeader {n : ℕ} (h : n ≤ maxPayloadLength) :
    payloadLength (lengthHeader n) = n := by
  unfold maxPayloadLength at h
  simp only [lengthHeader, payloadLength, UInt8.toNat_ofNat']
  omega

/-- The frames of greetd. -/
def greetdFormat : Framing.Format UInt8 where
  headerSize := 4
  limit := maxPayloadLength
  header := lengthHeader
  length := payloadLength
  length_header _ := rfl
  length_append _ rest h := payloadLength_append rest h
  read_header _ h := payloadLength_lengthHeader h

/-- What `sendJson` writes to a connected socket, given `QJsonDocument::toJson`. -/
def jsonFrame (toJson : JsonObject → List UInt8) (object : JsonObject) : List UInt8 :=
  lengthHeader (toJson object).length ++ toJson object

/-! ## The reading loop is a reader of frames -/

section Reading

variable (parse : List UInt8 → Option JsonObject)

/-- The body of the loop, given a payload. -/
def GreeterIPC.handlePayload (g : GreeterIPC) (payload : List UInt8) : GreeterIPC :=
  match parse payload with
  | none => g
  | some message => g.handleMessage message

def GreeterIPC.withBuffer (g : GreeterIPC) (buffer : List UInt8) : GreeterIPC :=
  { g with readBuffer := buffer }

/-- How the loop ends. -/
def GreeterIPC.finish : GreeterIPC × Option (List UInt8) → GreeterIPC
  | (g, some left) => g.withBuffer left
  | (g, none) =>
      { g with readBuffer := [], socket := .unconnected }.fail
        "Invalid response from the login service."

/-- The reads of one connection.  After an abort there are none. -/
def GreeterIPC.receive (g : GreeterIPC) (chunks : List (List UInt8)) : GreeterIPC :=
  chunks.foldl (fun g chunk => if g.socket = .connected then g.onReadyRead parse chunk else g) g

variable {parse}

/-- The handlers do not look at the buffer. -/
theorem GreeterIPC.handleMessage_withBuffer (g : GreeterIPC) (buffer : List UInt8)
    (message : JsonObject) :
    (g.withBuffer buffer).handleMessage message = (g.handleMessage message).withBuffer buffer := by
  have hdispatch : (g.withBuffer buffer).dispatch message =
      (g.dispatch message).withBuffer buffer := by
    unfold GreeterIPC.dispatch
    split_ifs
    · unfold GreeterIPC.handlePrompt GreeterIPC.submitPassword GreeterIPC.sendJson
        GreeterIPC.withBuffer GreeterIPC.record
      dsimp only
      split_ifs <;> rfl
    · unfold GreeterIPC.handleSuccess GreeterIPC.withBuffer
      dsimp only
      split_ifs <;> rfl
    · rfl
    · rfl
  rw [GreeterIPC.handleMessage, hdispatch]
  rfl

/-- **The loop reads frames.** -/
theorem GreeterIPC.drain_eq (g : GreeterIPC) (stream : List UInt8) (fuel : ℕ) :
    (g.withBuffer stream).drain parse fuel =
      GreeterIPC.finish (greetdFormat.readFuel (GreeterIPC.handlePayload parse) fuel g stream) := by
  induction fuel generalizing g stream with
  | zero => rfl
  | succ fuel ih =>
      rw [GreeterIPC.drain, Framing.Format.readFuel]
      by_cases hheader : stream.length < 4
      · have hfront : greetdFormat.front stream = .incomplete := if_pos hheader
        rw [hfront]
        exact if_pos hheader
      by_cases hlength : payloadLength stream = 0 ∨ payloadLength stream > maxPayloadLength
      · have hfront : greetdFormat.front stream = .invalid :=
          (if_neg hheader).trans (if_pos hlength)
        rw [hfront]
        exact (if_neg hheader).trans (if_pos hlength)
      by_cases hframe : stream.length < 4 + payloadLength stream
      · have hfront : greetdFormat.front stream = .incomplete :=
          (if_neg hheader).trans ((if_neg hlength).trans (if_pos hframe))
        rw [hfront]
        exact (if_neg hheader).trans ((if_neg hlength).trans (if_pos hframe))
      · have hfront : greetdFormat.front stream =
          .frame ((stream.drop 4).take (payloadLength stream))
            (stream.drop (4 + payloadLength stream)) :=
          (if_neg hheader).trans ((if_neg hlength).trans (if_neg hframe))
        rw [hfront]
        refine (if_neg hheader).trans ((if_neg hlength).trans ((if_neg hframe).trans ?_))
        rw [← ih, GreeterIPC.handlePayload]
        change (match parse ((stream.drop 4).take (payloadLength stream)) with
          | none => _
          | some message => _) = _
        cases parse ((stream.drop 4).take (payloadLength stream)) with
        | none => rfl
        | some message =>
            exact congrArg (GreeterIPC.drain parse fuel)
              (GreeterIPC.handleMessage_withBuffer g _ message)

theorem GreeterIPC.onReadyRead_eq (g : GreeterIPC) (bytes : List UInt8) :
    g.onReadyRead parse bytes =
      GreeterIPC.finish (greetdFormat.read (GreeterIPC.handlePayload parse) g
        (g.readBuffer ++ bytes)) :=
  GreeterIPC.drain_eq g _ _

/-- What was in the buffer before makes no difference. -/
theorem GreeterIPC.finish_read_withBuffer (g : GreeterIPC) (buffer stream : List UInt8) :
    GreeterIPC.finish
        (greetdFormat.read (GreeterIPC.handlePayload parse) (g.withBuffer buffer) stream) =
      GreeterIPC.finish (greetdFormat.read (GreeterIPC.handlePayload parse) g stream) := by
  rw [Framing.Format.read, Framing.Format.read, ← GreeterIPC.drain_eq, ← GreeterIPC.drain_eq]
  rfl

variable (parse) in
theorem GreeterIPC.read_socket (g : GreeterIPC) (stream : List UInt8) :
    (greetdFormat.read (GreeterIPC.handlePayload parse) g stream).1.socket = g.socket := by
  refine Framing.Format.read_preserves (P := fun g' : GreeterIPC => g'.socket = g.socket) ?_ rfl
  intro g' payload hg'
  unfold GreeterIPC.handlePayload
  split
  · exact hg'
  · exact (SameStream.handleMessage ..).1.trans hg'

/-! ## Any chunking -/

/-- Once the connection is aborted nothing more is received. -/
theorem GreeterIPC.receive_of_not_connected {g : GreeterIPC} (h : g.socket ≠ .connected)
    (chunks : List (List UInt8)) : g.receive parse chunks = g := by
  induction chunks with
  | nil => rfl
  | cons chunk chunks ih =>
      rw [GreeterIPC.receive, List.foldl_cons, if_neg h]
      exact ih

/-- **Receiving chunks is reading their concatenation.** -/
theorem GreeterIPC.receive_eq {g : GreeterIPC} (hsocket : g.socket = .connected)
    (hbuffer : greetdFormat.front g.readBuffer = .incomplete) (chunks : List (List UInt8)) :
    g.receive parse chunks =
      GreeterIPC.finish (greetdFormat.read (GreeterIPC.handlePayload parse) g
        (g.readBuffer ++ chunks.flatten)) := by
  induction chunks generalizing g with
  | nil =>
      rw [List.flatten_nil, List.append_nil, Framing.Format.read_eq, hbuffer]
      rfl
  | cons chunk chunks ih =>
      rw [GreeterIPC.receive, List.foldl_cons, if_pos hsocket, GreeterIPC.onReadyRead_eq,
        List.flatten_cons, ← List.append_assoc,
        Framing.Format.read_append g (g.readBuffer ++ chunk) chunks.flatten]
      have hkept := GreeterIPC.read_socket parse g (g.readBuffer ++ chunk)
      rcases hread : greetdFormat.read (GreeterIPC.handlePayload parse) g
        (g.readBuffer ++ chunk) with
        ⟨g', _ | left⟩
      · have haborted : (GreeterIPC.finish (g', none)).socket ≠ .connected := nofun
        exact GreeterIPC.receive_of_not_connected haborted chunks
      · rw [hread] at hkept
        have hleft : greetdFormat.front left = .incomplete := Framing.Format.front_of_read hread
        refine (ih (g := g'.withBuffer left) (hkept.trans hsocket) hleft).trans ?_
        exact GreeterIPC.finish_read_withBuffer g' left _

/-! ## Decoding undoes encoding -/

/-- The messages `handleMessage` was called with. -/
def handledMessages (log : List Record) : List JsonObject :=
  log.filterMap fun
    | .handled message _ => some message
    | _ => none

theorem handledMessages_append (log records : List Record) :
    handledMessages (log ++ records) = handledMessages log ++ handledMessages records :=
  List.filterMap_append ..

theorem GreeterIPC.handled_sendJson (g : GreeterIPC) (object : JsonObject) :
    handledMessages (g.sendJson object).log = handledMessages g.log := by
  unfold GreeterIPC.sendJson
  split_ifs
  · exact (handledMessages_append ..).trans (List.append_nil _)
  · rfl

theorem GreeterIPC.handled_record (g : GreeterIPC) {records : List Record}
    (h : handledMessages records = []) :
    handledMessages (g.record records).log = handledMessages g.log := by
  rw [GreeterIPC.record, handledMessages_append, h, List.append_nil]

theorem GreeterIPC.handled_submitPassword (g : GreeterIPC) (password : String) :
    handledMessages (g.submitPassword password).log = handledMessages g.log := by
  unfold GreeterIPC.submitPassword
  split_ifs
  · rfl
  · exact GreeterIPC.handled_sendJson _ _

theorem GreeterIPC.handled_dispatch (g : GreeterIPC) (message : JsonObject) :
    handledMessages (g.dispatch message).log = handledMessages g.log := by
  unfold GreeterIPC.dispatch
  split_ifs
  · simp only [GreeterIPC.handlePrompt]
    generalize (if field message "auth_message" = "" then _ else _) = status
    have hstatus : handledMessages ({ g with statusMessage := status }.record
        [.emitted .statusChanged]).log = handledMessages g.log :=
      GreeterIPC.handled_record { g with statusMessage := status } rfl
    split_ifs
    · exact (GreeterIPC.handled_submitPassword _ _).trans hstatus
    · exact (GreeterIPC.handled_record _ rfl).trans hstatus
    · exact (GreeterIPC.handled_sendJson _ _).trans hstatus
    · exact hstatus
  · unfold GreeterIPC.handleSuccess
    split_ifs
    · exact GreeterIPC.handled_record _ rfl
    · exact GreeterIPC.handled_record _ rfl
  · exact GreeterIPC.handled_record _ rfl
  · rfl

theorem GreeterIPC.handled_handleMessage (g : GreeterIPC) (message : JsonObject) :
    handledMessages (g.handleMessage message).log = handledMessages g.log ++ [message] := by
  rw [GreeterIPC.handleMessage, GreeterIPC.record, handledMessages_append,
    GreeterIPC.handled_dispatch]
  rfl

theorem GreeterIPC.handled_foldl {toJson : JsonObject → List UInt8} {objects : List JsonObject}
    (h : ∀ object ∈ objects, parse (toJson object) = some object) (g : GreeterIPC) :
    handledMessages ((objects.map toJson).foldl (GreeterIPC.handlePayload parse) g).log =
      handledMessages g.log ++ objects := by
  induction objects generalizing g with
  | nil => exact (List.append_nil _).symm
  | cons object objects ih =>
      rw [List.map_cons, List.foldl_cons, ih fun other hother =>
        h other (List.mem_cons_of_mem _ hother),
        GreeterIPC.handlePayload, h object (List.mem_cons_self ..),
          GreeterIPC.handled_handleMessage,
        List.append_assoc]
      rfl

end Reading

/-- **Decoding undoes encoding under any chunking.**  Objects that were framed are
handled, in order and each once, and nothing is left in the buffer; and whatever bytes
arrive, the whole state depends on their concatenation only. -/
theorem receive_framed (parse : List UInt8 → Option JsonObject) (toJson : JsonObject → List UInt8)
    {g : GreeterIPC} (hsocket : g.socket = .connected) (hbuffer : g.readBuffer = []) :
    (∀ objects : List JsonObject,
      (∀ object ∈ objects, parse (toJson object) = some object ∧ 1 ≤ (toJson object).length ∧
        (toJson object).length ≤ maxPayloadLength) →
      ∀ chunks : List (List UInt8), chunks.flatten = objects.flatMap (jsonFrame toJson) →
        handledMessages (g.receive parse chunks).log = handledMessages g.log ++ objects ∧
          (g.receive parse chunks).readBuffer = []) ∧
    ∀ chunks chunks' : List (List UInt8), chunks.flatten = chunks'.flatten →
      g.receive parse chunks = g.receive parse chunks' := by
  have hincomplete : greetdFormat.front g.readBuffer = .incomplete := by rw [hbuffer]; rfl
  refine ⟨fun objects hobjects chunks hchunks => ?_, fun chunks chunks' hchunks => ?_⟩
  · have hframes : objects.flatMap (jsonFrame toJson) =
        (objects.map toJson).flatMap greetdFormat.frame := by
      rw [List.flatMap_map]
      rfl
    have hpayloads : ∀ payload ∈ objects.map toJson,
        payload ≠ [] ∧ payload.length ≤ greetdFormat.limit := by
      simp only [List.forall_mem_map]
      intro object hobject
      obtain ⟨-, hpos, hlimit⟩ := hobjects object hobject
      exact ⟨List.length_pos_iff.mp hpos, hlimit⟩
    rw [GreeterIPC.receive_eq hsocket hincomplete, hbuffer, List.nil_append, hchunks, hframes,
      Framing.Format.read_flatMap_frame hpayloads (by decide)]
    exact ⟨GreeterIPC.handled_foldl (fun object hobject => (hobjects object hobject).1) g, rfl⟩
  · rw [GreeterIPC.receive_eq hsocket hincomplete,
      GreeterIPC.receive_eq hsocket hincomplete, hchunks]

/-- A connected greeter that has read everything so far. -/
def awaitingReply : GreeterIPC :=
  { GreeterIPC.new with socket := .connected, phase := .creatingSession }

def successMessage : JsonObject := [("type", .str "success")]

/-- The text `{"type":"success"}`. -/
def successText : List UInt8 :=
  [123, 34, 116, 121, 112, 101, 34, 58, 34, 115, 117, 99, 99, 101, 115, 115, 34, 125]

/-- A `success` of which the first two bytes of the length arrive first. -/
theorem receive_framed_success :
    handledMessages (awaitingReply.receive (fun text =>
      if text = successText then some successMessage
        else none) [[18, 0], [0, 0] ++ successText]).log = [successMessage] := by
  have hframed :=
    receive_framed (fun text => if text = successText then some successMessage else none)
    (fun _ => successText) (g := awaitingReply) rfl rfl
  refine (hframed.1 [successMessage] ?_ _ ?_).1
  · rintro object hobject
    obtain rfl := List.mem_singleton.mp hobject
    exact ⟨if_pos rfl, by decide, by decide⟩
  · decide

end NiraOS.Greeter
