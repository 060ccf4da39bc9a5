import NiraOS.AiDaemon.OneModel

/-!
# Ledgers

What a generation owes to its client.  The `Ledger` of a task is its part of the
shared state: the two channels it stands between and what was produced for it.
`Sound` is what holds between the worker and the token channel, `At` what holds
between the token channel and the client, counter by counter.  `At.next` is the
task's own step, `At.outside` covers what the worker and the client do.
-/

namespace NiraOS.AiDaemon

/-! ## Ledgers -/

structure Ledger where
  call : Option Call
  submitted : Bool
  produced : List String
  tokens : Channel Item
  responses : Channel (Except Status AiResponse)

def State.ledger (s : State) (t : TaskId) : Ledger :=
  ⟨s.calls t, s.submitted t, s.produced t, s.tokens t, s.responses t⟩

def pieces (texts : List String) : List Item := texts.map piece

/-- The responses that carry these pieces. -/
def pieceResponses (texts : List String) : List (Except Status AiResponse) :=
  texts.mapIdx fun i text => .ok ⟨text, false, i + 1, none⟩

def concat (texts : List String) : String := texts.foldl (· ++ ·) ""

/-- The last item of a stream: the end of the text, or an error. -/
def IsLast : Except Status AiResponse → Prop
  | .ok response => response.isFinished = true
  | .error _ => True

@[simp] theorem length_pieces (texts : List String) : (pieces texts).length = texts.length :=
  List.length_map ..

@[simp] theorem pieces_append (texts : List String) (text : String) :
    pieces (texts ++ [text]) = pieces texts ++ [piece text] :=
  List.map_append ..

@[simp] theorem pieceResponses_append (texts : List String) (text : String) :
    pieceResponses (texts ++ [text]) =
      pieceResponses texts ++ [.ok ⟨text, false, texts.length + 1, none⟩] :=
  List.mapIdx_concat

@[simp] theorem concat_append (texts : List String) (text : String) :
    concat (texts ++ [text]) = concat texts ++ text := by
  simp [concat]

namespace Ledger

variable (l : Ledger)

/-- No `Generate` command was accepted. -/
structure Idle : Prop where
  submitted : l.submitted = false
  produced : l.produced = []

/-- The token channel has all pieces, and its terminal item. -/
def Complete : Prop :=
  l.tokens.senderOpen = false ∧
    ∃ last : Item, last.IsTerminal ∧ l.tokens.sent = pieces l.produced ++ [last]

/-- **Between the worker and the token channel.**  Every piece produced is in the
channel, in order; the worker leaves the channel with its terminal item in it, or
because the task closed it. -/
def Sound : Prop :=
  if l.submitted = true then
    (l.tokens.senderOpen = true ∧ l.tokens.sent = pieces l.produced) ∨
      (l.tokens.senderOpen = false ∧ (l.Complete ∨ l.tokens.receiverOpen = false))
  else l.produced = []

/-- The pieces the task has taken from its token channel. -/
def seen : List String := l.produced.take l.tokens.received

/-- The task reads the token channel. -/
structure Reading : Prop where
  submitted : l.submitted = true
  receiverOpen : l.tokens.receiverOpen = true

/-- The whole text was read, and the terminal item. -/
structure Read : Prop where
  submitted : l.submitted = true
  complete : l.Complete
  caughtUp : ¬ l.tokens.Waiting

/-- The client was sent some of the pieces, in order and without gaps. -/
def Streaming : Prop := ∃ texts, texts <+: l.produced ∧ l.responses.sent = pieceResponses texts

/-- An accepted command has come to its terminal item. -/
def Settled : Prop := l.submitted = true → l.Read

/-- The client was sent all pieces and one terminal item; nothing is produced any more. -/
structure Delivered : Prop where
  settled : l.Settled
  sent : ∃ last, IsLast last ∧ l.responses.sent = pieceResponses l.produced ++ [last]

/-- The stream is over. -/
def Ended : Prop :=
  l.Delivered ∨ l.responses.receiverOpen = false ∧ l.Streaming

/-- The answer to a `Generate`: the text of a quick action, or what
`dispatch_tool_if_needed` makes of the text of all pieces. -/
inductive Answers (cfg : Config) (req : GenerateRequest) (response : AiResponse) : Prop
  | quickAction (hquick : isQuickAction req.prompt = true) (hidle : l.Idle) (reply : ActionReply)
      (hresponse : response = ⟨quickActionText reply, true, 0, none⟩)
  | generated (hquick : isQuickAction req.prompt = false) (hread : l.Read) (reply : ActionReply)
      (hresponse : response =
        ⟨(dispatchToolIfNeeded cfg.parseToolRequest (concat l.produced) reply).1, true,
          l.produced.length,
            (dispatchToolIfNeeded cfg.parseToolRequest (concat l.produced) reply).2⟩)

/-! ## Between the token channel and the client -/

def AtGenerate (cfg : Config) (req : GenerateRequest) : GeneratePc → Prop
  | .checkMode | .checkState | .refuse _ => l.Idle
  | .quickAction => isQuickAction req.prompt = true ∧ l.Idle
  | .enrich | .lock _ | .send _ => isQuickAction req.prompt = false ∧ l.Idle
  | .unlock => isQuickAction req.prompt = false ∧ l.Reading ∧ l.tokens.received = 0
  | .collect fullText tokensUsed => isQuickAction req.prompt = false ∧ l.Reading ∧
      fullText = concat l.seen ∧ tokensUsed = l.seen.length
  | .dispatch tool fullText tokensUsed => isQuickAction req.prompt = false ∧ l.Read ∧
      fullText = concat l.produced ∧ tokensUsed = l.produced.length ∧
      toolRequest cfg.parseToolRequest fullText = some tool
  | .clock response | .touch response _ => l.Answers cfg req response

def AtServe : ServePc → Prop
  | .quickReply _ | .fail _ | .lock .. | .send .. | .refuse _ => l.Idle ∧ l.responses.sent = []
  | .unlock => l.Reading ∧ l.tokens.received = 0 ∧ l.responses.sent = []
  | .receive tokensUsed => l.Reading ∧ l.tokens.received ≤ l.produced.length ∧
      l.responses.sent = pieceResponses l.seen ∧ tokensUsed = l.seen.length
  | .forward token tokensUsed => l.Reading ∧
      if token.isFinished = true then l.Read ∧ l.responses.sent = pieceResponses l.produced
      else l.tokens.received ≤ l.produced.length ∧ ∃ texts, l.seen = texts ++ [token.text] ∧
        l.responses.sent = pieceResponses texts ∧ tokensUsed = texts.length + 1
  | .forwardError _ => l.Read ∧ l.responses.sent = pieceResponses l.produced
  | .refused | .clock | .touch _ => l.Ended

/-- What is owed at the end of a call. -/
def Owed (cfg : Config) : Outcome → Prop
  | .generated (.ok response) => ∃ req, l.call = some (.generate req) ∧ l.Answers cfg req response
  | .generated (.error _) => l.Settled
  | .streamEnded => l.Ended
  | .ensured _ | .unloaded _ | .modeSet .. | .timeoutSet .. | .streamRefused _ => l.Idle

def At (cfg : Config) : Pc → Prop
  | .unborn => l.Idle ∧ l.responses.sent = []
  | .ensure (.generate req) _ => l.call = some (.generate req) ∧ l.Idle
  | .ensure (.stream ..) _ => l.Idle ∧ l.responses.sent = []
  | .ensure .plain _ | .ensure .setMode _ | .unload .. | .watchdog _ | .setMode _ | .modeSet _
  | .setTimeout _ | .stream .. => l.Idle
  | .generate req stage => l.call = some (.generate req) ∧ l.AtGenerate cfg req stage
  | .serve stage => l.AtServe stage
  | .returning outcome => l.Owed cfg outcome
  | .answered outcome => (l.tokens.receiverOpen = false ∧ l.responses.senderOpen = false) ∧
      l.Owed cfg outcome
  | .cancelled => l.tokens.receiverOpen = false

end Ledger

/-! ## What an operation does to the ledger of its task -/

/-- The operation answers `a` and takes the ledger `l` of its task to `l'`. -/
def Op.Effect (l l' : Ledger) : (op : Op) → op.Answer → Prop
  | .sendGenerate .., .ok () =>
      l' = { l with submitted := true, tokens := .fresh 64 channelCapacity_pos }
  | .receiveToken, some item => ∃ h : l.tokens.Waiting, item = l.tokens.front h ∧
      l' = { l with tokens := l.tokens.pop h }
  | .receiveToken, none => ¬ l.tokens.Waiting ∧ l.tokens.senderOpen = false ∧ l' = l
  | .openStream capacity h, _ => l' = { l with responses := .fresh capacity h }
  | .sendResponse response, true => ∃ h : l.responses.Room,
      l' = { l with responses := l.responses.push response h }
  | .sendResponse _, false => l.responses.receiverOpen = false ∧ l' = l
  | .close, _ => l' = { l with
      tokens := l.tokens.closeReceiver
      responses := l.responses.closeSender }
  | _, _ => l' = l

section Effect

variable {s s₁ : State} {t : TaskId} {o : Oracle}

theorem goto_ledger (s : State) (t t' : TaskId) (pc : Pc) : (s.goto t pc).ledger t' = s.ledger t' :=
  rfl

/-- **The ledgers across an operation.** -/
theorem perform_ledger {op : Op} {a : op.Answer} (h : perform o s t op = some (a, s₁)) :
    op.Effect (s.ledger t) (s₁.ledger t) a ∧ ∀ t', t' ≠ t → s₁.ledger t' = s.ledger t' := by
  cases op with
  | lockEngine =>
      simp only [perform] at h
      split_ifs at h
      cases h
      exact ⟨rfl, fun _ _ => rfl⟩
  | createBackend =>
      simp only [perform] at h
      split at h <;> cases h <;> exact ⟨rfl, fun _ _ => rfl⟩
  | activeModel | awaitReply =>
      obtain ⟨_, -, heq⟩ := Option.map_eq_some_iff.mp h
      cases heq
      exact ⟨rfl, fun _ _ => rfl⟩
  | sendLoad | sendUnload =>
      obtain ⟨e, -, ⟨-, rfl, -⟩ | ⟨-, -, rfl⟩⟩ := send_eq h <;> exact ⟨rfl, fun _ _ => rfl⟩
  | clearSlot =>
      cases h
      unfold State.clearSlot
      split <;> exact ⟨rfl, fun _ _ => rfl⟩
  | sendGenerate prompt maxTokens =>
      obtain ⟨rfl, error, rfl⟩ | ⟨e, -, -, rfl, -, rfl⟩ := sendGenerate_eq h
      · exact ⟨rfl, fun _ _ => rfl⟩
      · refine ⟨?_, fun t' ht' => ?_⟩
        · simp [Op.Effect, State.ledger]
        · simp [State.ledger, ht']
  | receiveToken =>
      simp only [perform, State.receiveToken] at h
      split_ifs at h with hwaiting hclosed
      · cases h
        exact ⟨⟨hwaiting, rfl, by simp [State.ledger]⟩, fun t' ht' => by simp [State.ledger, ht']⟩
      · cases h
        exact ⟨⟨hwaiting, hclosed, rfl⟩, fun _ _ => rfl⟩
  | openStream capacity hcapacity =>
      cases h
      exact ⟨by simp [Op.Effect, State.ledger], fun t' ht' => by simp [State.ledger, ht']⟩
  | sendResponse response =>
      simp only [perform, State.sendResponse] at h
      split_ifs at h with hclosed hroom
      · cases h
        exact ⟨⟨hclosed, rfl⟩, fun _ _ => rfl⟩
      · cases h
        exact ⟨⟨hroom, by simp [State.ledger]⟩, fun t' ht' => by simp [State.ledger, ht']⟩
  | close =>
      cases h
      exact ⟨by simp [Op.Effect, State.ledger, State.closeEnds],
        fun t' ht' => by simp [State.ledger, State.closeEnds, ht']⟩
  | halt => cases h
  | _ => cases h; exact ⟨rfl, fun _ _ => rfl⟩

end Effect

namespace Ledger

section Own

variable {cfg : Config} {l l' : Ledger}

theorem Idle.not_submitted (h : l.Idle) : l.submitted ≠ true := by simp [h.submitted]

theorem Idle.settled (h : l.Idle) : l.Settled := fun hsub => absurd hsub h.not_submitted

theorem streaming_of_nil (hsent : l.responses.sent = []) : l.Streaming :=
  ⟨[], List.nil_prefix, hsent⟩

theorem Sound.of_submitted (h : l.Sound) (hsub : l.submitted = true) :
    (l.tokens.senderOpen = true ∧ l.tokens.sent = pieces l.produced) ∨
      (l.tokens.senderOpen = false ∧ (l.Complete ∨ l.tokens.receiverOpen = false)) := by
  rwa [Sound, if_pos hsub] at h

/-- While the task reads, the channel has all pieces produced so far, and at most
the terminal item more. -/
theorem Sound.reading (h : l.Sound) (hread : l.Reading) :
    (l.tokens.senderOpen = true ∧ l.tokens.sent = pieces l.produced) ∨ l.Complete := by
  refine (h.of_submitted hread.submitted).imp_right ?_
  rintro ⟨-, hcomplete | hclosed⟩
  · exact hcomplete
  · rw [hread.receiverOpen] at hclosed
    cases hclosed

/-- The next item is the next piece, or the terminal item after all of them. -/
theorem Sound.front (h : l.Sound) (hread : l.Reading) (hwaiting : l.tokens.Waiting) :
    (∃ hlt : l.tokens.received < l.produced.length,
        l.tokens.front hwaiting = piece l.produced[l.tokens.received]) ∨
      ({ l with tokens := l.tokens.pop hwaiting } : Ledger).Read ∧
        l.tokens.received = l.produced.length ∧ (l.tokens.front hwaiting).IsTerminal := by
  have hlt : l.tokens.received < l.tokens.sent.length := hwaiting
  rcases h.reading hread with ⟨-, hsent⟩ | hcomplete
  · left
    have hlt' : l.tokens.received < l.produced.length := by simpa [hsent] using hlt
    exact ⟨hlt', by simp [Channel.front, hsent, pieces]⟩
  · have ⟨_, last, hlast, hsent⟩ := hcomplete
    by_cases hlt' : l.tokens.received < l.produced.length
    · exact .inl ⟨hlt', by simp [Channel.front, hsent, pieces, List.getElem_append_left, hlt']⟩
    · have heq : l.tokens.received = l.produced.length := by
        simp only [hsent, List.length_append, length_pieces, List.length_singleton] at hlt
        omega
      refine .inr ⟨⟨hread.submitted, hcomplete, ?_⟩, heq, ?_⟩
      · simp [Channel.Waiting, hsent, heq]
      · simpa [Channel.front, hsent, heq] using hlast

theorem seen_pop (h : l.tokens.Waiting) (hlt : l.tokens.received < l.produced.length) :
    ({ l with tokens := l.tokens.pop h } : Ledger).seen =
      l.seen ++ [l.produced[l.tokens.received]] :=
  List.take_succ_eq_append_getElem hlt

theorem prefix_of_seen {texts : List String} {text : String} (h : l.seen = texts ++ [text]) :
    texts <+: l.produced := by
  have htake := List.take_prefix l.tokens.received l.produced
  rw [← seen, h] at htake
  exact (List.prefix_append ..).trans htake

/-- A channel found empty and without a sender had everything. -/
theorem Sound.exhausted (h : l.Sound) (hread : l.Reading) (hwaiting : ¬ l.tokens.Waiting)
    (hclosed : l.tokens.senderOpen = false) :
    l.Complete ∧ l.produced.length < l.tokens.received := by
  rcases h.reading hread with ⟨hopen, -⟩ | hcomplete
  · rw [hopen] at hclosed
    cases hclosed
  · have ⟨_, last, hlast, hsent⟩ := hcomplete
    refine ⟨hcomplete, ?_⟩
    simp only [Channel.Waiting, hsent, List.length_append, length_pieces,
      List.length_singleton] at hwaiting
    omega

/-! ### The steps of the functions -/

theorem At.generate_next {req : GenerateRequest} {stage : GeneratePc}
    {a : (generate cfg req stage).op.Answer} (h : l.At cfg (.generate req stage)) (hsound : l.Sound)
    (heffect : (generate cfg req stage).op.Effect l l' a) :
    l'.At cfg ((generate cfg req stage).next a) := by
  obtain ⟨hcall, h⟩ := h
  cases stage with
  | checkMode =>
      obtain rfl : l' = l := heffect
      simp only [generate]
      split_ifs <;> exact ⟨hcall, h⟩
  | checkState =>
      obtain rfl : l' = l := heffect
      simp only [generate]
      split_ifs
      · exact ⟨hcall, h⟩
      · exact Idle.settled h
  | quickAction =>
      obtain rfl : l' = l := heffect
      exact ⟨req, hcall, .quickAction h.1 h.2 a rfl⟩
  | enrich =>
      obtain rfl : l' = l := heffect
      exact ⟨hcall, h⟩
  | lock prompt =>
      obtain rfl : l' = l := heffect
      simp only [generate]
      cases (a : Bool) with
      | true => exact ⟨hcall, h⟩
      | false => exact ⟨hcall, h.2⟩
  | send prompt =>
      rcases (a : Except String Unit) with error | ⟨⟩
      · obtain rfl : l' = l := heffect
        exact ⟨hcall, h.2⟩
      · obtain rfl := heffect
        exact ⟨hcall, h.1, ⟨rfl, rfl⟩, rfl⟩
  | unlock =>
      obtain rfl : l' = l := heffect
      obtain ⟨hquick, hread, hreceived⟩ := h
      exact ⟨hcall, hquick, hread, by simp [seen, hreceived, concat], by simp [seen, hreceived]⟩
  | refuse status =>
      obtain rfl : l' = l := heffect
      exact Idle.settled h
  | collect fullText tokensUsed =>
      obtain ⟨hquick, hread, rfl, rfl⟩ := h
      rcases (a : Option Item) with _ | item
      · obtain ⟨hwaiting, hclosed, rfl⟩ := heffect
        obtain ⟨hcomplete, hlt⟩ := hsound.exhausted hread hwaiting hclosed
        have hall : l'.seen = l'.produced := List.take_of_length_le hlt.le
        have hdone : l'.Read := ⟨hread.submitted, hcomplete, hwaiting⟩
        simp only [generate, afterCollect, hall]
        split
        next tool htool => exact ⟨hcall, hquick, hdone, rfl, rfl, htool⟩
        next htool =>
          refine ⟨hcall, .generated hquick hdone .unreachable ?_⟩
          simp only [dispatchToolIfNeeded, htool]
      · obtain ⟨hwaiting, rfl, rfl⟩ := heffect
        have hread' : ({ l with tokens := l.tokens.pop hwaiting } : Ledger).Reading :=
          ⟨hread.1, hread.2⟩
        rcases hsound.front hread hwaiting with ⟨hlt, hfront⟩ | ⟨hdone, heq, hlast⟩
        · rw [hfront]
          refine ⟨hcall, hquick, hread', ?_, ?_⟩ <;> rw [seen_pop hwaiting hlt]
          · rw [concat_append]
          · simp
        · have hseen : ({ l with tokens := l.tokens.pop hwaiting } : Ledger).seen = l.seen := by
            rw [seen, seen, List.take_of_length_le (Nat.le_of_eq heq.symm)]
            exact List.take_of_length_le (by simp [heq])
          generalize l.tokens.front hwaiting = last at hlast
          rcases last with error | token
          · exact fun _ => hdone
          · have hfinished : token.isFinished = true := hlast
            simp only [generate, hfinished, if_true]
            exact ⟨hcall, hquick, hread', by rw [hseen], by rw [hseen]⟩
  | dispatch tool fullText tokensUsed =>
      obtain rfl : l' = l := heffect
      obtain ⟨hquick, hdone, rfl, rfl, htool⟩ := h
      refine ⟨hcall, .generated hquick hdone a ?_⟩
      simp only [dispatchToolIfNeeded, htool]
  | clock response =>
      obtain rfl : l' = l := heffect
      exact ⟨hcall, h⟩
  | touch response now =>
      obtain rfl : l' = l := heffect
      exact ⟨req, hcall, h⟩

theorem At.afterEnsure {caller : EnsureCaller} {stage : EnsurePc}
    (h : l.At cfg (.ensure caller stage))
    (result : Except String Unit) : l.At cfg (afterEnsure caller result) := by
  cases caller with
  | plain | setMode => rcases result with error | ⟨⟩ <;> exact h
  | generate req =>
      obtain ⟨hcall, hidle⟩ := h
      rcases result with error | ⟨⟩
      · exact hidle.settled
      · simp only [AiDaemon.afterEnsure, generateLoaded]
        split_ifs with hquick hactive
        · exact ⟨hcall, hquick, hidle⟩
        · exact ⟨hcall, by simpa using hquick, hidle⟩
        · exact ⟨hcall, by simpa using hquick, hidle⟩
  | stream prompt maxTokens => rcases result with error | ⟨⟩ <;> exact h

theorem At.ensure_next {caller : EnsureCaller} {stage : EnsurePc}
    {a : (ensureModelLoaded caller stage).op.Answer} (h : l.At cfg (.ensure caller stage))
    (heffect : (ensureModelLoaded caller stage).op.Effect l l' a) :
    l'.At cfg ((ensureModelLoaded caller stage).next a) := by
  -- what holds at a stage holds at every stage
  have hstage : ∀ stage', l.At cfg (.ensure caller stage') := by
    intro stage'
    cases caller <;> exact h
  cases stage with
  | create | load | reply =>
      obtain rfl : l' = l := heffect
      rcases (a : Except String Unit) with error | ⟨⟩ <;> exact hstage _
  | fail error | writeReady =>
      obtain rfl : l' = l := heffect
      exact h.afterEnsure _
  | _ =>
      obtain rfl : l' = l := heffect
      exact hstage _

theorem At.unload_next {fromWatchdog : Bool} {stage : UnloadPc}
    {a : (unloadModel fromWatchdog stage).op.Answer} (h : l.Idle)
    (heffect : (unloadModel fromWatchdog stage).op.Effect l l' a) :
    l'.At cfg ((unloadModel fromWatchdog stage).next a) := by
  cases stage with
  | send | reply =>
      obtain rfl : l' = l := heffect
      rcases (a : Except String Unit) with error | ⟨⟩ <;> exact h
  | unlock | fail error =>
      obtain rfl : l' = l := heffect
      cases fromWatchdog <;> exact h
  | _ =>
      obtain rfl : l' = l := heffect
      exact h

theorem At.watchdog_next {stage : WatchdogPc} {a : (inactivityWatchdog stage).op.Answer}
    (h : l.Idle)
    (heffect : (inactivityWatchdog stage).op.Effect l l' a) :
    l'.At cfg ((inactivityWatchdog stage).next a) := by
  cases stage with
  | sleep => nomatch (a : Empty)
  | state =>
      obtain rfl : l' = l := heffect
      simp only [inactivityWatchdog]
      split_ifs <;> exact h
  | _ =>
      obtain rfl : l' = l := heffect
      exact h

theorem At.stream_next {req : GenerateRequest} {stage : StreamPc}
    {a : (streamGenerate req stage).op.Answer} (h : l.Idle)
    (heffect : (streamGenerate req stage).op.Effect l l' a) :
    l'.At cfg ((streamGenerate req stage).next a) := by
  cases stage with
  | checkState =>
      obtain rfl : l' = l := heffect
      simp only [streamGenerate]
      split_ifs <;> exact h
  | openQuick text | accept prompt =>
      obtain rfl := heffect
      exact ⟨⟨h.1, h.2⟩, rfl⟩
  | _ =>
      obtain rfl : l' = l := heffect
      exact h

/-- Sending the last response, when all pieces were sent. -/
theorem Ended.of_sendResponse (response : Except Status AiResponse) (sent : Bool)
    (hlast : IsLast response) (hsettled : l.Settled)
    (hsent : l.responses.sent = pieceResponses l.produced)
    (heffect : (Op.sendResponse response).Effect l l' sent) : l'.Ended := by
  cases sent with
  | true =>
      obtain ⟨hroom, rfl⟩ := heffect
      exact .inl ⟨fun hsub => ⟨hsub, (hsettled hsub).complete, (hsettled hsub).caughtUp⟩, response,
        hlast, by simp [hsent]⟩
  | false =>
      obtain ⟨hclosed, rfl⟩ := heffect
      exact .inr ⟨hclosed, l'.produced, List.prefix_rfl, hsent⟩

theorem At.serve_next {stage : ServePc} {a : (serveStream stage).op.Answer} (h : l.AtServe stage)
    (hsound : l.Sound) (heffect : (serveStream stage).op.Effect l l' a) :
    l'.At cfg ((serveStream stage).next a) := by
  cases stage with
  | quickReply text | fail status | refuse status =>
      obtain ⟨hidle, hsent⟩ := h
      have hnone : l.responses.sent = pieceResponses l.produced := by
        rw [hsent, hidle.produced]
        rfl
      refine Ended.of_sendResponse _ a ?_ hidle.settled hnone heffect
      trivial
  | lock prompt maxTokens =>
      obtain rfl : l' = l := heffect
      cases (a : Bool) <;> exact h
  | send prompt maxTokens =>
      rcases (a : Except String Unit) with error | ⟨⟩
      · obtain rfl : l' = l := heffect
        exact h
      · obtain rfl := heffect
        exact ⟨⟨rfl, rfl⟩, rfl, h.2⟩
  | unlock =>
      obtain rfl : l' = l := heffect
      obtain ⟨hread, hreceived, hsent⟩ := h
      exact ⟨hread, by simp [hreceived], by simp [hsent, seen, hreceived, pieceResponses],
        by simp [seen, hreceived]⟩
  | receive tokensUsed =>
      obtain ⟨hread, hle, hsent, rfl⟩ := h
      rcases (a : Option Item) with _ | item
      · obtain ⟨hwaiting, hclosed, rfl⟩ := heffect
        obtain ⟨-, hlt⟩ := hsound.exhausted hread hwaiting hclosed
        exact absurd hle (Nat.not_le_of_lt hlt)
      · obtain ⟨hwaiting, rfl, rfl⟩ := heffect
        have hread' : ({ l with tokens := l.tokens.pop hwaiting } : Ledger).Reading :=
          ⟨hread.1, hread.2⟩
        rcases hsound.front hread hwaiting with ⟨hlt, hfront⟩ | ⟨hdone, heq, hlast⟩
        · rw [hfront]
          exact ⟨hread', hlt, l.seen, seen_pop hwaiting hlt, hsent, rfl⟩
        · have hall : l.seen = l.produced := List.take_of_length_le (Nat.le_of_eq heq.symm)
          rw [hall] at hsent
          generalize l.tokens.front hwaiting = last at hlast
          rcases last with error | token
          · exact ⟨hdone, hsent⟩
          · have hfinished : token.isFinished = true := hlast
            refine ⟨hread', ?_⟩
            rw [if_pos hfinished]
            exact ⟨hdone, hsent⟩
  | forward token tokensUsed =>
      obtain ⟨hread, h⟩ := h
      split_ifs at h with hfinished
      · have hended : l'.Ended := Ended.of_sendResponse
          (.ok ⟨token.text, token.isFinished, tokensUsed, none⟩) a hfinished (fun _ => h.1)
          h.2 heffect
        simp only [serveStream, hfinished, Bool.true_eq_false, and_false, if_false]
        exact hended
      · obtain ⟨hle, texts, hseen, hsent, rfl⟩ := h
        cases (a : Bool) with
        | true =>
            obtain ⟨hroom, rfl⟩ := heffect
            simp only [serveStream, hfinished]
            refine ⟨⟨hread.1, hread.2⟩, hle, ?_, ?_⟩
            · change l.responses.sent ++ _ = pieceResponses l.seen
              simp [hseen, hsent]
            · change _ = l.seen.length
              simp [hseen]
        | false =>
            obtain ⟨hclosed, rfl⟩ := heffect
            exact .inr ⟨hclosed, texts, prefix_of_seen hseen, hsent⟩
  | forwardError status =>
      exact Ended.of_sendResponse (.error status) a trivial
        (fun _ => h.1) h.2 heffect
  | refused | clock | touch now =>
      obtain rfl : l' = l := heffect
      exact h

end Own

/-! ### What others do -/

/-- Nothing that was promised is taken back. -/
structure Extends (l l' : Ledger) : Prop where
  call : l'.call = l.call
  submitted : l'.submitted = l.submitted
  sent : l'.responses.sent = l.responses.sent
  client : l.responses.receiverOpen = false → l'.responses.receiverOpen = false
  produced : l.produced <+: l'.produced
  settled : l.submitted = false ∨ l.Complete → l'.produced = l.produced
  complete : l.Complete → l'.Complete
  caughtUp : l.Complete → ¬ l.tokens.Waiting → ¬ l'.tokens.Waiting

/-- What the worker and the client do to a ledger. -/
structure Outside (l l' : Ledger) : Prop extends Extends l l' where
  received : l'.tokens.received = l.tokens.received
  receiverOpen : l'.tokens.receiverOpen = l.tokens.receiverOpen
  seen : l'.seen = l.seen
  senderOpen : l'.responses.senderOpen = l.responses.senderOpen

section Others

variable {cfg : Config} {l l' : Ledger}

theorem Outside.refl (l : Ledger) : Outside l l :=
  ⟨⟨rfl, rfl, rfl, id, List.prefix_rfl, fun _ => rfl, id, fun _ => id⟩, rfl, rfl, rfl, rfl⟩

theorem Idle.extend (h : l.Idle) (hext : Extends l l') : l'.Idle :=
  ⟨hext.submitted.trans h.submitted, (hext.settled (.inl h.submitted)).trans h.produced⟩

theorem Read.extend (h : l.Read) (hext : Extends l l') : l'.Read :=
  ⟨hext.submitted.trans h.submitted, hext.complete h.complete, hext.caughtUp h.complete h.caughtUp⟩

theorem Settled.extend (h : l.Settled) (hext : Extends l l') : l'.Settled :=
  fun hsub => (h (hext.submitted.symm.trans hsub)).extend hext

theorem Streaming.extend (h : l.Streaming) (hext : Extends l l') : l'.Streaming := by
  obtain ⟨texts, hprefix, hsent⟩ := h
  exact ⟨texts, hprefix.trans hext.produced, hext.sent.trans hsent⟩

theorem Delivered.extend (h : l.Delivered) (hext : Extends l l') : l'.Delivered := by
  have hproduced : l'.produced = l.produced := by
    refine hext.settled ?_
    cases hsub : l.submitted with
    | false => exact .inl rfl
    | true => exact .inr (h.settled hsub).complete
  obtain ⟨last, hlast, hsent⟩ := h.sent
  exact ⟨h.settled.extend hext, last, hlast, by rw [hext.sent, hsent, hproduced]⟩

theorem Ended.extend (h : l.Ended) (hext : Extends l l') : l'.Ended :=
  h.imp (·.extend hext) fun h => ⟨hext.client h.1, h.2.extend hext⟩

theorem Answers.extend {req : GenerateRequest} {response : AiResponse}
    (h : l.Answers cfg req response) (hext : Extends l l') : l'.Answers cfg req response := by
  cases h with
  | quickAction hquick hidle reply hresponse =>
      exact .quickAction hquick (hidle.extend hext) reply hresponse
  | generated hquick hread reply hresponse =>
      refine .generated hquick (hread.extend hext) reply ?_
      rw [hext.settled (.inr hread.complete)]
      exact hresponse

theorem Owed.extend {outcome : Outcome} (h : l.Owed cfg outcome) (hext : Extends l l') :
    l'.Owed cfg outcome := by
  cases outcome with
  | generated result =>
      rcases result with status | response
      · exact Settled.extend h hext
      · obtain ⟨req, hcall, hanswers⟩ := h
        exact ⟨req, hext.call.trans hcall, hanswers.extend hext⟩
  | streamEnded => exact Ended.extend h hext
  | _ => exact Idle.extend h hext

theorem Reading.outside (h : l.Reading) (hout : Outside l l') : l'.Reading :=
  ⟨hout.submitted.trans h.submitted, hout.receiverOpen.trans h.receiverOpen⟩

theorem AtGenerate.outside {req : GenerateRequest} {stage : GeneratePc}
    (h : l.AtGenerate cfg req stage) (hout : Outside l l') : l'.AtGenerate cfg req stage := by
  have hext := hout.toExtends
  cases stage with
  | checkMode | checkState | refuse status => exact Idle.extend h hext
  | quickAction | enrich | lock prompt | send prompt => exact ⟨h.1, h.2.extend hext⟩
  | unlock => exact ⟨h.1, h.2.1.outside hout, hout.received.trans h.2.2⟩
  | collect fullText tokensUsed =>
      obtain ⟨hquick, hread, htext, hused⟩ := h
      exact ⟨hquick, hread.outside hout, by rw [hout.seen, htext], by rw [hout.seen, hused]⟩
  | dispatch tool fullText tokensUsed =>
      obtain ⟨hquick, hread, htext, hused, htool⟩ := h
      have hsame := hext.settled (.inr hread.complete)
      exact ⟨hquick, hread.extend hext, by rw [hsame, htext], by rw [hsame, hused], htool⟩
  | clock response | touch response now => exact Answers.extend h hext

theorem AtServe.outside {stage : ServePc} (h : l.AtServe stage) (hout : Outside l l') :
    l'.AtServe stage := by
  have hext := hout.toExtends
  cases stage with
  | quickReply text | fail status | lock prompt maxTokens | send prompt maxTokens | refuse status =>
      exact ⟨h.1.extend hext, hext.sent.trans h.2⟩
  | unlock => exact ⟨h.1.outside hout, hout.received.trans h.2.1, hext.sent.trans h.2.2⟩
  | receive tokensUsed =>
      obtain ⟨hread, hle, hsent, hused⟩ := h
      refine ⟨hread.outside hout, ?_, ?_, by rw [hout.seen, hused]⟩
      · rw [hout.received]
        exact hle.trans hext.produced.length_le
      · rw [hext.sent, hout.seen, hsent]
  | forward token tokensUsed =>
      obtain ⟨hread, h⟩ := h
      refine ⟨hread.outside hout, ?_⟩
      split_ifs at h ⊢ with hfinished
      · exact ⟨h.1.extend hext, by rw [hext.sent, h.2, hext.settled (.inr h.1.complete)]⟩
      · obtain ⟨hle, texts, hseen, hsent, hused⟩ := h
        refine ⟨?_, texts, hout.seen.trans hseen, hext.sent.trans hsent, hused⟩
        rw [hout.received]
        exact hle.trans hext.produced.length_le
  | forwardError status =>
      exact ⟨h.1.extend hext, by rw [hext.sent, h.2, hext.settled (.inr h.1.complete)]⟩
  | refused | clock | touch now => exact Ended.extend h hext

theorem At.outside {pc : Pc} (h : l.At cfg pc) (hout : Outside l l') : l'.At cfg pc := by
  have hext := hout.toExtends
  cases pc with
  | unborn => exact ⟨h.1.extend hext, hext.sent.trans h.2⟩
  | ensure caller stage =>
      cases caller with
      | plain | setMode => exact Idle.extend h hext
      | generate req => exact ⟨hext.call.trans h.1, h.2.extend hext⟩
      | stream prompt maxTokens => exact ⟨h.1.extend hext, hext.sent.trans h.2⟩
  | generate req stage => exact ⟨hext.call.trans h.1, h.2.outside hout⟩
  | serve stage => exact AtServe.outside h hout
  | returning outcome => exact Owed.extend h hext
  | answered outcome =>
      refine ⟨⟨hout.receiverOpen.trans h.1.1, hout.senderOpen.trans h.1.2⟩, h.2.extend hext⟩
  | cancelled => exact hout.receiverOpen.trans h
  | _ => exact Idle.extend h hext

/-- The task closes its ends. -/
theorem Extends.close (l : Ledger) : Extends l
    { l with tokens := l.tokens.closeReceiver, responses := l.responses.closeSender } :=
  ⟨rfl, rfl, rfl, id, List.prefix_rfl, fun _ => rfl, id, fun _ => id⟩

/-- **A step of the task itself.** -/
theorem At.next {pc : Pc} {a : (program cfg pc).op.Answer} (h : l.At cfg pc) (hsound : l.Sound)
    (heffect : (program cfg pc).op.Effect l l' a) : l'.At cfg ((program cfg pc).next a) := by
  cases pc with
  | ensure caller stage => exact h.ensure_next heffect
  | unload fromWatchdog stage => exact At.unload_next h heffect
  | watchdog stage => exact At.watchdog_next h heffect
  | setMode mode =>
      obtain rfl : l' = l := heffect
      simp only [program]
      split_ifs <;> exact h
  | modeSet stage =>
      cases stage with
      | created =>
          obtain rfl : l' = l := heffect
          simp only [program]
          split_ifs <;> exact h
      | state =>
          obtain rfl : l' = l := heffect
          exact h
  | setTimeout secs =>
      obtain rfl : l' = l := heffect
      exact h
  | generate req stage => exact At.generate_next h hsound heffect
  | stream req stage => exact At.stream_next h heffect
  | serve stage => exact At.serve_next h hsound heffect
  | returning outcome =>
      obtain rfl := heffect
      exact ⟨⟨rfl, rfl⟩, Owed.extend h (.close l)⟩
  | unborn | answered outcome | cancelled => exact Empty.elim a

/-- Only a task that has generated nothing sends a `Generate` command. -/
theorem At.idle_of_sendGenerate {pc : Pc} {prompt : String} {maxTokens : ℕ} (h : l.At cfg pc)
    (hop : (program cfg pc).op = .sendGenerate prompt maxTokens) : l.Idle := by
  cases pc with
  | ensure caller stage => cases stage <;> cases hop
  | unload fromWatchdog stage => cases stage <;> cases hop
  | watchdog stage | modeSet stage => cases stage <;> cases hop
  | generate req stage =>
      cases stage with
      | send prompt => exact h.2.2
      | _ => cases hop
  | stream req stage => cases stage <;> cases hop
  | serve stage =>
      cases stage with
      | send prompt maxTokens => exact h.1
      | _ => cases hop
  | _ => cases hop

theorem Sound.close (h : l.Sound) (responses : Channel (Except Status AiResponse)) :
    Sound { l with tokens := l.tokens.closeReceiver, responses } := by
  unfold Sound at h ⊢
  split_ifs at h ⊢ with hsub
  · exact h.imp_right fun h => ⟨h.1, .inr rfl⟩
  · exact h

theorem Sound.effect {op : Op} {a : op.Answer} (h : l.Sound) (heffect : op.Effect l l' a)
    (hidle : ∀ prompt maxTokens, op = .sendGenerate prompt maxTokens → l.Idle) : l'.Sound := by
  cases op with
  | sendGenerate prompt maxTokens =>
      rcases (a : Except String Unit) with error | ⟨⟩
      · obtain rfl : l' = l := heffect
        exact h
      · obtain rfl := heffect
        unfold Sound
        rw [if_pos rfl]
        refine .inl ⟨rfl, ?_⟩
        rw [(hidle prompt maxTokens rfl).produced]
        rfl
  | receiveToken =>
      rcases (a : Option Item) with _ | item
      · obtain ⟨-, -, rfl⟩ := heffect
        exact h
      · obtain ⟨hwaiting, -, rfl⟩ := heffect
        exact h
  | openStream capacity hcapacity =>
      obtain rfl := heffect
      exact h
  | sendResponse response =>
      cases (a : Bool) with
      | true =>
          obtain ⟨hroom, rfl⟩ := heffect
          exact h
      | false =>
          obtain ⟨-, rfl⟩ := heffect
          exact h
  | close =>
      obtain rfl := heffect
      exact h.close _
  | _ =>
      obtain rfl : l' = l := heffect
      exact h

/-! ### What a worker does -/

/-- A worker produces `texts` for a task whose token channel becomes `tokens`. -/
inductive Fed (l : Ledger) : List String → Channel Item → Prop
  | sent (text : String) (hroom : l.tokens.Room) : Fed l [text] (l.tokens.push (piece text) hroom)
  | ended (last : Item) (hlast : last.IsTerminal) (hroom : l.tokens.Room) :
      Fed l [] (l.tokens.push last hroom).closeSender
  | lost (texts : List String) (hgone : l.tokens.receiverOpen = false) :
      Fed l texts l.tokens.closeSender

def feed (l : Ledger) (texts : List String) (tokens : Channel Item) : Ledger :=
  { l with produced := l.produced ++ texts, tokens }

theorem Sound.feed {texts : List String} {tokens : Channel Item} (h : l.Sound)
    (hsub : l.submitted = true) (hopen : l.tokens.senderOpen = true) (hfed : Fed l texts tokens) :
    (l.feed texts tokens).Sound := by
  have hsent : l.tokens.sent = pieces l.produced := by
    obtain ⟨-, hsent⟩ | ⟨hclosed, -⟩ := h.of_submitted hsub
    · exact hsent
    · rw [hopen] at hclosed
      cases hclosed
  unfold Sound
  rw [if_pos (show (l.feed texts tokens).submitted = true from hsub)]
  cases hfed with
  | sent text hroom => exact .inl ⟨hopen, by simp [Ledger.feed, hsent]⟩
  | ended last hlast hroom =>
      exact .inr ⟨rfl, .inl ⟨rfl, last, hlast, by simp [Ledger.feed, hsent]⟩⟩
  | lost texts hgone => exact .inr ⟨rfl, .inr hgone⟩

theorem Outside.feed {texts : List String} {tokens : Channel Item} (hsound : l.Sound)
    (hsub : l.submitted = true) (hopen : l.tokens.senderOpen = true) (hfed : Fed l texts tokens) :
    Outside l (l.feed texts tokens) := by
  have hnot : ¬ l.Complete := by
    rintro ⟨hclosed, -⟩
    rw [hopen] at hclosed
    cases hclosed
  have hle : l.tokens.received ≤ l.produced.length := by
    obtain ⟨-, hsent⟩ | ⟨hclosed, -⟩ := hsound.of_submitted hsub
    · simpa [hsent] using l.tokens.received_le
    · rw [hopen] at hclosed
      cases hclosed
  have hchannel : tokens.received = l.tokens.received ∧
      tokens.receiverOpen = l.tokens.receiverOpen := by
    cases hfed <;> exact ⟨rfl, rfl⟩
  refine ⟨⟨rfl, rfl, rfl, id, List.prefix_append .., ?_, fun hcomplete => absurd hcomplete hnot,
    fun hcomplete => absurd hcomplete hnot⟩,
    hchannel.1, hchannel.2, ?_, rfl⟩
  · rintro (hfalse | hcomplete)
    · rw [hsub] at hfalse
      cases hfalse
    · exact absurd hcomplete hnot
  · simp only [Ledger.seen, Ledger.feed, hchannel.1]
    exact List.take_append_of_le_length hle

end Others

end Ledger

/-! ## Accepted commands and streams -/

/-- The task is behind an accepted stream. -/
def Pc.accepted : Pc → Bool
  | .ensure (.stream ..) _ | .serve _ | .returning .streamEnded | .answered .streamEnded => true
  | _ => false

namespace Ledger

variable {cfg : Config} {l : Ledger} {pc : Pc}

theorem Ended.streaming (h : l.Ended) : l.Streaming ∨ l.Delivered := by
  rcases h with h | ⟨-, h⟩
  · exact .inr h
  · exact .inl h

/-- A client is at no time sent anything but pieces, in order, and one terminal item at the end. -/
theorem At.streaming (h : l.At cfg pc) (haccepted : pc.accepted = true) :
    l.Streaming ∨ l.Delivered := by
  cases pc with
  | ensure caller stage =>
      cases caller with
      | stream prompt maxTokens => exact .inl (streaming_of_nil h.2)
      | _ => cases haccepted
  | serve stage =>
      cases stage with
      | quickReply text | fail status | lock prompt maxTokens | send prompt maxTokens
          | refuse status =>
          exact .inl (streaming_of_nil h.2)
      | unlock => exact .inl (streaming_of_nil h.2.2)
      | receive tokensUsed => exact .inl ⟨l.seen, List.take_prefix .., h.2.2.1⟩
      | forward token tokensUsed =>
          obtain ⟨-, h⟩ := h
          split_ifs at h with hfinished
          · exact .inl ⟨l.produced, List.prefix_rfl, h.2⟩
          · obtain ⟨-, texts, hseen, hsent, -⟩ := h
            exact .inl ⟨texts, prefix_of_seen hseen, hsent⟩
      | forwardError status => exact .inl ⟨l.produced, List.prefix_rfl, h.2⟩
      | refused | clock | touch now => exact Ended.streaming h
  | returning outcome =>
      cases outcome with
      | streamEnded => exact Ended.streaming h
      | _ => cases haccepted
  | answered outcome =>
      cases outcome with
      | streamEnded => exact Ended.streaming h.2
      | _ => cases haccepted
  | _ => cases haccepted

theorem Ended.settled (h : l.Ended) (hsub : l.submitted = true) :
    l.Read ∨ l.responses.receiverOpen = false := by
  rcases h with h | ⟨hgone, -⟩
  · exact .inl (h.settled hsub)
  · exact .inr hgone

theorem Answers.settled {req : GenerateRequest} {response : AiResponse}
    (h : l.Answers cfg req response) : l.Settled := by
  cases h with
  | quickAction hquick hidle reply hresponse => exact hidle.settled
  | generated hquick hread reply hresponse => exact fun _ => hread

theorem Owed.settled {outcome : Outcome} (h : l.Owed cfg outcome) (hsub : l.submitted = true) :
    l.Read ∨ l.responses.receiverOpen = false := by
  cases outcome with
  | generated result =>
      rcases result with status | response
      · exact .inl (h hsub)
      · obtain ⟨req, -, hanswers⟩ := h
        exact .inl (hanswers.settled hsub)
  | streamEnded => exact Ended.settled h hsub
  | _ => exact absurd hsub (Idle.not_submitted h)

/-- A task with an accepted command reads on, has come to the terminal item, or its
client has left. -/
theorem At.settled (h : l.At cfg pc) (hsub : l.submitted = true) :
    l.Reading ∨ l.Read ∨ pc = .cancelled ∨ l.responses.receiverOpen = false := by
  cases pc with
  | unborn => exact absurd hsub h.1.not_submitted
  | ensure caller stage =>
      cases caller with
      | plain | setMode => exact absurd hsub (Idle.not_submitted h)
      | generate req => exact absurd hsub h.2.not_submitted
      | stream prompt maxTokens => exact absurd hsub h.1.not_submitted
  | generate req stage =>
      obtain ⟨-, h⟩ := h
      cases stage with
      | checkMode | checkState | refuse status => exact absurd hsub (Idle.not_submitted h)
      | quickAction | enrich | lock prompt | send prompt => exact absurd hsub h.2.not_submitted
      | unlock | collect fullText tokensUsed => exact .inl h.2.1
      | dispatch tool fullText tokensUsed => exact .inr (.inl h.2.1)
      | clock response | touch response now => exact .inr (.inl (Answers.settled h hsub))
  | serve stage =>
      cases stage with
      | quickReply text | fail status | lock prompt maxTokens | send prompt maxTokens
          | refuse status =>
          exact absurd hsub h.1.not_submitted
      | unlock | receive tokensUsed | forward token tokensUsed => exact .inl h.1
      | forwardError status => exact .inr (.inl h.1)
      | refused | clock | touch now => exact .inr ((Ended.settled h hsub).imp_right .inr)
  | returning outcome => exact .inr ((Owed.settled h hsub).imp_right .inr)
  | answered outcome => exact .inr ((Owed.settled h.2 hsub).imp_right .inr)
  | cancelled => exact .inr (.inr (.inl rfl))
  | _ => exact absurd hsub (Idle.not_submitted h)

end Ledger

end NiraOS.AiDaemon
