import NiraOS.Shell.AiClient

/-!
# Sessions of the shell's AI client

Each session should deliver the text of all its items and then one terminal signal, and
nothing of it should arrive once a newer `streamGenerate` has returned.  The code keeps
this under a condition on its steps (`Faithful`): the item that ends a stream and what
follows it carry no text, a stream ends with such an item exactly if its status is no
error, nothing is queued any more when a newer call returns, and no call comes while the
old worker uses the context that the call frees.

The invariant `Coherent` follows what the latest worker has queued (`Posted`); the queue
holds signals of the latest session only.
-/

namespace NiraOS.Shell

/-! ## What should be delivered -/

inductive Signal.Terminal : Signal → Prop
  | finished : Signal.Terminal .generationFinished
  | error (message : String) : Signal.Terminal (.errorOccurred message)

def Delivery.of? (n : ℕ) (d : Delivery) : Option Signal :=
  if d.session = some n then some d.signal else none

/-- The signals a session has delivered. -/
def State.signals (s : State) (n : ℕ) : List Signal :=
  s.delivered.filterMap (Delivery.of? n)

def streamText (stream : Option Stream) : String :=
  (stream.map fun stream => texts stream.items).getD ""

/-- The text of the stream, token by token, and one terminal signal. -/
def Complete (signals : List Signal) (stream : Option Stream) : Prop :=
  ∃ tokens last, signals = tokens.map Signal.tokenReceived ++ [last] ∧ last.Terminal ∧
    String.join tokens = streamText stream

structure State.Delivers (s : State) : Prop where
  /-- No context is used after it was freed. -/
  defined : s.undefined = false
  /-- What is delivered belongs to the session started last. -/
  current : ∀ d ∈ s.delivered, ∀ n, d.session = some n → n + 1 = d.started
  /-- When nothing more happens by itself, that session is complete. -/
  complete : system.Quiet Event.Internal s →
    ∀ n, n + 1 = s.started → Complete (s.signals n) (s.streams n)

/-- What is asked of a worker before it takes a step, given the signals it has queued. -/
def Pc.Faithful (posted : List Signal) : Pc → Prop
  | .reading (item :: rest) _ => item.isFinished = true → texts (item :: rest) = ""
  | .reporting status => .generationFinished ∈ posted ↔ status.isError = false
  | _ => True

instance (posted : List Signal) : ∀ pc : Pc, Decidable (pc.Faithful posted)
  | .reading (item :: rest) _ =>
      inferInstanceAs (Decidable (item.isFinished = true → texts (item :: rest) = ""))
  | .reporting status =>
      inferInstanceAs (Decidable (.generationFinished ∈ posted ↔ status.isError = false))
  | .starting | .registered | .opening | .reading [] _ | .finishing _ =>
      inferInstanceAs (Decidable True)

/-- The steps that deliver what they should.  Nothing is asked of a session that a newer
call is about to supersede. -/
def Faithful (s : State) : Event → Prop
  | .work => s.gui = .idle → ∀ w ∈ s.worker, w.pc.Faithful (s.posted w.session)
  | .join => s.queue = []
  | .streamGenerate prompt _ => refuses prompt = none → ∀ w ∈ s.worker, ¬ w.pc.UsesContext
  | .deliver => True

instance (s : State) : ∀ e : Event, Decidable (Faithful s e)
  | .work =>
      inferInstanceAs
        (Decidable (s.gui = .idle → ∀ w ∈ s.worker, w.pc.Faithful (s.posted w.session)))
  | .join => inferInstanceAs (Decidable (s.queue = []))
  | .streamGenerate prompt _ =>
      inferInstanceAs (Decidable (refuses prompt = none → ∀ w ∈ s.worker, ¬ w.pc.UsesContext))
  | .deliver => inferInstanceAs (Decidable True)

/-! ## What the latest worker has queued -/

/-- The signals a worker has queued, by where it is. -/
def Posted (posted : List Signal) (stream : Option Stream) (context : Bool) : Option Worker → Prop
  | none => Complete posted stream
  | some w =>
      match w.pc with
      | .starting => posted = []
      | .registered => posted = [] ∧ context = true
      | .opening => posted = []
      | .reading items _ =>
          ∃ tokens, posted = tokens.map Signal.tokenReceived ∧
            String.join tokens ++ texts items = streamText stream
      | .finishing _ | .reporting _ =>
          ∃ tokens, String.join tokens = streamText stream ∧
            (posted = tokens.map Signal.tokenReceived ∨
              posted = tokens.map Signal.tokenReceived ++ [.generationFinished])

structure Coherent (s : State) : Prop where
  defined : s.undefined = false
  context : ∀ w, s.worker = some w → w.pc.UsesContext → s.context = true
  worker : ∀ w, s.worker = some w → w.session + 1 = s.started ∧ w.stream = s.streams w.session
  queue : ∀ p ∈ s.queue, p.1 + 1 = s.started
  current : ∀ d ∈ s.delivered, ∀ n, d.session = some n → n + 1 = d.started
  fresh : ∀ n, s.started ≤ n → s.posted n = [] ∧ s.signals n = []
  ledger : ∀ n, n + 1 = s.started → s.posted n = s.signals n ++ s.queue.map Prod.snd
  posted : s.gui = .idle → ∀ n, n + 1 = s.started →
    Posted (s.posted n) (s.streams n) s.context s.worker

theorem Coherent.initial : Coherent .initial where
  defined := rfl
  context := nofun
  worker := nofun
  queue := nofun
  current := nofun
  fresh _ _ := ⟨rfl, rfl⟩
  ledger _ := nofun
  posted _ _ := nofun

/-! ## Steps of the GUI thread -/

theorem State.signals_append (s : State) (d : Delivery) (n : ℕ) :
    { s with delivered := s.delivered ++ [d] }.signals n =
      s.signals n ++ (Delivery.of? n d).toList := by
  simp [State.signals, List.filterMap_append, List.filterMap_cons]
  cases Delivery.of? n d <;> rfl

theorem Coherent.streamGenerate {s : State} (h : Coherent s) {prompt : String}
    {stream : Option Stream} (hok : Faithful s (.streamGenerate prompt stream)) :
    Coherent (s.streamGenerate prompt stream) := by
  unfold State.streamGenerate
  split
  · next message _ =>
    have hsignals : ∀ n, { s with delivered := s.delivered ++
        [(⟨none, .errorOccurred message, s.started⟩ : Delivery)] }.signals n = s.signals n := by
      intro n
      rw [State.signals_append]
      exact List.append_nil _
    refine ⟨h.defined, h.context, h.worker, h.queue, ?_, ?_, ?_, h.posted⟩
    · intro d hd n hn
      rcases List.mem_append.mp hd with hd | hd
      · exact h.current d hd n hn
      · rw [List.mem_singleton.mp hd] at hn
        cases hn
    · intro n hn
      rw [hsignals]
      exact h.fresh n hn
    · intro n hn
      rw [hsignals]
      exact h.ledger n hn
  · next haccepted =>
    refine ⟨h.defined, ?_, h.worker, h.queue, h.current, h.fresh, h.ledger, ?_⟩
    · intro w hw huses
      exact absurd huses (hok haccepted w hw)
    · intro hidle
      cases hidle

theorem Coherent.startWorker {s : State} (h : Coherent s) (hqueue : s.queue = [])
    (stream : Option Stream) : Coherent (s.startWorker stream) := by
  obtain ⟨hposted, hsignals⟩ := h.fresh s.started (Nat.le_refl _)
  refine ⟨h.defined, ?_, ?_, ?_, h.current, ?_, ?_, ?_⟩
  · intro w hw huses
    cases hw
    cases huses
  · intro w hw
    cases hw
    refine ⟨rfl, ?_⟩
    show stream = Function.update s.streams s.started stream s.started
    rw [Function.update_self]
  · intro p hp
    simp only [State.startWorker, hqueue] at hp
    cases hp
  · intro n hn
    exact h.fresh n (Nat.le_of_succ_le hn)
  · intro n hn
    obtain rfl : n = s.started := Nat.succ.inj hn
    simp only [State.startWorker, hqueue, List.map_nil, List.append_nil]
    exact hposted.trans hsignals.symm
  · intro _ n hn
    obtain rfl : n = s.started := Nat.succ.inj hn
    exact hposted

theorem Coherent.deliver {s : State} (h : Coherent s) {session : ℕ} {signal : Signal}
    {rest : List (ℕ × Signal)} (hqueue : s.queue = (session, signal) :: rest) :
    Coherent { s with
      queue := rest
      delivered := s.delivered ++ [⟨some session, signal, s.started⟩] } := by
  have hsession : session + 1 = s.started := h.queue (session, signal) (by rw [hqueue]; simp)
  have hsignals : ∀ n, { s with
      queue := rest
      delivered := s.delivered ++ [(⟨some session, signal, s.started⟩ : Delivery)] }.signals n =
        s.signals n ++ if session = n then [signal] else [] := by
    intro n
    refine (State.signals_append s ⟨some session, signal, s.started⟩ n).trans ?_
    rw [Delivery.of?]
    simp only [Option.some.injEq]
    split_ifs <;> rfl
  refine ⟨h.defined, h.context, h.worker, ?_, ?_, ?_, ?_, h.posted⟩
  · intro p hp
    exact h.queue p (by rw [hqueue]; exact List.mem_cons_of_mem _ hp)
  · intro d hd n hn
    rcases List.mem_append.mp hd with hd | hd
    · exact h.current d hd n hn
    · rw [List.mem_singleton.mp hd] at hn ⊢
      cases hn
      exact hsession
  · intro n hn
    have hne : session ≠ n := by simp only at hn; omega
    rw [hsignals, if_neg hne, List.append_nil]
    exact h.fresh n hn
  · intro n hn
    obtain rfl : session = n := by simp only at hn; omega
    rw [hsignals, if_pos rfl, List.append_assoc]
    have hledger := h.ledger session hn
    rwa [hqueue] at hledger

/-! ## Steps of the worker -/

section Work

variable {s s' : State} {w : Worker}

/-- The worker goes on without queueing anything. -/
theorem Coherent.silent (h : Coherent s)
    (hworker : ∀ w', s'.worker = some w' → ∃ w, s.worker = some w ∧ w'.session = w.session ∧
      w'.stream = w.stream)
    (hgui : s'.gui = s.gui) (hqueue : s'.queue = s.queue) (hstarted : s'.started = s.started)
    (hstreams : s'.streams = s.streams) (hposted : s'.posted = s.posted)
    (hdelivered : s'.delivered = s.delivered) (hundefined : s'.undefined = s.undefined)
    (hcontext : ∀ w', s'.worker = some w' → w'.pc.UsesContext → s'.context = true)
    (hnext : s.gui = .idle → ∀ n, n + 1 = s.started →
      Posted (s.posted n) (s.streams n) s.context s.worker →
      Posted (s.posted n) (s.streams n) s'.context s'.worker) : Coherent s' := by
  have hsignals : s'.signals = s.signals := by
    funext n
    rw [State.signals, hdelivered]
    rfl
  refine ⟨hundefined.trans h.defined, hcontext, fun w' hw' => ?_, ?_, ?_, ?_, ?_,
    fun hidle n hn => ?_⟩
  · obtain ⟨w, hw, hsession, hstream⟩ := hworker w' hw'
    rw [hsession, hstream, hstarted, hstreams]
    exact h.worker w hw
  · rw [hqueue, hstarted]
    exact h.queue
  · rw [hdelivered]
    exact h.current
  · rw [hstarted, hposted, hsignals]
    exact h.fresh
  · rw [hstarted, hposted, hsignals, hqueue]
    exact h.ledger
  · rw [hgui] at hidle
    rw [hstarted] at hn
    rw [hposted, hstreams]
    exact hnext hidle n hn (h.posted hidle n hn)

/-- The worker queues a signal. -/
theorem Coherent.post (h : Coherent s) (hw : s.worker = some w) {signal : Signal}
    (hworker : ∀ w', s'.worker = some w' → w'.session = w.session ∧ w'.stream = w.stream)
    (hgui : s'.gui = s.gui) (hqueue : s'.queue = s.queue ++ [(w.session, signal)])
    (hstarted : s'.started = s.started) (hstreams : s'.streams = s.streams)
    (hposted : s'.posted = Function.update s.posted w.session (s.posted w.session ++ [signal]))
    (hdelivered : s'.delivered = s.delivered) (hundefined : s'.undefined = s.undefined)
    (hcontext : ∀ w', s'.worker = some w' → w'.pc.UsesContext → s'.context = true)
    (hnext : s.gui = .idle →
      Posted (s.posted w.session) (s.streams w.session) s.context (some w) →
      Posted (s.posted w.session ++ [signal]) (s.streams w.session) s'.context s'.worker) :
    Coherent s' := by
  obtain ⟨hsession, hstream⟩ := h.worker w hw
  have hsignals : s'.signals = s.signals := by
    funext n
    rw [State.signals, hdelivered]
    rfl
  refine ⟨hundefined.trans h.defined, hcontext, fun w' hw' => ?_, fun p hp => ?_, ?_,
    fun n hn => ?_, fun n hn => ?_, fun hidle n hn => ?_⟩
  · obtain ⟨hsession', hstream'⟩ := hworker w' hw'
    rw [hsession', hstream', hstarted, hstreams]
    exact ⟨hsession, hstream⟩
  · rw [hqueue] at hp
    rw [hstarted]
    rcases List.mem_append.mp hp with hp | hp
    · exact h.queue p hp
    · rw [List.mem_singleton.mp hp]
      exact hsession
  · rw [hdelivered]
    exact h.current
  · rw [hstarted] at hn
    rw [hposted, Function.update_of_ne (by omega), hsignals]
    exact h.fresh n hn
  · rw [hstarted] at hn
    obtain rfl : n = w.session := by omega
    rw [hposted, Function.update_self, hsignals, hqueue, h.ledger _ hn]
    simp
  · rw [hgui] at hidle
    rw [hstarted] at hn
    obtain rfl : n = w.session := by omega
    rw [hposted, Function.update_self, hstreams]
    exact hnext hidle (hw ▸ h.posted hidle _ hn)

/-- The worker is still there, as another `pc`. -/
theorem goto_session {pc : Pc} :
    ∀ w', some { w with pc := pc } = some w' → w'.session = w.session ∧ w'.stream = w.stream := by
  intro w' hw'
  cases hw'
  exact ⟨rfl, rfl⟩

/-- The worker goes from one `pc` to the next without queueing anything. -/
theorem Coherent.goto (h : Coherent s) (hw : s.worker = some w) {context : Bool} {pc : Pc}
    (hcontext : pc.UsesContext → context = true)
    (hnext : s.gui = .idle → w.session + 1 = s.started →
      Posted (s.posted w.session) (s.streams w.session) s.context (some w) →
      Posted (s.posted w.session) (s.streams w.session) context (some { w with pc := pc })) :
    Coherent ({ s with context := context }.goto w pc) := by
  refine h.silent ?_ rfl rfl rfl rfl rfl rfl rfl ?_ ?_
  · intro w' hw'
    obtain ⟨hsession, hstream⟩ := goto_session w' hw'
    exact ⟨w, hw, hsession, hstream⟩
  · intro w' hw'
    cases hw'
    exact hcontext
  · intro hidle n hn hposted
    have hsession := (h.worker w hw).1
    obtain rfl : n = w.session := by omega
    rw [hw] at hposted
    exact hnext hidle hsession hposted

/-- The worker ends without queueing anything. -/
theorem Coherent.ended (h : Coherent s) (hw : s.worker = some w)
    (hnext : s.gui = .idle →
      Posted (s.posted w.session) (s.streams w.session) s.context (some w) →
      Complete (s.posted w.session) (s.streams w.session)) :
    Coherent { s with worker := none } := by
  refine h.silent ?_ rfl rfl rfl rfl rfl rfl rfl ?_ ?_
  · intro w' hw'
    cases hw'
  · intro w' hw'
    cases hw'
  · intro hidle n hn hposted
    have hsession := (h.worker w hw).1
    obtain rfl : n = w.session := by omega
    rw [hw] at hposted
    exact hnext hidle hposted

theorem Coherent.work_starting (h : Coherent s) (hw : s.worker = some w)
    (hpc : w.pc = .starting) : Coherent (s.work w) := by
  unfold State.work
  rw [hpc]
  apply h.goto hw
  · intro huses
    cases huses
  · intro _ _ hposted
    rw [Posted, hpc] at hposted
    exact ⟨hposted, rfl⟩

theorem Coherent.work_registered (h : Coherent s) (hw : s.worker = some w)
    (hpc : w.pc = .registered) : Coherent (s.work w) := by
  unfold State.work
  rw [hpc]
  dsimp only
  split_ifs with hcontext
  · refine h.goto hw (fun _ => hcontext) ?_
    intro _ _ hposted
    rw [Posted, hpc] at hposted
    exact hposted.1
  · apply h.ended hw
    intro _ hposted
    rw [Posted, hpc] at hposted
    exact absurd hposted.2 hcontext

theorem Coherent.work_opening (h : Coherent s) (hw : s.worker = some w)
    (hpc : w.pc = .opening) : Coherent (s.work w) := by
  have hcontext : s.context = true := h.context w hw (by rw [hpc]; trivial)
  have hours : w.stream = s.streams w.session := (h.worker w hw).2
  unfold State.work
  rw [hpc]
  cases hstream : w.stream with
  | some stream =>
      refine h.goto hw (fun _ => hcontext) ?_
      intro _ _ hposted
      rw [Posted, hpc] at hposted
      refine ⟨[], hposted, ?_⟩
      rw [← hours, hstream, String.join_nil, String.empty_append]
      rfl
  | none =>
      refine h.post hw ?_ rfl rfl rfl rfl rfl rfl rfl ?_ ?_
      · intro w' hw'
        cases hw'
      · intro w' hw'
        cases hw'
      · intro _ hposted
        rw [Posted, hpc] at hposted
        rw [← hours, hstream, hposted]
        exact ⟨[], _, rfl, .error _, rfl⟩

/-- The end of a stream, and an item: its text is queued, or what ends the session. -/
theorem Coherent.work_reading (h : Coherent s) (hw : s.worker = some w) {items : List Item}
    {status : Status} (hpc : w.pc = .reading items status) (hok : Faithful s .work) :
    Coherent (s.work w) := by
  have hcontext : s.context = true := h.context w hw (by rw [hpc]; trivial)
  unfold State.work
  rw [hpc]
  cases items with
  | nil =>
      refine h.goto hw (fun _ => hcontext) ?_
      intro _ _ hposted
      rw [Posted, hpc] at hposted
      obtain ⟨tokens, heq, htext⟩ := hposted
      refine ⟨tokens, ?_, .inl heq⟩
      simpa [texts] using htext
  | cons item rest =>
      dsimp only
      split_ifs with hfinished hempty
      · refine h.post hw goto_session rfl rfl rfl rfl rfl rfl rfl (fun _ _ _ => hcontext) ?_
        intro hidle hposted
        have hfaithful := hok hidle w hw
        rw [hpc] at hfaithful
        rw [Posted, hpc] at hposted
        obtain ⟨tokens, heq, htext⟩ := hposted
        rw [hfaithful hfinished, String.append_empty] at htext
        exact ⟨tokens, htext, .inr (by rw [heq])⟩
      · refine h.goto hw (fun _ => hcontext) ?_
        intro _ _ hposted
        rw [Posted, hpc] at hposted
        obtain ⟨tokens, heq, htext⟩ := hposted
        refine ⟨tokens, heq, ?_⟩
        simpa [texts, String.join_cons, hempty] using htext
      · refine h.post hw goto_session rfl rfl rfl rfl rfl rfl rfl (fun _ _ _ => hcontext) ?_
        intro _ hposted
        rw [Posted, hpc] at hposted
        obtain ⟨tokens, heq, htext⟩ := hposted
        refine ⟨tokens ++ [item.text], by simp [heq], ?_⟩
        simpa [texts, String.join_cons, String.join_append, String.append_assoc] using htext

theorem Coherent.work_finishing (h : Coherent s) (hw : s.worker = some w) {status : Status}
    (hpc : w.pc = .finishing status) : Coherent (s.work w) := by
  unfold State.work
  rw [hpc]
  apply h.goto hw
  · intro huses
    cases huses
  · intro _ _ hposted
    rw [Posted, hpc] at hposted
    exact hposted

/-- Of the signals so far the last is a terminal one exactly if the status is no error. -/
theorem complete_of_reporting {posted : List Signal} {stream : Option Stream} {status : Status}
    (hfaithful : .generationFinished ∈ posted ↔ status.isError = false)
    {tokens : List String} (htext : String.join tokens = streamText stream)
    (hposted : posted = tokens.map Signal.tokenReceived ∨
      posted = tokens.map Signal.tokenReceived ++ [.generationFinished]) :
    (status.isError = true → posted = tokens.map Signal.tokenReceived) ∧
      (status.isError = false → Complete posted stream) := by
  constructor
  · intro herror
    rcases hposted with hposted | rfl
    · exact hposted
    · have hfine : status.isError = false := hfaithful.mp (by simp)
      rw [herror] at hfine
      cases hfine
  · intro hfine
    have hmem := hfaithful.mpr hfine
    rcases hposted with rfl | rfl
    · simp at hmem
    · exact ⟨tokens, _, rfl, .finished, htext⟩

theorem Coherent.work_reporting (h : Coherent s) (hw : s.worker = some w) {status : Status}
    (hpc : w.pc = .reporting status) (hok : Faithful s .work) : Coherent (s.work w) := by
  have hfaithful : s.gui = .idle →
      (.generationFinished ∈ s.posted w.session ↔ status.isError = false) := by
    intro hidle
    have hfaithful := hok hidle w hw
    rwa [hpc] at hfaithful
  unfold State.work
  rw [hpc]
  cases status with
  | error message =>
      refine h.post hw ?_ rfl rfl rfl rfl rfl rfl rfl ?_ ?_
      · intro w' hw'
        cases hw'
      · intro w' hw'
        cases hw'
      · intro hidle hposted
        rw [Posted, hpc] at hposted
        obtain ⟨tokens, htext, hposted⟩ := hposted
        have hlast := (complete_of_reporting (hfaithful hidle) htext hposted).1 rfl
        exact ⟨tokens, _, by rw [hlast], .error message, htext⟩
  | ok =>
      apply h.ended hw
      intro hidle hposted
      rw [Posted, hpc] at hposted
      obtain ⟨tokens, htext, hposted⟩ := hposted
      exact (complete_of_reporting (hfaithful hidle) htext hposted).2 rfl
  | cancelled =>
      apply h.ended hw
      intro hidle hposted
      rw [Posted, hpc] at hposted
      obtain ⟨tokens, htext, hposted⟩ := hposted
      exact (complete_of_reporting (hfaithful hidle) htext hposted).2 rfl

/-- The context that the worker uses is there. -/
theorem Coherent.runGeneration_eq (h : Coherent s) (hw : s.worker = some w) :
    s.runGeneration w = s.work w := by
  unfold State.runGeneration
  rw [if_neg]
  rintro ⟨huses, hgone⟩
  rw [h.context w hw huses] at hgone
  cases hgone

theorem Coherent.work (h : Coherent s) (hw : s.worker = some w) (hok : Faithful s .work) :
    Coherent (s.runGeneration w) := by
  rw [h.runGeneration_eq hw]
  cases hpc : w.pc with
  | starting => exact h.work_starting hw hpc
  | registered => exact h.work_registered hw hpc
  | opening => exact h.work_opening hw hpc
  | reading items status => exact h.work_reading hw hpc hok
  | finishing status => exact h.work_finishing hw hpc
  | reporting status => exact h.work_reporting hw hpc hok

end Work

/-! ## Every run -/

theorem Coherent.step {s s' : State} {e : Event} (h : Coherent s) (hok : Faithful s e)
    (hstep : step s e = some s') : Coherent s' := by
  obtain ⟨-, hnext⟩ := step_eq_some.mp hstep
  cases e with
  | streamGenerate prompt stream =>
      cases hgui : s.gui <;> simp only [State.next, hgui] at hnext <;> cases hnext
      exact h.streamGenerate hok
  | work =>
      obtain ⟨w, hw, rfl⟩ := Option.map_eq_some_iff.mp hnext
      exact h.work hw hok
  | join =>
      cases hgui : s.gui <;> cases hworker : s.worker <;>
        simp only [State.next, hgui, hworker] at hnext <;> cases hnext
      exact h.startWorker hok _
  | deliver =>
      cases hgui : s.gui <;> cases hqueue : s.queue <;>
        simp only [State.next, hgui, hqueue] at hnext <;> cases hnext
      have hdelivered := h.deliver hqueue
      rwa [hgui] at hdelivered

theorem reachableWhere_coherent {s : State} (h : system.ReachableWhere Faithful s) : Coherent s :=
  h.invariant (I := Coherent) (by rintro _ rfl; exact .initial)
    fun _ _ _ _ hs hok hstep => hs.step hok hstep

/-- When nothing happens by itself, the GUI thread is free, no worker runs and everything
queued is delivered. -/
theorem State.of_quiet {s : State} (hdefined : s.undefined = false)
    (h : system.Quiet Event.Internal s) : s.gui = .idle ∧ s.worker = none ∧ s.queue = [] := by
  have hworker : s.worker = none := by
    have hwork := h .work trivial
    simpa [system, step, State.next, hdefined] using hwork
  have hgui : s.gui = .idle := by
    have hjoin := h .join trivial
    cases hgui : s.gui with
    | idle => rfl
    | joining stream => simp [system, step, State.next, hdefined, hgui, hworker] at hjoin
  have hdeliver := h .deliver trivial
  cases hqueue : s.queue with
  | nil => exact ⟨hgui, hworker, rfl⟩
  | cons p rest => simp [system, step, State.next, hdefined, hgui, hqueue] at hdeliver

theorem Coherent.delivers {s : State} (h : Coherent s) : s.Delivers where
  defined := h.defined
  current := h.current
  complete hquiet n hn := by
    obtain ⟨hgui, hworker, hqueue⟩ := State.of_quiet h.defined hquiet
    have hposted := h.posted hgui n hn
    have hledger := h.ledger n hn
    rw [hqueue, List.map_nil, List.append_nil] at hledger
    rwa [hworker, Posted, hledger] at hposted

/-! ## Sessions end -/

def length? (stream : Option Stream) : ℕ :=
  (stream.map fun stream => stream.items.length).getD 0

/-- Twice the steps a worker has left: each may queue a signal. -/
def Worker.weight (w : Worker) : ℕ :=
  match w.pc with
  | .starting => 2 * length? w.stream + 12
  | .registered => 2 * length? w.stream + 10
  | .opening => 2 * length? w.stream + 8
  | .reading items _ => 2 * items.length + 6
  | .finishing _ => 4
  | .reporting _ => 2

def State.potential (s : State) : ℕ :=
  (match s.gui with
    | .idle => 0
    | .joining stream => 2 * length? stream + 13) +
  (s.worker.map Worker.weight).getD 0 + s.queue.length + (!s.undefined).toNat

theorem State.work_weight (s : State) (w : Worker) :
    (((s.work w).worker.map Worker.weight).getD 0 + (s.work w).queue.length <
      w.weight + s.queue.length) ∧ (s.work w).gui = s.gui ∧
        (s.work w).undefined = s.undefined := by
  unfold State.work
  cases hpc : w.pc with
  | starting => simp [State.goto, Worker.weight, hpc]
  | registered =>
      dsimp only
      split_ifs <;> simp [State.goto, Worker.weight, hpc]
  | opening =>
      cases hstream : w.stream <;>
        simp [State.goto, State.post, Worker.weight, hpc, hstream, length?]
      omega
  | reading items status =>
      cases items with
      | nil => simp [State.goto, Worker.weight, hpc]
      | cons item rest =>
          dsimp only
          split_ifs <;> simp [State.goto, State.post, Worker.weight, hpc] <;> omega
  | finishing status => simp [State.goto, Worker.weight, hpc]
  | reporting status =>
      cases status <;> simp [State.post, Worker.weight, hpc]
      omega

/-- The worker comes nearer to its end, or what it does is undefined. -/
theorem State.runGeneration_potential {s : State} {w : Worker} (hw : s.worker = some w)
    (hdefined : s.undefined = false) : (s.runGeneration w).potential < s.potential := by
  unfold State.runGeneration
  split_ifs
  · simp [State.potential, hdefined]
  · obtain ⟨hlt, hgui, hundefined⟩ := s.work_weight w
    simp only [State.potential, hgui, hundefined, hw, Option.map_some, Option.getD_some]
    omega

/-- **What happens by itself comes to an end.** -/
theorem potential_lt {s s' : State} {e : Event} (he : e.Internal) (hstep : step s e = some s') :
    s'.potential < s.potential := by
  obtain ⟨hdefined, hnext⟩ := step_eq_some.mp hstep
  cases e with
  | streamGenerate prompt stream => cases he
  | work =>
      obtain ⟨w, hw, rfl⟩ := Option.map_eq_some_iff.mp hnext
      exact State.runGeneration_potential hw hdefined
  | join =>
      cases hgui : s.gui <;> cases hworker : s.worker <;>
        simp only [State.next, hgui, hworker] at hnext <;> cases hnext
      simp [State.potential, State.startWorker, Worker.weight, hgui, hworker]
  | deliver =>
      cases hgui : s.gui <;> cases hqueue : s.queue <;>
        simp only [State.next, hgui, hqueue] at hnext <;> cases hnext
      simp [State.potential, hgui, hqueue]

theorem length_le_potential {s s' : State} {es : List Event} (hes : ∀ e ∈ es, Event.Internal e)
    (hrun : system.run s es = some s') : es.length ≤ s.potential :=
  Transition.System.length_le_of_run (I := fun _ => True) (fun _ _ _ _ _ => trivial)
    (fun _ _ _ _ => potential_lt) trivial hes hrun

/-- A call that frees the context in use: all that can come of the old worker's next step
is undefined. -/
theorem undefined_of_superseded {s s₁ s₂ : State} {prompt : String} {stream : Option Stream}
    {w : Worker} (haccepted : refuses prompt = none) (hw : s.worker = some w)
    (huses : w.pc.UsesContext) (hcall : step s (.streamGenerate prompt stream) = some s₁)
    (hwork : step s₁ .work = some s₂) : s₂.undefined = true := by
  obtain ⟨-, hcall⟩ := step_eq_some.mp hcall
  obtain ⟨-, hwork⟩ := step_eq_some.mp hwork
  have hfreed : s₁.worker = some w ∧ s₁.context = false := by
    cases hgui : s.gui <;> simp only [State.next, hgui] at hcall <;> cases hcall
    unfold State.streamGenerate
    rw [haccepted]
    exact ⟨hw, rfl⟩
  simp only [State.next, hfreed.1, Option.map_some, Option.some.injEq] at hwork
  unfold State.runGeneration at hwork
  rw [if_pos ⟨huses, hfreed.2⟩] at hwork
  exact hwork ▸ rfl

/-- **Each session is delivered completely and apart from the others** in runs whose steps
are faithful: no context is used after it was freed, nothing of an older session is
delivered once a newer call has returned, what happens by itself ends, and then the latest
session has delivered its text and one terminal signal. -/
theorem delivers_of_faithful {s : State} (h : system.ReachableWhere Faithful s) :
    s.Delivers ∧ ∀ es s', (∀ e ∈ es, Event.Internal e) → system.run s es = some s' →
      es.length ≤ s.potential :=
  ⟨(reachableWhere_coherent h).delivers, fun _ _ => length_le_potential⟩

/-- The worker's steps up to its end, and what is then delivered. -/
def whole (items signals : ℕ) : List Event :=
  List.replicate (6 + items) .work ++ List.replicate signals .deliver

/-- A session that ends with an item without text. -/
theorem delivers_of_faithful_hello :
    ∃ s, system.ReachableWhere Faithful s ∧ s.Delivers ∧
      s.signals 0 = [.tokenReceived "Hel", .tokenReceived "lo", .generationFinished] := by
  have hrun : (system.runWhere Faithful .initial
      ([.streamGenerate "hi" (some ⟨[⟨"Hel", false⟩, ⟨"lo", false⟩, ⟨"", true⟩], .ok⟩), .join] ++
        whole 2 3)).map (fun s => s.signals 0) =
      some [.tokenReceived "Hel", .tokenReceived "lo", .generationFinished] := by rfl
  obtain ⟨s, hs, heq⟩ := Option.map_eq_some_iff.mp hrun
  have hreach := Transition.System.ReachableWhere.runWhere (.init rfl) hs
  exact ⟨s, hreach, (delivers_of_faithful hreach).1, heq⟩

/-- A quick action: one item, which carries the reply and ends the stream. -/
def quickAction : List Event :=
  [.streamGenerate "open the files" (some ⟨[⟨"Opening Files.", true⟩], .ok⟩), .join] ++ whole 0 1

/-- Without the condition the text of the item that ends a stream is lost. -/
theorem not_delivers_quickAction :
    ¬ ∀ s, system.Reachable s → s.Delivers ∧ ∀ es s', (∀ e ∈ es, Event.Internal e) →
      system.run s es = some s' → es.length ≤ s.potential := by
  intro halways
  have hrun : (system.run .initial quickAction).map (fun s =>
      (s.gui, s.worker.isNone, s.queue, s.started, s.signals 0,
        (s.streams 0).map fun stream => stream.items)) =
      some (.idle, true, [], 1, [.generationFinished], some [⟨"Opening Files.", true⟩]) := by rfl
  obtain ⟨s, hs, heq⟩ := Option.map_eq_some_iff.mp hrun
  simp only [Prod.mk.injEq] at heq
  obtain ⟨hgui, hworker, hqueue, hstarted, hsignals, hstream⟩ := heq
  have hquiet : system.Quiet Event.Internal s := by
    have hnone : s.worker = none := by simpa using hworker
    intro e he
    cases e <;> simp [system, step, State.next, hgui, hqueue, hnone] at he ⊢
    cases he
  obtain ⟨tokens, last, heq, -, htext⟩ :=
    (halways s (.run (.init rfl) hs)).1.complete hquiet 0 (by rw [hstarted])
  obtain ⟨stream, hsome, hitems⟩ := Option.map_eq_some_iff.mp hstream
  rw [hsignals] at heq
  obtain rfl : tokens = [] := by
    have hlength := congrArg List.length heq
    simp only [List.length_append, List.length_map, List.length_singleton] at hlength
    exact List.length_eq_zero_iff.mp (by omega)
  rw [hsome, streamText, Option.map_some, Option.getD_some, hitems] at htext
  exact absurd htext (by decide)

end NiraOS.Shell
