import NiraOS.ActionManager.Validation
import NiraOS.AiDaemon.Requests
import NiraOS.AiDaemon.ToolResponses

/-!
# What the assistant does

The text that the model generates, the daemon's `dispatch_tool_if_needed`, the action manager and
the permission service in one system:

  text — `parse_tool_request` → request — `execute_action` → check, reply → effect → message

Three things should hold whatever runs beside (`Acted`): an effect that follows a text is the one
that the text asks for, to the last parameter (`effectOf`); the permission service has allowed it,
and its audit log has a row that says so; and what is told to the user as a success has happened.

The action manager alone knows of the effect only its resource (`Mediation`), so that the first is
an invariant of its own: `Intended`.
-/

namespace NiraOS.ActionManager

/-! ## The effect that a request asks for -/

def effectOf (req : ActionRequest) : Option Effect :=
  if req.actionId = "filesystem.move" then
    (req.parameter "source").bind fun source =>
      (req.parameter "destination").map (.moveFileSafely source)
  else if req.actionId = "desktop.wallpaper.change" then (req.parameter "path").map .changeWallpaper
  else none

theorem effectOf_of_perform {req : ActionRequest} {resource : String}
    {reply : Except String CapabilityResponse}
    {effect : Effect} (hresource : resourceOf req = .ok resource)
    (hperform : afterPermission req resource reply = some (.perform effect)) :
    effectOf req = some effect := by
  cases reply with
  | error error => cases hperform
  | ok response =>
      by_cases hallowed : response.decision = "allowed"
      · simp only [afterPermission, if_pos hallowed] at hperform
        unfold effectOf
        rcases resourceOf_supported hresource with ⟨haction, hparameter⟩ | ⟨haction, hparameter⟩
        · rw [if_pos haction] at hperform ⊢
          rw [hparameter, Option.bind_some]
          cases hdestination : req.parameter "destination" with
          | none =>
              rw [hdestination] at hperform
              cases hperform
          | some destination =>
              rw [hdestination] at hperform
              cases hperform
              rfl
        · have hmove : ¬ req.actionId = "filesystem.move" := by
            rw [haction]
            decide
          rw [if_neg hmove, if_pos haction] at hperform ⊢
          cases hperform
          rw [hparameter]
          rfl
      · simp only [afterPermission, if_neg hallowed] at hperform
        cases hperform

/-- An effect is carried out, or about to be, only for a request that asks for it. -/
structure Intended (s : State) : Prop where
  performing : ∀ id request effect, s.calls id = some ⟨request, .performing effect⟩ →
    effectOf request = some effect
  performed : ∀ id effect result, (some id, .performed effect result) ∈ s.history →
    ∃ call, s.calls id = some call ∧ effectOf call.request = some effect

section Intended

variable {s s' : State} {id : ℕ} {request : ActionRequest} {phase phase' : Phase}
    {what : List Happening}

/-- A request moves on, with nothing performed but what it asks for. -/
theorem Intended.advance (h : Intended s) (db : Permission.Connection)
    (hcall : ∀ call, s.calls id = some call → call.request = request)
    (hphase : ∀ effect, phase = .performing effect → effectOf request = some effect)
    (hwhat : ∀ effect result, .performed effect result ∈ what → effectOf request = some effect) :
    Intended { s.advance id ⟨request, phase⟩ what with db := db } where
  performing other request' effect hother := by
    change (s.advance id ⟨request, phase⟩ what).calls other = _ at hother
    by_cases hid : other = id
    · subst hid
      rw [State.calls_advance_self] at hother
      obtain ⟨rfl, rfl⟩ := Call.mk.inj (Option.some.inj hother)
      exact hphase effect rfl
    · rw [State.calls_advance_of_ne hid] at hother
      exact h.performing other request' effect hother
  performed other effect result hmem := by
    change ∃ call, (s.advance id ⟨request, phase⟩ what).calls other = some call ∧ _
    have hself : (s.advance id ⟨request, phase⟩ what).calls id = some ⟨request, phase⟩ :=
      State.calls_advance_self ..
    rcases List.mem_append.mp hmem with hbefore | hnew
    · obtain ⟨call, hother, heffect⟩ := h.performed other effect result hbefore
      by_cases hid : other = id
      · subst hid
        refine ⟨_, hself, ?_⟩
        rw [← hcall call hother]
        exact heffect
      · exact ⟨call, (State.calls_advance_of_ne hid ..).trans hother, heffect⟩
    · obtain ⟨happening, hhappening, heq⟩ := List.mem_map.mp hnew
      obtain ⟨hid, rfl⟩ := Prod.mk.inj heq
      obtain rfl := Option.some.inj hid
      exact ⟨_, hself, hwhat effect result hhappening⟩

theorem Intended.start (hs : Invariant s) (h : Intended s)
    (hphase : ∀ effect, phase ≠ .performing effect)
    (hwhat : ∀ effect result, .performed effect result ∉ what) :
    Intended { s.advance s.next ⟨request, phase⟩ what with next := s.next + 1 } := by
  have hfresh : s.calls s.next = none := hs.bound _ (Nat.le_refl _)
  have hadvanced : Intended { s.advance s.next ⟨request, phase⟩ what with db := s.db } :=
    h.advance s.db
    (fun call hcall => by rw [hfresh] at hcall; cases hcall) (fun effect heq =>
      absurd heq (hphase effect))
    fun effect result hmem => absurd hmem (hwhat effect result)
  exact ⟨hadvanced.performing, hadvanced.performed⟩

theorem request_of_call (hcall : s.calls id = some ⟨request, phase⟩) (call : Call)
    (hcall' : s.calls id = some call) :
    call.request = request := by
  obtain rfl := Option.some.inj (hcall.symm.trans hcall')
  rfl

theorem Intended.resume (h : Intended s) (hcall : s.calls id = some ⟨request, phase⟩)
    {resource : String}
    (hresource : resourceOf request = .ok resource) (reply : Except String CapabilityResponse) :
    Intended (s.resume id request resource reply) := by
  unfold State.resume
  split
  · next effect hperform =>
      refine h.advance s.db (request_of_call hcall) ?_ (by simp)
      intro other heq
      obtain rfl := Phase.performing.inj heq
      exact effectOf_of_perform hresource hperform
  · exact h.advance s.db (request_of_call hcall) (by simp) (by simp)
  · exact h.advance s.db (request_of_call hcall) (by simp) (by simp)

theorem performed_not_mem_newRows (before after : Permission.Connection) (effect : Effect)
    (result : Except String Unit) : .performed effect result ∉ newRows before after := by
  intro hmem
  obtain ⟨row, -, hrow⟩ := List.mem_map.mp hmem
  cases hrow

/-- **Each step**: what is performed was asked for. -/
theorem intended_step {event : Event} (hs : Invariant s) (h : Intended s)
    (hstep : step s event = some s') :
    Intended s' := by
  cases event with
  | execute request =>
      simp only [step] at hstep
      split at hstep <;> cases hstep
      · exact .start hs h (by simp) (by simp)
      · exact .start hs h (by simp) (by simp)
  | serve id env =>
      simp only [step] at hstep
      split at hstep <;> cases hstep
      next request resource hcall =>
        exact h.advance _ (request_of_call hcall) (by simp) fun effect result hmem =>
          absurd hmem (performed_not_mem_newRows _ _ effect result)
  | deliver id =>
      simp only [step] at hstep
      split at hstep <;> cases hstep
      next request resource reply hcall =>
        exact h.resume hcall (Trail.of_replying (hs.trails.started id _ hcall)).1 reply
  | fail id error =>
      simp only [step] at hstep
      split at hstep <;> cases hstep
      · next request resource hcall =>
          exact h.resume hcall (Trail.of_checking (hs.trails.started id _ hcall)).1 _
      · next request resource reply hcall =>
          exact h.resume hcall (Trail.of_replying (hs.trails.started id _ hcall)).1 _
  | perform id result =>
      simp only [step] at hstep
      split at hstep <;> cases hstep
      next request effect hcall =>
        refine h.advance s.db (request_of_call hcall) (by simp) ?_
        intro other outcome hmem
        rcases List.mem_cons.mp hmem with heq | hlater
        · cases heq
          exact h.performing id request effect hcall
        · cases List.mem_singleton.mp hlater
  | cancel id =>
      simp only [step] at hstep
      split at hstep <;> cases hstep
      · next request resource hcall =>
          exact h.advance s.db (request_of_call hcall) (by simp) (by simp)
      · next request resource reply hcall =>
          exact h.advance s.db (request_of_call hcall) (by simp) (by simp)
  | changeGrants table =>
      cases hstep
      exact ⟨h.performing, h.performed⟩
  | checkElsewhere request env =>
      cases hstep
      refine ⟨h.performing, fun id effect result hmem => ?_⟩
      rcases List.mem_append.mp hmem with hbefore | hnew
      · exact h.performed id effect result hbefore
      · obtain ⟨happening, -, heq⟩ := List.mem_map.mp hnew
        cases heq

/-! ## What a step leaves as it is -/

/-- A call stays the call of its request, and what has happened has happened. -/
def Keeps (s s' : State) : Prop :=
  (∀ id call, s.calls id = some call →
    ∃ call', s'.calls id = some call' ∧ call'.request = call.request) ∧
    s.history <+: s'.history

theorem keeps_advance (hcall : ∀ call, s.calls id = some call → call.request = request) :
    Keeps s (s.advance id ⟨request, phase⟩ what) := by
  refine ⟨fun other call hother => ?_, List.prefix_append ..⟩
  by_cases hid : other = id
  · subst hid
    exact ⟨_, State.calls_advance_self .., (hcall call hother).symm⟩
  · exact ⟨call, (State.calls_advance_of_ne hid ..).trans hother, rfl⟩

theorem keeps_step {event : Event} (hs : Invariant s) (hstep : step s event = some s') :
    Keeps s s' := by
  have hfresh : ∀ {request : ActionRequest} (call : Call), s.calls s.next = some call →
      call.request = request := by
    intro request call hcall
    rw [hs.bound _ (Nat.le_refl _)] at hcall
    cases hcall
  have hresume : ∀ {id request phase resource reply}, s.calls id = some ⟨request, phase⟩ →
      Keeps s (s.resume id request resource reply) := by
    intro id request phase resource reply hcall
    unfold State.resume
    split <;> exact keeps_advance (request_of_call hcall)
  cases event with
  | execute request =>
      simp only [step] at hstep
      split at hstep <;> cases hstep <;> exact keeps_advance hfresh
  | serve id env =>
      simp only [step] at hstep
      split at hstep <;> cases hstep
      next hcall => exact keeps_advance (request_of_call hcall)
  | deliver id =>
      simp only [step] at hstep
      split at hstep <;> cases hstep
      next hcall => exact hresume hcall
  | fail id error =>
      simp only [step] at hstep
      split at hstep <;> cases hstep
      · next hcall => exact hresume hcall
      · next hcall => exact hresume hcall
  | perform id result =>
      simp only [step] at hstep
      split at hstep <;> cases hstep
      next hcall => exact keeps_advance (request_of_call hcall)
  | cancel id =>
      simp only [step] at hstep
      split at hstep <;> cases hstep
      · next hcall => exact keeps_advance (request_of_call hcall)
      · next hcall => exact keeps_advance (request_of_call hcall)
  | changeGrants table =>
      cases hstep
      exact ⟨fun _ call hcall => ⟨call, hcall, rfl⟩, List.prefix_rfl⟩
  | checkElsewhere request env =>
      cases hstep
      exact ⟨fun _ call hcall => ⟨call, hcall, rfl⟩, List.prefix_append ..⟩

end Intended

/-- The response of a call, once it has one. -/
def State.response (s : State) (id : ℕ) : Option ActionResponse :=
  (s.trail id).findSome? fun
    | .responded response => some response
    | _ => none

/-- **A success** is told only of an effect. -/
theorem performed_of_response {s : State} (hs : Invariant s) {id : ℕ} {response : ActionResponse}
    (h : s.response id = some response) (hsuccess : response.success = true) :
    ∃ effect, (some id, .performed effect (.ok ())) ∈ s.history := by
  obtain ⟨happening, hmem, heq⟩ := List.exists_of_findSome?_eq_some h
  cases happening with
  | responded other =>
      obtain rfl := Option.some.inj heq
      obtain ⟨call, -, htrail⟩ := hs.trail (mem_trailIn.mp hmem)
      rcases htrail.of_responded hmem with ⟨hfailure, -⟩ | ⟨effect, result, hperformed, rfl⟩
      · rw [hsuccess] at hfailure
        cases hfailure
      · obtain rfl := (afterEffect_success effect result).mp hsuccess
        exact ⟨effect, mem_trailIn.mp hperformed⟩
  | checked | decided | performed => cases heq

/-- The row that has allowed an effect. -/
theorem row_of_performed {s : State} (hs : Invariant s) {id : ℕ} {call : Call}
    (hcall : s.calls id = some call)
    {effect : Effect} {result : Except String Unit}
    (hmem : (some id, .performed effect result) ∈ s.history) :
    ∃ row ∈ s.db.auditLog, row.actionType = call.request.actionId ∧ row.resource = effect.resource ∧
      row.permissionResult = "allowed" := by
  obtain ⟨row, reply, hrow, hallowed, -, -, htrail⟩ :=
    (hs.trails.started id call hcall).of_performed (mem_trailIn.mpr hmem)
  have hchecked : (some id, .checked row) ∈ s.history := by
    apply mem_trailIn.mp
    rw [htrail]
    exact List.mem_cons_self
  refine ⟨row, ?_, hrow.actionType, hrow.resource, hallowed⟩
  rw [hs.logged]
  exact List.mem_append_right _ (List.mem_filterMap.mpr ⟨_, hchecked, rfl⟩)

/-- A call has one effect at most. -/
theorem countP_performed_le_one {s : State} (hs : Invariant s) (id : ℕ) :
    (s.trail id).countP (fun h => h matches .performed _ _) ≤ 1 := by
  by_cases hperformed : ∃ effect result, .performed effect result ∈ s.trail id
  · obtain ⟨effect, result, hmem⟩ := hperformed
    obtain ⟨call, -, htrail⟩ := hs.trail (mem_trailIn.mp hmem)
    obtain ⟨row, reply, -, -, -, -, heq⟩ := htrail.of_performed hmem
    rw [heq]
    exact Nat.le_refl 1
  · have hzero : (s.trail id).countP (fun h => h matches .performed _ _) = 0 := by
      rw [List.countP_eq_zero]
      intro happening hmem
      cases happening with
      | performed effect result => exact absurd ⟨effect, result, hmem⟩ hperformed
      | checked | decided | responded => exact Bool.false_ne_true
    rw [hzero]
    exact Nat.zero_le 1

end NiraOS.ActionManager

namespace NiraOS.AiDaemon.Acting

open ActionManager (Effect ActionRequest ActionResponse Happening effectOf)

/-! ## The daemon, the action manager and the permission service -/

/-- `parse_tool_request`; the type of a request is not read again. -/
def parse (text : String) : Option ToolRequest :=
  (Tools.parseToolRequest Json.reader text).map fun req => ⟨req.tool, req.arguments, req.reason⟩

/-- The message that `dispatch_tool_if_needed` sends. -/
def actionRequest (req : ToolRequest) : ActionRequest := ⟨req.tool, req.arguments, req.reason⟩

structure State where
  actions : ActionManager.State
  /-- The text behind a call that the daemon has made. -/
  texts : ℕ → Option String
  /-- The calls whose reply the daemon awaits. -/
  awaiting : List ℕ
  /-- What was made of each text; `none` where there is no request in it. -/
  told : List (String × Option ActionReply)

inductive Event
  /-- The model has generated a text. -/
  | generated (text : String)
  /-- The same, with the action manager out of reach. -/
  | unreachable (text : String)
  /-- The reply of a call arrives. -/
  | answered (id : ℕ)
  | failed (id : ℕ) (error : String)
  /-- Something happens in the action manager or in the permission service, for whomever. -/
  | actions (e : ActionManager.Event)

def State.tell (s : State) (id : ℕ) (text : String) (reply : ActionReply) : State :=
  { s with awaiting := s.awaiting.erase id, told := s.told ++ [(text, some reply)] }

/-- The call of the daemon, if it awaits its reply, with the text behind it. -/
def State.pending (s : State) (id : ℕ) : Option String :=
  if id ∈ s.awaiting then s.texts id else none

def step (s : State) : Event → Option State
  | .generated text =>
      match toolRequest parse text with
      | none => some { s with told := s.told ++ [(text, none)] }
      | some req => (ActionManager.step s.actions (.execute (actionRequest req))).map fun actions =>
          { s with
            actions := actions
            texts := Function.update s.texts s.actions.next (some text)
            awaiting := s.actions.next :: s.awaiting }
  | .unreachable text => (toolRequest parse text).map fun _ =>
      { s with told := s.told ++ [(text, some .unreachable)] }
  | .answered id => (s.pending id).bind fun text => (s.actions.response id).map fun response =>
      s.tell id text (.replied response.message response.success)
  | .failed id error => (s.pending id).map fun text => s.tell id text (.failed error)
  | .actions e => (ActionManager.step s.actions e).map fun actions => { s with actions := actions }

def system : Transition.System State Event where
  init s := ∃ db, s = ⟨ActionManager.initial db, fun _ => none, [], []⟩
  step := step

/-! ## What should hold -/

/-- **The assistant acts only as it was asked to and as it is allowed to.** -/
structure Acted (s : State) : Prop where
  intended : ∀ id text effect result, s.texts id = some text →
    (some id, .performed effect result) ∈ s.actions.history →
      ∃ req, toolRequest parse text = some req ∧ effectOf (actionRequest req) = some effect ∧
        ∃ row ∈ s.actions.db.auditLog, row.actionType = req.tool ∧ row.resource = effect.resource ∧
          row.permissionResult = "allowed"
  once : ∀ id, (s.actions.trail id).countP (fun h => h matches .performed _ _) ≤ 1
  truthful : ∀ text message, (text, some (.replied message true)) ∈ s.told →
    ∃ id effect, s.texts id = some text ∧ (some id, .performed effect (.ok ())) ∈ s.actions.history
  idle : ∀ text, toolRequest parse text = none →
    (∀ id, s.texts id ≠ some text) ∧ ∀ reply, (text, some reply) ∉ s.told

structure Invariant (s : State) : Prop where
  actions : ActionManager.Invariant s.actions
  intended : ActionManager.Intended s.actions
  asked : ∀ id text, s.texts id = some text → ∃ req call, toolRequest parse text = some req ∧
    s.actions.calls id = some call ∧ call.request = actionRequest req
  told : ∀ text reply, (text, some reply) ∈ s.told → (∃ req, toolRequest parse text = some req) ∧
    ∀ message, reply = .replied message true →
      ∃ id effect, s.texts id = some text ∧
        (some id, .performed effect (.ok ())) ∈ s.actions.history

section Invariant

variable {s s' : State} {id : ℕ} {text : String}

/-- The action manager goes on. -/
theorem Invariant.goOn (h : Invariant s) {e : ActionManager.Event} {actions : ActionManager.State}
    (hstep : ActionManager.step s.actions e = some actions) :
    Invariant { s with actions := actions } where
  actions := ActionManager.step_invariant h.actions hstep
  intended := ActionManager.intended_step h.actions h.intended hstep
  asked id text htext := by
    obtain ⟨req, call, hreq, hcall, hrequest⟩ := h.asked id text htext
    obtain ⟨call', hcall', hsame⟩ := (ActionManager.keeps_step h.actions hstep).1 id call hcall
    exact ⟨req, call', hreq, hcall', hsame.trans hrequest⟩
  told text reply hmem := by
    obtain ⟨hreq, hsuccess⟩ := h.told text reply hmem
    refine ⟨hreq, fun message hmessage => ?_⟩
    obtain ⟨id, effect, htext, hperformed⟩ := hsuccess message hmessage
    exact ⟨id, effect, htext, (ActionManager.keeps_step h.actions hstep).2.subset hperformed⟩

theorem Invariant.tell (h : Invariant s) (hreq : ∃ req, toolRequest parse text = some req)
    {reply : ActionReply}
    (hsuccess : ∀ message, reply = .replied message true →
      ∃ id effect, s.texts id = some text ∧
        (some id, .performed effect (.ok ())) ∈ s.actions.history)
    (awaiting : List ℕ) : Invariant { s with
      awaiting := awaiting, told := s.told ++ [(text, some reply)] } where
  actions := h.actions
  intended := h.intended
  asked := h.asked
  told other answer hmem := by
    rcases List.mem_append.mp hmem with hbefore | hnew
    · exact h.told other answer hbefore
    · obtain ⟨rfl, heq⟩ := Prod.mk.inj (List.mem_singleton.mp hnew)
      obtain rfl := Option.some.inj heq
      exact ⟨hreq, hsuccess⟩

theorem texts_of_pending (h : s.pending id = some text) : s.texts id = some text := by
  unfold State.pending at h
  split_ifs at h
  exact h

theorem Invariant.request_of_pending (h : Invariant s) (hpending : s.pending id = some text) :
    ∃ req, toolRequest parse text = some req := by
  obtain ⟨req, call, hreq, -⟩ := h.asked id text (texts_of_pending hpending)
  exact ⟨req, hreq⟩

/-- **A request in a text** becomes a call of its own. -/
theorem Invariant.execute (h : Invariant s) {req : ToolRequest}
    (hreq : toolRequest parse text = some req)
    {actions : ActionManager.State}
    (hstep : ActionManager.step s.actions (.execute (actionRequest req)) = some actions) :
    Invariant { s with
      actions := actions
      texts := Function.update s.texts s.actions.next (some text)
      awaiting := s.actions.next :: s.awaiting } := by
  have hnext : ∀ other, s.texts other ≠ none → other ≠ s.actions.next := by
    rintro other htext rfl
    obtain ⟨text, htext⟩ := Option.ne_none_iff_exists'.mp htext
    obtain ⟨req, call, -, hcall, -⟩ := h.asked _ _ htext
    rw [h.actions.bound _ (Nat.le_refl _)] at hcall
    cases hcall
  have hgone := h.goOn hstep
  have hself : ∃ call, actions.calls s.actions.next = some call ∧
      call.request = actionRequest req := by
    simp only [ActionManager.step] at hstep
    split at hstep <;> cases hstep
    · exact ⟨_, Function.update_self .., rfl⟩
    · exact ⟨_, Function.update_self .., rfl⟩
  refine ⟨hgone.actions, hgone.intended, ?_, ?_⟩
  · intro other text' htext
    change Function.update s.texts s.actions.next (some text) other = some text' at htext
    by_cases hother : other = s.actions.next
    · subst hother
      rw [Function.update_self] at htext
      obtain rfl := Option.some.inj htext
      obtain ⟨call, hcall, hrequest⟩ := hself
      exact ⟨req, call, hreq, hcall, hrequest⟩
    · rw [Function.update_of_ne hother] at htext
      exact hgone.asked other text' htext
  · intro text' reply hmem
    obtain ⟨hreq', hsuccess⟩ := hgone.told text' reply hmem
    refine ⟨hreq', fun message hmessage => ?_⟩
    obtain ⟨other, effect, htext, hperformed⟩ := hsuccess message hmessage
    have hother : other ≠ s.actions.next :=
      hnext other (Option.ne_none_iff_exists'.mpr ⟨text', htext⟩)
    exact ⟨other, effect, (Function.update_of_ne hother ..).trans htext, hperformed⟩

theorem invariant_step {e : Event} (h : Invariant s) (hstep : system.step s e = some s') :
    Invariant s' := by
  cases e with
  | generated text =>
      change (match toolRequest parse text with | none => _ | some req => _) = some s' at hstep
      split at hstep
      · obtain rfl := Option.some.inj hstep
        refine ⟨h.actions, h.intended, h.asked, fun other reply hmem => ?_⟩
        rcases List.mem_append.mp hmem with hbefore | hnew
        · exact h.told other reply hbefore
        · cases List.mem_singleton.mp hnew
      · next req hreq =>
          obtain ⟨actions, hactions, rfl⟩ := Option.map_eq_some_iff.mp hstep
          exact h.execute hreq hactions
  | unreachable text =>
      obtain ⟨req, hreq, rfl⟩ := Option.map_eq_some_iff.mp hstep
      exact h.tell ⟨req, hreq⟩ (fun _ heq => by cases heq) s.awaiting
  | answered id =>
      obtain ⟨text, hpending, hstep⟩ := Option.bind_eq_some_iff.mp hstep
      obtain ⟨response, hresponse, rfl⟩ := Option.map_eq_some_iff.mp hstep
      refine h.tell (h.request_of_pending hpending) ?_ _
      intro message hmessage
      obtain ⟨-, hsuccess⟩ := ActionReply.replied.inj hmessage
      obtain ⟨effect, hperformed⟩ :=
        ActionManager.performed_of_response h.actions hresponse hsuccess
      exact ⟨id, effect, texts_of_pending hpending, hperformed⟩
  | failed id error =>
      obtain ⟨text, hpending, rfl⟩ := Option.map_eq_some_iff.mp hstep
      exact h.tell (h.request_of_pending hpending) (fun _ heq => by cases heq) _
  | actions e =>
      obtain ⟨actions, hactions, rfl⟩ := Option.map_eq_some_iff.mp hstep
      exact h.goOn hactions

end Invariant

/-- **The assistant acts as it was asked to**, and its successes are successes. -/
theorem acted_of_reachable {s : State} (h : system.Reachable s) : Acted s := by
  have hs : Invariant s := by
    refine h.invariant (I := Invariant) ?_ fun s e s' _ hs _ hstep => invariant_step hs hstep
    rintro _ ⟨db, rfl⟩
    exact ⟨⟨⟨nofun, fun _ _ => rfl⟩, fun _ _ => rfl, nofun, (List.append_nil _).symm⟩,
      ⟨nofun, nofun⟩, nofun, nofun⟩
  refine ⟨?_, ActionManager.countP_performed_le_one hs.actions, ?_, ?_⟩
  · intro id text effect result htext hperformed
    obtain ⟨req, call, hreq, hcall, hrequest⟩ := hs.asked id text htext
    obtain ⟨call', hcall', heffect⟩ := hs.intended.performed id effect result hperformed
    obtain rfl := Option.some.inj (hcall.symm.trans hcall')
    obtain ⟨row, hrow, haction, hresource, hallowed⟩ :=
      ActionManager.row_of_performed hs.actions hcall hperformed
    rw [hrequest] at heffect haction
    exact ⟨req, hreq, heffect, row, hrow, haction, hresource, hallowed⟩
  · intro text message hmem
    exact (hs.told text _ hmem).2 message rfl
  · intro text hnone
    constructor
    · intro id htext
      obtain ⟨req, call, hreq, -⟩ := hs.asked id text htext
      rw [hnone] at hreq
      cases hreq
    · intro reply hmem
      obtain ⟨⟨req, hreq⟩, -⟩ := hs.told text reply hmem
      rw [hnone] at hreq
      cases hreq

/-! ## A run -/

section Run

def tidyUp : Tools.ToolRequest :=
  ⟨"tool_request", "filesystem.move",
    [("source", "/home/nira/a"), ("destination", "/home/nira/b")], "tidy up"⟩

def tidyingText : String :=
  String.ofList ("Let me see. ".toList ++ ([] ++ (tidyUp.text ++ " Done!".toList)))

theorem toolRequest_tidyingText :
    toolRequest parse tidyingText = some ⟨tidyUp.tool, tidyUp.arguments, tidyUp.reason⟩ := by
  have hcontains : Text.contains tidyingText "\"tool_request\"" = true := by decide +kernel
  have hprose : '{' ∉ "Let me see. ".toList := by decide
  have hparse : Tools.parseToolRequest Json.reader tidyingText = some tidyUp :=
    (Tools.parseToolRequest_append hprose .nil (Tools.text_dropWhile tidyUp _)).trans
      (Tools.stream_text rfl (by decide) _)
  rw [toolRequest, if_pos hcontains, parse, hparse]
  rfl

/-- The state in which a text has just become a call. -/
def called (text : String) (req : ToolRequest) : State where
  actions := (ActionManager.step (ActionManager.initial ActionManager.grantedDb)
    (.execute (actionRequest req))).getD (ActionManager.initial ActionManager.grantedDb)
  texts := Function.update (fun _ => none) 0 (some text)
  awaiting := [0]
  told := []

def tidyingRun : List Event :=
  [.actions (.serve 0 { now := "2026-01-01 00:00:00" }), .actions (.deliver 0),
    .actions (.perform 0 (.ok ())),
    .answered 0]

theorem told_tidyingRun {text : String}
    (hreq : toolRequest parse text = some ⟨tidyUp.tool, tidyUp.arguments, tidyUp.reason⟩) :
    ∃ s, system.Reachable s ∧
      s.told = [(text, some (.replied "moved /home/nira/a to /home/nira/b" true))] := by
  have hstart : system.Reachable ⟨ActionManager.initial ActionManager.grantedDb,
      fun _ => none, [], []⟩ :=
    .init ⟨_, rfl⟩
  have hcalled : system.step ⟨ActionManager.initial ActionManager.grantedDb, fun _ => none, [], []⟩
      (.generated text) = some (called text ⟨tidyUp.tool, tidyUp.arguments, tidyUp.reason⟩) := by
    change (match toolRequest parse text with | none => _ | some req => _) = _
    rw [hreq]
    rfl
  have hrun : (system.run (called text ⟨tidyUp.tool, tidyUp.arguments, tidyUp.reason⟩)
    tidyingRun).map State.told =
      some [(text, some (.replied "moved /home/nira/a to /home/nira/b" true))] := rfl
  obtain ⟨s, hs, htold⟩ := Option.map_eq_some_iff.mp hrun
  exact ⟨s, Transition.System.Reachable.run (hstart.step trivial hcalled) hs, htold⟩

/-- What the assistant is asked for is granted, carried out and told. -/
theorem acted_tidyingRun : ∃ s, Acted s ∧
    s.told = [(tidyingText, some (.replied "moved /home/nira/a to /home/nira/b" true))] := by
  obtain ⟨s, hs, htold⟩ := told_tidyingRun toolRequest_tidyingText
  exact ⟨s, acted_of_reachable hs, htold⟩

end Run

end NiraOS.AiDaemon.Acting
