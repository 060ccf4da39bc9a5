import NiraOS.ActionManager.ExecuteAction

/-!
# Complete mediation over two services

Any number of `execute_action` requests run against one permission service.
Between a request's check being served and its reply being delivered anything
may happen: other requests, changes of the grant table, checks for other
clients, a transport failure, the client going away.

Every step is recorded in `history`, tagged with the request it belongs to.  The
whole safety argument is one invariant about one request: the entries with its
tag, its *trail*, always have one of the shapes of `Trail`.
-/

namespace NiraOS.ActionManager

open Permission (AuditRow Connection PermissionsTable DbOutcome)

/-! ## The system -/

/-- Where a request is in `execute_action`. -/
inductive Phase
  /-- The capability request is on its way to the permission service. -/
  | checking (resource : String)
  /-- The permission service has answered; the reply is on its way back. -/
  | replying (resource : String) (reply : Except String CapabilityResponse)
  /-- The reply allowed the request; the action function is called next. -/
  | performing (effect : Effect)
  | answered
  /-- The client went away while the handler awaited the reply. -/
  | gone
  /-- The `unreachable!` was reached. -/
  | panicked

structure Call where
  request : ActionRequest
  phase : Phase

inductive Happening
  /-- A capability check wrote this row. -/
  | checked (row : AuditRow)
  /-- The handler received the outcome of its check. -/
  | decided (reply : Except String CapabilityResponse)
  /-- The action function was called and returned. -/
  | performed (effect : Effect) (result : Except String Unit)
  | responded (response : ActionResponse)

structure State where
  db : Connection
  calls : ℕ → Option Call
  next : ℕ
  /-- The audit log as it was before the first request. -/
  startLog : List AuditRow
  history : List (Option ℕ × Happening)

inductive Event
  | execute (request : ActionRequest)
  | serve (id : ℕ) (env : DbOutcome)
  | deliver (id : ℕ)
  /-- The call to the permission service fails in transport. -/
  | fail (id : ℕ) (error : String)
  | perform (id : ℕ) (result : Except String Unit)
  | cancel (id : ℕ)
  | changeGrants (table : PermissionsTable)
  /-- The permission service serves a check of another client. -/
  | checkElsewhere (request : CapabilityRequest) (env : DbOutcome)

/-- Move a request to a phase and record what happened. -/
def State.advance (s : State) (id : ℕ) (call : Call) (what : List Happening) : State :=
  { s with
    calls := Function.update s.calls id (some call)
    history := s.history ++ what.map fun h => (some id, h) }

/-- The rows `after` holds beyond `before`, as check happenings. -/
def newRows (before after : Connection) : List Happening :=
  (after.auditLog.drop before.auditLog.length).map .checked

/-- The handler resumes with the outcome of its check. -/
def State.resume (s : State) (id : ℕ) (request : ActionRequest) (resource : String)
    (reply : Except String CapabilityResponse) : State :=
  match afterPermission request resource reply with
  | some (.perform effect) => s.advance id ⟨request, .performing effect⟩ [.decided reply]
  | some (.respond response) =>
      s.advance id ⟨request, .answered⟩ [.decided reply, .responded response]
  | none => s.advance id ⟨request, .panicked⟩ [.decided reply]

def step (s : State) : Event → Option State
  | .execute request =>
      match resourceOf request with
      | .error response =>
          some { s.advance s.next ⟨request, .answered⟩ [.responded response] with
            next := s.next + 1 }
      | .ok resource =>
          some { s.advance s.next ⟨request, .checking resource⟩ [] with next := s.next + 1 }
  | .serve id env =>
      match s.calls id with
      | some ⟨request, .checking resource⟩ =>
          let answer := requestCapability s.db env (capabilityRequest request resource)
          some { s.advance id ⟨request, .replying resource answer.1⟩ (newRows s.db answer.2) with
            db := answer.2 }
      | _ => none
  | .deliver id =>
      match s.calls id with
      | some ⟨request, .replying resource reply⟩ => some (s.resume id request resource reply)
      | _ => none
  | .fail id error =>
      match s.calls id with
      | some ⟨request, .checking resource⟩ => some (s.resume id request resource (.error error))
      | some ⟨request, .replying resource _⟩ => some (s.resume id request resource (.error error))
      | _ => none
  | .perform id result =>
      match s.calls id with
      | some ⟨request, .performing effect⟩ =>
          some (s.advance id ⟨request, .answered⟩
            [.performed effect result, .responded (afterEffect effect result)])
      | _ => none
  | .cancel id =>
      match s.calls id with
      | some ⟨request, .checking _⟩ => some (s.advance id ⟨request, .gone⟩ [])
      | some ⟨request, .replying _ _⟩ => some (s.advance id ⟨request, .gone⟩ [])
      | _ => none
  | .changeGrants table => some { s with db := { s.db with permissions := table } }
  | .checkElsewhere request env =>
      let answer := requestCapability s.db env request
      some { s with
        db := answer.2
        history := s.history ++ (newRows s.db answer.2).map fun h => (none, h) }

/-- The row a happening has written. -/
def Happening.row? : Happening → Option AuditRow
  | .checked row => some row
  | _ => none

def initial (db : Connection) : State := ⟨db, fun _ => none, 0, db.auditLog, []⟩

def system : Transition.System State Event where
  init s := ∃ db, s = initial db
  step := step

/-! ## Trails -/

/-- The entries of one request, in order. -/
def trailIn (history : List (Option ℕ × Happening)) (id : ℕ) : List Happening :=
  history.filterMap fun e => if e.1 = some id then some e.2 else none

def State.trail (s : State) (id : ℕ) : List Happening := trailIn s.history id

@[simp] theorem trailIn_append (history more : List (Option ℕ × Happening)) (id : ℕ) :
    trailIn (history ++ more) id = trailIn history id ++ trailIn more id :=
  List.filterMap_append ..

@[simp] theorem trailIn_map_some (what : List Happening) (id : ℕ) :
    trailIn (what.map fun h => (some id, h)) id = what := by
  induction what with
  | nil => rfl
  | cons h what ih => simp [trailIn]

theorem trailIn_map_of_ne (what : List Happening) {tag : Option ℕ} {id : ℕ} (h : tag ≠ some id) :
    trailIn (what.map fun h => (tag, h)) id = [] := by
  induction what with
  | nil => rfl
  | cons _ what ih => simp [trailIn, h]

theorem mem_trailIn {history : List (Option ℕ × Happening)} {id : ℕ} {h : Happening} :
    h ∈ trailIn history id ↔ (some id, h) ∈ history := by
  simp only [trailIn, List.mem_filterMap]
  constructor
  · rintro ⟨⟨tag, h'⟩, hmem, heq⟩
    split at heq <;> cases heq
    rename_i htag
    exact htag ▸ hmem
  · exact fun hmem => ⟨_, hmem, by simp⟩

/-- The row a check of `request` writes, for the resource the effect touches. -/
structure RowFor (request : ActionRequest) (resource : String) (row : AuditRow) : Prop where
  actionType : row.actionType = request.actionId
  resource : row.resource = resource

/-- No check, or one. -/
def CheckPart (request : ActionRequest) (resource : String) (checks : List Happening) : Prop :=
  checks = [] ∨ ∃ row, RowFor request resource row ∧ checks = [.checked row]

/-- **The shapes of a trail**, by the phase of the request. -/
inductive Trail (request : ActionRequest) : Phase → List Happening → Prop
  | checking {resource : String} : resourceOf request = .ok resource →
      Trail request (.checking resource) []
  | replied {resource : String} {row : AuditRow} : resourceOf request = .ok resource →
      RowFor request resource row →
      Trail request (.replying resource (.ok ⟨row.permissionResult, "session"⟩)) [.checked row]
  | failing {resource error : String} : resourceOf request = .ok resource →
      Trail request (.replying resource (.error error)) []
  | performing {row : AuditRow} {effect : Effect} {reply : Except String CapabilityResponse} :
      RowFor request effect.resource row → row.permissionResult = "allowed" → Allows reply →
      resourceOf request = .ok effect.resource →
      Trail request (.performing effect) [.checked row, .decided reply]
  | rejected {response : ActionResponse} : response.success = false →
      Trail request .answered [.responded response]
  | refused {resource : String} {checks : List Happening}
      {reply : Except String CapabilityResponse} {response : ActionResponse} :
      CheckPart request resource checks → response.success = false →
      Trail request .answered (checks ++ [.decided reply, .responded response])
  | performed {row : AuditRow} {effect : Effect} {reply : Except String CapabilityResponse}
      {result : Except String Unit} :
      RowFor request effect.resource row → row.permissionResult = "allowed" → Allows reply →
      resourceOf request = .ok effect.resource →
      Trail request .answered [.checked row, .decided reply, .performed effect result,
        .responded (afterEffect effect result)]
  | gone {resource : String} {checks : List Happening} : CheckPart request resource checks →
      Trail request .gone checks

/-- Every started request has a well-shaped trail; the others have none. -/
structure Trails (calls : ℕ → Option Call) (history : List (Option ℕ × Happening)) : Prop where
  started : ∀ id call, calls id = some call → Trail call.request call.phase (trailIn history id)
  fresh : ∀ id, calls id = none → trailIn history id = []

structure Invariant (s : State) : Prop where
  trails : Trails s.calls s.history
  bound : ∀ id, s.next ≤ id → s.calls id = none
  /-- Entries without a tag are checks of other clients. -/
  untagged : ∀ h, (none, h) ∈ s.history → ∃ row, h = .checked row
  /-- The audit log is the start log followed by the rows of the history. -/
  logged : s.db.auditLog = s.startLog ++ s.history.filterMap fun e => e.2.row?

/-! ## The step lemmas -/

/-- One request moves on, all others keep their trails. -/
theorem Trails.update {calls : ℕ → Option Call} {history : List (Option ℕ × Happening)}
    (h : Trails calls history) {id : ℕ} {request : ActionRequest} {phase : Phase}
    {what : List Happening} (htrail : Trail request phase (trailIn history id ++ what)) :
    Trails (Function.update calls id (some ⟨request, phase⟩))
      (history ++ what.map fun h => (some id, h)) := by
  constructor
  · intro id' call hcall
    rw [trailIn_append]
    by_cases hid : id' = id
    · subst hid
      obtain rfl : (⟨request, phase⟩ : Call) = call := by simpa using hcall
      rwa [trailIn_map_some]
    · rw [trailIn_map_of_ne what (by simpa using Ne.symm hid), List.append_nil]
      exact h.started id' call (by simpa [hid] using hcall)
  · intro id' hcall
    have hid : id' ≠ id := by
      rintro rfl
      simp at hcall
    rw [trailIn_append, trailIn_map_of_ne what (by simpa using hid.symm), List.append_nil]
    exact h.fresh id' (by simpa [hid] using hcall)

/-- Entries without a tag are in no trail. -/
theorem Trails.untagged {calls : ℕ → Option Call} {history : List (Option ℕ × Happening)}
    (h : Trails calls history) (what : List Happening) :
    Trails calls (history ++ what.map fun h => (none, h)) := by
  have heq : ∀ id, trailIn (history ++ what.map fun h => (none, h)) id = trailIn history id := by
    intro id
    rw [trailIn_append, trailIn_map_of_ne what (by simp), List.append_nil]
  exact ⟨fun id call hcall => heq id ▸ h.started id call hcall,
    fun id hcall => heq id ▸ h.fresh id hcall⟩

theorem filterMap_row_map (tag : Option ℕ) (what : List Happening) :
    (what.map fun h => (tag, h)).filterMap (fun e => e.2.row?) = what.filterMap Happening.row? := by
  rw [List.filterMap_map]
  rfl

/-- Moving one request on keeps the invariant, provided its own trail stays
well shaped and the database gains the rows recorded. -/
theorem Invariant.advance {s : State} (hs : Invariant s) {id : ℕ} {request : ActionRequest}
    {phase phase' : Phase} {what : List Happening} (db : Connection)
    (hcall : s.calls id = some ⟨request, phase⟩)
    (htrail : Trail request phase (s.trail id) → Trail request phase' (s.trail id ++ what))
    (hlog : db.auditLog = s.db.auditLog ++ what.filterMap Happening.row?) :
    Invariant { s.advance id ⟨request, phase'⟩ what with db := db } := by
  refine ⟨hs.trails.update (htrail (hs.trails.started id _ hcall)), ?_, ?_, ?_⟩
  · intro id' hle
    have hid : id' ≠ id := by
      rintro rfl
      rw [hs.bound id' hle] at hcall
      cases hcall
    simpa [State.advance, hid] using hs.bound id' hle
  · exact fun h hmem => hs.untagged h (by simpa [State.advance] using hmem)
  · change db.auditLog = s.startLog ++ (s.history ++ _).filterMap _
    rw [List.filterMap_append, filterMap_row_map, ← List.append_assoc, ← hs.logged, hlog]

/-- Starting a request keeps the invariant. -/
theorem Invariant.start {s : State} (hs : Invariant s) {request : ActionRequest} {phase : Phase}
    {what : List Happening} (htrail : Trail request phase what)
    (hrows : what.filterMap Happening.row? = []) :
    Invariant { s.advance s.next ⟨request, phase⟩ what with next := s.next + 1 } := by
  have hempty : trailIn s.history s.next = [] := hs.trails.fresh _ (hs.bound _ (Nat.le_refl _))
  refine ⟨hs.trails.update (by rwa [hempty, List.nil_append]), ?_, ?_, ?_⟩
  · intro id hle
    have hlt : s.next + 1 ≤ id := hle
    simpa [State.advance, show id ≠ s.next by omega] using hs.bound id (by omega)
  · exact fun h hmem => hs.untagged h (by simpa [State.advance] using hmem)
  · change s.db.auditLog = s.startLog ++ (s.history ++ _).filterMap _
    rw [List.filterMap_append, filterMap_row_map, ← List.append_assoc, ← hs.logged, hrows,
      List.append_nil]

/-- The handler resuming after its check keeps the invariant. -/
theorem Invariant.resume {s : State} (hs : Invariant s) {id : ℕ} {request : ActionRequest}
    {phase : Phase} {resource : String} {reply : Except String CapabilityResponse}
    (hcall : s.calls id = some ⟨request, phase⟩) (hresource : resourceOf request = .ok resource)
    (hchecks : CheckPart request resource (s.trail id))
    (hallowed : Allows reply → ∃ row, RowFor request resource row ∧
      row.permissionResult = "allowed" ∧ s.trail id = [.checked row]) :
    Invariant (s.resume id request resource reply) := by
  unfold State.resume
  rcases afterPermission_spec hresource reply with
    ⟨effect, hafter, hallows, rfl⟩ | ⟨response, hafter, hfail⟩
  · rw [hafter]
    obtain ⟨row, hrow, hresult, htrail⟩ := hallowed hallows
    refine hs.advance s.db hcall (fun _ => ?_) (by simp [Happening.row?])
    rw [htrail]
    exact .performing hrow hresult hallows hresource
  · rw [hafter]
    refine hs.advance s.db hcall (fun _ => ?_) (by simp [Happening.row?])
    exact .refused hchecks hfail

theorem newRows_append (conn : Connection) (rows : List AuditRow) :
    newRows conn { conn with auditLog := conn.auditLog ++ rows } = rows.map .checked := by
  simp [newRows]

/-- Serving a check keeps the invariant: the row it writes becomes the trail. -/
theorem Invariant.serve {s : State} (hs : Invariant s) {id : ℕ} {request : ActionRequest}
    {resource : String} (hcall : s.calls id = some ⟨request, .checking resource⟩)
    (env : DbOutcome) {answer : Except String CapabilityResponse × Connection}
    (hanswer : answer = requestCapability s.db env (capabilityRequest request resource)) :
    Invariant { s.advance id ⟨request, .replying resource answer.1⟩ (newRows s.db answer.2) with
      db := answer.2 } := by
  rcases requestCapability_spec s.db env (capabilityRequest request resource) with
    ⟨error, heq⟩ | ⟨row, haction, hresource, heq⟩
  · rw [hanswer, heq, show newRows s.db s.db = [] by simp [newRows]]
    refine hs.advance _ hcall (fun htrail => ?_) (by simp)
    generalize s.trail id = trail at htrail
    cases htrail with
    | checking h => exact .failing h
  · rw [hanswer, heq, newRows_append s.db [row]]
    refine hs.advance _ hcall (fun htrail => ?_) (by simp [Happening.row?])
    generalize s.trail id = trail at htrail
    cases htrail with
    | checking h => exact .replied h ⟨haction, hresource⟩

/-- What is known of a request that awaits its check. -/
theorem Trail.of_checking {request : ActionRequest} {resource : String} {trail : List Happening}
    (h : Trail request (.checking resource) trail) :
    resourceOf request = .ok resource ∧ CheckPart request resource trail := by
  cases h with
  | checking hresource => exact ⟨hresource, Or.inl rfl⟩

theorem Trail.of_replying {request : ActionRequest} {resource : String}
    {reply : Except String CapabilityResponse} {trail : List Happening}
    (h : Trail request (.replying resource reply) trail) :
    resourceOf request = .ok resource ∧ CheckPart request resource trail ∧
      (Allows reply → ∃ row, RowFor request resource row ∧ row.permissionResult = "allowed" ∧
        trail = [.checked row]) := by
  cases h with
  | @replied _ row hresource hrow =>
      refine ⟨hresource, Or.inr ⟨row, hrow, rfl⟩, ?_⟩
      rintro ⟨response, hok, hallowed⟩
      cases hok
      exact ⟨row, hrow, hallowed, rfl⟩
  | failing hresource =>
      refine ⟨hresource, Or.inl rfl, ?_⟩
      rintro ⟨response, hok, -⟩
      cases hok

theorem not_allows_error (error : String) : ¬ Allows (.error error) := by
  rintro ⟨response, hok, -⟩
  cases hok

/-- **Every step keeps the invariant.** -/
theorem step_invariant {s s' : State} {event : Event} (hs : Invariant s)
    (h : step s event = some s') : Invariant s' := by
  cases event with
  | execute request =>
      simp only [step] at h
      cases hresource : resourceOf request with
      | error response =>
          rw [hresource] at h
          cases h
          exact hs.start (.rejected (resourceOf_rejects hresource)) rfl
      | ok resource =>
          rw [hresource] at h
          cases h
          exact hs.start (.checking hresource) rfl
  | serve id env =>
      simp only [step] at h
      split at h <;> cases h
      rename_i request resource hcall
      exact hs.serve hcall env rfl
  | deliver id =>
      simp only [step] at h
      split at h <;> cases h
      rename_i request resource reply hcall
      obtain ⟨hresource, hchecks, hallowed⟩ := Trail.of_replying (hs.trails.started id _ hcall)
      exact hs.resume hcall hresource hchecks hallowed
  | fail id error =>
      simp only [step] at h
      split at h <;> cases h
      · rename_i request resource hcall
        obtain ⟨hresource, hchecks⟩ := Trail.of_checking (hs.trails.started id _ hcall)
        exact hs.resume hcall hresource hchecks fun h => absurd h (not_allows_error error)
      · rename_i request resource reply hcall
        obtain ⟨hresource, hchecks, -⟩ := Trail.of_replying (hs.trails.started id _ hcall)
        exact hs.resume hcall hresource hchecks fun h => absurd h (not_allows_error error)
  | perform id result =>
      simp only [step] at h
      split at h <;> cases h
      rename_i request effect hcall
      refine hs.advance s.db hcall (fun htrail => ?_) (by simp [Happening.row?])
      generalize s.trail id = trail at htrail
      cases htrail with
      | performing hrow hresult hallows hresource =>
          exact .performed hrow hresult hallows hresource
  | cancel id =>
      simp only [step] at h
      split at h <;> cases h
      · rename_i request resource hcall
        refine hs.advance s.db hcall (fun htrail => ?_) (by simp)
        rw [List.append_nil]
        exact .gone (Trail.of_checking htrail).2
      · rename_i request resource reply hcall
        refine hs.advance s.db hcall (fun htrail => ?_) (by simp)
        rw [List.append_nil]
        exact .gone (Trail.of_replying htrail).2.1
  | changeGrants table =>
      cases h
      exact ⟨hs.trails, hs.bound, hs.untagged, hs.logged⟩
  | checkElsewhere request env =>
      cases h
      refine ⟨hs.trails.untagged _, hs.bound, ?_, ?_⟩
      · intro h hmem
        rcases List.mem_append.mp hmem with hmem | hmem
        · exact hs.untagged h hmem
        · obtain ⟨h', hmem', heq⟩ := List.mem_map.mp hmem
          obtain ⟨row, -, rfl⟩ := List.mem_map.mp hmem'
          exact ⟨row, (Prod.mk.inj heq).2.symm⟩
      change (requestCapability s.db env request).2.auditLog =
        s.startLog ++ (s.history ++ _).filterMap _
      rw [List.filterMap_append, filterMap_row_map, ← List.append_assoc, ← hs.logged]
      rcases requestCapability_spec s.db env request with ⟨error, heq⟩ | ⟨row, -, -, heq⟩
      · simp [heq, newRows]
      · simp [heq, newRows, Happening.row?]

theorem reachable_invariant {s : State} (h : system.Reachable s) : Invariant s := by
  refine h.invariant (I := Invariant) ?_ fun _ _ _ _ hs _ hstep => step_invariant hs hstep
  rintro _ ⟨db, rfl⟩
  exact ⟨⟨by simp [initial], by simp [initial, trailIn]⟩, by simp [initial], by simp [initial],
    by simp [initial]⟩

/-! ## What the trails say -/

/-- An effect stands third in its trail, after its row and the reply that
allowed it. -/
theorem Trail.of_performed {request : ActionRequest} {phase : Phase} {trail : List Happening}
    {effect : Effect} {result : Except String Unit} (h : Trail request phase trail)
    (hmem : .performed effect result ∈ trail) :
    ∃ row reply, RowFor request effect.resource row ∧ row.permissionResult = "allowed" ∧
      Allows reply ∧ resourceOf request = .ok effect.resource ∧
      trail = [.checked row, .decided reply, .performed effect result,
        .responded (afterEffect effect result)] := by
  cases h with
  | checking | replied | failing | performing | rejected => simp at hmem
  | refused hchecks _ | gone hchecks =>
      rcases hchecks with rfl | ⟨row, -, rfl⟩ <;> simp at hmem
  | @performed row effect' reply result' hrow hresult hallows hresource =>
      simp only [List.mem_cons, Happening.performed.injEq, reduceCtorEq, List.not_mem_nil, or_false,
        false_or] at hmem
      obtain ⟨rfl, rfl⟩ := hmem
      exact ⟨row, reply, hrow, hresult, hallows, hresource, rfl⟩

/-- A response is the last entry of its trail: a failure of a request without an
effect, or the outcome of the effect. -/
theorem Trail.of_responded {request : ActionRequest} {phase : Phase} {trail : List Happening}
    {response : ActionResponse} (h : Trail request phase trail)
    (hmem : .responded response ∈ trail) :
    (response.success = false ∧ ∀ effect result, .performed effect result ∉ trail) ∨
      ∃ effect result, .performed effect result ∈ trail ∧ response = afterEffect effect result := by
  cases h with
  | checking | replied | failing | performing => simp at hmem
  | gone hchecks => rcases hchecks with rfl | ⟨row, -, rfl⟩ <;> simp at hmem
  | rejected hfail =>
      simp only [List.mem_singleton, Happening.responded.injEq] at hmem
      exact Or.inl ⟨hmem ▸ hfail, by simp⟩
  | refused hchecks hfail =>
      rcases hchecks with rfl | ⟨row, -, rfl⟩ <;>
      · simp only [List.cons_append, List.nil_append, List.mem_cons, Happening.responded.injEq,
          reduceCtorEq, List.not_mem_nil, or_false, false_or] at hmem
        exact Or.inl ⟨hmem ▸ hfail, by simp⟩
  | @performed row effect reply result =>
      simp only [List.mem_cons, Happening.responded.injEq, reduceCtorEq, List.not_mem_nil, or_false,
        false_or] at hmem
      exact Or.inr ⟨effect, result, by simp, hmem⟩

/-! ## The claim about the two services -/

/-- Every privileged effect is mediated and audited. -/
structure Mediated (s : State) : Prop where
  /-- An effect belongs to a request and is preceded by a row of a check for that
  request: the requested action, exactly the resource the effect touches, allowed. -/
  preceded : ∀ tag effect result pre post,
    s.history = pre ++ (tag, .performed effect result) :: post →
      ∃ id call row, tag = some id ∧ s.calls id = some call ∧ (some id, .checked row) ∈ pre ∧
        row.actionType = call.request.actionId ∧ row.resource = effect.resource ∧
        resourceOf call.request = .ok effect.resource ∧ row.permissionResult = "allowed"
  /-- No two effects share a request, so no two share a row. -/
  distinct : ∀ id, ((s.trail id).countP fun h => h matches .performed _ _) ≤ 1 ∧
    ((s.trail id).countP fun h => h matches .checked _) ≤ 1
  /-- The rows of the history are the rows the audit log has gained, in order. -/
  logged : s.db.auditLog = s.startLog ++ s.history.filterMap fun e => e.2.row?
  /-- A request without an allowing reply has no effect and answers `success = false`. -/
  refused : ∀ id, (∀ reply, (some id, .decided reply) ∈ s.history → ¬ Allows reply) →
    (∀ effect result, (some id, .performed effect result) ∉ s.history) ∧
      ∀ response, (some id, .responded response) ∈ s.history → response.success = false
  success : ∀ id response, (some id, .responded response) ∈ s.history →
    (response.success = true ↔ (∃ reply, (some id, .decided reply) ∈ s.history ∧ Allows reply) ∧
      ∃ effect, (some id, .performed effect (.ok ())) ∈ s.history)

theorem Invariant.trail {s : State} (hs : Invariant s) {id : ℕ} {h : Happening}
    (hmem : (some id, h) ∈ s.history) :
    ∃ call, s.calls id = some call ∧ Trail call.request call.phase (s.trail id) := by
  cases hcall : s.calls id with
  | none =>
      have := mem_trailIn.mpr hmem
      rw [hs.trails.fresh id hcall] at this
      cases this
  | some call => exact ⟨call, rfl, hs.trails.started id call hcall⟩

/-- **Every privileged effect is mediated and audited**, in every reachable
state of the two services. -/
theorem reachable_mediated {s : State} (h : system.Reachable s) : Mediated s := by
  have hs := reachable_invariant h
  refine ⟨?_, ?_, hs.logged, ?_, ?_⟩
  · intro tag effect result pre post hsplit
    have hmem : (tag, .performed effect result) ∈ s.history := by rw [hsplit]; simp
    cases tag with
    | none =>
        obtain ⟨row, hrow⟩ := hs.untagged _ hmem
        cases hrow
    | some id =>
        obtain ⟨call, hcall, htrail⟩ := hs.trail hmem
        obtain ⟨row, reply, hrow, hresult, -, hresource, heq⟩ :=
          htrail.of_performed (mem_trailIn.mpr hmem)
        refine ⟨id, call, row, rfl, hcall, ?_, hrow.actionType, hrow.resource, hresource, hresult⟩
        -- the trail splits at the effect, and its first entry is the row
        have hparts : trailIn pre id ++ .performed effect result :: trailIn post id =
            [.checked row, .decided reply, .performed effect result,
              .responded (afterEffect effect result)] := by
          rw [← heq, State.trail, hsplit, trailIn_append]
          simp [trailIn]
        cases hpre : trailIn pre id with
        | nil =>
            rw [hpre] at hparts
            simp at hparts
        | cons first rest =>
            rw [hpre] at hparts
            obtain rfl : first = .checked row := (List.cons.inj hparts).1
            exact mem_trailIn.mp (hpre ▸ List.mem_cons_self ..)
  · intro id
    cases hcall : s.calls id with
    | none => simp [State.trail, hs.trails.fresh id hcall]
    | some call =>
        have htrail := hs.trails.started id call hcall
        change Trail call.request call.phase (s.trail id) at htrail
        generalize call.phase = phase, s.trail id = trail at htrail
        cases htrail with
        | refused hchecks _ | gone hchecks =>
            rcases hchecks with rfl | ⟨row, -, rfl⟩ <;> simp
        | _ => simp
  · intro id hnone
    have hno : ∀ effect result, (some id, .performed effect result) ∉ s.history := by
      intro effect result hmem
      obtain ⟨call, -, htrail⟩ := hs.trail hmem
      obtain ⟨row, reply, -, -, hallows, -, heq⟩ := htrail.of_performed (mem_trailIn.mpr hmem)
      exact hnone reply (mem_trailIn.mp (show _ ∈ s.trail id by rw [heq]; simp)) hallows
    refine ⟨hno, fun response hmem => ?_⟩
    obtain ⟨call, -, htrail⟩ := hs.trail hmem
    rcases htrail.of_responded (mem_trailIn.mpr hmem) with ⟨hfail, -⟩ | ⟨effect, result, hperf, -⟩
    · exact hfail
    · exact absurd (mem_trailIn.mp hperf) (hno effect result)
  · intro id response hmem
    obtain ⟨call, -, htrail⟩ := hs.trail hmem
    rcases htrail.of_responded (mem_trailIn.mpr hmem) with
      ⟨hfail, hno⟩ | ⟨effect, result, hperf, rfl⟩
    · simp only [hfail, Bool.false_eq_true, false_iff, not_and, not_exists]
      exact fun _ effect hperf => hno effect _ (mem_trailIn.mpr hperf)
    · obtain ⟨row, reply, -, -, hallows, -, heq⟩ := htrail.of_performed hperf
      rw [afterEffect_success]
      constructor
      · rintro rfl
        exact ⟨⟨reply, mem_trailIn.mp (show _ ∈ s.trail id by rw [heq]; simp), hallows⟩,
          effect, mem_trailIn.mp hperf⟩
      · rintro ⟨-, effect', hperf'⟩
        have hmem' : .performed effect' (.ok ()) ∈ s.trail id := mem_trailIn.mpr hperf'
        rw [heq] at hmem'
        simp only [List.mem_cons, Happening.performed.injEq, reduceCtorEq, List.not_mem_nil,
          or_false, false_or] at hmem'
        exact hmem'.2.symm

/-- The run of one granted move. -/
def grantedMove : List Event :=
  [.execute ⟨"filesystem.move",
      [("source", "/home/nira/a"), ("destination", "/home/nira/b")], "tidy up"⟩,
    .serve 0 { now := "2026-01-01 00:00:00" }, .deliver 0, .perform 0 (.ok ())]

def grantedDb : Connection :=
  ⟨⟨[⟨"filesystem.move", "/home/nira/a", "allowed", none⟩], by simp⟩, []⟩

def grantedState : State :=
  (system.run (initial grantedDb) grantedMove).getD (initial grantedDb)

theorem reachable_mediated_grantedMove :
    (grantedState.history.map fun e => e.2 matches .performed _ _) = [false, false, true, false] ∧
      Mediated grantedState :=
  ⟨by decide, reachable_mediated
    (Transition.System.Reachable.run (.init ⟨grantedDb, rfl⟩)
      (show system.run (initial grantedDb) grantedMove = some grantedState from rfl))⟩

end NiraOS.ActionManager
