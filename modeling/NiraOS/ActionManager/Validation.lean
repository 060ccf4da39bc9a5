import NiraOS.ActionManager.Mediation

/-!
# Requests that could never run

`execute_action` promises that unsupported or malformed requests never reach the policy service,
so that there are no misleading audit entries.  It asks for the `source` of a move before the
check, but for its `destination` only when the check has allowed it.

Of a request that is checked no more is known than that it has a resource (`Asked`).  That is
enough for every request but a move without a destination.
-/

namespace NiraOS.ActionManager

/-- The parameters that an action needs; `none` when it is not supported. -/
def needed (actionId : String) : Option (List String) :=
  if actionId = "filesystem.move" then some ["source", "destination"]
  else if actionId = "desktop.wallpaper.change" then some ["path"]
  else none

/-- The action is supported, and every parameter that it needs is there. -/
def ActionRequest.Complete (req : ActionRequest) : Prop :=
  ∃ keys, needed req.actionId = some keys ∧ ∀ key ∈ keys, req.parameter key ≠ none

/-- A move that says from where but not to where. -/
def ActionRequest.MissesDestination (req : ActionRequest) : Prop :=
  req.actionId = "filesystem.move" ∧ req.parameter "source" ≠ none ∧
    req.parameter "destination" = none

/-- The permission service is consulted, or a row was written, or there was an effect. -/
def State.Traces (s : State) (id : ℕ) : Prop :=
  (∃ request resource, s.calls id = some ⟨request, .checking resource⟩) ∨
    (∃ row, .checked row ∈ s.trail id) ∨ ∃ effect result, .performed effect result ∈ s.trail id

/-- Whatever runs beside it, the request leaves a trace only if it could be carried out. -/
def ActionRequest.TracesOnlyIfComplete (req : ActionRequest) : Prop :=
  ∀ s id call, system.Reachable s → s.calls id = some call → call.request = req → s.Traces id →
    req.Complete

/-! ## What is known of a request that leaves a trace -/

theorem complete_of_resourceOf {req : ActionRequest} {resource : String}
    (h : resourceOf req = .ok resource) (hdest : ¬ req.MissesDestination) : req.Complete := by
  rcases resourceOf_supported h with ⟨haction, hsource⟩ | ⟨haction, hpath⟩
  · refine ⟨["source", "destination"], by rw [haction]; rfl, fun key hkey => ?_⟩
    have hsome : req.parameter "source" ≠ none := by rw [hsource]; nofun
    rcases List.mem_cons.mp hkey with rfl | hkey
    · exact hsome
    · obtain rfl := List.mem_singleton.mp hkey
      exact fun hnone => hdest ⟨haction, hsome, hnone⟩
  · refine ⟨["path"], by rw [haction]; rfl, fun key hkey => ?_⟩
    obtain rfl := List.mem_singleton.mp hkey
    rw [hpath]
    nofun

/-- A request has a resource, or was answered at once. -/
def State.Asked (s : State) : Prop :=
  ∀ id request phase, s.calls id = some ⟨request, phase⟩ →
    (∃ resource, resourceOf request = .ok resource) ∨
      phase = .answered ∧ ∃ response, s.trail id = [.responded response]

section Asked

variable {s : State} {id : ℕ} {request : ActionRequest} {phase : Phase}

theorem State.calls_advance_self (call : Call) (what : List Happening) :
    (s.advance id call what).calls id = some call := by
  change Function.update s.calls id (some call) id = some call
  exact Function.update_self ..

theorem State.calls_advance_of_ne {id' : ℕ} (hid : id' ≠ id) (call : Call) (what : List Happening) :
    (s.advance id call what).calls id' = s.calls id' := by
  change Function.update s.calls id (some call) id' = s.calls id'
  exact Function.update_of_ne hid ..

theorem State.trail_advance_of_ne {id' : ℕ} (hid : id' ≠ id) (call : Call) (what : List Happening) :
    (s.advance id call what).trail id' = s.trail id' := by
  have hother : trailIn (what.map fun h => (some id, h)) id' = [] :=
    trailIn_map_of_ne what fun heq => hid (Option.some.inj heq).symm
  rw [State.trail, State.advance, trailIn_append, hother, List.append_nil]
  rfl

theorem State.Asked.resource (h : s.Asked) (hcall : s.calls id = some ⟨request, phase⟩)
    (hphase : phase ≠ .answered) : ∃ resource, resourceOf request = .ok resource :=
  (h id request phase hcall).resolve_right fun hanswered => hphase hanswered.1

/-- A request with a resource moves on, and no other. -/
theorem State.Asked.advance (h : s.Asked)
    (hresource : ∃ resource, resourceOf request = .ok resource)
    (phase : Phase) (what : List Happening) : (s.advance id ⟨request, phase⟩ what).Asked := by
  intro id' request' phase' hcall
  by_cases hid : id' = id
  · subst hid
    have heq := Option.some.inj ((State.calls_advance_self _ what).symm.trans hcall)
    obtain ⟨rfl, -⟩ := Call.mk.inj heq
    exact .inl hresource
  · rw [State.trail_advance_of_ne hid]
    exact h id' request' phase' ((State.calls_advance_of_ne hid _ what).symm.trans hcall)

theorem State.Asked.resume (h : s.Asked) (hresource : ∃ resource, resourceOf request = .ok resource)
    (resource : String) (reply : Except String CapabilityResponse) :
    (s.resume id request resource reply).Asked := by
  unfold State.resume
  split <;> exact h.advance hresource _ _

/-- Entries of other clients are in no trail. -/
theorem State.Asked.untagged (h : s.Asked) (db : Permission.Connection) (what : List Happening) :
    State.Asked { s with db := db, history := s.history ++ what.map fun h => (none, h) } := by
  intro id request phase hcall
  have hnone : trailIn (what.map fun h => (none, h)) id = [] := trailIn_map_of_ne what (by simp)
  have htrail : trailIn (s.history ++ what.map fun h => (none, h)) id = s.trail id := by
    rw [trailIn_append, hnone, List.append_nil]
    rfl
  refine (h id request phase hcall).imp_right fun ⟨hphase, response, hresponse⟩ => ?_
  exact ⟨hphase, response, htrail.trans hresponse⟩

end Asked

/-- **Every step**: a request is put to the service only with a resource. -/
theorem asked_step {s s' : State} {event : Event} (hinv : Invariant s) (h : s.Asked)
    (hstep : step s event = some s') : s'.Asked := by
  cases event with
  | execute request =>
      simp only [step] at hstep
      cases hresource : resourceOf request with
      | ok resource =>
          rw [hresource] at hstep
          cases hstep
          exact h.advance ⟨resource, hresource⟩ _ []
      | error response =>
          rw [hresource] at hstep
          cases hstep
          have hempty : trailIn s.history s.next = [] :=
            hinv.trails.fresh _ (hinv.bound _ (Nat.le_refl _))
          intro id' request' phase' hcall
          by_cases hid : id' = s.next
          · subst hid
            have heq :=
              Option.some.inj ((State.calls_advance_self _ [.responded response]).symm.trans hcall)
            refine .inr ⟨(Call.mk.inj heq).2.symm, response, ?_⟩
            change trailIn (s.history ++ [Happening.responded response].map fun h =>
              (some s.next, h))
              s.next = [.responded response]
            rw [trailIn_append, hempty, trailIn_map_some, List.nil_append]
          · have htrail :=
              State.trail_advance_of_ne (s := s) hid ⟨request, .answered⟩ [.responded response]
            have hcall' := (State.calls_advance_of_ne hid _ [.responded response]).symm.trans hcall
            refine (h id' request' phase' hcall').imp_right fun hanswered => ?_
            obtain ⟨hphase, first, hfirst⟩ := hanswered
            exact ⟨hphase, first, htrail.trans hfirst⟩
  | serve id env =>
      simp only [step] at hstep
      split at hstep <;> cases hstep
      rename_i request resource hcall
      exact h.advance (h.resource hcall (by simp)) _ _
  | deliver id =>
      simp only [step] at hstep
      split at hstep <;> cases hstep
      rename_i request resource reply hcall
      exact h.resume (h.resource hcall (by simp)) resource reply
  | fail id error =>
      simp only [step] at hstep
      split at hstep <;> cases hstep
      · rename_i request resource hcall
        exact h.resume (h.resource hcall (by simp)) resource _
      · rename_i request resource reply hcall
        exact h.resume (h.resource hcall (by simp)) resource _
  | perform id result =>
      simp only [step] at hstep
      split at hstep <;> cases hstep
      rename_i request effect hcall
      exact h.advance (h.resource hcall (by simp)) _ _
  | cancel id =>
      simp only [step] at hstep
      split at hstep <;> cases hstep
      · rename_i request resource hcall
        exact h.advance (h.resource hcall (by simp)) _ _
      · rename_i request resource reply hcall
        exact h.advance (h.resource hcall (by simp)) _ _
  | changeGrants table =>
      cases hstep
      exact h
  | checkElsewhere request env =>
      cases hstep
      exact h.untagged _ _

theorem reachable_asked {s : State} (h : system.Reachable s) : s.Asked := by
  refine h.invariant (I := State.Asked) ?_ fun _ _ _ hr hs _ hstep =>
    asked_step (reachable_invariant hr) hs hstep
  rintro _ ⟨db, rfl⟩ id request phase hcall
  nomatch hcall

/-- A trace is left only with a resource. -/
theorem resource_of_traces {s : State} {id : ℕ} {call : Call} (h : s.Asked)
    (hcall : s.calls id = some call) (htraces : s.Traces id) :
    ∃ resource, resourceOf call.request = .ok resource := by
  rcases h id call.request call.phase hcall with hresource | ⟨hphase, response, htrail⟩
  · exact hresource
  · rcases htraces with ⟨request, resource, hchecking⟩ | ⟨row, hrow⟩ | ⟨effect, result, heffect⟩
    · obtain rfl := Option.some.inj (hcall.symm.trans hchecking)
      nomatch hphase
    · rw [htrail] at hrow
      simp at hrow
    · rw [htrail] at heffect
      simp at heffect

/-! ## Which requests keep the promise -/

/-- A request without a destination is checked all the same. -/
theorem traces_of_missesDestination {req : ActionRequest} (h : req.MissesDestination)
    (db : Permission.Connection) :
    ∃ s call, system.Reachable s ∧ s.calls 0 = some call ∧ call.request = req ∧ s.Traces 0 := by
  obtain ⟨haction, hsource, -⟩ := h
  obtain ⟨source, hsource⟩ := Option.ne_none_iff_exists'.mp hsource
  have hresource : resourceOf req = .ok source := by
    rw [resourceOf, if_pos haction, hsource]
  have hstep : step (initial db) (.execute req) = some
      { (initial db).advance 0 ⟨req, .checking source⟩ [] with next := 1 } := by
    simp only [step, hresource]
    rfl
  have hself : ((initial db).advance 0 ⟨req, .checking source⟩ []).calls 0 =
      some ⟨req, .checking source⟩ :=
    State.calls_advance_self ..
  refine ⟨_, ⟨req, .checking source⟩,
    .step (e := .execute req) (.init ⟨db, rfl⟩) trivial hstep, hself, rfl,
    .inl ⟨req, source, hself⟩⟩

/-- **No misleading entries**, but for a move without a destination. -/
theorem tracesOnlyIfComplete_iff (req : ActionRequest) :
    req.TracesOnlyIfComplete ↔ ¬ req.MissesDestination := by
  constructor
  · intro h hmisses
    obtain ⟨s, call, hr, hcall, hreq, htraces⟩ :=
      traces_of_missesDestination hmisses ⟨⟨[], by simp⟩, []⟩
    obtain ⟨keys, hkeys, hall⟩ := h s 0 call hr hcall hreq htraces
    obtain ⟨haction, -, hdest⟩ := hmisses
    rw [haction] at hkeys
    obtain rfl := Option.some.inj hkeys
    exact hall "destination" (by decide) hdest
  · intro hdest s id call hr hcall hreq htraces
    obtain ⟨resource, hresource⟩ := resource_of_traces (reachable_asked hr) hcall htraces
    rw [hreq] at hresource
    exact complete_of_resourceOf hresource hdest

/-- A move of a report to nowhere is put to the permission service. -/
theorem not_tracesOnlyIfComplete_move :
    ¬ ∀ req : ActionRequest, req.TracesOnlyIfComplete := by
  intro h
  have hmisses : ActionRequest.MissesDestination
      ⟨"filesystem.move", [("source", "/home/nira/report.txt")], "tidy up"⟩ :=
    ⟨rfl, by decide, by decide⟩
  obtain ⟨s, call, hr, hcall, hreq, htraces⟩ :=
    traces_of_missesDestination hmisses ⟨⟨[], by simp⟩, []⟩
  obtain ⟨keys, hkeys, hall⟩ := h _ s 0 call hr hcall hreq htraces
  obtain rfl := Option.some.inj hkeys
  exact absurd (hall "destination" (by decide)) (by decide)

end NiraOS.ActionManager
