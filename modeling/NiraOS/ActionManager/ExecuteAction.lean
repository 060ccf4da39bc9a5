import NiraOS.Lib.Transition
import NiraOS.Permission.Policy

/-!
# The action manager's `execute_action`

The handler is cut at its two awaits: `resourceOf` is what happens before the
permission service is asked (`core/action-manager/src/main.rs`, lines 37-62),
`afterPermission` is what its reply leads to (lines 70-121), and `afterEffect`
turns the outcome of the action function into the response.

`move_file_safely` and `change_wallpaper` are the two effects; here only the
call and its outcome matter.
-/

namespace NiraOS.ActionManager

/-! ## Messages (`ipc/proto/v1`) -/

/-- `parameters` is a `map<string, string>`; the field `risk` is not read. -/
structure ActionRequest where
  actionId : String
  parameters : List (String × String)
  reason : String
  deriving DecidableEq, Repr

structure ActionResponse where
  success : Bool
  message : String
  deriving DecidableEq, Repr

structure CapabilityRequest where
  capability : String
  resource : String
  reason : String
  deriving DecidableEq, Repr

structure CapabilityResponse where
  decision : String
  scope : String
  deriving DecidableEq, Repr

def ActionRequest.parameter (req : ActionRequest) (key : String) : Option String :=
  req.parameters.lookup key

/-! ## The handler -/

/-- The concrete resource the permission decision is bound to, or the response
to a request that never reaches the policy service. -/
def resourceOf (req : ActionRequest) : Except ActionResponse String :=
  if req.actionId = "filesystem.move" then
    match req.parameter "source" with
    | some value => .ok value
    | none => .error ⟨false, "filesystem.move requires a source parameter"⟩
  else if req.actionId = "desktop.wallpaper.change" then
    match req.parameter "path" with
    | some value => .ok value
    | none => .error ⟨false, "desktop.wallpaper.change requires a path parameter"⟩
  else
    .error ⟨false, "unsupported action: " ++ req.actionId⟩

def capabilityRequest (req : ActionRequest) (resource : String) : CapabilityRequest :=
  ⟨req.actionId, resource, req.reason⟩

/-- A call into one of the action functions. -/
inductive Effect
  | moveFileSafely (source destination : String)
  | changeWallpaper (path : String)
  deriving DecidableEq, Repr

/-- The source or path string an effect touches. -/
def Effect.resource : Effect → String
  | .moveFileSafely source _ => source
  | .changeWallpaper path => path

inductive Continuation
  | respond (response : ActionResponse)
  | perform (effect : Effect)
  deriving DecidableEq, Repr

/-- What follows the permission service's reply; `none` is the `unreachable!`
of line 108. -/
def afterPermission (req : ActionRequest) (resource : String) :
    Except String CapabilityResponse → Option Continuation
  | .ok response =>
      if response.decision = "allowed" then
        if req.actionId = "filesystem.move" then
          match req.parameter "destination" with
          | some destination => some (.perform (.moveFileSafely resource destination))
          | none =>
              some (.respond ⟨false, "filesystem.move requires a destination parameter"⟩)
        else if req.actionId = "desktop.wallpaper.change" then
          some (.perform (.changeWallpaper resource))
        else none
      else some (.respond ⟨false, "permission denied for action " ++ req.actionId⟩)
  | .error error => some (.respond ⟨false, "failed to verify permissions: " ++ error⟩)

def afterEffect : Effect → Except String Unit → ActionResponse
  | .moveFileSafely source destination, .ok () =>
      ⟨true, "moved " ++ source ++ " to " ++ destination⟩
  | .changeWallpaper _, .ok () => ⟨true, "wallpaper updated"⟩
  | _, .error error => ⟨false, "action failed: " ++ error⟩

/-- The permission service's `request_capability`: the engine's error becomes a
status, its decision a response. -/
def requestCapability (conn : Permission.Connection) (env : Permission.DbOutcome)
    (req : CapabilityRequest) : Except String CapabilityResponse × Permission.Connection :=
  match Permission.evaluateCapability conn ⟨req.capability, req.resource, env⟩ with
  | (.ok decision, conn') => (.ok ⟨decision, "session"⟩, conn')
  | (.error error, conn') => (.error error, conn')

/-! ## What the handler can do -/

/-- The reply allows the request. -/
def Allows (reply : Except String CapabilityResponse) : Prop :=
  ∃ response, reply = .ok response ∧ response.decision = "allowed"

theorem resourceOf_rejects {req : ActionRequest} {response : ActionResponse}
    (h : resourceOf req = .error response) : response.success = false := by
  unfold resourceOf at h
  split at h
  · split at h <;> cases h
    rfl
  · split at h
    · split at h <;> cases h
      rfl
    · cases h
      rfl

/-- A request that reaches the policy service names one of the two actions. -/
theorem resourceOf_supported {req : ActionRequest} {resource : String}
    (h : resourceOf req = .ok resource) :
    req.actionId = "filesystem.move" ∧ req.parameter "source" = some resource ∨
      req.actionId = "desktop.wallpaper.change" ∧ req.parameter "path" = some resource := by
  unfold resourceOf at h
  split at h
  · rename_i haction
    split at h <;> cases h
    exact Or.inl ⟨haction, by assumption⟩
  · split at h
    · rename_i haction
      split at h <;> cases h
      exact Or.inr ⟨haction, by assumption⟩
    · cases h

/-- **Complete mediation in the handler.**  After a validated request, the reply
leads to an effect only if it allows the request, and the effect touches exactly
the resource the check was asked about; every other response is a failure, and
the `unreachable!` is not reached. -/
theorem afterPermission_spec {req : ActionRequest} {resource : String}
    (h : resourceOf req = .ok resource) (reply : Except String CapabilityResponse) :
    (∃ effect, afterPermission req resource reply = some (.perform effect) ∧
        Allows reply ∧ effect.resource = resource) ∨
      ∃ response, afterPermission req resource reply = some (.respond response) ∧
        response.success = false := by
  cases reply with
  | error error => exact Or.inr ⟨_, rfl, rfl⟩
  | ok response =>
      by_cases hallowed : response.decision = "allowed"
      · have hallows : Allows (.ok response) := ⟨response, rfl, hallowed⟩
        simp only [afterPermission, if_pos hallowed]
        rcases resourceOf_supported h with ⟨haction, -⟩ | ⟨haction, -⟩
        · rw [if_pos haction]
          cases req.parameter "destination" with
          | none => exact Or.inr ⟨_, rfl, rfl⟩
          | some destination => exact Or.inl ⟨_, rfl, hallows, rfl⟩
        · rw [if_neg (by rw [haction]; decide), if_pos haction]
          exact Or.inl ⟨_, rfl, hallows, rfl⟩
      · simp only [afterPermission, if_neg hallowed]
        exact Or.inr ⟨_, rfl, rfl⟩

theorem afterEffect_success (effect : Effect) (result : Except String Unit) :
    (afterEffect effect result).success = true ↔ result = .ok () := by
  cases effect <;> cases result <;> simp [afterEffect]

/-- A check that answers `Ok` has written one row with the request's own
capability and resource and the decision answered; an `Err` has written none. -/
theorem requestCapability_spec (conn : Permission.Connection) (env : Permission.DbOutcome)
    (req : CapabilityRequest) :
    (∃ error, requestCapability conn env req = (.error error, conn)) ∨
      ∃ row : Permission.AuditRow, row.actionType = req.capability ∧ row.resource = req.resource ∧
        requestCapability conn env req = (.ok ⟨row.permissionResult, "session"⟩,
          { conn with auditLog := conn.auditLog ++ [row] }) := by
  have hspec := (Permission.evaluateCapability_spec conn ⟨req.capability, req.resource, env⟩).2
  unfold requestCapability
  cases heval : Permission.evaluateCapability conn ⟨req.capability, req.resource, env⟩ with
  | mk answer conn' =>
      rw [heval] at hspec
      cases answer with
      | error error => exact Or.inl ⟨error, by simpa [Permission.auditOf] using hspec⟩
      | ok decision =>
          refine Or.inr ⟨⟨req.capability, "nira-action", req.resource, decision, env.now⟩, rfl, rfl,
            ?_⟩
          simpa [Permission.auditOf] using hspec

end NiraOS.ActionManager
