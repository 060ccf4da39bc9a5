import NiraOS.Lib.Text
import Mathlib.Data.List.Nodup
import Mathlib.Tactic.Common

/-!
# The policy engine

`PolicyEngine::evaluate_sync` of the permission manager: look the grant up,
decide, and record the decision in the audit log.  The database connection is
behind one mutex, held from the query to the insert, so evaluations follow each
other and a list of calls is a run.

What the environment contributes to one evaluation is `DbOutcome`: the value of
`CURRENT_TIMESTAMP`, and whether the query or the audit insert fails.
-/

namespace NiraOS.Permission

/-! ## The database (`storage.rs`, `init_db`) -/

/-- A row of `permissions`; `created_at` is read by nothing. -/
structure Grant where
  capability : String
  resourceScope : String
  decision : String
  expiresAt : Option String
  deriving DecidableEq, Repr

def Grant.key (g : Grant) : String × String := (g.capability, g.resourceScope)

/-- `expires_at IS NULL OR expires_at > CURRENT_TIMESTAMP`, a comparison of texts. -/
def Grant.unexpired (g : Grant) (now : String) : Bool :=
  match g.expiresAt with
  | none => true
  | some expiry => decide (now < expiry)

/-- The table `permissions`, with its `UNIQUE(capability, resource_scope)`. -/
structure PermissionsTable where
  rows : List Grant
  unique : (rows.map Grant.key).Nodup

/-- A row of `audit_log`, without the columns the engine leaves to their defaults. -/
structure AuditRow where
  actionType : String
  application : String
  resource : String
  permissionResult : String
  timestamp : String
  deriving DecidableEq, Repr

structure Connection where
  permissions : PermissionsTable
  auditLog : List AuditRow

/-- The `SELECT decision FROM permissions …` of `evaluate_sync`. -/
def PermissionsTable.storedDecision (table : PermissionsTable) (capability resource now : String) :
    Option String :=
  (table.rows.find? fun g =>
    g.capability == capability && g.resourceScope == resource && g.unexpired now).map Grant.decision

/-! ## Evaluation (`policy/mod.rs`) -/

structure DbOutcome where
  now : String
  queryError : Option String := none
  insertError : Option String := none
  deriving DecidableEq, Repr

/-- The `match stored_decision.as_deref()` of `evaluate_sync`: no stored decision
is a denial. -/
def decisionOf (capability : String) : Option String → Except String String
  | none => .ok "denied"
  | some decision =>
      if decision = "allowed" then .ok "allowed"
      else if decision = "denied" then .ok "denied"
      else .error
        ("invalid permission decision '" ++ decision ++ "' for capability '" ++ capability ++ "'")

def evaluateSync (conn : Connection) (env : DbOutcome) (capability resource : String) :
    Except String String × Connection :=
  if Text.isBlank capability || Text.isBlank resource then
    (.error "capability and resource must not be empty", conn)
  else match env.queryError with
    | some error => (.error error, conn)
    | none =>
      match decisionOf capability (conn.permissions.storedDecision capability resource env.now) with
      | .error error => (.error error, conn)
      | .ok decision =>
        match env.insertError with
        | some error => (.error error, conn)
        | none =>
          (.ok decision,
            { conn with
              auditLog := conn.auditLog ++
                [⟨capability, "nira-action", resource, decision, env.now⟩] })

structure Call where
  capability : String
  resource : String
  env : DbOutcome
  deriving DecidableEq, Repr

def evaluateCapability (conn : Connection) (call : Call) : Except String String × Connection :=
  evaluateSync conn call.env call.capability call.resource

/-- A run of the engine: every call with its answer, and the final database. -/
def evaluateAll : Connection → List Call → List (Call × Except String String) × Connection
  | conn, [] => ([], conn)
  | conn, call :: calls =>
      let (answer, conn') := evaluateCapability conn call
      let (history, final) := evaluateAll conn' calls
      ((call, answer) :: history, final)

/-! ## What one evaluation answers

The decision table: which calls are granted, denied and in error, in terms of
the rows of the table. -/

/-- The row the query selects: exactly this capability and resource, unexpired. -/
def Call.Selects (call : Call) (g : Grant) : Prop :=
  g.capability = call.capability ∧ g.resourceScope = call.resource ∧
    g.unexpired call.env.now = true

instance (call : Call) (g : Grant) : Decidable (call.Selects g) :=
  inferInstanceAs (Decidable (_ ∧ _ ∧ _))

def Call.Granted (call : Call) (table : PermissionsTable) : Prop :=
  ∃ g ∈ table.rows, call.Selects g ∧ g.decision = "allowed"

/-- The selected row stores neither `allowed` nor `denied`. -/
def Call.InvalidStored (call : Call) (table : PermissionsTable) : Prop :=
  ∃ g ∈ table.rows, call.Selects g ∧ g.decision ≠ "allowed" ∧ g.decision ≠ "denied"

def Call.Blank (call : Call) : Prop :=
  Text.isBlank call.capability = true ∨ Text.isBlank call.resource = true

/-- A database statement of the evaluation fails. -/
def Call.Faulty (call : Call) : Prop :=
  call.env.queryError ≠ none ∨ call.env.insertError ≠ none

instance (call : Call) (table : PermissionsTable) : Decidable (call.Granted table) :=
  inferInstanceAs (Decidable (∃ g ∈ _, _))

instance (call : Call) (table : PermissionsTable) : Decidable (call.InvalidStored table) :=
  inferInstanceAs (Decidable (∃ g ∈ _, _))

instance (call : Call) : Decidable call.Blank := inferInstanceAs (Decidable (_ ∨ _))

instance (call : Call) : Decidable call.Faulty := inferInstanceAs (Decidable (_ ∨ _))

/-- UNIQUE makes the selected row unique. -/
theorem Call.Selects.unique {call : Call} {table : PermissionsTable} {g g' : Grant}
    (hg : g ∈ table.rows) (hg' : g' ∈ table.rows) (h : call.Selects g) (h' : call.Selects g') :
    g = g' := by
  refine List.inj_on_of_nodup_map table.unique hg hg' ?_
  rw [Grant.key, Grant.key, h.1, h.2.1, h'.1, h'.2.1]

theorem storedDecision_eq_some {call : Call} {table : PermissionsTable} {g : Grant}
    (hg : g ∈ table.rows) (h : call.Selects g) :
    table.storedDecision call.capability call.resource call.env.now = some g.decision := by
  unfold PermissionsTable.storedDecision
  cases hfind : table.rows.find? fun g => g.capability == call.capability &&
      g.resourceScope == call.resource && g.unexpired call.env.now with
  | none =>
      have := List.find?_eq_none.mp hfind g hg
      simp [h.1, h.2.1, h.2.2] at this
  | some g' =>
      have hp := List.find?_some hfind
      simp only [Bool.and_eq_true, beq_iff_eq] at hp
      rw [Call.Selects.unique (List.mem_of_find?_eq_some hfind) hg ⟨hp.1.1, hp.1.2, hp.2⟩ h]
      rfl

theorem storedDecision_eq_none {call : Call} {table : PermissionsTable}
    (h : ∀ g ∈ table.rows, ¬ call.Selects g) :
    table.storedDecision call.capability call.resource call.env.now = none := by
  unfold PermissionsTable.storedDecision
  rw [Option.map_eq_none_iff, List.find?_eq_none]
  intro g hg hp
  simp only [Bool.and_eq_true, beq_iff_eq] at hp
  exact h g hg ⟨hp.1.1, hp.1.2, hp.2⟩

/-- UNIQUE excludes a grant and an invalid decision for one call. -/
theorem Call.Granted.not_invalidStored {call : Call} {table : PermissionsTable}
    (h : call.Granted table) : ¬ call.InvalidStored table := by
  obtain ⟨g, hg, hsel, hallowed⟩ := h
  rintro ⟨g', hg', hsel', hne, -⟩
  exact hne (Call.Selects.unique hg' hg hsel' hsel ▸ hallowed)

/-- The lookup followed by the decision, in terms of the table. -/
theorem decisionOf_storedDecision (call : Call) (table : PermissionsTable) :
    match decisionOf call.capability
      (table.storedDecision call.capability call.resource call.env.now) with
    | .ok decision => ¬ call.InvalidStored table ∧
        (decision = "allowed" ∧ call.Granted table ∨ decision = "denied" ∧ ¬ call.Granted table)
    | .error _ => call.InvalidStored table := by
  by_cases hsel : ∃ g ∈ table.rows, call.Selects g
  · obtain ⟨g, hg, h⟩ := hsel
    have hunique : ∀ g' ∈ table.rows, call.Selects g' → g' = g :=
      fun g' hg' h' => Call.Selects.unique hg' hg h' h
    rw [storedDecision_eq_some hg h, decisionOf]
    by_cases hallowed : g.decision = "allowed"
    · have hgranted : call.Granted table := ⟨g, hg, h, hallowed⟩
      rw [if_pos hallowed]
      exact ⟨hgranted.not_invalidStored, Or.inl ⟨rfl, hgranted⟩⟩
    · rw [if_neg hallowed]
      by_cases hdenied : g.decision = "denied"
      · rw [if_pos hdenied]
        refine ⟨?_, Or.inr ⟨rfl, ?_⟩⟩
        · rintro ⟨g', hg', h', -, hne⟩
          exact hne (hunique g' hg' h' ▸ hdenied)
        · rintro ⟨g', hg', h', heq⟩
          exact hallowed (hunique g' hg' h' ▸ heq)
      · rw [if_neg hdenied]
        exact ⟨g, hg, h, hallowed, hdenied⟩
  · push Not at hsel
    rw [storedDecision_eq_none hsel]
    refine ⟨?_, Or.inr ⟨rfl, ?_⟩⟩
    · rintro ⟨g, hg, h, -⟩
      exact hsel g hg h
    · rintro ⟨g, hg, h, -⟩
      exact hsel g hg h

/-- The decision table of the engine. -/
structure Decides (table : PermissionsTable) (call : Call) (answer : Except String String) :
    Prop where
  allowed : answer = .ok "allowed" ↔ ¬ call.Blank ∧ ¬ call.Faulty ∧ call.Granted table
  denied : answer = .ok "denied" ↔
    ¬ call.Blank ∧ ¬ call.Faulty ∧ ¬ call.Granted table ∧ ¬ call.InvalidStored table
  error : (∃ text, answer = .error text) ↔
    call.Blank ∨ call.Faulty ∨ call.InvalidStored table

theorem Decides.of_error {table : PermissionsTable} {call : Call} {text : String}
    (h : call.Blank ∨ call.Faulty ∨ call.InvalidStored table) :
    Decides table call (.error text) := by
  have hgranted : call.Granted table → ¬ call.InvalidStored table := fun h => h.not_invalidStored
  refine ⟨?_, ?_, ?_⟩
  · simp only [reduceCtorEq, false_iff]; tauto
  · simp only [reduceCtorEq, false_iff]; tauto
  · simp [h]

/-- The audit row a call leaves behind, by its answer. -/
def auditOf (call : Call) : Except String String → List AuditRow
  | .ok decision => [⟨call.capability, "nira-action", call.resource, decision, call.env.now⟩]
  | .error _ => []

/-- **One evaluation.**  It decides by the table, appends the audit row of its
answer, and leaves the permissions alone. -/
theorem evaluateCapability_spec (conn : Connection) (call : Call) :
    Decides conn.permissions call (evaluateCapability conn call).1 ∧
      (evaluateCapability conn call).2 =
        { conn with
          auditLog := conn.auditLog ++ auditOf call (evaluateCapability conn call).1 } := by
  have hlookup := decisionOf_storedDecision call conn.permissions
  unfold evaluateCapability evaluateSync
  by_cases hblank : call.Blank
  · rw [if_pos (by simpa [Call.Blank] using hblank)]
    exact ⟨.of_error (Or.inl hblank), by simp [auditOf]⟩
  rw [if_neg (by simpa [Call.Blank] using hblank)]
  cases hquery : call.env.queryError with
  | some text =>
      exact ⟨.of_error (Or.inr (Or.inl (Or.inl (by simp [hquery])))), by simp [auditOf]⟩
  | none =>
      cases hdecision : decisionOf call.capability
          (conn.permissions.storedDecision call.capability call.resource call.env.now) with
      | error text =>
          rw [hdecision] at hlookup
          exact ⟨.of_error (Or.inr (Or.inr hlookup)), by simp [auditOf]⟩
      | ok decision =>
          rw [hdecision] at hlookup
          obtain ⟨hvalid, hcases⟩ := hlookup
          cases hinsert : call.env.insertError with
          | some text =>
              exact ⟨.of_error (Or.inr (Or.inl (Or.inr (by simp [hinsert])))), by simp [auditOf]⟩
          | none =>
              have hfault : ¬ call.Faulty := by simp [Call.Faulty, hquery, hinsert]
              refine ⟨?_, rfl⟩
              rcases hcases with ⟨rfl, hgrant⟩ | ⟨rfl, hgrant⟩
              · exact ⟨by simp [hblank, hfault, hgrant], by simp [hgrant],
                  by simp [hblank, hfault, hvalid]⟩
              · exact ⟨by simp [hgrant], by simp [hblank, hfault, hgrant, hvalid],
                  by simp [hblank, hfault, hvalid]⟩

/-! ## Runs -/

/-- Over a whole run the permissions stay, and the audit log grows by the rows
of the answers, in order. -/
theorem evaluateAll_spec (conn : Connection) (calls : List Call) :
    (evaluateAll conn calls).1.map Prod.fst = calls ∧
      (∀ p ∈ (evaluateAll conn calls).1, Decides conn.permissions p.1 p.2) ∧
      (evaluateAll conn calls).2 =
        { conn with
          auditLog := conn.auditLog ++
            (evaluateAll conn calls).1.flatMap fun p => auditOf p.1 p.2 } := by
  induction calls generalizing conn with
  | nil => simp [evaluateAll]
  | cons call calls ih =>
      obtain ⟨hdecides, hafter⟩ := evaluateCapability_spec conn call
      obtain ⟨hcalls, hall, hfinal⟩ := ih (evaluateCapability conn call).2
      have hperm : (evaluateCapability conn call).2.permissions = conn.permissions := by
        rw [hafter]
      simp only [evaluateAll]
      refine ⟨by simp [hcalls], ?_, ?_⟩
      · intro p hp
        rcases List.mem_cons.mp hp with rfl | hp
        · exact hdecides
        · exact hperm ▸ hall p hp
      · rw [hfinal, hafter]
        simp [List.append_assoc]

/-- **The engine decides by exact unexpired grant and audits exactly once.**
Over any run: each call is answered by the decision table; the permissions are
unchanged; and the audit log has grown by one row for each `Ok` answer, carrying
that call's capability and resource and the decision answered, and by none for
an `Err`.  A failing database statement is the third way to an `Err`. -/
theorem evaluateAll_decides_and_audits (conn : Connection) (calls : List Call) :
    ∃ history final, evaluateAll conn calls = (history, final) ∧
      history.map Prod.fst = calls ∧
      (∀ p ∈ history,
        (p.2 = .ok "allowed" ↔
          ¬ p.1.Blank ∧ ¬ p.1.Faulty ∧ p.1.Granted conn.permissions) ∧
        (p.2 = .ok "denied" ↔
          ¬ p.1.Blank ∧ ¬ p.1.Faulty ∧ ¬ p.1.Granted conn.permissions ∧
            ¬ p.1.InvalidStored conn.permissions) ∧
        ((∃ text, p.2 = .error text) ↔
          p.1.Blank ∨ p.1.Faulty ∨ p.1.InvalidStored conn.permissions)) ∧
      final.permissions = conn.permissions ∧
      final.auditLog = conn.auditLog ++ history.flatMap fun p => auditOf p.1 p.2 := by
  obtain ⟨hcalls, hall, hfinal⟩ := evaluateAll_spec conn calls
  refine ⟨_, _, rfl, hcalls, ?_, by rw [hfinal], by rw [hfinal]⟩
  intro p hp
  exact ⟨(hall p hp).allowed, (hall p hp).denied, (hall p hp).error⟩

/-- A call that is neither blank nor meets an invalid decision, and has no
grant, need not be denied: when its audit insert fails it is an error. -/
theorem not_denied_in_every_other_case :
    ¬ ∀ (conn : Connection) (call : Call), ¬ call.Blank → ¬ call.Granted conn.permissions →
      ¬ call.InvalidStored conn.permissions → (evaluateCapability conn call).1 = .ok "denied" := by
  intro h
  have := h ⟨⟨[], by simp⟩, []⟩ ⟨"filesystem.move", "/home/nira/report.txt",
    { now := "2026-01-01 00:00:00", insertError := some "disk I/O error" }⟩
    (by decide) (by decide) (by decide)
  simp [evaluateCapability, evaluateSync, decisionOf, PermissionsTable.storedDecision] at this
  revert this
  decide

end NiraOS.Permission
