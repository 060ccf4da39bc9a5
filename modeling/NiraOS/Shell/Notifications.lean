import NiraOS.Lib.Runs
import NiraOS.Lib.Text
import Mathlib.Data.Int.Notation
import Mathlib.Data.List.Nodup

/-!
# The notifications of the shell

`dismiss`, `dismissAll` and `onNotificationAdded` of `NotificationClient`
(`desktop/shell/src/NotificationClient.cpp`), and what every row is to show: the notification that
came last for its id.  A notification is for the row that it replaces, if that is there; else for
its own id, else, without one, for the next number of the client.
-/

namespace NiraOS.Shell.Notifications

/-! ## The client -/

structure Notification where
  id : UInt32
  appName : String
  summary : String
  body : String
  icon : String
  /-- 0 is low, 1 normal and 2 critical. -/
  urgency : ℕ
  timestamp : ℤ
  deriving DecidableEq

structure NotificationClient where
  notifications : List Notification
  nextId : UInt32
  deriving DecidableEq

/-- The arguments of the signal `NotificationAdded`, less the two that the client does not use. -/
structure NotificationAdded where
  id : UInt32
  appName : String
  replacesId : UInt32
  appIcon : String
  summary : String
  body : String
  deriving DecidableEq

section Client

variable (c : NotificationClient)

def dismiss (row : ℤ) : Bool × NotificationClient :=
  if row < 0 ∨ row ≥ c.notifications.length then (false, c)
  else (true, { c with notifications := c.notifications.eraseIdx row.toNat })

def dismissAll : NotificationClient :=
  if c.notifications.isEmpty then c else { c with notifications := [] }

def Notification.replacedBy (signal : NotificationAdded) (now : ℤ) (n : Notification) :
    Notification :=
  { n with
    appName := signal.appName
    summary := signal.summary
    body := signal.body
    icon := signal.appIcon
    timestamp := now }

/-- The loop over the rows: the first one with the id is replaced in place. -/
def replaced (signal : NotificationAdded) (now : ℤ) : List Notification → Option (List Notification)
  | [] => none
  | n :: rest =>
      if n.id = signal.replacesId then some (n.replacedBy signal now :: rest)
      else (replaced signal now rest).map (n :: ·)

variable (toLower : String → String)

def urgency (summary body : String) : ℕ :=
  let low := toLower (summary ++ " " ++ body)
  if Text.contains low "critical" || Text.contains low "error" then 2 else 1

/-- The part of `onNotificationAdded` after the loop. -/
def insert (signal : NotificationAdded) (now : ℤ) : NotificationClient :=
  let finalId := if signal.id ≠ 0 then signal.id else c.nextId
  { notifications :=
      { id := finalId
        appName := signal.appName
        summary := signal.summary
        body := signal.body
        icon := signal.appIcon
        urgency := urgency toLower signal.summary signal.body
        timestamp := now } :: c.notifications
    nextId := if signal.id ≠ 0 then c.nextId else c.nextId + 1 }

def onNotificationAdded (signal : NotificationAdded) (now : ℤ) : NotificationClient :=
  if signal.replacesId ≠ 0 then
    match replaced signal now c.notifications with
    | some notifications => { c with notifications }
    | none => insert c toLower signal now
  else insert c toLower signal now

end Client

/-! ## What a row is to show -/

/-- A notification that was received, with the id that it is for. -/
structure Receipt where
  id : UInt32
  signal : NotificationAdded
  now : ℤ

section Shown

variable (toLower : String → String)

def Receipt.row (r : Receipt) : Notification where
  id := r.id
  appName := r.signal.appName
  summary := r.signal.summary
  body := r.signal.body
  icon := r.signal.appIcon
  urgency := urgency toLower r.signal.summary r.signal.body
  timestamp := r.now

def Replaces (c : NotificationClient) (signal : NotificationAdded) : Prop :=
  signal.replacesId ≠ 0 ∧ signal.replacesId ∈ c.notifications.map Notification.id

instance (c : NotificationClient) (signal : NotificationAdded) : Decidable (Replaces c signal) :=
  inferInstanceAs (Decidable (_ ∧ _))

/-- The id that a notification is for. -/
def idFor (c : NotificationClient) (signal : NotificationAdded) : UInt32 :=
  if Replaces c signal then signal.replacesId else if signal.id ≠ 0 then signal.id else c.nextId

/-- The client and the notifications that it received, the last in front. -/
structure State where
  client : NotificationClient
  received : List Receipt

inductive Event
  | notificationAdded (signal : NotificationAdded) (now : ℤ)
  | dismiss (row : ℤ)
  | dismissAll

def start : State := ⟨⟨[], 1⟩, []⟩

def step (s : State) : Event → State
  | .notificationAdded signal now =>
      ⟨onNotificationAdded s.client toLower signal now,
        ⟨idFor s.client signal, signal, now⟩ :: s.received⟩
  | .dismiss row => { s with client := (dismiss s.client row).2 }
  | .dismissAll => { s with client := dismissAll s.client }

/-- The state after some events. -/
def after (events : List Event) : State := events.foldl (step toLower) start

/-- What was received last for an id. -/
def State.latest (s : State) (id : UInt32) : Option Receipt := s.received.find? (·.id = id)

structure UpToDate (s : State) : Prop where
  distinct : (s.client.notifications.map Notification.id).Nodup
  latest : ∀ n ∈ s.client.notifications, (s.latest n.id).map (Receipt.row toLower) = some n

/-- A notification that replaces a row has the urgency which that row shows, and one that does not
has an id that no row has. -/
def Fits (s : State) : Event → Prop
  | .notificationAdded signal _ =>
      if Replaces s.client signal then
        ∀ n ∈ s.client.notifications, n.id = signal.replacesId →
          n.urgency = urgency toLower signal.summary signal.body
      else if signal.id ≠ 0 then ∀ n ∈ s.client.notifications, n.id ≠ signal.id
      else ∀ n ∈ s.client.notifications, n.id ≠ s.client.nextId
  | .dismiss _ => True
  | .dismissAll => True

end Shown

/-! ## One notification -/

section Steps

variable {toLower : String → String} {c : NotificationClient} {s : State}
    {signal : NotificationAdded} {now : ℤ}
  {rows : List Notification} {n : Notification}

@[simp] theorem id_replacedBy : (n.replacedBy signal now).id = n.id := rfl

@[simp] theorem urgency_replacedBy : (n.replacedBy signal now).urgency = n.urgency := rfl

theorem replaced_of_not_mem (h : signal.replacesId ∉ rows.map Notification.id) :
    replaced signal now rows = none := by
  induction rows with
  | nil => rfl
  | cons n rest ih =>
      rw [List.map_cons, List.mem_cons, not_or] at h
      rw [replaced, if_neg (Ne.symm h.1), ih h.2]
      rfl

/-- The rows after one of them was replaced. -/
def replacing (signal : NotificationAdded) (now : ℤ) (rows : List Notification) :
    List Notification :=
  rows.map fun n => if n.id = signal.replacesId then n.replacedBy signal now else n

theorem replacing_of_not_mem (h : signal.replacesId ∉ rows.map Notification.id) :
    replacing signal now rows = rows := by
  have hkept : ∀ n ∈ rows,
      (if n.id = signal.replacesId then n.replacedBy signal now else n) = id n := by
    intro n hn
    exact if_neg fun hid => h (List.mem_map.mpr ⟨n, hn, hid⟩)
  exact (List.map_congr_left hkept).trans (List.map_id rows)

theorem replaced_of_mem (hdistinct : (rows.map Notification.id).Nodup)
    (h : signal.replacesId ∈ rows.map Notification.id) :
    replaced signal now rows = some (replacing signal now rows) := by
  induction rows with
  | nil => nomatch h
  | cons n rest ih =>
      rw [List.map_cons, List.nodup_cons] at hdistinct
      have hcons : replacing signal now (n :: rest) =
          (if n.id = signal.replacesId then n.replacedBy signal now else n) ::
            replacing signal now rest := rfl
      rw [replaced, hcons]
      by_cases hid : n.id = signal.replacesId
      · rw [if_pos hid, if_pos hid, replacing_of_not_mem (hid ▸ hdistinct.1)]
      · have hrest : signal.replacesId ∈ rest.map Notification.id :=
          (List.mem_cons.mp h).resolve_left (Ne.symm hid)
        rw [if_neg hid, if_neg hid, ih hdistinct.2 hrest]
        rfl

theorem map_id_replacing :
    (replacing signal now rows).map Notification.id = rows.map Notification.id := by
  rw [replacing, List.map_map]
  refine List.map_congr_left fun n _ => ?_
  simp only [Function.comp_apply]
  split_ifs <;> rfl

theorem onNotificationAdded_of_replaces (hdistinct : (c.notifications.map Notification.id).Nodup)
    (h : Replaces c signal) :
    onNotificationAdded c toLower signal now =
      { c with notifications := replacing signal now c.notifications } := by
  rw [onNotificationAdded, if_pos h.1, replaced_of_mem hdistinct h.2]

theorem onNotificationAdded_of_not_replaces (h : ¬ Replaces c signal) :
    onNotificationAdded c toLower signal now = insert c toLower signal now := by
  rw [onNotificationAdded]
  split_ifs with hid
  · rw [replaced_of_not_mem fun hmem => h ⟨hid, hmem⟩]
  · rfl

/-- The row that is inserted is the one of the receipt. -/
theorem notifications_insert (h : ¬ Replaces c signal) :
    (insert c toLower signal now).notifications =
      (Receipt.row toLower ⟨idFor c signal, signal, now⟩) :: c.notifications := by
  rw [idFor, if_neg h]
  rfl

theorem latest_step (id : UInt32) :
    (step toLower s (.notificationAdded signal now)).latest id =
      if idFor s.client signal = id then some ⟨idFor s.client signal, signal, now⟩
        else s.latest id := by
  rw [State.latest, step, List.find?_cons]
  by_cases hid : idFor s.client signal = id
  · rw [if_pos hid, decide_eq_true hid]
  · rw [if_neg hid, decide_eq_false hid]
    rfl

/-- **A notification that replaces a row** leaves the rows up to date exactly if it has the urgency
of that row. -/
theorem upToDate_replacing (hs : UpToDate toLower s) (h : Replaces s.client signal) :
    UpToDate toLower (step toLower s (.notificationAdded signal now)) ↔
      ∀ n ∈ s.client.notifications, n.id = signal.replacesId →
        n.urgency = urgency toLower signal.summary signal.body := by
  have hid : idFor s.client signal = signal.replacesId := if_pos h
  have hrows : (step toLower s (.notificationAdded signal now)).client.notifications =
      replacing signal now s.client.notifications := by
    rw [step, onNotificationAdded_of_replaces hs.distinct h]
  have hrow : ∀ n : Notification, n.id = signal.replacesId →
      (Receipt.row toLower ⟨signal.replacesId, signal, now⟩ = n.replacedBy signal now ↔
        n.urgency = urgency toLower signal.summary signal.body) := by
    intro n hn
    rw [Receipt.row, Notification.replacedBy, Notification.mk.injEq]
    simp [hn, eq_comm]
  constructor
  · intro hafter n hn hreplaced
    have hmem : n.replacedBy signal now ∈
        (step toLower s (.notificationAdded signal now)).client.notifications := by
      rw [hrows]
      exact List.mem_map.mpr ⟨n, hn, if_pos hreplaced⟩
    have hlatest := hafter.latest _ hmem
    rw [latest_step, hid, id_replacedBy, if_pos hreplaced.symm] at hlatest
    exact (hrow n hreplaced).mp (Option.some.inj hlatest)
  · intro hurgency
    refine ⟨?_, fun m hm => ?_⟩
    · rw [hrows, map_id_replacing]
      exact hs.distinct
    · rw [hrows] at hm
      obtain ⟨n, hn, rfl⟩ := List.mem_map.mp hm
      rw [latest_step, hid]
      by_cases hreplaced : n.id = signal.replacesId
      · rw [if_pos hreplaced, id_replacedBy, if_pos hreplaced.symm]
        exact congrArg some ((hrow n hreplaced).mpr (hurgency n hn hreplaced))
      · rw [if_neg hreplaced, if_neg (Ne.symm hreplaced)]
        exact hs.latest n hn

/-- **A notification of its own** leaves the rows up to date exactly if no row has its id. -/
theorem upToDate_inserting (hs : UpToDate toLower s) (h : ¬ Replaces s.client signal) :
    UpToDate toLower (step toLower s (.notificationAdded signal now)) ↔
      ∀ n ∈ s.client.notifications, n.id ≠ idFor s.client signal := by
  have hrows : (step toLower s (.notificationAdded signal now)).client.notifications =
      (Receipt.row toLower ⟨idFor s.client signal, signal, now⟩) :: s.client.notifications := by
    rw [step, onNotificationAdded_of_not_replaces h, notifications_insert h]
  constructor
  · intro hafter n hn hid
    have hdistinct := hafter.distinct
    rw [hrows, List.map_cons, List.nodup_cons] at hdistinct
    exact hdistinct.1 (List.mem_map.mpr ⟨n, hn, hid⟩)
  · intro hfresh
    refine ⟨?_, fun m hm => ?_⟩
    · rw [hrows, List.map_cons, List.nodup_cons]
      refine ⟨fun hmem => ?_, hs.distinct⟩
      obtain ⟨n, hn, hid⟩ := List.mem_map.mp hmem
      exact hfresh n hn hid
    · rw [hrows] at hm
      rw [latest_step]
      cases hm with
      | head => exact congrArg _ (if_pos rfl)
      | tail _ hn =>
          rw [if_neg (Ne.symm (hfresh m hn))]
          exact hs.latest m hn

theorem upToDate_start : UpToDate toLower start :=
  ⟨List.nodup_nil, fun _ hn => nomatch hn⟩

theorem upToDate_of_sublist (hs : UpToDate toLower s) (h : rows.Sublist s.client.notifications) :
    UpToDate toLower { s with client := { s.client with notifications := rows } } :=
  ⟨(h.map _).nodup hs.distinct, fun n hn => hs.latest n (h.subset hn)⟩

/-- **One step.** -/
theorem upToDate_step (hs : UpToDate toLower s) (e : Event) :
    UpToDate toLower (step toLower s e) ↔ Fits toLower s e := by
  cases e with
  | notificationAdded signal now =>
      by_cases h : Replaces s.client signal
      · rw [upToDate_replacing hs h, Fits, if_pos h]
      · rw [upToDate_inserting hs h, Fits, if_neg h, idFor, if_neg h]
        split_ifs <;> rfl
  | dismiss row =>
      refine iff_of_true ?_ trivial
      rw [step, dismiss]
      split_ifs
      · exact hs
      · exact upToDate_of_sublist hs (List.eraseIdx_sublist _ _)
  | dismissAll =>
      refine iff_of_true ?_ trivial
      rw [step, dismissAll]
      split_ifs
      · exact hs
      · exact upToDate_of_sublist hs (List.nil_sublist _)

end Steps

/-- **The list of notifications** shows each of them once and up to date in every state of a run
exactly if every step of the run fits. -/
theorem upToDate_iff (toLower : String → String) (events : List Event) :
    (∀ past, past <+: events → UpToDate toLower (after toLower past)) ↔
      ∀ past e, past ++ [e] <+: events → Fits toLower (after toLower past) e :=
  Runs.forall_prefix_iff upToDate_start (fun _ e hs => upToDate_step hs e) events

/-- Letters of ASCII. -/
def asciiToLower (text : String) : String := String.ofList (text.toList.map Char.toLower)

/-- An error is reported, and then the same notification says that it is over. -/
def errorAndEnd : List Event :=
  [.notificationAdded ⟨1, "backup", 0, "", "Backup error", "The disk is full"⟩ 0,
    .notificationAdded ⟨1, "backup", 1, "", "Backup done", "All files are saved"⟩ 5]

/-- The row of `errorAndEnd` stays critical. -/
theorem not_upToDate_errorAndEnd : ¬ UpToDate asciiToLower (after asciiToLower errorAndEnd) := by
  intro h
  have hrow : (after asciiToLower errorAndEnd).client.notifications.all (fun n =>
      ((after asciiToLower errorAndEnd).latest n.id).map (Receipt.row asciiToLower) = some n) =
        false := by
    decide +kernel
  rw [List.all_eq_false] at hrow
  obtain ⟨n, hn, hstale⟩ := hrow
  exact hstale (decide_eq_true (h.latest n hn))

end NiraOS.Shell.Notifications
