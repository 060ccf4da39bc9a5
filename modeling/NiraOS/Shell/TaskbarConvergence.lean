import NiraOS.Shell.Taskbar
import Mathlib.Data.List.Count

/-!
# The taskbar converges to the registry

Once everything is delivered the taskbar should show the registry.  It does as long as no
window that is being asked for is unregistered, or changed against a detail that was
served already (`Undisturbed`): the data of the four replies is put together when the last
one arrives, whatever the signals said meanwhile.

What matters of a state is what the taskbar holds when everything in its inbox has been
received (`settle`); receiving one message changes nothing about that.  `Tracks` is the
invariant of these settled states, window by window.
-/

namespace NiraOS.Shell.Taskbar

open Compositor

/-! ## What should hold in the end -/

/-- Nothing is under way. -/
def State.AllDelivered (s : State) : Prop :=
  s.listed ≠ none ∧ s.calls = [] ∧ s.inbox = []

/-- The rows are the windows of the registry, each id once. -/
structure State.Converged (s : State) : Prop where
  distinct : (Assoc.keys s.taskbar.windows).Nodup
  rows : ∀ window, window ∈ s.taskbar.windows ↔ window ∈ s.registry

/-- The window was listed and some of its details were not served yet. -/
def State.Seeding (s : State) (id : String) : Prop :=
  (∃ ids, s.listed = some ids ∧ id ∈ ids) ∧ (s.served id).length < 4

/-- No reply is outdated. -/
def Fits (replies : List Reply) (record : WindowRecord) : Prop :=
  ∀ reply ∈ replies, ∃ field : Field, reply = field.reply record

/-- A window that is being asked for stays, and agrees with the replies served so far. -/
def Undisturbed (s : State) : Event → Prop
  | .unregisterWindow id => ¬ s.Seeding id
  | .updateWindowMetadata id title appId =>
      s.Seeding id → Fits (s.served id) { s.registry.value id with title := title, appId := appId }
  | .updateWindowState id minimized focused =>
      s.Seeding id →
        Fits (s.served id) { s.registry.value id with minimized := minimized, focused := focused }
  | _ => True

/-! ## What messages do to a row -/

def TaskbarModel.row (m : TaskbarModel) (id : String) : Option WindowRecord := m.windows.lookup id

section Rows

variable {m : TaskbarModel} {id : String}

theorem TaskbarModel.row_onWindowMetadataChanged (m : TaskbarModel)
    (id title appId other : String) :
    (m.onWindowMetadataChanged id title appId).row other =
      effect (.windowMetadataChanged id title appId) other (m.row other) := by
  unfold TaskbarModel.onWindowMetadataChanged effect TaskbarModel.row
  cases hrow : m.windows.lookup id with
  | none =>
      dsimp only
      split_ifs with h
      · rw [h, hrow]
        rfl
      · rfl
  | some record =>
      dsimp only
      split_ifs with hsame h h
      · rw [h, hrow, Option.map_some, ← hsame.1, ← hsame.2]
      · rfl
      · rw [Assoc.lookup_modify, if_pos h]
      · rw [Assoc.lookup_modify, if_neg h]

theorem TaskbarModel.row_onWindowStateChanged (m : TaskbarModel) (id : String)
    (minimized focused : Bool) (other : String) :
    (m.onWindowStateChanged id minimized focused).row other =
      effect (.windowStateChanged id minimized focused) other (m.row other) := by
  unfold TaskbarModel.onWindowStateChanged effect TaskbarModel.row
  cases hrow : m.windows.lookup id with
  | none =>
      dsimp only
      split_ifs with h
      · rw [h, hrow]
        rfl
      · rfl
  | some record =>
      dsimp only
      by_cases hsame : record.minimized = minimized ∧ record.focused = focused
      · rw [if_pos hsame]
        split_ifs with h
        · rw [h, hrow, Option.map_some, ← hsame.1, ← hsame.2]
        · rfl
      · rw [if_neg hsame]
        exact Assoc.lookup_modify ..

theorem TaskbarModel.row_onWindowRegistered (m : TaskbarModel) (id title appId other : String) :
    (m.onWindowRegistered id title appId).row other =
      effect (.windowRegistered id title appId) other (m.row other) := by
  unfold TaskbarModel.onWindowRegistered
  cases hrow : m.windows.lookup id with
  | some record =>
      dsimp only
      rw [TaskbarModel.row_onWindowMetadataChanged]
      unfold effect TaskbarModel.row
      dsimp only
      split_ifs with h
      · rw [h, hrow]
        rfl
      · rfl
  | none =>
      unfold effect TaskbarModel.row
      dsimp only
      rw [Assoc.lookup_append_singleton _ _ _ _ hrow]
      split_ifs with h
      · rw [h, hrow]
      · rfl

theorem TaskbarModel.row_onWindowUnregistered (h : (Assoc.keys m.windows).Nodup)
    (id other : String) :
    (m.onWindowUnregistered id).row other =
      effect (.windowUnregistered id) other (m.row other) := by
  unfold TaskbarModel.onWindowUnregistered effect TaskbarModel.row
  dsimp only
  rw [Assoc.eraseP_eq_erase h, Assoc.lookup_erase]

/-- **What a signal does to the rows.** -/
theorem TaskbarModel.row_signal (h : (Assoc.keys m.windows).Nodup) (signal : WindowSignal)
    (other : String) :
    (m.receive (.signal signal)).row other = effect signal other (m.row other) := by
  cases signal with
  | windowRegistered id title appId => exact m.row_onWindowRegistered id title appId other
  | windowUnregistered id => exact TaskbarModel.row_onWindowUnregistered h id other
  | windowStateChanged id minimized focused =>
      exact m.row_onWindowStateChanged id minimized focused other
  | windowMetadataChanged id title appId => exact m.row_onWindowMetadataChanged id title appId other

theorem TaskbarModel.nodup_onWindowMetadataChanged (h : (Assoc.keys m.windows).Nodup)
    (id title appId : String) :
    (Assoc.keys (m.onWindowMetadataChanged id title appId).windows).Nodup := by
  unfold TaskbarModel.onWindowMetadataChanged
  split
  · exact h
  · split_ifs
    · exact h
    · rwa [Assoc.keys_modify]

theorem TaskbarModel.nodup_onWindowStateChanged (h : (Assoc.keys m.windows).Nodup) (id : String)
    (minimized focused : Bool) :
    (Assoc.keys (m.onWindowStateChanged id minimized focused).windows).Nodup := by
  unfold TaskbarModel.onWindowStateChanged
  split
  · exact h
  · split
    · exact h
    · rwa [Assoc.keys_modify]

theorem TaskbarModel.nodup_onWindowRegistered (h : (Assoc.keys m.windows).Nodup)
    (id title appId : String) :
    (Assoc.keys (m.onWindowRegistered id title appId).windows).Nodup := by
  unfold TaskbarModel.onWindowRegistered
  split
  · exact TaskbarModel.nodup_onWindowMetadataChanged h id title appId
  · next hrow => exact Assoc.nodup_append_singleton h hrow _

theorem TaskbarModel.nodup_signal (h : (Assoc.keys m.windows).Nodup) (signal : WindowSignal) :
    (Assoc.keys (m.receive (.signal signal)).windows).Nodup := by
  cases signal with
  | windowRegistered id title appId => exact TaskbarModel.nodup_onWindowRegistered h id title appId
  | windowUnregistered id =>
      simp only [TaskbarModel.receive, TaskbarModel.onWindowUnregistered]
      rw [Assoc.eraseP_eq_erase h]
      exact Assoc.nodup_erase h id
  | windowStateChanged id minimized focused =>
      exact TaskbarModel.nodup_onWindowStateChanged h id minimized focused
  | windowMetadataChanged id title appId =>
      exact TaskbarModel.nodup_onWindowMetadataChanged h id title appId

theorem TaskbarModel.data_onWindowMetadataChanged (m : TaskbarModel) (id title appId : String) :
    (m.onWindowMetadataChanged id title appId).data = m.data := by
  unfold TaskbarModel.onWindowMetadataChanged
  split
  · rfl
  · split_ifs <;> rfl

theorem TaskbarModel.data_onWindowStateChanged (m : TaskbarModel) (id : String)
    (minimized focused : Bool) : (m.onWindowStateChanged id minimized focused).data = m.data := by
  unfold TaskbarModel.onWindowStateChanged
  split
  · rfl
  · split_ifs <;> rfl

theorem TaskbarModel.data_onWindowRegistered (m : TaskbarModel) (id title appId : String) :
    (m.onWindowRegistered id title appId).data = m.data := by
  unfold TaskbarModel.onWindowRegistered
  split
  · exact m.data_onWindowMetadataChanged id title appId
  · rfl

/-- Signals leave the data of the details alone. -/
theorem TaskbarModel.data_signal (m : TaskbarModel) (signal : WindowSignal) :
    (m.receive (.signal signal)).data = m.data := by
  cases signal with
  | windowRegistered id title appId => exact m.data_onWindowRegistered id title appId
  | windowUnregistered id => rfl
  | windowStateChanged id minimized focused =>
      exact m.data_onWindowStateChanged id minimized focused
  | windowMetadataChanged id title appId => exact m.data_onWindowMetadataChanged id title appId

end Rows

/-! ## Settled states -/

/-- Everything in the inbox is received. -/
def State.settle (s : State) : State :=
  { s with
    taskbar := s.inbox.foldl TaskbarModel.receive s.taskbar
    inbox := []
    calls := s.calls ++ s.inbox.flatMap Message.calls }

/-- A message is sent and received at once. -/
def State.sent (s : State) (message : Message) : State :=
  { s with taskbar := s.taskbar.receive message, calls := s.calls ++ message.calls }

/-- Receiving a message changes nothing about the settled state. -/
theorem State.settle_receive {s : State} {message : Message} {rest : List Message}
    (h : s.inbox = message :: rest) :
    { s with
      taskbar := s.taskbar.receive message
      inbox := rest
      calls := s.calls ++ message.calls }.settle = s.settle := by
  simp [State.settle, h, List.append_assoc]

/-! ## The invariant of settled states -/

/-- A window that is being asked for: what was served and what is outstanding make up the
four details, and the replies fit the window as it is registered. -/
structure State.Pending (s : State) (id : String) (record : WindowRecord) (data : PendingData) :
    Prop where
  registered : s.registry.lookup id = some record
  asked : s.taskbar.data id = some data
  four : data.remaining + (s.served id).length = 4
  outstanding : (s.calls.countP fun call => call.1 = id) = data.remaining
  fits : Fits (s.served id) record
  fields : ∀ field : Field, (id, field) ∈ s.calls ∨ field.reply data.record ∈ s.served id

/-- What holds of one window once the inbox is empty. -/
structure State.Tracks (s : State) (id : String) : Prop where
  fresh : id ∉ s.used → s.registry.lookup id = none ∧ s.taskbar.row id = none
  row : s.taskbar.row id = none ∨ s.taskbar.row id = s.registry.lookup id
  unlisted : s.listed = none → s.served id = []
  followed : s.listed ≠ none → ¬ s.Seeding id → s.taskbar.row id = s.registry.lookup id
  idle : ¬ s.Seeding id → ∀ field, (id, field) ∉ s.calls
  seeding : s.Seeding id → ∃ record data, s.Pending id record data

/-- What holds of a settled state. -/
structure State.Settled (s : State) : Prop where
  distinct : (Assoc.keys s.taskbar.windows).Nodup
  registry : (Assoc.keys s.registry).Nodup
  tracks : ∀ id, s.Tracks id

/-! ### Operations -/

/-- The signals of an operation are sent and received at once. -/
def State.settleSignals (s : State) (result : Registry × List WindowSignal) : State :=
  { s with
    registry := result.1
    taskbar := (result.2.map Message.signal).foldl TaskbarModel.receive s.taskbar }

theorem State.settle_operate (s : State) (result : Registry × List WindowSignal) :
    (s.operate result).settle = s.settle.settleSignals result := by
  have hcalls : (result.2.map Message.signal).flatMap Message.calls = [] := by
    rw [List.flatMap_map]
    exact List.flatMap_eq_nil_iff.mpr fun signal _ => rfl
  simp [State.settle, State.operate, State.settleSignals, List.foldl_append, hcalls]

theorem TaskbarModel.row_signals {m : TaskbarModel} (h : (Assoc.keys m.windows).Nodup)
    (signals : List WindowSignal) (other : String) :
    ((signals.map Message.signal).foldl TaskbarModel.receive m).row other =
      effects signals other (m.row other) := by
  induction signals generalizing m with
  | nil => rfl
  | cons signal signals ih =>
      rw [List.map_cons, List.foldl_cons, ih (TaskbarModel.nodup_signal h signal),
        TaskbarModel.row_signal h]
      rfl

theorem TaskbarModel.nodup_signals {m : TaskbarModel} (h : (Assoc.keys m.windows).Nodup)
    (signals : List WindowSignal) :
    (Assoc.keys ((signals.map Message.signal).foldl TaskbarModel.receive m).windows).Nodup := by
  induction signals generalizing m with
  | nil => exact h
  | cons signal signals ih => exact ih (TaskbarModel.nodup_signal h signal)

theorem TaskbarModel.data_signals (m : TaskbarModel) (signals : List WindowSignal) :
    ((signals.map Message.signal).foldl TaskbarModel.receive m).data = m.data := by
  induction signals generalizing m with
  | nil => rfl
  | cons signal signals ih => exact (ih _).trans (m.data_signal signal)

/-- **Rows and registry take an operation the same way.** -/
theorem State.Settled.operate {s : State} {result : Registry × List WindowSignal} (h : s.Settled)
    (hregistry : (Assoc.keys result.1).Nodup)
    (hlookup : ∀ id, result.1.lookup id = effects result.2 id (s.registry.lookup id))
    (hfresh : ∀ id, id ∉ s.used → effects result.2 id none = none)
    (hrow : ∀ id, s.registry.lookup id ≠ none → effects result.2 id none = none)
    (hseeding : ∀ id record, s.Seeding id → s.registry.lookup id = some record →
      Fits (s.served id) record →
      ∃ record', effects result.2 id (some record) = some record' ∧ Fits (s.served id) record') :
    (s.settleSignals result).Settled where
  distinct := TaskbarModel.nodup_signals h.distinct result.2
  registry := hregistry
  tracks id := by
    have ht := h.tracks id
    have hrows : (s.settleSignals result).taskbar.row id =
        effects result.2 id (s.taskbar.row id) := TaskbarModel.row_signals h.distinct result.2 id
    refine ⟨fun hused => ?_, ?_, ht.unlisted, fun hlisted hnot => ?_, ht.idle, fun hs => ?_⟩
    · rw [hrows, (ht.fresh hused).2]
      refine ⟨?_, hfresh id hused⟩
      exact (hlookup id).trans (by rw [(ht.fresh hused).1]; exact hfresh id hused)
    · rw [hrows]
      rcases ht.row with hnone | hsame
      · by_cases hreg : s.registry.lookup id = none
        · exact .inr (by rw [hnone, ← hreg]; exact (hlookup id).symm)
        · exact .inl (by rw [hnone]; exact hrow id hreg)
      · exact .inr (by rw [hsame]; exact (hlookup id).symm)
    · rw [hrows, ht.followed hlisted hnot]
      exact (hlookup id).symm
    · obtain ⟨record, data, hp⟩ := ht.seeding hs
      obtain ⟨record', heffect, hfits⟩ := hseeding id record hs hp.registered hp.fits
      refine ⟨record', data, ⟨?_, ?_, hp.four, hp.outstanding, hfits, hp.fields⟩⟩
      · exact (hlookup id).trans (by rw [hp.registered]; exact heffect)
      · exact (congrFun (s.taskbar.data_signals result.2) id).trans hp.asked

theorem State.Settled.registerWindow {s : State} (h : s.Settled) {id : String} (hid : id ∉ s.used)
    (title appId : String) :
    State.Settled
      { s.settleSignals (s.registry.registerWindow id title appId) with used := id :: s.used } := by
  have hnone : s.registry.lookup id = none := ((h.tracks id).fresh hid).1
  have hused : State.Settled { s with used := id :: s.used } :=
    ⟨h.distinct, h.registry, fun other =>
      have ht := h.tracks other
      ⟨fun hother => ht.fresh fun hmem => hother (List.mem_cons_of_mem _ hmem), ht.row, ht.unlisted,
        ht.followed, ht.idle, fun hs =>
          have ⟨record, data, hp⟩ := ht.seeding hs
          ⟨record, data, ⟨hp.registered, hp.asked, hp.four, hp.outstanding, hp.fits, hp.fields⟩⟩⟩⟩
  have hother : ∀ {other}, other ≠ id → ∀ row,
      effects (s.registry.registerWindow id title appId).2 other row = row := by
    intro other hne row
    simp only [Registry.registerWindow, effects, List.foldl_cons, List.foldl_nil,
      effect, if_neg hne]
  refine @State.Settled.operate _ (s.registry.registerWindow id title appId) hused
    (Assoc.nodup_insert h.registry ..) (Registry.lookup_registerWindow hnone title appId)
    (fun other hnot => ?_) (fun other hreg => ?_) fun other record _ hreg hfits => ?_
  · exact hother (fun heq => hnot (heq ▸ List.mem_cons_self ..)) none
  · exact hother (fun heq => hreg (heq ▸ hnone)) none
  · refine ⟨record, hother (fun heq => ?_) _, hfits⟩
    rw [heq] at hreg
    cases hnone.symm.trans hreg

theorem State.Settled.unregisterWindow {s : State} (h : s.Settled) {id : String}
    (hok : ¬ s.Seeding id) : (s.settleSignals (s.registry.unregisterWindow id)).Settled := by
  have hnone : ∀ other, effects (s.registry.unregisterWindow id).2 other none = none := by
    intro other
    simp only [Registry.unregisterWindow, effects, List.foldl_cons, List.foldl_nil,
      effect, ite_self]
  refine h.operate (Assoc.nodup_erase h.registry id) (s.registry.lookup_unregisterWindow id)
    (fun other _ => hnone other) (fun other _ => hnone other) fun other record hs _ hfits => ?_
  have hne : other ≠ id := fun heq => hok (heq ▸ hs)
  refine ⟨record, ?_, hfits⟩
  simp only [Registry.unregisterWindow, effects, List.foldl_cons, List.foldl_nil,
    effect, if_neg hne]

theorem State.Settled.updateWindowMetadata {s : State} (h : s.Settled) {id title appId : String}
    (hok : Undisturbed s (.updateWindowMetadata id title appId)) :
    (s.settleSignals (s.registry.updateWindowMetadata id title appId)).Settled := by
  have hnone : ∀ other, effects (s.registry.updateWindowMetadata id title appId).2 other none =
      none := by
    intro other
    simp only [Registry.updateWindowMetadata, effects, List.foldl_cons, List.foldl_nil, effect,
      Option.map_none, ite_self]
  refine h.operate ?_ (s.registry.lookup_updateWindowMetadata id title appId)
    (fun other _ => hnone other) (fun other _ => hnone other) fun other record hs hreg hfits => ?_
  · rw [Registry.updateWindowMetadata, Assoc.keys_modify]
    exact h.registry
  simp only [Registry.updateWindowMetadata, effects, List.foldl_cons, List.foldl_nil, effect]
  by_cases heq : other = id
  · subst heq
    rw [if_pos rfl]
    refine ⟨_, rfl, ?_⟩
    have := hok hs
    rwa [Registry.value_eq hreg] at this
  · exact ⟨record, if_neg heq, hfits⟩

theorem State.Settled.updateWindowState {s : State} (h : s.Settled) {id : String}
    {minimized focused : Bool} (hok : Undisturbed s (.updateWindowState id minimized focused)) :
    (s.settleSignals (s.registry.updateWindowState id minimized focused)).Settled := by
  have hsignals : ∀ signal ∈ (s.registry.updateWindowState id minimized focused).2,
      signal = .windowStateChanged id minimized focused := by
    unfold Registry.updateWindowState
    intro signal hsignal
    split at hsignal
    · split at hsignal
      · nomatch hsignal
      · exact List.mem_singleton.mp hsignal
    · exact List.mem_singleton.mp hsignal
  have hnone : ∀ other, effects (s.registry.updateWindowState id minimized focused).2 other none =
      none := by
    intro other
    refine List.foldlRecOn (motive := (· = none)) _ _ rfl fun row hrow signal hsignal => ?_
    rw [hrow, hsignals signal hsignal]
    exact ite_self _
  refine h.operate (Registry.nodup_updateWindowState h.registry ..)
    (s.registry.lookup_updateWindowState id minimized focused)
    (fun other _ => hnone other) (fun other _ => hnone other) fun other record hs hreg hfits => ?_
  rw [← hreg, ← Registry.lookup_updateWindowState, Registry.lookup_updateWindowState_eq_map]
  by_cases heq : other = id
  · subst heq
    rw [if_pos rfl, hreg]
    refine ⟨_, rfl, ?_⟩
    have := hok hs
    rwa [Registry.value_eq hreg] at this
  · exact ⟨record, (if_neg heq).trans hreg, hfits⟩

/-! ### The list -/

theorem countP_calls (ids : List String) (h : ids.Nodup) (id : String) :
    ((Message.list ids).calls.countP fun call => call.1 = id) = if id ∈ ids then 4 else 0 := by
  induction ids with
  | nil => rfl
  | cons head ids ih =>
      rw [List.nodup_cons] at h
      have hsplit : (Message.list (head :: ids)).calls =
          [(head, .title), (head, .appId), (head, .minimized), (head, .focused)] ++
            (Message.list ids).calls := rfl
      rw [hsplit, List.countP_append, ih h.2]
      by_cases heq : head = id
      · subst heq
        simp [h.1]
      · simp [heq, Ne.symm heq]

theorem mem_calls {ids : List String} {id : String} {field : Field} :
    (id, field) ∈ (Message.list ids).calls ↔ id ∈ ids := by
  cases field <;> simp [Message.calls]

/-- The list is served, sent and received at once. -/
def State.settleList (s : State) : State :=
  { s.sent (.list s.registry.listWindowIds) with listed := some s.registry.listWindowIds }

theorem State.Settled.serveList {s : State} (h : s.Settled) (hlisted : s.listed = none) :
    s.settleList.Settled := by
  refine ⟨h.distinct, h.registry, fun id => ?_⟩
  have ht := h.tracks id
  have hidle : ∀ field, (id, field) ∉ s.calls := ht.idle fun ⟨⟨_, hids, _⟩, _⟩ => by
    rw [hlisted] at hids
    nomatch hids
  have hserved : s.settleList.served id = [] := ht.unlisted hlisted
  by_cases hid : id ∈ s.registry.listWindowIds
  · have hseeding : s.settleList.Seeding id :=
      ⟨⟨_, rfl, hid⟩, by rw [hserved]; exact Nat.zero_lt_succ 3⟩
    refine ⟨ht.fresh, ht.row, nofun, fun _ hnot => absurd hseeding hnot,
      fun hnot => absurd hseeding hnot,
      fun _ => ?_⟩
    obtain ⟨record, hrecord⟩ := Option.ne_none_iff_exists'.mp (Assoc.lookup_ne_none.mpr hid)
    have houtstanding : (s.settleList.calls.countP fun call => call.1 = id) = 4 := by
      have hnone : (s.calls.countP fun call => call.1 = id) = 0 :=
        List.countP_eq_zero.mpr fun call hcall heq =>
          hidle call.2 (by rwa [← of_decide_eq_true heq])
      have hlist := countP_calls s.registry.listWindowIds h.registry id
      rw [if_pos hid] at hlist
      exact (List.countP_append ..).trans (by rw [hnone, hlist])
    refine ⟨record, ⟨4, .default⟩,
      ⟨hrecord, if_pos hid, ?_, houtstanding, ?_, fun field => .inl ?_⟩⟩
    · rw [hserved]
      rfl
    · rw [hserved]
      exact nofun
    · exact List.mem_append_right _ (mem_calls.mpr hid)
  · have hnot : ¬ s.settleList.Seeding id := by
      rintro ⟨⟨ids, hids, hmem⟩, _⟩
      obtain rfl := Option.some.inj hids
      exact hid hmem
    have hnone : s.registry.lookup id = none := by
      by_contra hne
      exact hid (Assoc.lookup_ne_none.mp hne)
    refine ⟨ht.fresh, ht.row, nofun, fun _ _ => ?_, fun _ field hmem => ?_, fun hs =>
      absurd hs hnot⟩
    · rcases ht.row with hrow | hrow
      · exact hrow.trans hnone.symm
      · exact hrow
    · rcases List.mem_append.mp hmem with hmem | hmem
      · exact hidle field hmem
      · exact hid (mem_calls.mp hmem)

/-! ### The details -/

/-- A detail is served, sent and received at once. -/
def State.settleDetail (s : State) (id : String) (field : Field) : State :=
  { s with
    taskbar := s.taskbar.onDetail id (s.registry.detail id field)
    calls := s.calls.erase (id, field)
    served := Function.update s.served id (s.served id ++ [s.registry.detail id field]) }

theorem reply_setField (record served : WindowRecord) (field field' : Field) :
    field'.reply (setField served (field.reply record)) =
      if field' = field then field.reply record else field'.reply served := by
  cases field <;> cases field' <;> rfl

theorem field_inj {record record' : WindowRecord} {field field' : Field}
    (h : field.reply record = field'.reply record') : field = field' := by
  cases field <;> cases field' <;> first | rfl | nomatch h

theorem record_ext {record record' : WindowRecord}
    (h : ∀ field : Field, field.reply record = field.reply record') : record = record' := by
  obtain ⟨title, appId, minimized, focused⟩ := record
  obtain ⟨title', appId', minimized', focused'⟩ := record'
  obtain rfl := Reply.title.inj (h .title)
  obtain rfl := Reply.appId.inj (h .appId)
  obtain rfl := Reply.minimized.inj (h .minimized)
  obtain rfl := Reply.focused.inj (h .focused)
  rfl

/-- Replies that are all there and fit a window make up its record. -/
theorem record_eq_of_fits {replies : List Reply} {record served : WindowRecord}
    (hfits : Fits replies record) (hall : ∀ field : Field, field.reply served ∈ replies) :
    served = record := by
  refine record_ext fun field => ?_
  obtain ⟨field', heq⟩ := hfits _ (hall field)
  rw [heq, field_inj heq]

section Detail

variable {m : TaskbarModel} {id : String} {data : PendingData} {reply : Reply}

/-- The data after one more reply. -/
def PendingData.served (data : PendingData) (reply : Reply) : PendingData :=
  ⟨data.remaining - 1, setField data.record reply⟩

theorem TaskbarModel.onDetail_of_more (hdata : m.data id = some data) (h : 1 < data.remaining) :
    m.onDetail id reply = { m with
      data := Function.update m.data id (some (data.served reply)) } := by
  unfold TaskbarModel.onDetail
  rw [hdata]
  exact if_neg (Nat.sub_ne_zero_of_lt h)

/-- The last reply registers the window. -/
def TaskbarModel.seed (m : TaskbarModel) (id : String) (data : PendingData) : TaskbarModel :=
  (({ m with data := Function.update m.data id (some data) }.onWindowRegistered id data.record.title
    data.record.appId).onWindowStateChanged id data.record.minimized data.record.focused)

theorem TaskbarModel.onDetail_of_last (hdata : m.data id = some data) (h : data.remaining = 1) :
    m.onDetail id reply = m.seed id (data.served reply) := by
  unfold TaskbarModel.onDetail
  rw [hdata]
  exact if_pos (by rw [h])

/-- **What the last reply does to the rows**, when a row says nothing else. -/
theorem TaskbarModel.row_seed (m : TaskbarModel) (id : String) (data : PendingData)
    (h : m.row id = none ∨ m.row id = some data.record) (other : String) :
    (m.seed id data).row other = if other = id then some data.record else m.row other := by
  rw [TaskbarModel.seed, TaskbarModel.row_onWindowStateChanged, TaskbarModel.row_onWindowRegistered]
  unfold effect
  by_cases hother : other = id
  · subst hother
    simp only [if_true]
    rcases h with h | h
    · have hrow : { m with data := Function.update m.data other (some data) }.row other = none := h
      rw [hrow]
      rfl
    · have hrow : { m with data := Function.update m.data other (some data) }.row other =
          some data.record := h
      rw [hrow]
      rfl
  · simp only [if_neg hother]
    rfl

theorem TaskbarModel.nodup_seed (h : (Assoc.keys m.windows).Nodup) (id : String)
    (data : PendingData) :
    (Assoc.keys (m.seed id data).windows).Nodup := by
  have hwith : (Assoc.keys { m with
      data := Function.update m.data id (some data) }.windows).Nodup := h
  unfold TaskbarModel.seed
  exact TaskbarModel.nodup_onWindowStateChanged (TaskbarModel.nodup_onWindowRegistered hwith ..) ..

theorem TaskbarModel.data_seed (m : TaskbarModel) (id : String) (data : PendingData) :
    (m.seed id data).data = Function.update m.data id (some data) :=
  (TaskbarModel.data_onWindowStateChanged ..).trans (TaskbarModel.data_onWindowRegistered ..)

end Detail

/-- Nothing about the window has changed. -/
theorem State.Tracks.frame {s s' : State} {id : String} (h : s.Tracks id)
    (hregistry : s'.registry = s.registry) (hused : s'.used = s.used)
    (hlisted : s'.listed = s.listed)
    (hserved : s'.served id = s.served id) (hrow : s'.taskbar.row id = s.taskbar.row id)
    (hdata : s'.taskbar.data id = s.taskbar.data id)
    (hcalls : ∀ field, (id, field) ∈ s'.calls ↔ (id, field) ∈ s.calls)
    (hcount : (s'.calls.countP fun call => call.1 = id) = s.calls.countP fun call => call.1 = id) :
    s'.Tracks id := by
  have hseeding : s'.Seeding id ↔ s.Seeding id := by
    unfold State.Seeding
    rw [hlisted, hserved]
  refine ⟨?_, ?_, ?_, ?_, ?_, ?_⟩
  · rw [hused, hregistry, hrow]
    exact h.fresh
  · rw [hregistry, hrow]
    exact h.row
  · rw [hlisted, hserved]
    exact h.unlisted
  · rw [hlisted, hseeding, hrow, hregistry]
    exact h.followed
  · rw [hseeding]
    exact fun hnot field hmem => h.idle hnot field ((hcalls field).mp hmem)
  · rw [hseeding]
    intro hs
    obtain ⟨record, data, hp⟩ := h.seeding hs
    refine ⟨record, data, hregistry ▸ hp.registered, hdata.trans hp.asked, ?_,
      hcount.trans hp.outstanding,
      ?_, fun field => ?_⟩
    · rw [hserved]
      exact hp.four
    · rw [hserved]
      exact hp.fits
    · rw [hcalls, hserved]
      exact hp.fields field

/-- What a served detail adds, whether or not it is the last. -/
theorem State.Pending.serve {s : State} {id : String} {field : Field} {record : WindowRecord}
    {data : PendingData} (h : s.Pending id record data) (hmem : (id, field) ∈ s.calls)
    (hdata : (s.settleDetail id field).taskbar.data id =
      some (data.served (s.registry.detail id field))) :
    (s.settleDetail id field).Pending id record (data.served (s.registry.detail id field)) := by
  have hreply : s.registry.detail id field = field.reply record := by
    rw [Registry.detail, Registry.value_eq h.registered]
  have hserved : (s.settleDetail id field).served id = s.served id ++ [field.reply record] := by
    rw [← hreply]
    exact Function.update_self ..
  have hpos : 0 < data.remaining := by
    rw [← h.outstanding]
    exact List.countP_pos_iff.mpr ⟨_, hmem, decide_eq_true rfl⟩
  refine ⟨h.registered, hdata, ?_, ?_, ?_, fun field' => ?_⟩
  · have := h.four
    rw [hserved, List.length_append, List.length_singleton]
    simp only [PendingData.served]
    omega
  · refine (List.countP_erase ..).trans ?_
    rw [if_pos (by simpa using hmem), h.outstanding]
    rfl
  · rw [hserved]
    intro reply hreply
    rcases List.mem_append.mp hreply with hreply | hreply
    · exact h.fits reply hreply
    · exact ⟨field, List.mem_singleton.mp hreply⟩
  · rw [hserved, hreply, PendingData.served, reply_setField]
    by_cases heq : field' = field
    · rw [if_pos heq]
      exact .inr (List.mem_append_right _ (List.mem_singleton_self _))
    · rw [if_neg heq]
      rcases h.fields field' with hcall | hold
      · exact .inl ((List.mem_erase_of_ne fun hpair => heq (Prod.mk.inj hpair).2).mpr hcall)
      · exact .inr (List.mem_append_left _ hold)

/-- When no detail is outstanding the data is the window. -/
theorem State.Pending.complete {s : State} {id : String} {record : WindowRecord}
    {data : PendingData}
    (h : s.Pending id record data) (hlast : data.remaining = 0) : data.record = record := by
  refine record_eq_of_fits h.fits fun field => (h.fields field).resolve_left fun hmem => ?_
  have hpos : 0 < s.calls.countP fun call => call.1 = id :=
    List.countP_pos_iff.mpr ⟨_, hmem, decide_eq_true rfl⟩
  rw [h.outstanding, hlast] at hpos
  exact Nat.lt_irrefl 0 hpos

/-- **A detail, the last one included.** -/
theorem State.Settled.serveDetail {s : State} (h : s.Settled) {id : String} {field : Field}
    (hmem : (id, field) ∈ s.calls) : (s.settleDetail id field).Settled := by
  have ht := h.tracks id
  have hs : s.Seeding id := by
    by_contra hnot
    exact ht.idle hnot field hmem
  obtain ⟨record, data, hp⟩ := ht.seeding hs
  obtain ⟨hlisted, hmore⟩ := hs
  have hserved : (s.settleDetail id field).served id =
      s.served id ++ [s.registry.detail id field] := Function.update_self ..
  have hlength : ((s.settleDetail id field).served id).length = (s.served id).length + 1 := by
    rw [hserved, List.length_append, List.length_singleton]
  have hfour := hp.four
  have hothers : ∀ other, other ≠ id →
    (s.settleDetail id field).taskbar.row other = s.taskbar.row other →
      (s.settleDetail id field).taskbar.data other = s.taskbar.data other →
      (s.settleDetail id field).Tracks other := by
    intro other hne hrow hdata
    refine (h.tracks other).frame rfl rfl rfl (Function.update_of_ne hne ..) hrow hdata
      (fun field' => ?_) ?_
    · exact List.mem_erase_of_ne fun hpair => hne (Prod.mk.inj hpair).1
    · refine (List.countP_erase ..).trans ?_
      rw [if_neg (by simp [Ne.symm hne]), Nat.sub_zero]
  by_cases hlast : data.remaining = 1
  · have htaskbar : (s.settleDetail id field).taskbar =
        s.taskbar.seed id (data.served (s.registry.detail id field)) :=
      TaskbarModel.onDetail_of_last hp.asked hlast
    have hdata := TaskbarModel.data_seed s.taskbar id (data.served (s.registry.detail id field))
    rw [← htaskbar] at hdata
    have hp' := hp.serve hmem (by rw [hdata, Function.update_self])
    have hrecord := hp'.complete (by rw [PendingData.served, hlast])
    have hrows := TaskbarModel.row_seed s.taskbar id (data.served (s.registry.detail id field)) (by
      rw [hrecord, ← hp.registered]
      exact ht.row)
    rw [← htaskbar, hrecord] at hrows
    refine ⟨?_, h.registry, fun other => ?_⟩
    · rw [htaskbar]
      exact TaskbarModel.nodup_seed h.distinct id _
    by_cases heq : other = id
    · subst heq
      have hrow : (s.settleDetail other field).taskbar.row other = s.registry.lookup other := by
        rw [hrows, if_pos rfl, hp.registered]
      have hnot : ¬ (s.settleDetail other field).Seeding other := fun hs => by
        have := hs.2
        omega
      refine ⟨fun hused => ?_, .inr hrow, fun hnone => ?_, fun _ _ => hrow,
        fun _ field' hcall => ?_,
        fun hs => absurd hs hnot⟩
      · exact absurd ((ht.fresh hused).1.symm.trans hp.registered) nofun
      · obtain ⟨ids, hids, _⟩ := hlisted
        exact absurd (hnone.symm.trans hids) nofun
      · have hpos : 0 < (s.settleDetail other field).calls.countP fun call => call.1 = other :=
          List.countP_pos_iff.mpr ⟨_, hcall, decide_eq_true rfl⟩
        rw [hp'.outstanding, PendingData.served, hlast] at hpos
        exact Nat.lt_irrefl 0 hpos
    · exact hothers other heq (by rw [hrows, if_neg heq]) (by rw [hdata, Function.update_of_ne heq])
  · have hpos : 0 < data.remaining := by omega
    have htaskbar : (s.settleDetail id field).taskbar = { s.taskbar with
        data := Function.update s.taskbar.data id
          (some (data.served (s.registry.detail id field))) } :=
      TaskbarModel.onDetail_of_more hp.asked (by omega)
    have hrows : ∀ other, (s.settleDetail id field).taskbar.row other = s.taskbar.row other := by
      intro other
      rw [htaskbar]
      rfl
    refine ⟨?_, h.registry, fun other => ?_⟩
    · rw [htaskbar]
      exact h.distinct
    by_cases heq : other = id
    · subst heq
      have hs' : (s.settleDetail other field).Seeding other := ⟨hlisted, by omega⟩
      have hdata : (s.settleDetail other field).taskbar.data other =
          some (data.served (s.registry.detail other field)) := by
        rw [htaskbar]
        exact Function.update_self ..
      refine ⟨fun hused => ?_, ?_, fun hnone => ?_, fun _ hnot => absurd hs' hnot,
        fun hnot => absurd hs' hnot, fun _ => ⟨record, _, hp.serve hmem hdata⟩⟩
      · exact absurd ((ht.fresh hused).1.symm.trans hp.registered) nofun
      · rw [hrows]
        exact ht.row
      · obtain ⟨ids, hids, _⟩ := hlisted
        exact absurd (hnone.symm.trans hids) nofun
    · exact hothers other heq (hrows other) (by rw [htaskbar]; exact Function.update_of_ne heq ..)

/-! ## Every run -/

theorem State.settle_initial {registry : Registry} (h : (Assoc.keys registry).Nodup) :
    (State.initial registry).settle.Settled := by
  refine ⟨List.nodup_nil, h, fun id => ?_⟩
  have hnot : ¬ (State.initial registry).settle.Seeding id := fun ⟨⟨_, hids, _⟩, _⟩ => nomatch hids
  refine ⟨fun hused => ⟨?_, rfl⟩, .inl rfl, fun _ => rfl, fun hlisted => absurd rfl hlisted,
    fun _ _ => nofun, fun hs => absurd hs hnot⟩
  by_contra hne
  exact hused (Assoc.lookup_ne_none.mp hne)

theorem State.settle_serveList (s : State) :
    State.settle { s with
      inbox := s.inbox ++ [.list s.registry.listWindowIds]
      listed := some s.registry.listWindowIds } = s.settle.settleList := by
  simp [State.settle, State.settleList, State.sent, List.foldl_append]

theorem State.settle_serveDetail {s : State} {id : String} {field : Field}
    (h : (id, field) ∈ s.calls) :
    State.settle { s with
      inbox := s.inbox ++ [.detail id (s.registry.detail id field)]
      calls := s.calls.erase (id, field)
      served := Function.update s.served id (s.served id ++ [s.registry.detail id field]) } =
      s.settle.settleDetail id field := by
  simp [State.settle, State.settleDetail, List.foldl_append, List.erase_append_left _ h,
    Message.calls,
    TaskbarModel.receive]

/-- What a step preserves. -/
theorem settled_step {s s' : State} {e : Event} (h : s.settle.Settled) (hok : Undisturbed s e)
    (hstep : step s e = some s') : s'.settle.Settled := by
  cases e with
  | registerWindow id title appId =>
      simp only [step] at hstep
      split at hstep
      · nomatch hstep
      · next hused =>
          obtain rfl := Option.some.inj hstep
          have hsettle :
              State.settle { s.operate (s.registry.registerWindow id title appId) with
                used := id :: s.used } =
              { s.settle.settleSignals (s.registry.registerWindow id title appId) with
                used := id :: s.used } :=
            congrArg (fun t : State => { t with used := id :: s.used }) (s.settle_operate _)
          rw [hsettle]
          exact h.registerWindow hused title appId
  | unregisterWindow id =>
      obtain rfl := Option.some.inj hstep
      rw [State.settle_operate]
      exact h.unregisterWindow hok
  | updateWindowMetadata id title appId =>
      obtain rfl := Option.some.inj hstep
      rw [State.settle_operate]
      exact h.updateWindowMetadata hok
  | updateWindowState id minimized focused =>
      obtain rfl := Option.some.inj hstep
      rw [State.settle_operate]
      exact h.updateWindowState hok
  | serveList =>
      simp only [step] at hstep
      split at hstep
      · next hlisted =>
          obtain rfl := Option.some.inj hstep
          rw [State.settle_serveList]
          exact h.serveList hlisted
      · nomatch hstep
  | serveDetail id field =>
      simp only [step] at hstep
      split at hstep
      · next hmem =>
          obtain rfl := Option.some.inj hstep
          rw [State.settle_serveDetail hmem]
          exact h.serveDetail (List.mem_append_left _ hmem)
      · nomatch hstep
  | deliver =>
      simp only [step] at hstep
      split at hstep
      · nomatch hstep
      · next hinbox =>
          obtain rfl := Option.some.inj hstep
          rw [State.settle_receive hinbox]
          exact h

theorem settled_of_undisturbed {s : State} (h : system.ReachableWhere Undisturbed s) :
    s.settle.Settled := by
  refine h.invariant (I := fun s => s.settle.Settled) ?_ fun s e s' _ hs hok hstep =>
    settled_step hs hok hstep
  rintro _ ⟨registry, hnodup, rfl⟩
  exact State.settle_initial hnodup

theorem State.settle_of_allDelivered {s : State} (h : s.AllDelivered) : s.settle = s := by
  obtain ⟨_, _, hinbox⟩ := h
  simp only [State.settle, hinbox, List.foldl_nil, List.flatMap_nil, List.append_nil]
  rw [← hinbox]

/-- **Convergence.**  When no window is unregistered, or changed against a served detail,
while its details are being asked for, the rows end up being the windows of the registry. -/
theorem converged_of_undisturbed {s : State} (h : system.ReachableWhere Undisturbed s)
    (hdone : s.AllDelivered) : s.Converged := by
  have hs := settled_of_undisturbed h
  rw [State.settle_of_allDelivered hdone] at hs
  refine ⟨hs.distinct, fun window => ?_⟩
  have hidle : ¬ s.Seeding window.1 := by
    intro hseeding
    obtain ⟨record, data, hp⟩ := (hs.tracks window.1).seeding hseeding
    have hcount := hp.outstanding
    have hfour := hp.four
    have hmore := hseeding.2
    rw [hdone.2.1, List.countP_nil] at hcount
    omega
  have hrow : s.taskbar.windows.lookup window.1 = s.registry.lookup window.1 :=
    (hs.tracks window.1).followed hdone.1 hidle
  exact (Assoc.mem_iff_lookup hs.distinct).trans
    (hrow ▸ (Assoc.mem_iff_lookup hs.registry).symm)

instance (replies : List Reply) (record : WindowRecord) : Decidable (Fits replies record) :=
  decidable_of_iff
    (∀ reply ∈ replies, ∃ field ∈ [Field.title, .appId, .minimized, .focused],
      reply = field.reply record)
    ⟨fun h reply hreply =>
        have ⟨field, _, heq⟩ := h reply hreply
        ⟨field, heq⟩,
      fun h reply hreply =>
        have ⟨field, heq⟩ := h reply hreply
        ⟨field, by cases field <;> simp, heq⟩⟩

instance (s : State) (id : String) : Decidable (s.Seeding id) :=
  decidable_of_iff ((∃ ids ∈ s.listed, id ∈ ids) ∧ (s.served id).length < 4) Iff.rfl

instance : (s : State) → (e : Event) → Decidable (Undisturbed s e)
  | s, .unregisterWindow id => inferInstanceAs (Decidable (¬ s.Seeding id))
  | s, .updateWindowMetadata id title appId =>
      inferInstanceAs (Decidable (s.Seeding id →
        Fits (s.served id) { s.registry.value id with title := title, appId := appId }))
  | s, .updateWindowState id minimized focused =>
      inferInstanceAs (Decidable (s.Seeding id →
        Fits (s.served id) { s.registry.value id with minimized := minimized, focused := focused }))
  | _, .registerWindow .. => isTrue trivial
  | _, .serveList => isTrue trivial
  | _, .serveDetail .. => isTrue trivial
  | _, .deliver => isTrue trivial

/-- A window is unregistered before the list, one is registered and one renamed during the
seeding; the rows are the two that are left. -/
theorem converged_of_renaming :
    ∃ s, system.ReachableWhere Undisturbed s ∧ s.AllDelivered ∧ s.Converged ∧
      s.taskbar.windows = [("w2", ⟨"Notes", "nira.notepad", false, false⟩),
        ("w1", ⟨"Home", "nira.files", false, true⟩)] := by
  have hrun : (system.runWhere Undisturbed
      (.initial [("w0", ⟨"Setup", "nira.setup", false, false⟩),
        ("w1", ⟨"Files", "nira.files", false, false⟩)])
      [.unregisterWindow "w0", .updateWindowState "w1" false true, .serveList,
        .registerWindow "w2" "Notes" "nira.notepad", .deliver, .deliver, .deliver,
        .updateWindowMetadata "w1" "Home" "nira.files", .serveDetail "w1" .focused,
        .serveDetail "w1" .title, .serveDetail "w1" .appId, .serveDetail "w1" .minimized, .deliver,
        .deliver, .deliver, .deliver, .deliver, .deliver]).map
      (fun s => (s.listed, s.calls.isEmpty, s.inbox.isEmpty, s.taskbar.windows)) =
      some (some ["w1"], true, true, [("w2", ⟨"Notes", "nira.notepad", false, false⟩),
        ("w1", ⟨"Home", "nira.files", false, true⟩)]) := by
    decide +kernel
  obtain ⟨s, hs, hsummary⟩ := Option.map_eq_some_iff.mp hrun
  simp only [Prod.mk.injEq, List.isEmpty_iff] at hsummary
  obtain ⟨hlisted, hcalls, hinbox, hwindows⟩ := hsummary
  have hreach : system.ReachableWhere Undisturbed s :=
    .runWhere (.init ⟨_, by decide, rfl⟩) hs
  have hdone : s.AllDelivered := ⟨by rw [hlisted]; exact nofun, hcalls, hinbox⟩
  exact ⟨s, hreach, hdone, converged_of_undisturbed hreach hdone, hwindows⟩

/-- A window that is unregistered between the list and its details stays as an empty row. -/
theorem not_converged_of_unregistered :
    ¬ ∀ s, system.Reachable s → s.AllDelivered → s.Converged := by
  intro h
  have hrun : (system.run (.initial [("w1", ⟨"Files", "nira.files", false, false⟩)])
      [.serveList, .deliver, .unregisterWindow "w1", .serveDetail "w1" .title,
        .serveDetail "w1" .appId, .serveDetail "w1" .minimized, .serveDetail "w1" .focused,
        .deliver,
        .deliver, .deliver, .deliver, .deliver]).map
      (fun s => (s.listed, s.calls.isEmpty, s.inbox.isEmpty, s.registry, s.taskbar.windows)) =
      some (some ["w1"], true, true, [], [("w1", .default)]) := by
    rfl
  obtain ⟨s, hs, hsummary⟩ := Option.map_eq_some_iff.mp hrun
  simp only [Prod.mk.injEq, List.isEmpty_iff] at hsummary
  obtain ⟨hlisted, hcalls, hinbox, hregistry, hwindows⟩ := hsummary
  have hreach : system.Reachable s := .run (.init ⟨_, by decide, rfl⟩) hs
  have hrows := (h s hreach ⟨by rw [hlisted]; exact nofun, hcalls, hinbox⟩).rows ("w1", .default)
  rw [hwindows, hregistry] at hrows
  exact nomatch hrows.mp (List.mem_singleton_self _)

end NiraOS.Shell.Taskbar
