import NiraOS.AiDaemon.Protocol
import Mathlib.Data.List.Nodup

/-!
# At most one model in memory

`Disciplined` is the invariant of the engine mutex, the slot, the queues and the
replies.  Its heart is `Knows`: what the task holding the mutex knows about the
slot, view by view.  An `UnloadModel` that a task awaits is the last command in
the queue of its engine, because commands are sent under the mutex only; so once
the reply is there the engine is as good as new, and dropping it leaves a worker
with nothing but `Shutdown` to do.

Failing calls and calls cancelled at any await point are part of every run.
-/

namespace NiraOS.AiDaemon

/-! ## Engines -/

/-- The task a command replies to. -/
def Command.target : Command → Option TaskId
  | .loadModel t | .unloadModel t => some t
  | .generate _ | .shutdown => none

def Worker.target : Worker → Option TaskId
  | .loading t => some t
  | _ => none

/-- The tasks whose commands the engine has not answered yet, in order. -/
def Engine.awaiting (e : Engine) : List TaskId :=
  e.worker.target.toList ++ e.queue.filterMap Command.target

/-- An engine out of the slot: no model, and nothing to do but to exit. -/
structure Engine.Retired (e : Engine) : Prop where
  model : e.model = none
  rest : e.worker = .idle ∧ (e.queue = [] ∨ e.queue = [.shutdown]) ∨
    e.worker = .exited ∧ e.queue = []

/-- An engine in the slot: its handle is there, so its worker runs on. -/
structure Engine.Live (e : Engine) : Prop where
  running : e.worker ≠ .exited
  noShutdown : .shutdown ∉ e.queue
  nodup : e.awaiting.Nodup

theorem Engine.Retired.new : Engine.new.Retired := ⟨rfl, .inl ⟨rfl, .inl rfl⟩⟩

theorem Engine.Live.new : Engine.new.Live := ⟨nofun, nofun, List.nodup_nil⟩

theorem Engine.Retired.awaiting {e : Engine} (h : e.Retired) : e.awaiting = [] := by
  obtain ⟨hworker, hqueue | hqueue⟩ | ⟨hworker, hqueue⟩ := h.rest <;>
    simp [Engine.awaiting, hworker, hqueue, Worker.target, Command.target]

theorem Engine.retired_dropHandle_new : Engine.new.dropHandle.Retired :=
  ⟨rfl, .inl ⟨rfl, .inr rfl⟩⟩

/-- A retired worker does nothing but exit. -/
theorem Engine.Retired.step {cfg : Config} {tokens : TaskId → Channel Item} {e e' : Engine}
    {out : Output} (h : e.Retired) (hstep : e.Step cfg tokens e' out) :
    e'.Retired ∧ out = .dropped [] := by
  have hqueue : e.queue = [] ∨ e.queue = [.shutdown] := by
    obtain ⟨-, hqueue⟩ | ⟨-, hqueue⟩ := h.rest
    · exact hqueue
    · exact .inl hqueue
  have hworker : e.worker = .idle ∨ e.worker = .exited := h.rest.imp And.left And.left
  cases hstep with
  | takeShutdown hidle hqueue' =>
      rw [hqueue'] at hqueue
      obtain rfl : _ = [] := by simpa using hqueue
      exact ⟨⟨rfl, .inr ⟨rfl, rfl⟩⟩, rfl⟩
  | job _ hjob _ =>
      rcases hworker with hworker | hworker <;> rw [hworker] at hjob <;> cases hjob
  | takeLoad hidle hqueue' | takeUnload hidle hqueue' | takeGenerate hidle hqueue' _ =>
      simp [hqueue'] at hqueue
  | loaded hloading | loadFailed _ hloading => simp [hloading] at hworker

@[simp] theorem Engine.awaiting_enqueue (e : Engine) (command : Command) :
    (e.enqueue command).awaiting = e.awaiting ++ command.target.toList := by
  simp only [Engine.awaiting, Engine.enqueue, List.filterMap_append, List.append_assoc]
  cases command <;> rfl

/-- Sending a command other than `Shutdown`, on behalf of a task not awaiting another reply. -/
theorem Engine.Live.enqueue {e : Engine} (h : e.Live) {command : Command}
    (hcommand : command ≠ .shutdown) (htarget : ∀ t ∈ command.target, t ∉ e.awaiting) :
    (e.enqueue command).Live where
  running := h.running
  noShutdown := by
    simp only [Engine.enqueue, List.mem_append, List.mem_singleton, not_or]
    exact ⟨h.noShutdown, hcommand.symm⟩
  nodup := by
    rw [Engine.awaiting_enqueue, List.nodup_append]
    refine ⟨h.nodup, by cases command <;> simp [Command.target], ?_⟩
    rintro a ha b hb rfl
    exact htarget a (by simpa using hb) ha

/-- What a step of a worker in the slot does to the tasks awaiting it: a reply
goes to the first of them. -/
theorem Engine.Live.step {cfg : Config} {tokens : TaskId → Channel Item} {e e' : Engine}
    {out : Output} (h : e.Live) (hstep : e.Step cfg tokens e' out) :
    e'.Live ∧ ((∃ t result, out = .reply t result ∧ e.awaiting = t :: e'.awaiting) ∨
      (∀ t result, out ≠ .reply t result) ∧ (∀ commands, out ≠ .dropped commands) ∧
        e'.awaiting = e.awaiting) := by
  have hno := h.noShutdown
  cases hstep with
  | @takeLoad t rest hidle hqueue =>
      have hsame : Engine.awaiting ⟨rest, .loading t, e.model⟩ = e.awaiting := by
        simp [Engine.awaiting, hidle, hqueue, Worker.target, Command.target]
      rw [hqueue, List.mem_cons, not_or] at hno
      exact ⟨⟨nofun, hno.2, hsame ▸ h.nodup⟩, .inr ⟨nofun, nofun, hsame⟩⟩
  | @takeUnload t rest hidle hqueue =>
      have hcons : e.awaiting = t :: Engine.awaiting ⟨rest, .idle, none⟩ := by
        simp [Engine.awaiting, hidle, hqueue, Worker.target, Command.target]
      rw [hqueue, List.mem_cons, not_or] at hno
      exact ⟨⟨nofun, hno.2, (List.nodup_cons.mp (hcons ▸ h.nodup)).2⟩, .inl ⟨t, _, rfl, hcons⟩⟩
  | @takeGenerate job rest worker hidle hqueue hworker =>
      have hfree : worker.target = none ∧ worker ≠ .exited := by
        rcases hworker with rfl | rfl <;> exact ⟨rfl, nofun⟩
      have hsame : Engine.awaiting ⟨rest, worker, e.model⟩ = e.awaiting := by
        simp only [Engine.awaiting, hfree.1, hidle, hqueue]
        rfl
      rw [hqueue, List.mem_cons, not_or] at hno
      exact ⟨⟨hfree.2, hno.2, hsame ▸ h.nodup⟩, .inr ⟨nofun, nofun, hsame⟩⟩
  | takeShutdown hidle hqueue => simp [hqueue] at hno
  | @loaded t hworker =>
      have hcons : e.awaiting = t :: Engine.awaiting ⟨e.queue, .idle, some cfg.modelFile⟩ := by
        simp [Engine.awaiting, hworker, Worker.target]
      exact ⟨⟨nofun, hno, (List.nodup_cons.mp (hcons ▸ h.nodup)).2⟩, .inl ⟨t, _, rfl, hcons⟩⟩
  | @loadFailed t error hworker =>
      have hcons : e.awaiting = t :: Engine.awaiting ⟨e.queue, .idle, e.model⟩ := by
        simp [Engine.awaiting, hworker, Worker.target]
      exact ⟨⟨nofun, hno, (List.nodup_cons.mp (hcons ▸ h.nodup)).2⟩, .inl ⟨t, _, rfl, hcons⟩⟩
  | @job job worker model _ hjob _ =>
      -- no step of a job touches the queue or a reply
      have hfree : e.worker.target = none ∧ worker.target = none ∧ worker ≠ .exited ∧
          (∀ t result, out ≠ .reply t result) ∧ ∀ commands, out ≠ .dropped commands := by
        generalize e.worker = before at hjob
        cases hjob with
        | sent budget htext hroom hnext =>
            rcases hnext with rfl | ⟨error, rfl⟩ <;> exact ⟨rfl, rfl, nofun, nofun, nofun⟩
        | _ => exact ⟨rfl, rfl, nofun, nofun, nofun⟩
      obtain ⟨hbefore, hafter, hrunning, hreply, hdropped⟩ := hfree
      have hsame : Engine.awaiting ⟨e.queue, worker, model⟩ = e.awaiting := by
        simp [Engine.awaiting, hbefore, hafter]
      exact ⟨⟨hrunning, hno, hsame ▸ h.nodup⟩, .inr ⟨hreply, hdropped, hsame⟩⟩

/-- The engine has a `LoadModel` of task `t` to answer. -/
def Engine.WillLoad (e : Engine) (t : TaskId) : Prop :=
  .loadModel t ∈ e.queue ∨ e.worker = .loading t

theorem Engine.WillLoad.mem_awaiting {e : Engine} {t : TaskId} (h : e.WillLoad t) :
    t ∈ e.awaiting := by
  rw [Engine.awaiting, List.mem_append, List.mem_filterMap]
  rcases h with h | h
  · exact .inr ⟨_, h, rfl⟩
  · rw [h]
    exact .inl (List.mem_singleton_self t)

/-- A `LoadModel` is not answered by accident. -/
theorem Engine.WillLoad.step {cfg : Config} {tokens : TaskId → Channel Item} {e e' : Engine}
    {out : Output} {t : TaskId} (h : e.WillLoad t) (hlive : e.Live)
    (hstep : e.Step cfg tokens e' out) :
    e'.WillLoad t ∨ ∃ result, out = .reply t result ∧ e.worker = .loading t := by
  have hnodup := hlive.nodup
  cases hstep with
  | takeLoad hidle hqueue =>
      rcases h with h | h
      · rw [hqueue] at h
        rcases List.mem_cons.mp h with heq | h
        · obtain rfl := Command.loadModel.inj heq
          exact .inl (.inr rfl)
        · exact .inl (.inl h)
      · rw [hidle] at h
        cases h
  | takeUnload hidle hqueue | takeGenerate hidle hqueue _ =>
      rcases h with h | h
      · rw [hqueue] at h
        rcases List.mem_cons.mp h with heq | h
        · cases heq
        · exact .inl (.inl h)
      · rw [hidle] at h
        cases h
  | takeShutdown hidle hqueue => exact absurd (by simp [hqueue]) hlive.noShutdown
  | loaded hworker | loadFailed _ hworker =>
      rcases h with h | h
      · exact .inl (.inl h)
      · rw [h] at hworker
        obtain rfl := Worker.loading.inj hworker
        exact .inr ⟨_, rfl, h⟩
  | job _ hjob _ =>
      rcases h with h | h
      · exact .inl (.inl h)
      · rw [h] at hjob
        cases hjob

/-- The last command is taken, or is still the last one. -/
theorem last_of_take {c x : Command} {before rest : List Command} (h : c :: rest = before ++ [x]) :
    rest = [] ∧ c = x ∨ ∃ before', rest = before' ++ [x] := by
  cases before with
  | nil =>
      obtain ⟨rfl, rfl⟩ := List.cons.inj h
      exact .inl ⟨rfl, rfl⟩
  | cons y before => exact .inr ⟨before, (List.cons.inj h).2⟩

/-- What an awaited `UnloadModel` at the end of the queue becomes: the reply, and
an engine as good as new, or still the end of the queue. -/
theorem Engine.Step.unloading {cfg : Config} {tokens : TaskId → Channel Item} {e e' : Engine}
    {out : Output}
    {t : TaskId} {before : List Command} (hstep : e.Step cfg tokens e' out) (hlive : e.Live)
    (hqueue : e.queue = before ++ [.unloadModel t]) :
    (out = .reply t (.ok ()) ∧ e' = .new) ∨
      ((∀ result, out ≠ .reply t result) ∧ ∃ before', e'.queue = before' ++ [.unloadModel t]) := by
  have hmem : t ∈ e.queue.filterMap Command.target := by simp [hqueue, Command.target]
  have hnodup := hlive.nodup
  cases hstep with
  | takeLoad hidle htake =>
      rw [htake] at hqueue
      obtain ⟨-, heq⟩ | hrest := last_of_take hqueue
      · cases heq
      · exact .inr ⟨nofun, hrest⟩
  | @takeUnload t' rest hidle htake =>
      have hfirst : e.queue.filterMap Command.target = t' :: rest.filterMap Command.target := by
        rw [htake]
        rfl
      rw [htake] at hqueue
      obtain ⟨rfl, heq⟩ | ⟨before', hrest⟩ := last_of_take hqueue
      · obtain rfl := Command.unloadModel.inj heq
        exact .inl ⟨rfl, rfl⟩
      · refine .inr ⟨?_, before', hrest⟩
        rintro result heq
        obtain ⟨rfl, -⟩ := Output.reply.inj heq
        simp only [Engine.awaiting, hidle, hfirst] at hnodup
        refine (List.nodup_cons.mp hnodup).1 ?_
        simp [hrest, Command.target]
  | takeGenerate hidle htake hworker =>
      rw [htake] at hqueue
      obtain ⟨-, heq⟩ | hrest := last_of_take hqueue
      · cases heq
      · exact .inr ⟨nofun, hrest⟩
  | takeShutdown hidle htake => exact absurd (by simp [htake]) hlive.noShutdown
  | @loaded t' hworker =>
      refine .inr ⟨?_, before, hqueue⟩
      rintro result heq
      obtain ⟨rfl, -⟩ := Output.reply.inj heq
      simp only [Engine.awaiting, hworker] at hnodup
      exact (List.nodup_cons.mp hnodup).1 hmem
  | @loadFailed t' error hworker =>
      refine .inr ⟨?_, before, hqueue⟩
      rintro result heq
      obtain ⟨rfl, -⟩ := Output.reply.inj heq
      simp only [Engine.awaiting, hworker] at hnodup
      exact (List.nodup_cons.mp hnodup).1 hmem
  | @job job worker model _ hjob _ =>
      refine .inr ⟨?_, before, hqueue⟩
      generalize e.worker = before at hjob
      cases hjob <;> nofun

/-! ## The invariant -/

/-- What a task knows of the engine in its view; outside the mutex it is nothing. -/
def Knows (s : State) (t : TaskId) : View → Prop
  | .outside | .leaving | .failing => True
  | .empty | .cleared => s.slot = none
  | .checking | .present | .loaded => ∃ e, s.slot = some e
  | .loading => ∃ e, s.slot = some e ∧ (s.reply t = none → (s.engines e).WillLoad t)
  | .unloading => ∃ e, s.slot = some e ∧
      ((s.reply t = none ∧ ∃ before, (s.engines e).queue = before ++ [.unloadModel t]) ∨
        (s.reply t = some (.ok ()) ∧ s.engines e = .new))
  | .clearing => ∀ e, s.slot = some e → s.engines e = .new

/-- A task whose command is not answered waits for the reply, or was cancelled. -/
structure Waits (s : State) (t : TaskId) : Prop where
  reply : s.reply t = none
  waiting : (s.pc t).view = .loading ∨ (s.pc t).view = .unloading ∨ s.pc t = .cancelled

structure Disciplined (s : State) : Prop where
  owner : ∀ t, (s.pc t).view ≠ .outside ↔ s.lock = some t
  retired : ∀ e, s.slot ≠ some e → (s.engines e).Retired
  live : ∀ e, s.slot = some e → (s.engines e).Live
  waits : ∀ e, ∀ t ∈ (s.engines e).awaiting, Waits s t
  knows : ∀ t, Knows s t (s.pc t).view
  unborn : ∀ t, s.nextTask ≤ t → s.pc t = .unborn

theorem Disciplined.initial (mode : DaemonMode) (inactivityTimeout : ℕ) :
    Disciplined (.initial mode inactivityTimeout) where
  owner t := by simp [State.initial, Pc.view]
  retired e _ := .new
  live e h := by cases h
  waits e t h := by cases h
  knows t := trivial
  unborn t _ := rfl

section Steps

variable {cfg : Config} {s s' : State}

/-- Only one task is not outside. -/
theorem Disciplined.outside_of_ne (h : Disciplined s) {t : TaskId} (hlock : s.lock = some t)
    (t' : TaskId) (ht' : t' ≠ t) : (s.pc t').view = .outside := by
  by_contra hview
  have howner := (h.owner t').mp hview
  rw [hlock] at howner
  exact ht' (Option.some.inj howner).symm

/-- A task that neither waits for a reply nor was cancelled is not awaiting one. -/
theorem Disciplined.not_awaiting (h : Disciplined s) {t : TaskId} (hlive : s.pc t ≠ .cancelled)
    (hloading : (s.pc t).view ≠ .loading) (hunloading : (s.pc t).view ≠ .unloading)
    (e : EngineId) : t ∉ (s.engines e).awaiting := by
  intro hmem
  rcases (h.waits e t hmem).waiting with hview | hview | hpc
  · exact hloading hview
  · exact hunloading hview
  · exact hlive hpc

/-- A task with a reply is not awaiting another. -/
theorem Disciplined.not_awaiting_of_reply (h : Disciplined s) {t : TaskId}
    {result : Except String Unit} (hreply : s.reply t = some result) (e : EngineId) :
    t ∉ (s.engines e).awaiting := by
  intro hmem
  have hnone := (h.waits e t hmem).reply
  rw [hreply] at hnone
  cases hnone

/-- Knowledge is about the slot, the engine in it and the task's reply. -/
theorem Knows.same {t : TaskId} {v : View} (h : Knows s t v) (hslot : s'.slot = s.slot)
    (hengines : ∀ e, s.slot = some e → s'.engines e = s.engines e)
    (hreply : s'.reply t = s.reply t) : Knows s' t v := by
  cases v with
  | outside | leaving | failing => trivial
  | empty | cleared | checking | present | loaded =>
      simp only [Knows, hslot] at h ⊢
      exact h
  | loading =>
      obtain ⟨e, he, hwill⟩ := h
      refine ⟨e, hslot.trans he, ?_⟩
      rw [hreply, hengines e he]
      exact hwill
  | unloading =>
      obtain ⟨e, he, hqueue⟩ := h
      refine ⟨e, hslot.trans he, ?_⟩
      rw [hreply, hengines e he]
      exact hqueue
  | clearing =>
      intro e he
      rw [hslot] at he
      rw [hengines e he]
      exact h e he

/-- Knowledge across a step of the worker in the slot, which has something to do. -/
theorem Knows.work {tokens : TaskId → Channel Item} {t : TaskId} {v : View} {e : EngineId}
    {engine : Engine} {out : Output} (h : Knows s t v) (hslot : s.slot = some e)
    (hlive : (s.engines e).Live) (hstep : (s.engines e).Step cfg tokens engine out)
    (hslot' : s'.slot = s.slot) (hengine : s'.engines e = engine)
    (hreply : s'.reply t = s.reply t ∧ (∀ result, out ≠ .reply t result) ∨
      ∃ result, out = .reply t result ∧ s'.reply t = some result) : Knows s' t v := by
  -- an engine as good as new has nothing to do
  have hbusy : s.engines e ≠ .new := by
    intro hnew
    rw [hnew] at hstep
    cases hstep with
    | job _ hjob _ => cases hjob
    | takeLoad _ hqueue | takeUnload _ hqueue | takeGenerate _ hqueue _ | takeShutdown _ hqueue =>
        cases hqueue
    | loaded hworker | loadFailed _ hworker => cases hworker
  cases v with
  | outside | leaving | failing => trivial
  | empty | cleared | checking | present | loaded =>
      simp only [Knows, hslot'] at h ⊢
      exact h
  | loading =>
      obtain ⟨e', he', hwill⟩ := h
      obtain rfl : e = e' := Option.some.inj (hslot.symm.trans he')
      refine ⟨e, hslot'.trans hslot, fun hnone => ?_⟩
      rw [hengine]
      rcases hreply with ⟨hsame, hout⟩ | ⟨result, -, hsome⟩
      · refine ((hwill (hsame ▸ hnone)).step hlive hstep).resolve_right ?_
        rintro ⟨result, heq, -⟩
        exact hout result heq
      · rw [hsome] at hnone
        cases hnone
  | unloading =>
      obtain ⟨e', he', ⟨hnone, before, hqueue⟩ | ⟨-, hnew⟩⟩ := h
      · obtain rfl : e = e' := Option.some.inj (hslot.symm.trans he')
        refine ⟨e, hslot'.trans hslot, ?_⟩
        rw [hengine]
        rcases hstep.unloading hlive hqueue with ⟨hout, hnew⟩ | ⟨hout, hqueue'⟩
        · rcases hreply with ⟨-, hreply⟩ | ⟨result, heq, hsome⟩
          · exact absurd hout (hreply _)
          · rw [hout] at heq
            obtain ⟨-, rfl⟩ := Output.reply.inj heq
            exact .inr ⟨hsome, hnew⟩
        · rcases hreply with ⟨hsame, -⟩ | ⟨result, heq, -⟩
          · exact .inl ⟨hsame.trans hnone, hqueue'⟩
          · exact absurd heq (hout result)
      · obtain rfl : e = e' := Option.some.inj (hslot.symm.trans he')
        exact absurd hnew hbusy
  | clearing => exact absurd (h e hslot) hbusy

/-- Steps away from the engine that keep every task's view. -/
theorem Disciplined.congr (h : Disciplined s) (hsame : SameEngine s s')
    (hview : ∀ t, (s'.pc t).view = (s.pc t).view)
    (hcancelled : ∀ t, s.pc t = .cancelled → s'.pc t = .cancelled)
    (hunborn : ∀ t, s'.nextTask ≤ t → s'.pc t = .unborn) : Disciplined s' where
  owner t := by
    rw [hview, hsame.lock]
    exact h.owner t
  retired e he := by
    rw [hsame.engines]
    exact h.retired e (hsame.slot ▸ he)
  live e he := by
    rw [hsame.engines]
    exact h.live e (hsame.slot ▸ he)
  waits e t ht := by
    rw [hsame.engines] at ht
    obtain ⟨hreply, hwaiting⟩ := h.waits e t ht
    refine ⟨hsame.reply ▸ hreply, ?_⟩
    rw [hview]
    exact hwaiting.imp_right (Or.imp_right (hcancelled t))
  knows t := by
    rw [hview]
    exact (h.knows t).same hsame.slot (fun e _ => by rw [hsame.engines]) (by rw [hsame.reply])
  unborn := hunborn

/-- A step by the task that holds the mutex afterwards or held it before. -/
theorem Disciplined.step_owner {t : TaskId} {pc' : Pc} (h : Disciplined s)
    (hothers : ∀ t', t' ≠ t → (s.pc t').view = .outside) (hborn : s.pc t ≠ .unborn)
    (hpc : s'.pc = Function.update s.pc t pc') (hnext : s'.nextTask = s.nextTask)
    (hlock : s'.lock = if pc'.view = .outside then none else some t)
    (hretired : ∀ e, s'.slot ≠ some e → (s'.engines e).Retired)
    (hlive : ∀ e, s'.slot = some e → (s'.engines e).Live)
    (hwaits : ∀ e, ∀ t' ∈ (s'.engines e).awaiting, s'.reply t' = none ∧
      if t' = t then pc'.view = .loading ∨ pc'.view = .unloading else s.pc t' = .cancelled)
    (hknows : Knows s' t pc'.view) : Disciplined s' where
  owner t' := by
    rw [hpc, hlock]
    by_cases ht : t' = t
    · subst ht
      rw [Function.update_self]
      split_ifs with hview <;> simp [hview]
    · rw [Function.update_of_ne ht]
      split_ifs with hview
      · simp [hothers t' ht]
      · simp [hothers t' ht, Ne.symm ht]
  retired := hretired
  live := hlive
  waits e t' ht' := by
    obtain ⟨hreply, hwaiting⟩ := hwaits e t' ht'
    refine ⟨hreply, ?_⟩
    rw [hpc]
    by_cases ht : t' = t
    · rw [if_pos ht] at hwaiting
      subst ht
      rw [Function.update_self]
      exact hwaiting.imp_right .inl
    · rw [if_neg ht] at hwaiting
      rw [Function.update_of_ne ht]
      exact .inr (.inr hwaiting)
  knows t' := by
    rw [hpc]
    by_cases ht : t' = t
    · subst ht
      rw [Function.update_self]
      exact hknows
    · rw [Function.update_of_ne ht, hothers t' ht]
      trivial
  unborn t' ht' := by
    rw [hpc, Function.update_of_ne ?_]
    · exact h.unborn t' (hnext ▸ ht')
    · rintro rfl
      exact hborn (h.unborn t' (hnext ▸ ht'))

/-- The old waiters, seen from a step of the owner. -/
theorem Disciplined.old_waits (h : Disciplined s) {t : TaskId}
    (hothers : ∀ t', t' ≠ t → (s.pc t').view = .outside) {e : EngineId} {t' : TaskId}
    (ht' : t' ∈ (s.engines e).awaiting) (hne : t' ≠ t) :
    s.reply t' = none ∧ s.pc t' = .cancelled := by
  obtain ⟨hreply, hwaiting⟩ := h.waits e t' ht'
  refine ⟨hreply, ?_⟩
  rw [hothers t' hne] at hwaiting
  simpa using hwaiting

/-! ### Tasks -/

/-- Sending a request to the engine in the slot. -/
theorem Disciplined.request {t : TaskId} {pc' : Pc} {command : Command} {v : View}
    {a : Except String Unit} {s₁ : State} (h : Disciplined s) (hborn : s.pc t ≠ .unborn)
    (hcancelled : s.pc t ≠ .cancelled)
    (hpresent : (s.pc t).view = .checking ∨ (s.pc t).view = .present)
    (htarget : command.target = some t) (hview : pc'.view = viewAfter v a)
    (hv : v = .loading ∧ command = .loadModel t ∨ v = .unloading ∧ command = .unloadModel t)
    (hsend : s.request t command = some (a, s₁)) : Disciplined (s₁.goto t pc') := by
  have hlock : s.lock = some t :=
    (h.owner t).mp (by rcases hpresent with hview | hview <;> rw [hview] <;> nofun)
  obtain ⟨e, hslot, hsent⟩ := send_eq hsend
  have hlive := h.live e hslot
  have hfree : ∀ e, t ∉ (s.engines e).awaiting :=
    h.not_awaiting hcancelled (by rcases hpresent with hview | hview <;> rw [hview] <;> nofun)
      (by rcases hpresent with hview | hview <;> rw [hview] <;> nofun)
  obtain ⟨hexited, -⟩ | ⟨-, rfl, rfl⟩ := hsent
  · exact absurd hexited hlive.running
  have hothers := h.outside_of_ne hlock
  have houtside : v ≠ .outside := by rcases hv with ⟨rfl, -⟩ | ⟨rfl, -⟩ <;> nofun
  refine h.step_owner hothers hborn rfl rfl ?_ ?_ ?_ ?_ ?_
  · rw [hview, viewAfter, if_neg houtside]
    exact hlock
  · intro e' he'
    have hne : e' ≠ e := by rintro rfl; exact he' hslot
    change (Function.update s.engines e _ e').Retired
    rw [Function.update_of_ne hne]
    exact h.retired e' he'
  · intro e' he'
    obtain rfl : e = e' := Option.some.inj (hslot.symm.trans he')
    change (Function.update s.engines e _ e).Live
    rw [Function.update_self]
    refine hlive.enqueue (by rintro rfl; cases htarget) ?_
    intro t' ht'
    rw [htarget] at ht'
    obtain rfl := Option.mem_some.mp ht'
    exact hfree e
  · intro e' t' ht'
    change t' ∈ (Function.update s.engines e _ e').awaiting at ht'
    change Function.update s.reply t none t' = none ∧ _
    have hcases : t' = t ∨ t' ∈ (s.engines e').awaiting := by
      by_cases he' : e' = e
      · subst he'
        rw [Function.update_self, Engine.awaiting_enqueue, htarget, List.mem_append] at ht'
        exact ht'.symm.imp_left (by simp)
      · rw [Function.update_of_ne he'] at ht'
        exact .inr ht'
    by_cases hne : t' = t
    · subst hne
      rw [Function.update_self, if_pos rfl, hview]
      rcases hv with ⟨rfl, -⟩ | ⟨rfl, -⟩
      · exact ⟨rfl, .inl rfl⟩
      · exact ⟨rfl, .inr rfl⟩
    · obtain ⟨hreply, hpc⟩ := h.old_waits hothers (hcases.resolve_left hne) hne
      rw [Function.update_of_ne hne, if_neg hne]
      exact ⟨hreply, hpc⟩
  · rw [hview]
    rcases hv with ⟨rfl, rfl⟩ | ⟨rfl, rfl⟩
    · refine ⟨e, hslot, fun _ => .inl ?_⟩
      change _ ∈ (Function.update s.engines e _ e).queue
      rw [Function.update_self]
      exact List.mem_append_right _ (List.mem_singleton_self _)
    · refine ⟨e, hslot, .inl ⟨Function.update_self .., (s.engines e).queue, ?_⟩⟩
      change (Function.update s.engines e _ e).queue = _
      rw [Function.update_self]
      rfl

/-- A step of the owner that leaves the engine alone but for the mutex. -/
theorem Disciplined.learn {t : TaskId} {pc' : Pc} (h : Disciplined s)
    (hothers : ∀ t', t' ≠ t → (s.pc t').view = .outside) (hborn : s.pc t ≠ .unborn)
    (hfree : ∀ e, t ∉ (s.engines e).awaiting) (hpc : s'.pc = Function.update s.pc t pc')
    (hnext : s'.nextTask = s.nextTask) (hslot : s'.slot = s.slot)
    (hengines : s'.engines = s.engines)
    (hreply : s'.reply = s.reply) (hlock : s'.lock = if pc'.view = .outside then none else some t)
    (hknows : Knows s' t pc'.view) : Disciplined s' := by
  refine h.step_owner hothers hborn hpc hnext hlock ?_ ?_ ?_ hknows
  · rw [hslot, hengines]
    exact h.retired
  · rw [hslot, hengines]
    exact h.live
  · intro e t' ht'
    rw [hengines] at ht'
    have hne : t' ≠ t := by rintro rfl; exact hfree e ht'
    rw [hreply, if_neg hne]
    exact h.old_waits hothers ht' hne

section Operations

variable {o : Oracle} {t : TaskId} {pc' : Pc} {s₁ : State}

/-- An operation away from the engine: the view stays, and so does the engine. -/
theorem Disciplined.away {op : Op} {a : op.Answer} (h : Disciplined s) (hop : op.onEngine = false)
    (hborn : s.pc t ≠ .unborn) (hcancelled : s.pc t ≠ .cancelled)
    (hleads : op.Leads (s.pc t).view a pc'.view) (hperform : perform o s t op = some (a, s₁)) :
    Disciplined (s₁.goto t pc') := by
  have hsame := perform_sameEngine hperform hop
  have hview := hleads.of_not_onEngine hop
  have hframe := perform_frame hperform
  refine h.congr ⟨hsame.slot, hsame.lock, hsame.engines, hsame.reply⟩ ?_ ?_ ?_
  · intro t'
    by_cases ht : t' = t
    · subst ht
      simp [State.goto, hview]
    · simp [State.goto, ht, hframe.pc]
  · intro t' ht'
    have hne : t' ≠ t := by rintro rfl; exact hcancelled ht'
    simp [State.goto, hne, hframe.pc, ht']
  · intro t' ht'
    have hne : t' ≠ t := by rintro rfl; exact hborn (h.unborn t' (hframe.nextTask ▸ ht'))
    simp only [State.goto, Function.update_of_ne hne, hframe.pc]
    exact h.unborn t' (hframe.nextTask ▸ ht')

/-- The mutex is taken; what the slot shows is what is known. -/
theorem Disciplined.lockEngine {a : Op.lockEngine.Answer} (h : Disciplined s)
    (hborn : s.pc t ≠ .unborn) (hcancelled : s.pc t ≠ .cancelled)
    (hleads : Op.lockEngine.Leads (s.pc t).view a pc'.view)
    (hperform : perform o s t .lockEngine = some (a, s₁)) : Disciplined (s₁.goto t pc') := by
  obtain ⟨hview, hleads⟩ := hleads
  simp only [perform] at hperform
  split_ifs at hperform with hfree
  cases hperform
  have hothers : ∀ t', t' ≠ t → (s.pc t').view = .outside := by
    intro t' _
    by_contra hne
    have howner := (h.owner t').mp hne
    rw [hfree] at howner
    cases howner
  refine h.learn hothers hborn (h.not_awaiting hcancelled (by simp [hview])
    (by simp [hview])) rfl rfl rfl rfl rfl ?_ ?_
  · split_ifs at hleads with hpresent
    · rcases hleads with hleads | hleads <;> rw [hleads, if_neg (by simp)] <;> rfl
    · rcases hleads with hleads | hleads | hleads <;> rw [hleads, if_neg (by simp)] <;> rfl
  · split_ifs at hleads with hpresent
    · have hslot := Option.isSome_iff_exists.mp hpresent
      rcases hleads with hleads | hleads <;> rw [hleads] <;> exact hslot
    · have hempty : s.slot = none := by simpa using hpresent
      rcases hleads with hleads | hleads | hleads <;> rw [hleads]
      · exact hempty
      · intro e he
        rw [State.goto, hempty] at he
        cases he
      · trivial

/-- The mutex is given back. -/
theorem Disciplined.unlockEngine {a : Op.unlockEngine.Answer} (h : Disciplined s)
    (hborn : s.pc t ≠ .unborn) (hcancelled : s.pc t ≠ .cancelled)
    (hleads : Op.unlockEngine.Leads (s.pc t).view a pc'.view)
    (hperform : perform o s t .unlockEngine = some (a, s₁)) : Disciplined (s₁.goto t pc') := by
  obtain ⟨hview, hleads⟩ := hleads
  cases hperform
  have hlock := (h.owner t).mp (by rcases hview with hview | hview | hview | hview <;> simp [hview])
  refine h.learn (h.outside_of_ne hlock) hborn (h.not_awaiting hcancelled ?_ ?_)
    rfl rfl rfl rfl rfl (by rw [hleads]; rfl) (by rw [hleads]; trivial)
  · rcases hview with hview | hview | hview | hview <;> simp [hview]
  · rcases hview with hview | hview | hview | hview <;> simp [hview]

/-- A new engine is put into the empty slot, or none can be made. -/
theorem Disciplined.createBackend {a : Op.createBackend.Answer} (h : Disciplined s)
    (hborn : s.pc t ≠ .unborn) (hcancelled : s.pc t ≠ .cancelled)
    (hleads : Op.createBackend.Leads (s.pc t).view a pc'.view)
    (hperform : perform o s t .createBackend = some (a, s₁)) : Disciplined (s₁.goto t pc') := by
  obtain ⟨hview, hleads⟩ := hleads
  have hlock := (h.owner t).mp (by simp [hview])
  have hothers := h.outside_of_ne hlock
  have hfree := h.not_awaiting hcancelled (t := t) (by simp [hview]) (by simp [hview])
  have hempty : s.slot = none := by
    have hknows := h.knows t
    rw [hview] at hknows
    exact hknows
  simp only [perform] at hperform
  split at hperform
  · cases hperform
    exact h.learn hothers hborn hfree rfl rfl rfl rfl rfl (by rw [hleads]; exact hlock)
      (by rw [hleads]; trivial)
  · cases hperform
    refine h.step_owner hothers hborn rfl rfl (by rw [hleads]; exact hlock) ?_ ?_ ?_ ?_
    · intro e he
      have hne : e ≠ s.nextEngine := by rintro rfl; exact he rfl
      change (Function.update s.engines s.nextEngine .new e).Retired
      rw [Function.update_of_ne hne]
      exact h.retired e (by simp [hempty])
    · intro e he
      obtain rfl : s.nextEngine = e := Option.some.inj he
      change (Function.update s.engines s.nextEngine .new s.nextEngine).Live
      rw [Function.update_self]
      exact .new
    · intro e t' ht'
      change t' ∈ (Function.update s.engines s.nextEngine .new e).awaiting at ht'
      by_cases he : e = s.nextEngine
      · subst he
        rw [Function.update_self] at ht'
        cases ht'
      · rw [Function.update_of_ne he] at ht'
        have hne : t' ≠ t := by rintro rfl; exact hfree e ht'
        rw [if_neg hne]
        exact h.old_waits hothers ht' hne
    · rw [hleads]
      exact ⟨s.nextEngine, rfl⟩

/-- The name of the model is read. -/
theorem Disciplined.activeModel {a : Op.activeModel.Answer} (h : Disciplined s)
    (hborn : s.pc t ≠ .unborn) (hcancelled : s.pc t ≠ .cancelled)
    (hleads : Op.activeModel.Leads (s.pc t).view a pc'.view)
    (hperform : perform o s t .activeModel = some (a, s₁)) : Disciplined (s₁.goto t pc') := by
  obtain ⟨hview, hleads⟩ := hleads
  have hlock := (h.owner t).mp (by simp [hview])
  obtain ⟨e, hslot, heq⟩ := Option.map_eq_some_iff.mp hperform
  cases heq
  refine h.learn (h.outside_of_ne hlock) hborn (h.not_awaiting hcancelled
    (by simp [hview]) (by simp [hview])) rfl rfl rfl rfl rfl ?_ ?_
  · rcases hleads with hleads | ⟨hleads, -⟩ <;> rw [hleads] <;> exact hlock
  · rcases hleads with hleads | ⟨hleads, -⟩ <;> rw [hleads] <;> exact ⟨e, hslot⟩

/-- The reply is taken. -/
theorem Disciplined.awaitReply {a : Op.awaitReply.Answer} (h : Disciplined s)
    (hborn : s.pc t ≠ .unborn)
    (hleads : Op.awaitReply.Leads (s.pc t).view a pc'.view)
    (hperform : perform o s t .awaitReply = some (a, s₁)) : Disciplined (s₁.goto t pc') := by
  obtain ⟨result, hreply, heq⟩ := Option.map_eq_some_iff.mp hperform
  cases heq
  have hlock := (h.owner t).mp (by rcases hleads with hleads | hleads <;> simp [hleads.1])
  have hknows := h.knows t
  refine h.learn (h.outside_of_ne hlock) hborn (h.not_awaiting_of_reply hreply)
    rfl rfl rfl rfl rfl ?_ ?_
  · rcases hleads with ⟨-, hleads⟩ | ⟨-, hleads⟩ <;> rw [hleads] <;>
      rcases a with error | ⟨⟩ <;> exact hlock
  · rcases hleads with ⟨hview, hleads⟩ | ⟨hview, hleads⟩ <;> rw [hview] at hknows <;> rw [hleads]
    · obtain ⟨e, hslot, -⟩ := hknows
      rcases a with error | ⟨⟩
      · trivial
      · exact ⟨e, hslot⟩
    · obtain ⟨e, hslot, ⟨hnone, -⟩ | ⟨hok, hnew⟩⟩ := hknows
      · rw [hnone] at hreply
        cases hreply
      · rcases a with error | ⟨⟩
        · trivial
        · intro e' he'
          obtain rfl : e = e' := Option.some.inj (hslot.symm.trans he')
          exact hnew

/-- The engine in the slot, as good as new, is dropped. -/
theorem Disciplined.clearSlot {a : Op.clearSlot.Answer} (h : Disciplined s)
    (hborn : s.pc t ≠ .unborn) (hcancelled : s.pc t ≠ .cancelled)
    (hleads : Op.clearSlot.Leads (s.pc t).view a pc'.view)
    (hperform : perform o s t .clearSlot = some (a, s₁)) : Disciplined (s₁.goto t pc') := by
  obtain ⟨hview, hleads⟩ := hleads
  have hlock := (h.owner t).mp (by simp [hview])
  have hothers := h.outside_of_ne hlock
  have hfree := h.not_awaiting hcancelled (t := t) (by simp [hview]) (by simp [hview])
  have hknows := h.knows t
  rw [hview] at hknows
  cases hperform
  unfold State.clearSlot
  cases hslot : s.slot with
  | none =>
      exact h.learn hothers hborn hfree rfl rfl hslot.symm rfl rfl
        (by rw [hleads]; exact hlock) (by rw [hleads]; rfl)
  | some e =>
      -- the engine in the slot is as good as new
      have hretired : ∀ e', (Function.update s.engines e (s.engines e).dropHandle e').Retired := by
        intro e'
        by_cases he' : e' = e
        · subst he'
          rw [Function.update_self, hknows e' hslot]
          exact Engine.retired_dropHandle_new
        · rw [Function.update_of_ne he']
          refine h.retired e' ?_
          rw [hslot]
          exact fun heq => he' (Option.some.inj heq).symm
      refine h.step_owner hothers hborn rfl rfl (by rw [hleads]; exact hlock)
        (fun e' _ => hretired e') (fun e hslot => by cases hslot) ?_ (by rw [hleads]; rfl)
      intro e' t' ht'
      change t' ∈ (Function.update s.engines e _ e').awaiting at ht'
      rw [(hretired e').awaiting] at ht'
      cases ht'

/-- A generation is sent to the engine in the slot, or refused. -/
theorem Disciplined.sendGenerate {prompt : String} {maxTokens : ℕ}
    {a : (Op.sendGenerate prompt maxTokens).Answer} (h : Disciplined s)
    (hborn : s.pc t ≠ .unborn) (hcancelled : s.pc t ≠ .cancelled)
    (hleads : (Op.sendGenerate prompt maxTokens).Leads (s.pc t).view a pc'.view)
    (hperform : perform o s t (.sendGenerate prompt maxTokens) = some (a, s₁)) :
    Disciplined (s₁.goto t pc') := by
  obtain ⟨hview, hleads⟩ := hleads
  have hlock := (h.owner t).mp (by simp [hview])
  have hothers := h.outside_of_ne hlock
  have hfree := h.not_awaiting hcancelled (t := t) (by simp [hview]) (by simp [hview])
  have hrefused : Disciplined (s.goto t pc') :=
    h.learn hothers hborn hfree rfl rfl rfl rfl rfl (by rw [hleads]; exact hlock)
      (by rw [hleads]; trivial)
  obtain ⟨rfl, -⟩ | ⟨e, hslot, -, -, -, rfl⟩ := sendGenerate_eq hperform
  · exact hrefused
  · refine h.step_owner hothers hborn rfl rfl (by rw [hleads]; exact hlock) ?_ ?_ ?_
      (by rw [hleads]; trivial)
    · intro e' he'
      have hne : e' ≠ e := by rintro rfl; exact he' hslot
      change (Function.update s.engines e _ e').Retired
      rw [Function.update_of_ne hne]
      exact h.retired e' he'
    · intro e' he'
      obtain rfl : e = e' := Option.some.inj (hslot.symm.trans he')
      change (Function.update s.engines e _ e).Live
      rw [Function.update_self]
      exact (h.live e hslot).enqueue (by simp) fun t ht => by cases ht
    · intro e' t' ht'
      change t' ∈ (Function.update s.engines e _ e').awaiting at ht'
      have hmem : t' ∈ (s.engines e').awaiting := by
        by_cases he' : e' = e
        · subst he'
          rw [Function.update_self, Engine.awaiting_enqueue] at ht'
          simpa [Command.target] using ht'
        · rwa [Function.update_of_ne he'] at ht'
      have hne : t' ≠ t := by rintro rfl; exact hfree e' hmem
      rw [if_neg hne]
      exact h.old_waits hothers hmem hne

end Operations

/-- **Any step of a task.** -/
theorem Disciplined.run {t : TaskId} {o : Oracle} (h : Disciplined s)
    (hstep : step cfg s (.run t o) = some s') : Disciplined s' := by
  obtain ⟨op, a, s₁, pc', -, hperform, rfl, hleads, hcancelled, hborn⟩ := run_cases hstep
  by_cases hop : op.onEngine = false
  · exact h.away hop hborn hcancelled hleads hperform
  cases op with
  | lockEngine => exact h.lockEngine hborn hcancelled hleads hperform
  | unlockEngine => exact h.unlockEngine hborn hcancelled hleads hperform
  | createBackend => exact h.createBackend hborn hcancelled hleads hperform
  | activeModel => exact h.activeModel hborn hcancelled hleads hperform
  | sendLoad =>
      exact h.request hborn hcancelled (.inl hleads.1) rfl hleads.2 (.inl ⟨rfl, rfl⟩) hperform
  | sendUnload =>
      exact h.request hborn hcancelled (.inr hleads.1) rfl hleads.2 (.inr ⟨rfl, rfl⟩) hperform
  | awaitReply => exact h.awaitReply hborn hleads hperform
  | clearSlot => exact h.clearSlot hborn hcancelled hleads hperform
  | sendGenerate prompt maxTokens => exact h.sendGenerate hborn hcancelled hleads hperform
  | _ => exact absurd rfl hop

/-! ### Workers -/

/-- A step of the worker in the slot, seen by what it did to the waiters. -/
theorem Disciplined.step_current {e : EngineId} {engine : Engine} (h : Disciplined s)
    (hslot : s.slot = some e) (hpc : s'.pc = s.pc) (hnext : s'.nextTask = s.nextTask)
    (hlock : s'.lock = s.lock) (hslot' : s'.slot = s.slot)
    (hengines : s'.engines = Function.update s.engines e engine) (hlive : engine.Live)
    (hwaits : ∀ t ∈ engine.awaiting, t ∈ (s.engines e).awaiting ∧ s'.reply t = s.reply t)
    (hother : ∀ e' t, e' ≠ e → t ∈ (s.engines e').awaiting → s'.reply t = s.reply t)
    (hknows : ∀ t, Knows s' t (s.pc t).view) : Disciplined s' where
  owner t := by
    rw [hpc, hlock]
    exact h.owner t
  retired e' he' := by
    rw [hslot'] at he'
    have hne : e' ≠ e := by rintro rfl; exact he' hslot
    rw [hengines, Function.update_of_ne hne]
    exact h.retired e' he'
  live e' he' := by
    rw [hslot', hslot] at he'
    obtain rfl := Option.some.inj he'
    rw [hengines, Function.update_self]
    exact hlive
  waits e' t ht := by
    rw [hengines] at ht
    by_cases he' : e' = e
    · subst he'
      rw [Function.update_self] at ht
      obtain ⟨hmem, hreply⟩ := hwaits t ht
      obtain ⟨hnone, hwaiting⟩ := h.waits e' t hmem
      exact ⟨hreply ▸ hnone, hpc ▸ hwaiting⟩
    · rw [Function.update_of_ne he'] at ht
      obtain ⟨hnone, hwaiting⟩ := h.waits e' t ht
      exact ⟨hother e' t he' ht ▸ hnone, hpc ▸ hwaiting⟩
  knows t := by
    rw [hpc]
    exact hknows t
  unborn t ht := by
    rw [hpc]
    exact h.unborn t (hnext ▸ ht)

theorem Disciplined.work {e : EngineId} {o : WorkerOracle} (h : Disciplined s)
    (hstep : step cfg s (.work e o) = some s') : Disciplined s' := by
  obtain ⟨⟨engine, out⟩, hwork, rfl⟩ := Option.map_eq_some_iff.mp hstep
  have hwork := Engine.work_step hwork
  by_cases hslot : s.slot = some e
  · have hlive := h.live e hslot
    obtain ⟨hlive', houtcome⟩ := hlive.step hwork
    -- no engine but the one in the slot has waiters
    have hother : ∀ e' t, e' ≠ e → t ∉ (s.engines e').awaiting := by
      intro e' t hne
      have hretired := h.retired e' (by rw [hslot]; exact fun heq => hne (Option.some.inj heq).symm)
      rw [hretired.awaiting]
      exact List.not_mem_nil
    rcases houtcome with ⟨t, result, rfl, hawaiting⟩ | ⟨hreply, hdropped, hawaiting⟩
    · have hfirst : t ∉ engine.awaiting := by
        have hnodup := hlive.nodup
        rw [hawaiting] at hnodup
        exact (List.nodup_cons.mp hnodup).1
      refine h.step_current hslot rfl rfl rfl rfl rfl hlive' ?_ ?_ ?_
      · intro t' ht'
        have hne : t' ≠ t := by rintro rfl; exact hfirst ht'
        exact ⟨hawaiting ▸ List.mem_cons_of_mem _ ht', Function.update_of_ne hne ..⟩
      · intro e' t' he' ht'
        exact absurd ht' (hother e' t' he')
      · intro t'
        refine (h.knows t').work hslot hlive hwork rfl (Function.update_self ..) ?_
        by_cases hne : t' = t
        · subst hne
          exact .inr ⟨result, rfl, Function.update_self ..⟩
        · exact .inl ⟨Function.update_of_ne hne ..,
            fun _ heq => hne (Output.reply.inj heq).1.symm⟩
    · obtain ⟨reply, tokens, produced, heq, hsame⟩ := deliver_eq
        { s with engines := Function.update s.engines e engine } out
      obtain rfl := hsame hreply hdropped
      rw [heq]
      refine h.step_current hslot rfl rfl rfl rfl rfl hlive' ?_ ?_ ?_
      · intro t' ht'
        exact ⟨hawaiting ▸ ht', rfl⟩
      · intro e' t' he' ht'
        exact absurd ht' (hother e' t' he')
      · intro t'
        exact (h.knows t').work hslot hlive hwork rfl (Function.update_self ..)
          (.inl ⟨rfl, hreply t'⟩)
  · -- a retired worker exits
    obtain ⟨hretired, rfl⟩ := (h.retired e hslot).step hwork
    have hengines : ∀ e', e' ≠ e → Function.update s.engines e engine e' = s.engines e' :=
      fun e' he' => Function.update_of_ne he' ..
    have hcurrent : ∀ e', s.slot = some e' →
        Function.update s.engines e engine e' = s.engines e' := by
      rintro e' he'
      exact hengines e' (by rintro rfl; exact hslot he')
    exact {
      owner := h.owner
      retired := fun e' he' => by
        change (Function.update s.engines e engine e').Retired
        by_cases hne : e' = e
        · subst hne
          rw [Function.update_self]
          exact hretired
        · rw [hengines e' hne]
          exact h.retired e' he'
      live := fun e' he' => by
        change (Function.update s.engines e engine e').Live
        rw [hcurrent e' he']
        exact h.live e' he'
      waits := fun e' t ht => by
        change t ∈ (Function.update s.engines e engine e').awaiting at ht
        by_cases hne : e' = e
        · subst hne
          rw [Function.update_self, hretired.awaiting] at ht
          cases ht
        · rw [hengines e' hne] at ht
          obtain ⟨hreply, hwaiting⟩ := h.waits e' t ht
          exact ⟨hreply, hwaiting⟩
      knows := fun t => (h.knows t).same rfl hcurrent rfl
      unborn := h.unborn }

/-! ### Other events -/

theorem Disciplined.call {call : Call} (h : Disciplined s)
    (hstep : step cfg s (.call call) = some s') : Disciplined s' := by
  cases hstep
  have hunborn := h.unborn s.nextTask (Nat.le_refl _)
  refine h.congr ⟨rfl, rfl, rfl, rfl⟩ ?_ ?_ ?_
  · intro t
    change (Function.update s.pc s.nextTask call.start t).view = _
    by_cases ht : t = s.nextTask
    · subst ht
      rw [Function.update_self, start_view, hunborn]
      rfl
    · rw [Function.update_of_ne ht]
  · intro t ht
    change Function.update s.pc s.nextTask call.start t = _
    have hne : t ≠ s.nextTask := by rintro rfl; rw [hunborn] at ht; cases ht
    rw [Function.update_of_ne hne, ht]
  · intro t ht
    change Function.update s.pc s.nextTask call.start t = _
    have hlt : s.nextTask < t := ht
    rw [Function.update_of_ne hlt.ne']
    exact h.unborn t hlt.le

theorem Disciplined.wake {t : TaskId} (h : Disciplined s)
    (hstep : step cfg s (.wake t) = some s') : Disciplined s' := by
  simp only [step] at hstep
  split at hstep
  next hpc =>
    cases hstep
    refine h.congr ⟨rfl, rfl, rfl, rfl⟩ ?_ ?_ ?_
    · intro t'
      change (Function.update s.pc t _ t').view = _
      by_cases ht : t' = t
      · subst ht
        rw [Function.update_self, hpc]
        rfl
      · rw [Function.update_of_ne ht]
    · intro t' ht'
      have hne : t' ≠ t := by rintro rfl; rw [hpc] at ht'; cases ht'
      change Function.update s.pc t _ t' = _
      rw [Function.update_of_ne hne, ht']
    · intro t' ht'
      have hne : t' ≠ t := by
        rintro rfl
        have hunborn := h.unborn t' ht'
        rw [hpc] at hunborn
        cases hunborn
      change Function.update s.pc t _ t' = _
      rw [Function.update_of_ne hne]
      exact h.unborn t' ht'
  · cases hstep

theorem cancel_eq {t : TaskId} (hstep : step cfg s (.cancel t) = some s') :
    ((s.pc t).cancellable = true ∧ (program cfg (s.pc t)).op.awaits = true) ∧
      s' = ({ s with lock := if s.lock = some t then none else s.lock }.closeEnds t).goto t
        .cancelled := by
  rw [step] at hstep
  by_cases hallowed : (s.pc t).cancellable = true ∧ (program cfg (s.pc t)).op.awaits = true
  · rw [if_pos hallowed] at hstep
    exact ⟨hallowed, (Option.some.inj hstep).symm⟩
  · rw [if_neg hallowed] at hstep
    cases hstep

/-- A cancelled task releases the mutex; its command stays in the queue. -/
theorem Disciplined.cancel {t : TaskId} (h : Disciplined s)
    (hstep : step cfg s (.cancel t) = some s') : Disciplined s' := by
  obtain ⟨hallowed, rfl⟩ := cancel_eq hstep
  have hborn : s.pc t ≠ .unborn := by
    intro hpc
    rw [hpc] at hallowed
    exact absurd hallowed.2 nofun
  have hothers : ∀ t', t' ≠ t → Function.update s.pc t .cancelled t' = s.pc t' :=
    fun t' ht' => Function.update_of_ne ht' ..
  exact {
    owner := fun t' => by
      change (Function.update s.pc t .cancelled t').view ≠ _ ↔
        (if s.lock = some t then none else s.lock) = some t'
      by_cases ht : t' = t
      · subst ht
        rw [Function.update_self]
        split_ifs with hlock <;> simp [Pc.view, hlock]
      · rw [hothers t' ht]
        split_ifs with hlock
        · simp [h.outside_of_ne hlock _ ht]
        · exact h.owner t'
    retired := h.retired
    live := h.live
    waits := fun e t' ht' => by
      obtain ⟨hreply, hwaiting⟩ := h.waits e t' ht'
      refine ⟨hreply, ?_⟩
      change (Function.update s.pc t .cancelled t').view = _ ∨
        (Function.update s.pc t .cancelled t').view = _ ∨
          Function.update s.pc t .cancelled t' = _
      by_cases ht : t' = t
      · subst ht
        rw [Function.update_self]
        exact .inr (.inr rfl)
      · rw [hothers t' ht]
        exact hwaiting
    knows := fun t' => by
      change Knows _ t' (Function.update s.pc t .cancelled t').view
      by_cases ht : t' = t
      · subst ht
        rw [Function.update_self]
        trivial
      · rw [hothers t' ht]
        exact (h.knows t').same rfl (fun _ _ => rfl) rfl
    unborn := fun t' ht' => by
      have hne : t' ≠ t := by rintro rfl; exact hborn (h.unborn t' ht')
      change Function.update s.pc t .cancelled t' = _
      rw [hothers t' hne]
      exact h.unborn t' ht' }

/-- **One step** keeps the discipline. -/
theorem Disciplined.step {event : Event} (h : Disciplined s)
    (hstep : step cfg s event = some s') : Disciplined s' := by
  cases event with
  | call call => exact h.call hstep
  | run t o => exact h.run hstep
  | wake t => exact h.wake hstep
  | cancel t => exact h.cancel hstep
  | work e o => exact h.work hstep
  | read t =>
      simp only [AiDaemon.step] at hstep
      split_ifs at hstep
      cases hstep
      exact h.congr ⟨rfl, rfl, rfl, rfl⟩ (fun _ => rfl) (fun _ => id) h.unborn
  | disconnect t | tick =>
      cases hstep
      exact h.congr ⟨rfl, rfl, rfl, rfl⟩ (fun _ => rfl) (fun _ => id) h.unborn

theorem reachableWhere_disciplined {ok : State → Event → Prop}
    (h : (system cfg).ReachableWhere ok s) : Disciplined s :=
  h.invariant (I := Disciplined) (by rintro _ ⟨mode, timeout, rfl⟩; exact .initial mode timeout)
    fun _ _ _ _ hs _ hstep => hs.step hstep

end Steps

/-! ## One model -/

section OneModel

variable {cfg : Config} {s s' : State}

/-- An engine that was created and is no longer in the slot. -/
def Removed (s : State) (e : EngineId) : Prop := e < s.nextEngine ∧ s.slot ≠ some e

/-- Engines are numbered as they are created: a removed one does not come back. -/
theorem Removed.step {event : Event} {e : EngineId} (h : Removed s e)
    (hstep : step cfg s event = some s') : Removed s' e := by
  have hsame : s'.slot = s.slot → s'.nextEngine = s.nextEngine → Removed s' e := by
    intro hslot hnext
    unfold Removed
    rw [hslot, hnext]
    exact h
  cases event with
  | run t o =>
      obtain ⟨a, s₁, hperform, rfl⟩ := step_run_iff.mp hstep
      rcases (perform_frame hperform).slot with
        ⟨hslot, hnext⟩ | ⟨-, hslot, hnext⟩ | ⟨-, hslot, hnext⟩
      · exact hsame hslot hnext
      · refine ⟨?_, ?_⟩
        · change e < s₁.nextEngine
          rw [hnext]
          exact Nat.lt_succ_of_lt h.1
        · change s₁.slot ≠ some e
          rw [hslot]
          exact fun heq => h.1.ne' (Option.some.inj heq)
      · refine ⟨?_, ?_⟩
        · change e < s₁.nextEngine
          rw [hnext]
          exact h.1
        · change s₁.slot ≠ some e
          rw [hslot]
          nofun
  | wake t =>
      simp only [AiDaemon.step] at hstep
      split at hstep <;> cases hstep
      exact hsame rfl rfl
  | cancel t =>
      obtain ⟨-, rfl⟩ := cancel_eq hstep
      exact hsame rfl rfl
  | work e o =>
      obtain ⟨⟨engine, out⟩, -, rfl⟩ := Option.map_eq_some_iff.mp hstep
      obtain ⟨reply, tokens, produced, heq, -⟩ := deliver_eq
        { s with engines := Function.update s.engines e engine } out
      rw [heq] at hsame ⊢
      exact hsame rfl rfl
  | read t =>
      simp only [AiDaemon.step] at hstep
      split_ifs at hstep
      cases hstep
      exact hsame rfl rfl
  | call call | disconnect t | tick =>
      cases hstep
      exact hsame rfl rfl

/-- A removed worker holds no model in any state to come. -/
theorem Removed.run {es : List Event} {e : EngineId} (h : Removed s e) (hs : Disciplined s)
    (hrun : (system cfg).run s es = some s') : (s'.engines e).Retired := by
  induction es generalizing s with
  | nil =>
      obtain rfl : s = s' := by simpa [Transition.System.run] using hrun
      exact hs.retired e h.2
  | cons event es ih =>
      cases hstep : AiDaemon.step cfg s event with
      | none => simp [Transition.System.run, system, hstep] at hrun
      | some s₁ =>
          refine ih (h.step hstep) (hs.step hstep) ?_
          simpa [Transition.System.run, system, hstep] using hrun

/-- The command would put a model in memory. -/
def Command.Loads : Command → Prop
  | .loadModel _ | .generate _ => True
  | .unloadModel _ | .shutdown => False

structure OneModel (cfg : Config) (s : State) : Prop where
  /-- At most one worker holds a model, … -/
  unique : ∀ e e', (s.engines e).model ≠ none → (s.engines e').model ≠ none → e = e'
  /-- … that of the engine in the slot. -/
  current : ∀ e, (s.engines e).model ≠ none → s.slot = some e
  /-- A worker whose engine is not in the slot has nothing to load, … -/
  queue : ∀ e, s.slot ≠ some e → ∀ command ∈ (s.engines e).queue, ¬ command.Loads
  /-- … and one whose engine was removed never holds a model again. -/
  forever : ∀ e, Removed s e → ∀ es s', (system cfg).run s es = some s' →
    (s'.engines e).model = none

/-- **At most one model is in memory**, in every interleaving with failing and
cancelled calls. -/
theorem reachable_oneModel (h : (system cfg).Reachable s) : OneModel cfg s := by
  have hs := reachableWhere_disciplined h
  have hcurrent : ∀ e, (s.engines e).model ≠ none → s.slot = some e := by
    intro e hmodel
    by_contra hslot
    exact hmodel (hs.retired e hslot).model
  refine ⟨?_, hcurrent, ?_, fun e he es s' hrun => (he.run hs hrun).model⟩
  · intro e e' hmodel hmodel'
    have hslot := hcurrent e hmodel
    rw [hcurrent e' hmodel'] at hslot
    exact (Option.some.inj hslot).symm
  · intro e hslot command hcommand
    obtain ⟨-, hqueue | hqueue⟩ | ⟨-, hqueue⟩ := (hs.retired e hslot).rest
    · rw [hqueue] at hcommand
      cases hcommand
    · rw [hqueue] at hcommand
      obtain rfl := List.mem_singleton.mp hcommand
      exact id
    · rw [hqueue] at hcommand
      cases hcommand

end OneModel

/-! ### A run with two engines -/

def sampleConfig : Config where
  modelFile := "default.gguf"
  contextLength := 2048
  parseToolRequest := fun _ => none

def greeting : GenerateRequest := ⟨"hello", "", 16, some 1⟩

/-- Task `t` performs `n` operations. -/
def runs (t : TaskId) (n : ℕ) : List Event := List.replicate n (.run t {})

/-- The model is loaded, unloaded, and loaded again before the first worker has
seen its `Shutdown`. -/
def reloading : List Event :=
  [.call .ensureModelLoaded] ++ runs 0 5 ++ [.work 0 {}, .work 0 {}] ++ runs 0 6 ++
    [.call .unloadModel] ++ runs 1 3 ++ [.work 0 {}] ++ runs 1 5 ++
    [.call .ensureModelLoaded] ++ runs 2 5 ++ [.work 1 {}, .work 1 {}] ++ runs 2 6

theorem reachable_oneModel_reloading :
    ∃ s, (system sampleConfig).run (.initial .onDemand 300) reloading = some s ∧
      (s.engines 1).model = some "default.gguf" ∧ (s.engines 0).queue = [.shutdown] ∧
      OneModel sampleConfig s := by
  have hsome : ((system sampleConfig).run (.initial .onDemand 300) reloading).isSome = true := rfl
  obtain ⟨s, hrun⟩ := Option.isSome_iff_exists.mp hsome
  have hends : ((system sampleConfig).run (.initial .onDemand 300) reloading).map
      (fun s => ((s.engines 1).model, (s.engines 0).queue)) =
        some (some "default.gguf", [.shutdown]) := rfl
  rw [hrun] at hends
  obtain ⟨hmodel, hqueue⟩ := Prod.mk.inj (Option.some.inj hends)
  exact ⟨s, hrun, hmodel, hqueue,
    reachable_oneModel (Transition.System.Reachable.run (.init ⟨_, _, rfl⟩) hrun)⟩

end NiraOS.AiDaemon
