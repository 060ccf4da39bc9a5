import NiraOS.AiDaemon.Validator
import NiraOS.Lib.Transition

/-!
# Downloads

`Downloader::download` (`core/ai-daemon/src/models/downloader.rs`), called again and again for one
destination.  A call may fail at any step, and the process may stop at any moment.  What the server
offers is `body`; the stream ends only behind its last byte, and all else that may happen to a
transfer is an error of the stream.

The file is written where it is looked for, and what is not empty is taken for the whole.  So what a
call leaves matters to the next one:

```text
stopped or failed                   at the destination       the next call
before the file is created          as it was                downloads, or is right to skip
with no byte written                an empty file            downloads
with some bytes written             these                    skips, and is wrong
with all bytes written              the body                 is right to skip
```
-/

namespace NiraOS.AiDaemon.Downloader

open Validator (Bytes)

/-- What is at the destination, links followed. -/
inductive Dest
  | absent
  | file (content : Bytes)
  | directory (size : ℕ)
  deriving DecidableEq

/-- `metadata(dest).len()`. -/
def Dest.len : Dest → ℕ
  | .absent => 0
  | .file content => content.length
  | .directory size => size

structure DownloadProgress where
  bytesDownloaded : ℕ
  totalBytes : Option ℕ
  isComplete : Bool

inductive Pc
  /-- No call is running. -/
  | idle
  | checking
  | requesting
  | creating
  /-- The file is open, and so many bytes are written. -/
  | writing (count : ℕ)
  deriving DecidableEq

structure State where
  dest : Dest
  progress : DownloadProgress
  pc : Pc
  /-- What the last call returned, `Ok` or not; none while a call runs or when it was cut off. -/
  returned : Option Bool

inductive Event
  | call
  | check
  /-- A response that is a success, with the length it announces. -/
  | response (total : Option ℕ)
  | create
  /-- Of a chunk, so many bytes. -/
  | write (count : ℕ)
  | finish
  /-- The step at hand fails, and the call returns an error. -/
  | fails
  | stops

def start (dest : Dest) : State := ⟨dest, ⟨0, none, false⟩, .idle, none⟩

section Definitions

variable (body : Bytes)

def step (s : State) (e : Event) : Option State :=
  match s.pc, e with
  | .idle, .call => some { s with pc := .checking, returned := none }
  | .checking, .check =>
      if s.dest.len > 0 then some { s with pc := .idle, returned := some true }
      else some { s with pc := .requesting }
  | .requesting, .response total =>
      some { s with
        pc := .creating
        progress := { s.progress with totalBytes := total, bytesDownloaded := 0 } }
  | .creating, .create =>
      match s.dest with
      | .directory _ => none
      | _ => some { s with pc := .writing 0, dest := .file [] }
  | .writing count, .write more =>
      if count + more ≤ body.length then
        some { s with
          pc := .writing (count + more)
          dest := .file (body.take (count + more))
          progress := { s.progress with bytesDownloaded := s.progress.bytesDownloaded + more } }
      else none
  | .writing count, .finish =>
      if count = body.length then
        some { s with
          pc := .idle
          returned := some true
          progress := { s.progress with isComplete := true } }
      else none
  | .idle, .fails => none
  | _, .fails => some { s with pc := .idle, returned := some false }
  | _, .stops => some (start s.dest)
  | _, _ => none

/-- The calls for a destination, what is there before the first given. -/
def downloads (dest : Dest) : Transition.System State Event where
  init s := s = start dest
  step := step body

/-- What a call leaves that returns `Ok`. -/
def Complete (s : State) : Prop := s.returned = some true → s.dest = .file body

/-- Nothing is there, or nothing that counts, or the whole. -/
def Unspoiled (dest : Dest) : Prop := dest.len > 0 → dest = .file body

/-- A call ends or is cut off with no byte written, or with all. -/
def Whole (s : State) : Event → Prop
  | .fails | .stops => ∀ count, s.pc = .writing count → count = 0 ∨ count = body.length
  | _ => True

instance (s : State) (e : Event) : Decidable (Whole body s e) :=
  match e with
  | .fails | .stops =>
      match h : s.pc with
      | .writing count =>
          decidable_of_iff (count = 0 ∨ count = body.length)
            ⟨fun hwhole _ hcount => Pc.writing.inj (h.symm.trans hcount) ▸ hwhole, fun hwhole =>
              hwhole count h⟩
      | .idle | .checking | .requesting | .creating => .isTrue fun _ hcount =>
          nomatch h.symm.trans hcount
  | .call | .check | .response _ | .create | .write _ | .finish => .isTrue trivial

end Definitions

/-! ## Every run -/

section Runs

variable {body : Bytes} {dest : Dest} {s s' : State} {e : Event} {count : ℕ}

/-- What is written so far is at the destination. -/
def Written (body : Bytes) (s : State) : Prop :=
  ∀ count, s.pc = .writing count → s.dest = .file (body.take count) ∧ count ≤ body.length

theorem written_of_step (h : step body s e = some s') : Written body s' := by
  intro count hpc
  unfold step at h
  split at h
  · obtain rfl := Option.some.inj h
    nomatch hpc
  · split_ifs at h
    · obtain rfl := Option.some.inj h
      nomatch hpc
    · obtain rfl := Option.some.inj h
      nomatch hpc
  · obtain rfl := Option.some.inj h
    nomatch hpc
  · split at h
    · nomatch h
    · obtain rfl := Option.some.inj h
      obtain rfl := Pc.writing.inj hpc
      exact ⟨by rw [List.take_zero], Nat.zero_le _⟩
  · split_ifs at h with hmore
    obtain rfl := Option.some.inj h
    obtain rfl := Pc.writing.inj hpc
    exact ⟨rfl, hmore⟩
  · split_ifs at h
    obtain rfl := Option.some.inj h
    nomatch hpc
  · nomatch h
  · obtain rfl := Option.some.inj h
    nomatch hpc
  · obtain rfl := Option.some.inj h
    nomatch hpc
  · nomatch h

theorem written_of_reachable (h : (downloads body dest).Reachable s) : Written body s := by
  refine h.invariant ?_ ?_
  · rintro _ rfl
    exact nofun
  · intro s e s' _ _ _ hstep
    exact written_of_step hstep

/-- What each state is. -/
structure Sound (body : Bytes) (s : State) : Prop where
  written : Written body s
  unspoiled : (∀ count, s.pc ≠ .writing count) → Unspoiled body s.dest
  running : s.pc ≠ .idle → s.returned = none
  complete : Complete body s

theorem unspoiled_of_whole (h : dest = .file (body.take count))
    (hwhole : count = 0 ∨ count = body.length) :
    Unspoiled body dest := by
  intro hlen
  rw [h] at hlen ⊢
  rcases hwhole with rfl | rfl
  · simp [Dest.len] at hlen
  · rw [List.take_length]

/-- **The end of a call**, by an error or cut off. -/
theorem Sound.ended (h : Sound body s)
    (hwhole : ∀ count, s.pc = .writing count → count = 0 ∨ count = body.length)
    (hstep : step body s e = some s') (hdest : s'.dest = s.dest) (hpc : s'.pc = .idle)
    (hreturned : s'.returned ≠ some true) : Sound body s' := by
  refine ⟨written_of_step hstep, fun _ => ?_, fun hrunning => absurd hpc hrunning, fun htrue =>
    absurd htrue hreturned⟩
  · rw [hdest]
    by_cases hwriting : ∃ count, s.pc = .writing count
    · obtain ⟨count, hwriting⟩ := hwriting
      exact unspoiled_of_whole (h.written count hwriting).1 (hwhole count hwriting)
    · exact h.unspoiled fun count hcount => hwriting ⟨count, hcount⟩

/-- A step before the file is created. -/
theorem Sound.before (h : Sound body s) (hstep : step body s e = some s')
    (hbefore : ∀ count, s.pc ≠ .writing count)
    (hdest : s'.dest = s.dest) (hreturned : s'.returned = none) : Sound body s' := by
  refine ⟨written_of_step hstep, fun _ => hdest ▸ h.unspoiled hbefore, fun _ => hreturned,
    fun htrue => ?_⟩
  rw [hreturned] at htrue
  nomatch htrue

/-- **One step.** -/
theorem Sound.step (h : Sound body s) (hwhole : Whole body s e) (hstep : step body s e = some s') :
    Sound body s' := by
  have hwritten := written_of_step hstep
  obtain ⟨dest, progress, pc, returned⟩ := s
  cases pc with
  | idle =>
      cases e with
      | call =>
          obtain rfl := Option.some.inj hstep
          exact h.before hstep nofun rfl rfl
      | stops =>
          obtain rfl := Option.some.inj hstep
          exact h.ended hwhole hstep rfl rfl nofun
      | _ => nomatch hstep
  | checking =>
      cases e with
      | check =>
          by_cases hlen : dest.len > 0
          · obtain rfl : _ = s' := Option.some.inj ((if_pos hlen).symm.trans hstep)
            have hunspoiled : Unspoiled body dest := h.unspoiled nofun
            exact ⟨hwritten, fun _ => hunspoiled, fun hidle => absurd rfl hidle, fun _ =>
              hunspoiled hlen⟩
          · obtain rfl : _ = s' := Option.some.inj ((if_neg hlen).symm.trans hstep)
            exact h.before hstep nofun rfl (h.running nofun)
      | fails | stops =>
          obtain rfl := Option.some.inj hstep
          exact h.ended hwhole hstep rfl rfl nofun
      | _ => nomatch hstep
  | requesting =>
      cases e with
      | response total =>
          obtain rfl := Option.some.inj hstep
          exact h.before hstep nofun rfl (h.running nofun)
      | fails | stops =>
          obtain rfl := Option.some.inj hstep
          exact h.ended hwhole hstep rfl rfl nofun
      | _ => nomatch hstep
  | creating =>
      cases e with
      | create =>
          have hs' : s' = ⟨.file [], progress, .writing 0, returned⟩ := by
            cases dest with
            | absent => exact (Option.some.inj hstep).symm
            | file content => exact (Option.some.inj hstep).symm
            | directory size => nomatch hstep
          obtain rfl := hs'
          have hreturned : returned = none := h.running nofun
          exact ⟨hwritten, fun hnot => absurd rfl (hnot 0), fun _ => hreturned,
            fun htrue => nomatch hreturned.symm.trans htrue⟩
      | fails | stops =>
          obtain rfl := Option.some.inj hstep
          exact h.ended hwhole hstep rfl rfl nofun
      | _ => nomatch hstep
  | writing count =>
      cases e with
      | write more =>
          obtain ⟨-, hs'⟩ := Option.ite_none_right_eq_some.mp hstep
          obtain rfl := Option.some.inj hs'
          have hreturned : returned = none := h.running nofun
          exact ⟨hwritten, fun hnot => absurd rfl (hnot (count + more)), fun _ => hreturned,
            fun htrue => nomatch hreturned.symm.trans htrue⟩
      | finish =>
          obtain ⟨hall, hs'⟩ := Option.ite_none_right_eq_some.mp hstep
          obtain rfl := Option.some.inj hs'
          have hbody : dest = .file body := by
            rw [← List.take_length (l := body), ← hall]
            exact (h.written count rfl).1
          exact ⟨hwritten, fun _ _ => hbody, fun hidle => absurd rfl hidle, fun _ => hbody⟩
      | fails | stops =>
          obtain rfl := Option.some.inj hstep
          exact h.ended hwhole hstep rfl rfl nofun
      | _ => nomatch hstep

theorem sound_start (h : Unspoiled body dest) : Sound body (start dest) :=
  ⟨nofun, fun _ => h, fun hidle => absurd rfl hidle, nofun⟩

/-- Behind a call that is cut off with some bytes written and others not, the next one takes these
for the whole. -/
theorem not_complete_of_part (h : (downloads body dest).Reachable s) (hpc : s.pc = .writing count)
    (hsome : 0 < count) (hpart : count < body.length) :
    ∃ s', (downloads body dest).run s [.stops, .call, .check] = some s' ∧ ¬ Complete body s' := by
  obtain ⟨hdest, -⟩ := written_of_reachable h count hpc
  have hlen : s.dest.len = count := by
    rw [hdest, Dest.len, List.length_take]
    exact Nat.min_eq_left (Nat.le_of_lt hpart)
  refine ⟨{ start s.dest with returned := some true }, ?_, fun hcomplete => ?_⟩
  · obtain ⟨dest, progress, pc, returned⟩ := s
    obtain rfl : pc = .writing count := hpc
    have hskip : dest.len > 0 := by rwa [← hlen] at hsome
    simp [Transition.System.run, downloads, Downloader.step, start, hskip]
  · have hbody : s.dest = .file body := hcomplete rfl
    rw [hbody] at hlen
    exact Nat.lt_irrefl count (hlen ▸ hpart)

end Runs

/-- **A download that reports success is complete**, in every run of which no call ends in the
middle of the body. -/
theorem complete_of_whole (body : Bytes) (dest : Dest) (hdest : Unspoiled body dest) {s : State}
    (h : (downloads body dest).ReachableWhere (Whole body) s) : Complete body s := by
  refine Sound.complete (h.invariant ?_ ?_)
  · rintro _ rfl
    exact sound_start hdest
  · intro s e s' _ hsound hwhole hstep
    exact hsound.step hwhole hstep

/-- A call fails before the first byte; the next one downloads two bytes; the third skips. -/
def patientRun : List Event :=
  [.call, .check, .response (some 2), .create, .fails, .call, .check, .response none, .create,
    .write 1, .write 1,
    .finish, .call, .check]

theorem complete_patientRun : ∃ s, Complete [71, 71] s ∧ s.returned = some true := by
  have hrun : ((downloads [71, 71] .absent).runWhere (Whole [71, 71]) (start .absent)
    patientRun).any
      (fun s => s.returned = some true) = true := by
    decide +kernel
  obtain ⟨s, hs, htest⟩ := Transition.System.exists_reachableWhere_of_run rfl hrun
  exact ⟨s, complete_of_whole [71, 71] .absent nofun hs, of_decide_eq_true htest⟩

/-- The stream breaks off behind the first of two bytes, and the next call finds a file. -/
theorem not_complete_broken :
    ∃ s, (downloads [71, 71] .absent).Reachable s ∧ ¬ Complete [71, 71] s := by
  have hrun : ((downloads [71, 71] .absent).run (start .absent)
      [.call, .check, .response (some 2), .create, .write 1, .fails, .call, .check]).any
      (fun s => s.returned = some true ∧ s.dest = .file [71]) = true := by
    decide +kernel
  obtain ⟨s, hs, htest⟩ := Transition.System.exists_reachable_of_run rfl hrun
  obtain ⟨hreturned, hdest⟩ := of_decide_eq_true htest
  refine ⟨s, hs, fun h => ?_⟩
  have hbody := h hreturned
  rw [hdest] at hbody
  nomatch hbody

end NiraOS.AiDaemon.Downloader
