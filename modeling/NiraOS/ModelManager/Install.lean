import NiraOS.AiDaemon.Validator
import NiraOS.Lib.Transition
import Mathlib.Logic.Function.Basic

/-!
# The installed model

`main` of the model manager (`core/model-manager/src/main.rs`) step by step: any step may fail, and
a state that is reached is what an interruption there leaves.  `body` is what the server sends; the
stream ends only behind its last byte.

The AI daemon checks the file before it loads it (`validate_model_request`), and looks for more than
the installer does:

```text
                        installer      daemon
a regular file          (it made it)   yes
the first four bytes    yes            yes
24 bytes at least       no             yes
a version from 1 to 3   no             yes
```

A model that the daemon refuses is found by the next start of the installer, and stays.  The other
way to go wrong is a staged file that the name of the model leads to already: a link that is left
over under either name, where the removal of the old staged file does not help.
-/

namespace NiraOS.ModelManager

open AiDaemon.Validator (Bytes ggufMagic fromLeBytes)

/-! ## The models directory -/

/-- `model_path`, `partial_path`, and what links may lead to besides. -/
inductive Place
  | model
  | staged
  | elsewhere (n : ℕ)
  deriving DecidableEq

inductive Entry
  | absent
  | file (content : Bytes)
  | directory
  | link (place : Place)
  deriving DecidableEq

/-- A link from one of the names out of the directory stands for where it leads to in the end. -/
structure Disk where
  entry : Place → Entry
  resolved : ∀ n p, entry (.elsewhere n) ≠ .link p

section Disk

variable (disk : Disk)

def Entry.target : Entry → Option Place
  | .link place => some place
  | _ => none

/-- Where a path leads to, unless the links go round. -/
def Disk.lead (p : Place) : Option Place :=
  match (disk.entry p).target with
  | none => some p
  | some q =>
      match (disk.entry q).target with
      | none => some q
      | some r =>
          match (disk.entry r).target with
          | none => some r
          | some _ => none

/-- What a path leads to. -/
def Disk.find (p : Place) : Entry :=
  match disk.lead p with
  | some q => disk.entry q
  | none => .absent

/-- `Path::exists`. -/
def Disk.pathExists (p : Place) : Bool := disk.find p ≠ .absent

def Disk.write (p : Place) (content : Bytes) : Disk where
  entry := Function.update disk.entry p (.file content)
  resolved n q := by
    rw [Function.update_apply]
    split_ifs
    · exact nofun
    · exact disk.resolved n q

/-- `remove_file`, of the link itself if the path is one; it does not remove a directory. -/
def Disk.remove (p : Place) : Disk :=
  if disk.entry p = .directory then disk
  else
    { entry := Function.update disk.entry p .absent
      resolved := by
        intro n q
        rw [Function.update_apply]
        split_ifs
        · exact nofun
        · exact disk.resolved n q }

/-- `rename`, of the link itself if the staged file is one. -/
def Disk.rename : Disk where
  entry := Function.update (Function.update disk.entry .staged .absent) .model (disk.entry .staged)
  resolved n q := by
    simpa using disk.resolved n q

end Disk

/-! ## The check of the daemon -/

def modelPath : String := "/var/lib/niraos/models/default.gguf"

def version (content : Bytes) : ℕ := fromLeBytes ((content.drop 4).take 4)

/-- `validate_model_request` (`core/ai-daemon/src/inference/llama_cpp.rs`). -/
def validateModelRequest (path : String) (found : Entry) (contextLength batchSize : ℕ) :
    Except String Unit :=
  match found with
  | .file content =>
      if contextLength = 0 ∨
        batchSize = 0 then .error "model context length and batch size must be non-zero"
      else if content.length < 24 then .error "model is too small to contain a GGUF header"
      else if content.take 4 ≠ ggufMagic then .error ("model does not have a GGUF header: " ++ path)
      else if version content < 1 ∨ 3 < version content then
        .error ("unsupported GGUF version " ++ toString (version content))
      else .ok ()
  | _ => .error ("model path is not a regular file: " ++ path)

/-! ## The steps -/

inductive Pc
  | checking
  /-- There is a model: its first bytes are looked at. -/
  | existing
  | requesting
  | removing
  | creating
  /-- The staged file is open at a place, and so many bytes of the body are in it. -/
  | downloading (place : Place) (count : ℕ)
  | verifying
  | discarding
  | moving
  /-- `main` has returned an error. -/
  | exited
  | ready
  deriving DecidableEq

structure State where
  disk : Disk
  pc : Pc

inductive Event
  | check
  | readMagic
  /-- A success, that announces a length or does not. -/
  | response (announced : Bool)
  | remove (ok : Bool)
  | create
  | chunk (count : ℕ)
  | sync
  | verify
  | discard (ok : Bool)
  | rename
  /-- The step at hand fails. -/
  | fails

/-- `read_exact` of four bytes of a path, compared with "GGUF". -/
def hasMagic (found : Entry) : Option Bool :=
  match found with
  | .file content => if 4 ≤ content.length then some (content.take 4 = ggufMagic) else none
  | _ => none

section Definitions

variable (body : Bytes) (contextLength batchSize : ℕ)

def step (s : State) (e : Event) : Option State :=
  match s.pc, e with
  | .checking, .check => some ⟨s.disk, if s.disk.pathExists .model then .existing else .requesting⟩
  | .existing, .readMagic =>
      some ⟨s.disk, if hasMagic (s.disk.find .model) = some true then .ready else .exited⟩
  | .requesting, .response announced =>
      let refused := announced = true ∧ (body.length = 0 ∨ body.length > 16 * 1024 * 1024 * 1024)
      some ⟨s.disk, if refused then .exited else .removing⟩
  | .removing, .remove ok => some ⟨if ok then s.disk.remove .staged else s.disk, .creating⟩
  | .creating, .create =>
      match s.disk.lead .staged with
      | none => none
      | some place =>
          if s.disk.entry place = .directory then none
          else some ⟨s.disk.write place [], .downloading place 0⟩
  | .downloading place count, .chunk more =>
      if count + more ≤ body.length then
        some ⟨s.disk.write place (body.take (count + more)), .downloading place (count + more)⟩
      else none
  | .downloading _ count, .sync => if count = body.length then some ⟨s.disk, .verifying⟩ else none
  | .verifying, .verify =>
      match hasMagic (s.disk.find .staged) with
      | none => some ⟨s.disk, .exited⟩
      | some magic => some ⟨s.disk, if magic then .moving else .discarding⟩
  | .discarding, .discard ok => some ⟨if ok then s.disk.remove .staged else s.disk, .exited⟩
  | .moving, .rename => if s.disk.entry .model = .directory then none
      else some ⟨s.disk.rename, .ready⟩
  | .exited, .fails | .ready, .fails => none
  | _, .fails => some ⟨s.disk, .exited⟩
  | _, _ => none

/-- A run of the installer, begun with any content of the directory. -/
def installer (disk : Disk) : Transition.System State Event where
  init s := s = ⟨disk, .checking⟩
  step := step body

/-- The model is as it was, or it is the whole body and the daemon accepts it. -/
def Installs (disk : Disk) (s : State) : Prop :=
  s.disk.find .model = disk.find .model ∨
    s.disk.find .model = .file body ∧
      validateModelRequest modelPath (s.disk.find .model) contextLength batchSize = .ok ()

/-- What the daemon looks for besides the first four bytes. -/
structure Loadable : Prop where
  long : 24 ≤ body.length
  version : 1 ≤ version body ∧ version body ≤ 3
  context : contextLength ≠ 0
  batch : batchSize ≠ 0

/-- The staged file is opened where the model's name does not lead to, and only a body that the
daemon would load comes to the renaming. -/
def Proper (s : State) : Event → Prop
  | .create => ∀ place, s.disk.lead .staged = some place → s.disk.lead .model ≠ some place
  | .rename => Loadable body contextLength batchSize
  | _ => True

instance : Decidable (Loadable body contextLength batchSize) :=
  decidable_of_iff
    (24 ≤ body.length ∧ (1 ≤ version body ∧ version body ≤ 3) ∧ contextLength ≠ 0 ∧ batchSize ≠ 0)
    ⟨fun h => ⟨h.1, h.2.1, h.2.2.1, h.2.2.2⟩, fun h => ⟨h.long, h.version, h.context, h.batch⟩⟩

instance (s : State) (e : Event) : Decidable (Proper body contextLength batchSize s e) :=
  match e with
  | .create => inferInstanceAs
      (Decidable (∀ place ∈ s.disk.lead .staged, s.disk.lead .model ≠ some place))
  | .rename => inferInstanceAs (Decidable (Loadable body contextLength batchSize))
  | .check | .readMagic | .response _ | .remove _ | .chunk _ | .sync | .verify | .discard _
  | .fails => .isTrue trivial

end Definitions

/-! ## What the directory keeps -/

section Disk

variable {disk : Disk} {p q place : Place} {content data : Bytes}

@[simp] theorem target_absent : Entry.absent.target = none := rfl

@[simp] theorem target_file (content : Bytes) : (Entry.file content).target = none := rfl

theorem lead_of_target (h : (disk.entry p).target = none) : disk.lead p = some p := by
  rw [Disk.lead, h]

/-- Where a path leads to is no link. -/
theorem target_of_lead (h : disk.lead p = some place) : (disk.entry place).target = none := by
  unfold Disk.lead at h
  split at h
  · next hp => exact Option.some.inj h ▸ hp
  · split at h
    · next hq => exact Option.some.inj h ▸ hq
    · split at h
      · next hr => exact Option.some.inj h ▸ hr
      · nomatch h

theorem find_of_lead (h : disk.lead p = some q) : disk.find p = disk.entry q := by
  rw [Disk.find, h]

theorem write_entry : (disk.write p content).entry =
    Function.update disk.entry p (.file content) := rfl

theorem rename_entry : disk.rename.entry =
    Function.update (Function.update disk.entry .staged .absent) .model (disk.entry .staged) := rfl

theorem target_elsewhere (disk : Disk) (n : ℕ) : (disk.entry (.elsewhere n)).target = none := by
  cases h : disk.entry (.elsewhere n) with
  | link q => exact absurd h (disk.resolved n q)
  | _ => rfl

theorem target_write (h : (disk.entry place).target = none) (p : Place) :
    ((disk.write place content).entry p).target = (disk.entry p).target := by
  by_cases hp : p = place
  · subst hp
    rw [write_entry, Function.update_self, h, target_file]
  · rw [write_entry, Function.update_of_ne hp]

/-- To write a file does not change where paths lead to. -/
theorem lead_write (h : (disk.entry place).target = none) (p : Place) :
    (disk.write place content).lead p = disk.lead p := by
  simp only [Disk.lead, target_write h]

theorem find_write (h : (disk.entry place).target = none) (hp : disk.lead p ≠ some place) :
    (disk.write place content).find p = disk.find p := by
  rw [Disk.find, Disk.find, lead_write h]
  cases hlead : disk.lead p with
  | none => rfl
  | some q =>
      refine Function.update_of_ne (fun heq => hp ?_) _ _
      rw [hlead, heq]

/-- Without the staged name, the model is absent if it was. -/
theorem find_remove (h : disk.find .model = .absent) :
    (disk.remove .staged).find .model = .absent := by
  unfold Disk.remove
  split_ifs
  · exact h
  · cases htarget : (disk.entry .model).target with
    | none =>
        have hmodel : disk.entry .model = .absent :=
          by rwa [find_of_lead (lead_of_target htarget)] at h
        simp [Disk.find, Disk.lead, hmodel]
    | some q =>
        cases q with
        | model => simp [Disk.find, Disk.lead, htarget]
        | staged => simp [Disk.find, Disk.lead, htarget]
        | elsewhere n =>
            have hfree := target_elsewhere disk n
            have hlead : disk.lead .model = some (.elsewhere n) :=
              by simp [Disk.lead, htarget, hfree]
            rw [find_of_lead hlead] at h
            simp [Disk.find, Disk.lead, htarget, h]

/-- The staged file, open at a place that the model's name does not lead to. -/
structure Staged (disk : Disk) (place : Place) (data : Bytes) : Prop where
  lead : disk.lead .staged = some place
  entry : disk.entry place = .file data
  apart : disk.lead .model ≠ some place
  absent : disk.find .model = .absent

theorem Staged.write (h : Staged disk place data) (content : Bytes) :
    Staged (disk.write place content) place content := by
  have htarget := target_of_lead h.lead
  refine ⟨?_, Function.update_self .., ?_, ?_⟩
  · rw [lead_write htarget]
    exact h.lead
  · rw [lead_write htarget]
    exact h.apart
  · rw [find_write htarget h.apart]
    exact h.absent

theorem Staged.rename (h : Staged disk place data) : disk.rename.find .model = .file data := by
  have hlead := h.lead
  have hapart := h.apart
  unfold Disk.lead at hlead hapart
  cases htarget : (disk.entry .staged).target with
  | none =>
      -- the staged file itself is renamed
      rw [htarget] at hlead
      obtain rfl : Place.staged = place := Option.some.inj hlead
      simp [Disk.find, Disk.lead, rename_entry, h.entry]
  | some q =>
      rw [htarget] at hlead
      cases q with
      | staged => simp [htarget] at hlead
      | model =>
          -- then the model's name leads there too
          cases hmodel : (disk.entry .model).target with
          | none => simp [hmodel] at hlead hapart; exact absurd hlead hapart
          | some r =>
              cases hr : (disk.entry r).target with
              | none => simp [hmodel, hr] at hlead hapart; exact absurd hlead hapart
              | some _ => simp [hmodel, hr] at hlead
      | elsewhere n =>
          -- the link that leads to it is
          have hfree := target_elsewhere disk n
          obtain rfl : Place.elsewhere n = place := by simpa [hfree] using hlead
          simp [Disk.find, Disk.lead, rename_entry, htarget, h.entry]

end Disk

/-! ## Every run -/

section Runs

variable {body : Bytes} {contextLength batchSize : ℕ} {disk : Disk} {s s' : State} {e : Event}

/-- **The daemon accepts**, of what starts with the four bytes, what is loadable. -/
theorem validateModelRequest_iff (hmagic : body.take 4 = ggufMagic) :
    validateModelRequest modelPath (.file body) contextLength batchSize = .ok () ↔
      Loadable body contextLength batchSize := by
  dsimp only [validateModelRequest]
  rw [if_neg (not_not.mpr hmagic)]
  constructor
  · intro h
    split_ifs at h with hzero hshort hversion
    exact ⟨by omega, by omega, fun hcontext => hzero (.inl
      hcontext), fun hbatch => hzero (.inr hbatch)⟩
  · intro h
    have hlong := h.long
    have hmin := h.version.1
    have hmax := h.version.2
    rw [if_neg (not_or.mpr ⟨h.context, h.batch⟩), if_neg (by omega), if_neg (by omega)]

/-- What each state is. -/
def Sound (body : Bytes) (contextLength batchSize : ℕ) (disk : Disk) (s : State) : Prop :=
  match s.pc with
  | .checking | .existing => s.disk = disk
  | .requesting | .removing => s.disk = disk ∧ disk.find .model = .absent
  | .creating | .discarding => disk.find .model = .absent ∧ s.disk.find .model = .absent
  | .downloading place count => disk.find .model = .absent ∧ Staged s.disk place (body.take count)
  | .verifying => disk.find .model = .absent ∧ ∃ place, Staged s.disk place body
  | .moving => disk.find .model = .absent ∧ (∃ place, Staged s.disk place body) ∧
      body.take 4 = ggufMagic
  | .exited | .ready => Installs body contextLength batchSize disk s

theorem Sound.installs (h : Sound body contextLength batchSize disk s) :
    Installs body contextLength batchSize disk s := by
  obtain ⟨disk', pc⟩ := s
  cases pc with
  | checking | existing => exact .inl (congrArg (Disk.find · .model) h)
  | requesting | removing => exact .inl (congrArg (Disk.find · .model) h.1)
  | creating | discarding => exact .inl (h.2.trans h.1.symm)
  | downloading place count => exact .inl (h.2.absent.trans h.1.symm)
  | verifying =>
      obtain ⟨habsent, place, hstaged⟩ := h
      exact .inl (hstaged.absent.trans habsent.symm)
  | moving =>
      obtain ⟨habsent, ⟨place, hstaged⟩, -⟩ := h
      exact .inl (hstaged.absent.trans habsent.symm)
  | exited | ready => exact h

theorem hasMagic_file (h : hasMagic (.file body) = some true) : body.take 4 = ggufMagic := by
  dsimp only [hasMagic] at h
  split_ifs at h
  exact of_decide_eq_true (Option.some.inj h)

section Events

variable {disk' : Disk}

/-- Whatever fails, the installer exits and the directory stays. -/
theorem Sound.fails (h : Sound body contextLength batchSize disk s)
    (hstep : step body s .fails = some s') :
    Sound body contextLength batchSize disk s' := by
  have hinstalls := h.installs
  obtain ⟨disk', pc⟩ := s
  cases pc with
  | exited | ready => cases hstep
  | _ =>
      obtain rfl := Option.some.inj hstep
      exact hinstalls

/-- The installer looks whether there is a model. -/
theorem Sound.check (h : Sound body contextLength batchSize disk ⟨disk', .checking⟩)
    (hstep : step body ⟨disk', .checking⟩ .check = some s') :
    Sound body contextLength batchSize disk s' := by
  obtain rfl := Option.some.inj hstep
  obtain rfl : disk' = disk := h
  by_cases hexists : disk'.pathExists .model = true
  · simp only [hexists, if_true]
    rfl
  · simp only [hexists]
    exact ⟨rfl, by simpa [Disk.pathExists] using hexists⟩

/-- There is one, and it stays. -/
theorem Sound.readMagic (h : Sound body contextLength batchSize disk ⟨disk', .existing⟩)
    (hstep : step body ⟨disk', .existing⟩ .readMagic = some s') :
    Sound body contextLength batchSize disk s' := by
  have hinstalls := h.installs
  obtain rfl := Option.some.inj hstep
  dsimp only
  split_ifs
  · exact hinstalls
  · exact hinstalls

/-- The body is announced too long, or empty, or may come. -/
theorem Sound.response {announced : Bool}
    (h : Sound body contextLength batchSize disk ⟨disk', .requesting⟩)
    (hstep : step body ⟨disk', .requesting⟩ (.response announced) = some s') :
    Sound body contextLength batchSize disk s' := by
  have hinstalls := h.installs
  obtain rfl := Option.some.inj hstep
  dsimp only
  split_ifs
  · exact hinstalls
  · exact h

/-- What stands under the staged name is removed, or not. -/
theorem Sound.remove {ok : Bool} (h : Sound body contextLength batchSize disk ⟨disk', .removing⟩)
    (hstep : step body ⟨disk', .removing⟩ (.remove ok) = some s') :
    Sound body contextLength batchSize disk s' := by
  obtain rfl := Option.some.inj hstep
  obtain ⟨rfl, habsent⟩ := h
  refine ⟨habsent, ?_⟩
  cases ok with
  | false => exact habsent
  | true => exact find_remove habsent

/-- The staged file is opened. -/
theorem Sound.create (h : Sound body contextLength batchSize disk ⟨disk', .creating⟩)
    (hproper : Proper body contextLength batchSize ⟨disk', .creating⟩ .create)
    (hstep : step body ⟨disk', .creating⟩ .create = some s') :
    Sound body contextLength batchSize disk s' := by
  obtain ⟨habsent, habsent'⟩ := h
  simp only [ModelManager.step] at hstep
  split at hstep
  · cases hstep
  · next place hlead =>
      split_ifs at hstep
      obtain rfl := Option.some.inj hstep
      have htarget := target_of_lead hlead
      have hapart := hproper place hlead
      refine ⟨habsent, ?_, ?_, ?_, ?_⟩
      · rw [lead_write htarget, hlead]
      · rw [write_entry, Function.update_self, List.take_zero]
      · rwa [lead_write htarget]
      · rwa [find_write htarget hapart]

/-- A chunk is written. -/
theorem Sound.chunk {place : Place} {count more : ℕ}
    (h : Sound body contextLength batchSize disk ⟨disk', .downloading place count⟩)
    (hstep : step body ⟨disk', .downloading place count⟩ (.chunk more) = some s') :
    Sound body contextLength batchSize disk s' := by
  obtain ⟨habsent, hstaged⟩ := h
  obtain ⟨-, hs'⟩ := Option.ite_none_right_eq_some.mp hstep
  obtain rfl := Option.some.inj hs'
  exact ⟨habsent, hstaged.write _⟩

/-- The body is there as a whole. -/
theorem Sound.sync {place : Place} {count : ℕ}
    (h : Sound body contextLength batchSize disk ⟨disk', .downloading place count⟩)
    (hstep : step body ⟨disk', .downloading place count⟩ .sync = some s') :
    Sound body contextLength batchSize disk s' := by
  obtain ⟨habsent, hstaged⟩ := h
  obtain ⟨hall, hs'⟩ := Option.ite_none_right_eq_some.mp hstep
  obtain rfl := Option.some.inj hs'
  rw [hall, List.take_length] at hstaged
  exact ⟨habsent, place, hstaged⟩

/-- The staged file is the body, with the four bytes or without. -/
theorem Sound.verify (h : Sound body contextLength batchSize disk ⟨disk', .verifying⟩)
    (hstep : step body ⟨disk', .verifying⟩ .verify = some s') :
    Sound body contextLength batchSize disk s' := by
  have hinstalls := h.installs
  obtain ⟨habsent, place, hstaged⟩ := h
  have hfind : disk'.find .staged = .file body := (find_of_lead hstaged.lead).trans hstaged.entry
  simp only [ModelManager.step, hfind] at hstep
  split at hstep
  · obtain rfl := Option.some.inj hstep
    exact hinstalls
  · next magic hmagic =>
      obtain rfl := Option.some.inj hstep
      cases magic with
      | false => exact ⟨habsent, hstaged.absent⟩
      | true => exact ⟨habsent, ⟨place, hstaged⟩, hasMagic_file hmagic⟩

/-- It is thrown away, or stays where it is. -/
theorem Sound.discard {ok : Bool} (h : Sound body contextLength batchSize disk ⟨disk', .discarding⟩)
    (hstep : step body ⟨disk', .discarding⟩ (.discard ok) = some s') :
    Sound body contextLength batchSize disk s' := by
  obtain rfl := Option.some.inj hstep
  obtain ⟨habsent, habsent'⟩ := h
  refine .inl (Eq.trans ?_ habsent.symm)
  cases ok with
  | false => exact habsent'
  | true => exact find_remove habsent'

/-- It gets the model's name. -/
theorem Sound.rename (h : Sound body contextLength batchSize disk ⟨disk', .moving⟩)
    (hproper : Proper body contextLength batchSize ⟨disk', .moving⟩ .rename)
    (hstep : step body ⟨disk', .moving⟩ .rename = some s') :
    Sound body contextLength batchSize disk s' := by
  obtain ⟨habsent, ⟨place, hstaged⟩, hmagic⟩ := h
  obtain ⟨-, hs'⟩ := Option.ite_none_left_eq_some.mp hstep
  obtain rfl := Option.some.inj hs'
  have hfile := hstaged.rename
  refine .inr ⟨hfile, ?_⟩
  rw [hfile]
  exact (validateModelRequest_iff hmagic).mpr hproper

/-- **One step.** -/
theorem Sound.step (h : Sound body contextLength batchSize disk s)
    (hproper : Proper body contextLength batchSize s e) (hstep : step body s e = some s') :
    Sound body contextLength batchSize disk s' := by
  obtain ⟨disk', pc⟩ := s
  cases e with
  | fails => exact h.fails hstep
  | check => cases pc <;> first | exact h.check hstep | cases hstep
  | readMagic => cases pc <;> first | exact h.readMagic hstep | cases hstep
  | response announced => cases pc <;> first | exact h.response hstep | cases hstep
  | remove ok => cases pc <;> first | exact h.remove hstep | cases hstep
  | create => cases pc <;> first | exact h.create hproper hstep | cases hstep
  | chunk more => cases pc <;> first | exact h.chunk hstep | cases hstep
  | sync => cases pc <;> first | exact h.sync hstep | cases hstep
  | verify => cases pc <;> first | exact h.verify hstep | cases hstep
  | discard ok => cases pc <;> first | exact h.discard hstep | cases hstep
  | rename => cases pc <;> first | exact h.rename hproper hstep | cases hstep

end Events

def emptyDisk : Disk := ⟨fun _ => .absent, fun _ _ => nofun⟩

/-- The whole body comes, and nothing fails. -/
def smoothRun (body : Bytes) : List Event :=
  [.check, .response false, .remove true, .create, .chunk body.length, .sync, .verify, .rename]

theorem run_smoothRun (hmagic : hasMagic (.file body) = some true) :
    ∃ disk, (installer body emptyDisk).run ⟨emptyDisk, .checking⟩ (smoothRun body) =
      some ⟨disk, .ready⟩ ∧
      disk.find .model = .file body := by
  have hbegin : (installer body emptyDisk).run ⟨emptyDisk, .checking⟩ (smoothRun body) =
      (installer body emptyDisk).run ⟨(emptyDisk.remove .staged).write .staged [],
        .downloading .staged 0⟩
        [.chunk body.length, .sync, .verify, .rename] := rfl
  rw [hbegin]
  generalize hopened : (emptyDisk.remove .staged).write .staged [] = opened
  have hfind : (opened.write .staged body).find .staged = .file body := by
    rw [← hopened]
    rfl
  have hentry : (opened.write .staged body).entry .model ≠ .directory := by
    rw [← hopened]
    nofun
  refine ⟨(opened.write .staged body).rename, ?_, ?_⟩
  · simp [Transition.System.run, installer, ModelManager.step, hfind, hmagic, hentry]
  · rw [← hopened]
    rfl

/-- **Every body with the four bytes is installed**, so one that the daemon refuses is, too. -/
theorem not_installs_of_refused (hmagic : hasMagic (.file body) = some true)
    (hrefused : ¬ Loadable body contextLength batchSize) :
    ∃ s, (installer body emptyDisk).Reachable s ∧
      ¬ Installs body contextLength batchSize emptyDisk s := by
  obtain ⟨disk, hrun, hfile⟩ := run_smoothRun hmagic
  refine ⟨⟨disk, .ready⟩, (Transition.System.ReachableWhere.init rfl).run
    (fun _ _ _ => trivial) hrun, ?_⟩
  rintro (hsame | ⟨-, haccepted⟩)
  · exact nomatch hfile.symm.trans hsame
  · change validateModelRequest modelPath (disk.find .model) contextLength batchSize =
      .ok () at haccepted
    rw [hfile, validateModelRequest_iff (hasMagic_file hmagic)] at haccepted
    exact hrefused haccepted

end Runs

/-- **The installer installs what the daemon accepts**, or leaves the model as it was, in every run
in which the staged file is apart and the body loadable. -/
theorem installs_of_proper (body : Bytes) (contextLength batchSize : ℕ) (disk : Disk) {s : State}
    (h : (installer body disk).ReachableWhere (Proper body contextLength batchSize) s) :
    Installs body contextLength batchSize disk s := by
  refine Sound.installs (h.invariant ?_ ?_)
  · rintro _ rfl
    rfl
  · intro s e s' _ hsound hproper hstep
    exact hsound.step hproper hstep

/-- "GGUF", version 3, and nothing in it. -/
def emptyModel : Bytes := ggufMagic ++ [3, 0, 0, 0] ++ List.replicate 16 0

/-- A file is left under the staged name, and the removal of it fails. -/
def leftover : Disk where
  entry
    | .staged => .file [71]
    | _ => .absent
  resolved _ _ := nofun

theorem installs_leftover :
    ∃ s, Installs emptyModel 4096 512 leftover s ∧ s.disk.find .model = .file emptyModel := by
  have hrun : ((installer emptyModel leftover).runWhere (Proper emptyModel 4096 512) ⟨leftover,
    .checking⟩
      [.check, .response true, .remove false, .create, .chunk 20, .chunk 4, .sync, .verify,
        .rename]).any
      (fun s => s.disk.find .model = .file emptyModel) = true := by
    decide +kernel
  obtain ⟨s, hs, htest⟩ := Transition.System.exists_reachableWhere_of_run rfl hrun
  exact ⟨s, installs_of_proper emptyModel 4096 512 leftover hs, of_decide_eq_true htest⟩

/-- The four bytes alone are installed. -/
theorem not_installs_fourBytes : ∃ s, (installer ggufMagic emptyDisk).Reachable s ∧
    ¬ Installs ggufMagic 4096 512 emptyDisk s := by
  apply not_installs_of_refused
  · decide
  · decide

end NiraOS.ModelManager
