import NiraOS.Desktop.Exec
import NiraOS.Desktop.Shortcuts
import NiraOS.Lib.Precedence

/-!
# The list of applications

`AppModel` (`desktop/shell/src/AppModel.cpp`): `scanDirectories`, `parseDesktopFile` and the sort of
the constructor.  The directories come in the order of their precedence, and a file hides those of
the same id in later ones.  The scan remembers the paths it has met, and not the ids:

```text
an id in two directories        the list
both visible                    two entries of one id
the first hidden                the second, though the first was to hide it
the second hidden               as it should be
```
-/

namespace NiraOS.Desktop.AppModel

open PathText (fileNameOf splitSuffix)

structure AppEntry where
  appId : String
  name : String
  genericName : String
  iconName : String
  exec : String
  categories : List String
  deriving DecidableEq

/-! ## One desktop file -/

/-- What is read of a desktop file. -/
structure Fields where
  type : String
  name : String
  genericName : String
  iconName : String
  rawExec : String
  categories : String
  noDisplay : String
  hidden : String
  terminal : String
  tryExec : String
  onlyShowIn : String
  notShowIn : String

def Fields.empty : Fields := ⟨"", "", "", "", "", "", "", "", "", "", "", ""⟩

def Fields.set (f : Fields) (key val : String) : Fields :=
  if key = "Type" then { f with type := val }
  else if key = "Name" then { f with name := val }
  else if key = "GenericName" then { f with genericName := val }
  else if key = "Icon" then { f with iconName := val }
  else if key = "Exec" then { f with rawExec := val }
  else if key = "Categories" then { f with categories := val }
  else if key = "NoDisplay" then { f with noDisplay := val }
  else if key = "Hidden" then { f with hidden := val }
  else if key = "Terminal" then { f with terminal := val }
  else if key = "TryExec" then { f with tryExec := val }
  else if key = "OnlyShowIn" then { f with onlyShowIn := val }
  else if key = "NotShowIn" then { f with notShowIn := val }
  else f

/-- The lines are read as by the desktop's model; there are more keys. -/
def readFields (text : String) : Fields := parseLines Fields.set false .empty (lines text.toList)

/-- `value.split(';', Qt::SkipEmptyParts)`. -/
def splitList (value : String) : List String :=
  ((value.toList.splitOn ';').filter (· ≠ [])).map String.ofList

/-- What the model gets from the system. -/
structure Env where
  /-- `standardLocations`. -/
  dataDirs : List String
  homePath : String
  /-- The absolute paths that `entryInfoList` finds in a directory, if it is there. -/
  listing : String → Option (List String)
  /-- The text of a file that can be opened. -/
  read : String → Option String
  /-- `findExecutable` finds something. -/
  findExecutable : String → Bool
  /-- `QString::compare` without regard to case. -/
  compare : String → String → Ordering

def appIdOf (path : String) : String := (splitSuffix (fileNameOf path)).1

section Parsing

variable (env : Env)

/-- The checks of `parseDesktopFile` before the entry is made. -/
def Fields.passes (f : Fields) : Bool :=
  if f.type ≠ "Application" then false
  else if isTrue f.noDisplay || isTrue f.hidden then false
  else if splitList f.onlyShowIn ≠ [] ∧ "NiraOS" ∉ splitList f.onlyShowIn then false
  else if "NiraOS" ∈ splitList f.notShowIn then false
  else if f.tryExec ≠ "" then
    match splitCommand f.tryExec with
    | [] => false
    | program :: _ => env.findExecutable program
  else true

def parseDesktopFile (path : String) : Option AppEntry :=
  match env.read path with
  | none => none
  | some text =>
      let f := readFields text
      if f.passes env then
        (appExec f.rawExec f.terminal).map fun exec =>
          { appId := appIdOf path
            name := if f.name = "" then appIdOf path else f.name
            genericName := f.genericName
            iconName := f.iconName
            exec := exec
            categories := splitList f.categories }
      else none

/-! ## The scan -/

structure Scan where
  seen : List String
  allApps : List AppEntry

def scanFile (s : Scan) (absPath : String) : Scan :=
  if absPath ∈ s.seen then s
  else { seen := absPath :: s.seen, allApps := s.allApps ++ (parseDesktopFile env absPath).toList }

def scanDirectory (s : Scan) (dirPath : String) : Scan :=
  match env.listing dirPath with
  | none => s
  | some entries => entries.foldl (scanFile env) s

/-- The directories in the order of the scan. -/
def Env.dirs : List String := env.dataDirs ++ [env.homePath ++ "/.local/share/applications"]

def scanDirectories : List AppEntry := (env.dirs.foldl (scanDirectory env) ⟨[], []⟩).allApps

/-- What the sort may leave in the model. -/
def Loads (rows : List AppEntry) : Prop :=
  rows.Perm (scanDirectories env) ∧ rows.Pairwise fun a b => env.compare b.name a.name ≠ .lt

instance (rows : List AppEntry) : Decidable (Loads env rows) := inferInstanceAs (Decidable (_ ∧ _))

/-! ## What the list is to be -/

/-- The file of an id in the first directory that has one. -/
def Env.firstFile (id : String) : Option String :=
  env.dirs.findSome? fun dir => ((env.listing dir).getD []).find? (appIdOf · = id)

structure FollowsPrecedence (rows : List AppEntry) : Prop where
  once : (rows.map AppEntry.appId).Nodup
  entries : ∀ entry, entry ∈ rows ↔
    ∃ path, env.firstFile entry.appId = some path ∧ parseDesktopFile env path = some entry

/-- What an entry says of itself. -/
structure Fields.Visible (f : Fields) : Prop where
  application : f.type = "Application"
  shown : isTrue f.noDisplay = false ∧ isTrue f.hidden = false
  here : splitList f.onlyShowIn = [] ∨ "NiraOS" ∈ splitList f.onlyShowIn
  notElsewhere : "NiraOS" ∉ splitList f.notShowIn
  installed : f.tryExec ≠ "" →
    ∃ program rest, splitCommand f.tryExec = program :: rest ∧ env.findExecutable program = true
  starts : stripExecFieldCodes f.rawExec ≠ ""

/-- A file that is to be seen, if no other hides it. -/
def Env.Visible (path : String) : Prop :=
  ∃ text, env.read path = some text ∧ (readFields text).Visible env

/-- The files in the order of the scan. -/
def Env.files : List String := env.dirs.flatMap fun dir => (env.listing dir).getD []

end Parsing

/-! ## The scan and the files -/

section Lemmas

variable {env : Env} {f : Fields} {path : String} {entry : AppEntry}
    {rows : List AppEntry} {s : Scan}

theorem visible_iff : f.Visible env ↔ f.passes env = true ∧ stripExecFieldCodes f.rawExec ≠ "" := by
  constructor
  · intro hvisible
    refine ⟨?_, hvisible.starts⟩
    have hshown : ¬ (isTrue f.noDisplay || isTrue f.hidden) = true := by
      rw [hvisible.shown.1, hvisible.shown.2]
      nofun
    rw [Fields.passes, if_neg (not_not.mpr hvisible.application), if_neg hshown,
      if_neg fun honly => hvisible.here.elim honly.1 honly.2, if_neg hvisible.notElsewhere]
    split_ifs with htry
    · obtain ⟨program, rest, hsplit, hfound⟩ := hvisible.installed htry
      rw [hsplit]
      exact hfound
    · rfl
  · intro h
    obtain ⟨hpasses, hstarts⟩ := h
    rw [Fields.passes] at hpasses
    split_ifs at hpasses with htype hshown honly hnot htry
    all_goals
      rw [Bool.not_eq_true, Bool.or_eq_false_iff] at hshown
      refine ⟨not_not.mp htype, hshown, ?_, hnot, fun hasked => ?_, hstarts⟩
      · rw [not_and_or, not_not, not_not] at honly
        exact honly
    · split at hpasses
      · nomatch hpasses
      · next program rest hsplit => exact ⟨program, rest, hsplit, hpasses⟩
    · exact absurd hasked htry

theorem appExec_isSome (rawExec terminal : String) :
    (appExec rawExec terminal).isSome ↔ stripExecFieldCodes rawExec ≠ "" := by
  unfold appExec
  dsimp only
  by_cases hempty : stripExecFieldCodes rawExec = ""
  · rw [if_pos hempty]
    exact iff_of_false nofun (not_not.mpr hempty)
  · rw [if_neg hempty]
    exact iff_of_true rfl hempty

/-- **A file is listed by itself** exactly if it is to be seen. -/
theorem isSome_parseDesktopFile : (parseDesktopFile env path).isSome ↔ env.Visible path := by
  unfold parseDesktopFile Env.Visible
  cases env.read path with
  | none => exact iff_of_false nofun fun h => nomatch h.choose_spec.1
  | some text =>
      have hvisible : (∃ t, some text = some t ∧ (readFields t).Visible env) ↔
          (readFields text).Visible env := by
        simp
      rw [hvisible, visible_iff]
      dsimp only
      by_cases hpasses : (readFields text).passes env = true
      · rw [if_pos hpasses, Option.isSome_map, appExec_isSome, and_iff_right hpasses]
      · rw [if_neg hpasses]
        exact iff_of_false nofun fun h => hpasses h.1

theorem appId_parseDesktopFile (h : parseDesktopFile env path = some entry) :
    entry.appId = appIdOf path := by
  unfold parseDesktopFile at h
  split at h
  · nomatch h
  · next text _ =>
      dsimp only at h
      by_cases hpasses : (readFields text).passes env = true
      · rw [if_pos hpasses] at h
        obtain ⟨exec, -, rfl⟩ := Option.map_eq_some_iff.mp h
        dsimp only
      · rw [if_neg hpasses] at h
        nomatch h

theorem allApps_scanFiles (files : List String) :
    (files.foldl (scanFile env) s).allApps =
      s.allApps ++ (Precedence.unseen s.seen files).filterMap (parseDesktopFile env) := by
  induction files generalizing s with
  | nil => exact (List.append_nil _).symm
  | cons path rest ih =>
      rw [List.foldl_cons, ih, scanFile, Precedence.unseen]
      split_ifs
      · rfl
      · rw [List.filterMap_cons]
        cases parseDesktopFile env path with
        | none => simp
        | some entry => simp

theorem scanDirectories_eq :
    scanDirectories env = (Precedence.unseen [] env.files).filterMap (parseDesktopFile env) := by
  have hdirectory : ∀ s dir,
      scanDirectory env s dir = ((env.listing dir).getD []).foldl (scanFile env) s := by
    intro s dir
    unfold scanDirectory
    cases env.listing dir <;> rfl
  have hscan : env.dirs.foldl (scanDirectory env) ⟨[], []⟩ =
      env.files.foldl (scanFile env) ⟨[], []⟩ := by
    rw [Env.files, List.foldl_flatMap]
    congr 1
    funext s dir
    exact hdirectory s dir
  rw [scanDirectories, hscan, allApps_scanFiles, List.nil_append]

theorem firstFile_eq (id : String) :
    env.firstFile id = (Precedence.unseen [] env.files).find? (appIdOf · = id) := by
  have hnone : ∀ path ∈ ([] : List String), decide (appIdOf path = id) = false := nofun
  rw [Precedence.find?_unseen hnone, Env.files, List.find?_flatMap]
  rfl

end Lemmas

/-- **The list follows the precedence of the files** exactly if no file is to be seen but the first
of its id. -/
theorem followsPrecedence_iff (env : Env) (rows : List AppEntry) (h : Loads env rows) :
    FollowsPrecedence env rows ↔
      ∀ path ∈ env.files, env.Visible path → env.firstFile (appIdOf path) = some path := by
  have hkey : Precedence.KeepsKey appIdOf AppEntry.appId (parseDesktopFile env) :=
    fun _ _ hparse => appId_parseDesktopFile hparse
  have hids : (rows.map AppEntry.appId).Nodup ↔ ((scanDirectories env).map AppEntry.appId).Nodup :=
    (h.1.map _).nodup_iff
  have hmem : ∀ entry, entry ∈ rows ↔ entry ∈ scanDirectories env := fun _ => h.1.mem_iff
  have hfollows : FollowsPrecedence env rows ↔
    (rows.map AppEntry.appId).Nodup ∧ ∀ entry, entry ∈ rows ↔
      ∃ path, env.firstFile entry.appId = some path ∧ parseDesktopFile env path = some entry :=
    ⟨fun hf => ⟨hf.once, hf.entries⟩, fun hf => ⟨hf.1, hf.2⟩⟩
  rw [hfollows, hids]
  simp only [hmem, firstFile_eq, scanDirectories_eq]
  rw [Precedence.precedence_iff Precedence.nodup_unseen hkey]
  simp only [Precedence.mem_unseen, List.not_mem_nil, not_false_eq_true, and_true,
    isSome_parseDesktopFile]

/-- A browser has a file for the user and one for all, which differ in a line. -/
def browserEnv (user all : String) : Env where
  dataDirs := ["/home/nira/.local/share/applications", "/usr/share/applications"]
  homePath := "/home/nira"
  listing dir := some [dir ++ "/firefox.desktop"]
  read path :=
    some ("[Desktop Entry]\nType=Application\nName=Firefox\nExec=firefox %u\n" ++
      if path = "/usr/share/applications/firefox.desktop" then all else user)
  findExecutable _ := true
  compare a b := Ord.compare a b

def firefox : AppEntry := ⟨"firefox", "Firefox", "", "", "firefox", []⟩

/-- The user's file is listed, and the other one is not to be seen. -/
theorem followsPrecedence_user :
    FollowsPrecedence (browserEnv "" "NoDisplay=true\n") [firefox] := by
  have hloads : Loads (browserEnv "" "NoDisplay=true\n") [firefox] := by
    decide +kernel
  have hfirst : ∀ path ∈ (browserEnv "" "NoDisplay=true\n").files,
      (parseDesktopFile (browserEnv "" "NoDisplay=true\n") path).isSome →
        (browserEnv "" "NoDisplay=true\n").firstFile (appIdOf path) = some path := by
    decide +kernel
  refine (followsPrecedence_iff _ _ hloads).mpr fun path hpath hvisible => ?_
  exact hfirst path hpath (isSome_parseDesktopFile.mpr hvisible)

/-- The user's file hides the browser, which is listed all the same. -/
theorem not_followsPrecedence_hidden :
    Loads (browserEnv "Hidden=true\n" "") [firefox] ∧
    ¬ FollowsPrecedence (browserEnv "Hidden=true\n" "") [firefox] := by
  refine ⟨by decide +kernel, fun h => ?_⟩
  have hfirst : ((browserEnv "Hidden=true\n" "").firstFile "firefox").all
      (fun path => (parseDesktopFile (browserEnv "Hidden=true\n" "") path).isNone) = true := by
    decide +kernel
  obtain ⟨path, hpath, hparse⟩ := (h.entries firefox).mp (List.mem_singleton_self _)
  have hid : firefox.appId = "firefox" := rfl
  rw [hid] at hpath
  rw [hpath, Option.all_some, hparse] at hfirst
  nomatch hfirst

end NiraOS.Desktop.AppModel
