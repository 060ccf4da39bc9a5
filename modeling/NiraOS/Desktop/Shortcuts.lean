import NiraOS.Desktop.IconModel
import Mathlib.Data.Char
import Mathlib.Data.List.Lex

/-!
# Shortcuts

`createShortcut` of `DesktopIconModel` (`desktop/shell/src/DesktopIconModel.cpp`), and what the next
scan shows.  The shortcut is shown as it was asked for if

```text
name of the file     the first one that is not found: "x.desktop (2)" is no shortcut
its place            free, and directly in the desktop's directory
name, target         without line breaks, and without blanks at the ends that are trimmed
target               what the URL made of it leads to
text                 written as a whole, which is not checked
```
-/

namespace NiraOS.Desktop

open TextStream (readAll textMode)
open FileTree (attempt fileAt openTruncate)
open PathText (fileNameOf)
open Utf8 (Bytes encode)

/-- A call, with what the system makes of it. -/
structure Call where
  targetPath : String
  displayName : String
  /-- The file may be opened. -/
  opens : Bool
  /-- So many bytes can be written. -/
  room : ℕ

section Creating

variable (env : Env) (t : Tree) (call : Call)

def createShortcut : Bool × Tree :=
  if call.targetPath = "" then (false, t)
  else
    let safeName := if call.displayName = "" then fileNameOf call.targetPath else call.displayName
    let name := uniqueName env.limit env.desktopPath t (safeName ++ ".desktop") ""
    match attempt call.opens (openTruncate env.limit t (absoluteFilePath env.desktopPath name)) with
    | none => (false, t)
    | some (place, t) =>
        -- what is not written is lost without notice
        let text := encode (shortcutText safeName call.targetPath)
        (true, (t.tryWrite place (text.take call.room)).getD t)

/-! ## What should hold -/

/-- Exactly one file is new, directly on the desktop, and it is shown as the shortcut that was asked
for. -/
def Presents (t t' : Tree) : Prop :=
  ∃ d fileName content, t.seek env.limit (env.desktopPath.map .down) = some d ∧
    t.node (d ++ [fileName]) = none ∧
    t'.node = Function.update t.node (d ++ [fileName]) (some (.file content)) ∧
    ∃ e ∈ scanDirectory env t', e.filePath = env.desktopPath ++ [fileName] ∧ e.isShortcut = true ∧
      e.name = call.displayName ∧ e.targetPath = call.targetPath ∧ e.exec = "" ∧
      e.iconName = "folder"

/-- A call that returns true does what it should. -/
def Sound : Prop :=
  call.displayName ≠ "" → (createShortcut env t call).1 = true →
    Presents env call t (createShortcut env t call).2

/-- The place of the file: the first name that is not found leads to it, and it is a shortcut that
is shown. -/
def GoodPlace : Prop :=
  ∃ name d fileName, FirstFree env.limit env.desktopPath t
    (call.displayName ++ ".desktop") "" name ∧
    t.seek env.limit (absoluteFilePath env.desktopPath name) = none ∧
    t.seek env.limit (env.desktopPath.map .down) = some d ∧
    t.landing env.limit [] (absoluteFilePath env.desktopPath name) = some (d ++ [fileName]) ∧
    isDesktopFile fileName = true ∧ (env.showHidden || !isHidden fileName) = true ∧
    env.unreadable fileName = false

structure Proper : Prop where
  place : GoodPlace env t call
  written : (encode (shortcutText call.displayName call.targetPath)).length ≤ call.room
  -- of a CR that stands alone it is not said whether text mode drops it
  name : '\n' ∉ call.displayName.toList ∧ '\r' ∉ call.displayName.toList ∧
    Text.trim call.displayName = call.displayName
  target : '\n' ∉ call.targetPath.toList ∧ '\r' ∉ call.targetPath.toList ∧
    Text.trim ("file://" ++ call.targetPath) = "file://" ++ call.targetPath
  url : env.localFile ("file://" ++ call.targetPath) = some call.targetPath

/-- What holds of each call of a run, in the tree it is made in. -/
def EachCall (P : Tree → Call → Prop) : Tree → List Call → Prop
  | _, [] => True
  | t, call :: calls => P t call ∧ EachCall P (createShortcut env t call).2 calls

end Creating

section Reading

variable {env : Env} {safeName targetPath : String}

/-- The bytes of a shortcut are read as its text, if there is no CR LF. -/
theorem readAll_shortcutText (safeName targetPath : String)
    (h : ¬ ['\r', '\n'] <:+: (shortcutText safeName targetPath).toList)
    (replaced : Bytes → String) :
    readAll replaced (textMode (encode (shortcutText safeName targetPath))) =
      shortcutText safeName targetPath := by
  rw [TextStream.textMode_encode h, TextStream.readAll_encode]
  -- the first byte is no byte order mark
  rw [← String.ofList_toList (s := shortcutText safeName targetPath), Utf8.encode_ofList,
    shortcutText_toList]
  intro hmark
  have hopen : "[Desktop Entry]".toList = '[' :: "Desktop Entry]".toList := by decide
  rw [hopen, List.cons_append, List.flatMap_cons] at hmark
  exact absurd (List.cons_prefix_cons.mp hmark).1 (by decide)

theorem targetOf_url {name icon url : String} (hurl : url ≠ "")
    (hfile : env.localFile url = some targetPath) :
    targetOf env ⟨name, icon, "", url, ""⟩ = targetPath := by
  simp [targetOf, hurl, hfile]

end Reading

section Presenting

variable {env : Env} {t t' t₁ : Tree} {d place : List String} {path : Steps} {fileName : String}
    {content : Bytes}

/-- A file that is created where nothing is found, with what is written to it. -/
theorem node_of_openTruncate (hnone : t.seek env.limit path = none)
    (hland : t.landing env.limit [] path = some (d ++ [fileName]))
    (h : openTruncate env.limit t path = some (place, t₁)) (content : Bytes) :
    t.node d = some .dir ∧ t.node (d ++ [fileName]) = none ∧
      ((t₁.tryWrite place content).getD t₁).node =
        Function.update t.node (d ++ [fileName]) (some (.file content)) := by
  have hmissing : FileTree.fileExists env.limit t path = false := by
    rw [FileTree.fileExists, hnone, Option.isSome_none]
  obtain ⟨hland', hinsert⟩ := FileTree.openTruncate_created hmissing h
  obtain rfl := Option.some.inj (hland.symm.trans hland')
  obtain ⟨hdir, hfree, hnode⟩ := FileTree.tryInsert_eq_some hinsert
  rw [List.dropLast_concat] at hdir
  refine ⟨hdir, hfree, ?_⟩
  have hfile : t₁.node (d ++ [fileName]) = some (.file default) :=
    by rw [hnode, Function.update_self]
  have hwrite : t₁.tryWrite (d ++ [fileName]) content ≠ none := by
    unfold FileTree.tryWrite
    split
    · exact Option.some_ne_none _
    · next hno => exact absurd hfile (hno [])
  obtain ⟨t₃, ht₃⟩ := Option.ne_none_iff_exists'.mp hwrite
  rw [ht₃, Option.getD_some, (FileTree.tryWrite_eq_some ht₃).2, hnode, Function.update_idem]

/-- A new file in the desktop's directory is found there. -/
theorem seek_pathOf (hd : t.seek env.limit (env.desktopPath.map .down) = some d)
    (hdir : t.node d = some .dir)
    (hfree : t.node (d ++ [fileName]) = none)
    (hnode : t'.node = Function.update t.node (d ++ [fileName]) (some (.file content))) :
    t'.seek env.limit (env.desktopPath.map .down) = some d ∧
    t'.seek env.limit (env.pathOf fileName) = some (d ++ [fileName]) ∧
      t'.node (d ++ [fileName]) = some (.file content) := by
  have hle := FileTree.le_of_file hnode hfree
  have hd' := FileTree.seek_mono hle hd
  have hfile : t'.node (d ++ [fileName]) = some (.file content) :=
    by rw [hnode, Function.update_self]
  have hplace : t'.place env.limit (env.pathOf fileName) = some (d ++ [fileName]) :=
    FileTree.place_concat.mpr ⟨d, hd', hle _ _ hdir, rfl⟩
  exact ⟨hd', FileTree.seek_of_place hplace hfile nofun, hfile⟩

theorem mem_scanDirectory (hd : t'.seek env.limit (env.desktopPath.map .down) = some d)
    (hseek : t'.seek env.limit (env.pathOf fileName) = some (d ++ [fileName]))
    (hfile : t'.node (d ++ [fileName]) = some (.file content))
    (hshown : (env.showHidden || !isHidden fileName) = true) :
    entryFromInfo env t' fileName ∈ scanDirectory env t' := by
  refine List.mem_map.mpr ⟨fileName, List.mem_filter.mpr ⟨?_, hshown⟩, rfl⟩
  rw [mem_entryInfoList hd, hfile, hseek]
  exact ⟨nofun, rfl⟩

theorem isShortcut_entryFromInfo (env : Env) (t : Tree) (fileName : String) :
    (entryFromInfo env t fileName).isShortcut = isDesktopFile fileName := by
  unfold entryFromInfo
  dsimp only
  split_ifs with hdesktop hdir <;> simp [hdesktop]

/-- The entry of a file that can be read. -/
theorem entryFromInfo_shortcut (hdesktop : isDesktopFile fileName = true)
    (hreadable : env.unreadable fileName = false)
    (hseek : t'.seek env.limit (env.pathOf fileName) = some (d ++ [fileName]))
    (hfile : t'.node (d ++ [fileName]) = some (.file content)) :
    ∃ e : DesktopEntry, entryFromInfo env t' fileName = parseDesktopFile env (some content) e := by
  have hbytes : fileAt env.limit t' (env.pathOf fileName) = some content :=
    by rw [fileAt, hseek, Option.bind_some, hfile]
  unfold entryFromInfo
  dsimp only
  rw [if_pos hdesktop, hreadable, if_neg Bool.false_ne_true, hbytes]
  exact ⟨_, rfl⟩

end Presenting

section Main

variable {env : Env} {t : Tree} {call : Call}

/-- What is shown of a proper call's file. -/
theorem parseDesktopFile_proper (h : Proper env t call) (hname : call.displayName ≠ "")
    (e : DesktopEntry) :
    parseDesktopFile env (some (encode (shortcutText call.displayName call.targetPath))) e =
      { e with
        name := call.displayName, targetPath := call.targetPath, exec := ""
        iconName := "folder" } := by
  obtain ⟨hname', hnameCr, hnameTrim⟩ := h.name
  obtain ⟨htarget, htargetCr, htargetTrim⟩ := h.target
  have hnoCrLf := noCrLf_shortcutText hname' htarget (fun hlast => hnameCr
    (List.mem_of_getLast? hlast)) fun hlast => htargetCr (List.mem_of_getLast? hlast)
  have hurl : "file://" ++ call.targetPath ≠ "" := by simp
  unfold parseDesktopFile
  dsimp only
  rw [readAll_shortcutText _ _ hnoCrLf, parse_shortcutText hname' htarget, hnameTrim, htargetTrim,
    targetOf_url hurl h.url]
  simp [hname]

/-- What a call creates that returns true. -/
theorem node_createShortcut (name : String) (d : List String) (fileName : String)
    (hname : call.displayName ≠ "")
    (hunique : uniqueName env.limit env.desktopPath t (call.displayName ++ ".desktop") "" = name)
    (hnone : t.seek env.limit (absoluteFilePath env.desktopPath name) = none)
    (hland : t.landing env.limit [] (absoluteFilePath env.desktopPath name) =
      some (d ++ [fileName]))
    (htrue : (createShortcut env t call).1 = true) :
    t.node d = some .dir ∧ t.node (d ++ [fileName]) = none ∧
      (createShortcut env t call).2.node = Function.update t.node (d ++ [fileName])
        (some (.file ((encode (shortcutText call.displayName call.targetPath)).take
        call.room))) := by
  have htarget : call.targetPath ≠ "" := by
    intro hempty
    rw [createShortcut, if_pos hempty] at htrue
    nomatch htrue
  unfold createShortcut at htrue ⊢
  rw [if_neg htarget] at htrue ⊢
  dsimp only at htrue ⊢
  rw [if_neg hname, hunique] at htrue ⊢
  split at htrue
  · nomatch htrue
  · next place t₁ hopen =>
      exact node_of_openTruncate hnone hland (FileTree.attempt_eq_some hopen).2 _

/-- One call. -/
theorem sound_of_proper (h : Proper env t call) : Sound env t call := by
  intro hname htrue
  obtain ⟨name, d, fileName, hfirst, hnone, hd, hland, hdesktop, hshown, hreadable⟩ := h.place
  have hunique :=
    (firstFree_uniqueName env.limit env.desktopPath t (call.displayName ++ ".desktop") "").unique
      hfirst
  obtain ⟨hdir, hfree, hnode⟩ := node_createShortcut name d fileName hname hunique hnone hland htrue
  rw [List.take_of_length_le h.written] at hnode
  obtain ⟨hd', hseek, hfile⟩ := seek_pathOf hd hdir hfree hnode
  have hmem := mem_scanDirectory hd' hseek hfile hshown
  have hpath := filePath_entryFromInfo env (createShortcut env t call).2 fileName
  have hshortcut := isShortcut_entryFromInfo env (createShortcut env t call).2 fileName
  obtain ⟨e, he⟩ := entryFromInfo_shortcut hdesktop hreadable hseek hfile
  refine ⟨d, fileName, _, hd, hfree, hnode, _, hmem, hpath, hshortcut.trans hdesktop, ?_⟩
  rw [he, parseDesktopFile_proper h hname]
  exact ⟨rfl, rfl, rfl, rfl⟩

/-- **Creating shortcuts**: in a run of proper calls, each does what it should. -/
theorem sound_of_properCalls (env : Env) (t : Tree) (calls : List Call)
    (h : EachCall env (Proper env) t calls) :
    EachCall env (Sound env) t calls := by
  induction calls generalizing t with
  | nil => trivial
  | cons call calls ih => exact ⟨sound_of_proper h.1, ih _ h.2⟩

end Main

theorem node_root : (FileTree.empty : Tree).node [] = some .dir := rfl

theorem node_desktop : (FileTree.empty : Tree).node ["d"] = none := rfl

/-- A desktop without icons, and how plain URLs are read. -/
def onlyDesktop : Tree := FileTree.empty.insert ["d"] .dir node_root node_desktop

def plainEnv : Env where
  limit := 8
  desktopPath := ["d"]
  showHidden := false
  nameLe a b := a.toList ≤ b.toList
  unreadable _ := false
  localFile url :=
    if "file:///".toList.isPrefixOf url.toList ∧ '%' ∉ url.toList ∧ '?' ∉ url.toList ∧
      '#' ∉ url.toList then
      some (String.ofList (url.toList.drop 7))
    else none
  replaced _ := ""
  fileIcon _ := "text-x-generic"

def docs : Call := ⟨"/docs", "Docs", true, 100⟩

def music : Call := ⟨"/my music", "#1", true, 100⟩

theorem sound_docs : EachCall plainEnv (Sound plainEnv) onlyDesktop [docs, music] := by
  refine sound_of_properCalls plainEnv onlyDesktop [docs, music] ⟨?_, ?_, trivial⟩
  · refine ⟨⟨"Docs.desktop", ["d"], "Docs.desktop", ?_, ?_⟩,
      by decide +kernel, by decide +kernel, by decide +kernel, by decide +kernel⟩
    · exact ⟨1, by omega, by omega, by decide +kernel, fun j hj hlt => by omega,
        fun htaken => absurd htaken (by decide +kernel)⟩
    · decide +kernel
  · refine ⟨⟨"#1.desktop", ["d"], "#1.desktop", ?_, ?_⟩,
      by decide +kernel, by decide +kernel, by decide +kernel, by decide +kernel⟩
    · exact ⟨1, by omega, by omega, by decide +kernel, fun j hj hlt => by omega,
        fun htaken => absurd htaken (by decide +kernel)⟩
    · decide +kernel

/-- The new file is the one that is shown. -/
theorem entry_of_presents {env : Env} {t t' : Tree} {call : Call} {d : List String}
    {fileName : String} {content : Bytes}
    (hd : t.seek env.limit (env.desktopPath.map .down) = some d)
    (hnode : t'.node = Function.update t.node (d ++ [fileName]) (some (.file content)))
    (h : Presents env call t t') :
    (entryFromInfo env t' fileName).isShortcut = true ∧
    (entryFromInfo env t' fileName).exec = "" := by
  obtain ⟨d', fileName', content', hd', hfree, hnode', e, he, hpath, hshortcut, -, -, hexec, -⟩ := h
  obtain rfl := Option.some.inj (hd.symm.trans hd')
  have hsame : fileName' = fileName := by
    by_contra hne
    have hfile : t'.node (d ++ [fileName']) = some (.file content') :=
      by rw [hnode', Function.update_self]
    rw [hnode, Function.update_of_ne
      (fun heq => hne (List.cons.inj (List.append_cancel_left heq)).1), hfree] at hfile
    nomatch hfile
  obtain ⟨fileName₀, -, rfl⟩ := List.mem_map.mp he
  rw [filePath_entryFromInfo] at hpath
  obtain rfl := (List.cons.inj (List.append_cancel_left hpath)).1
  rw [← hsame]
  exact ⟨hshortcut, hexec⟩

def injected : Call := ⟨"/docs", "a\nExec=evil", true, 100⟩

/-- A line break begins a line of its own, and a second shortcut with the name is none. -/
theorem not_sound_injected :
    ¬ EachCall plainEnv (Sound plainEnv) onlyDesktop [injected] ∧
    ¬ EachCall plainEnv (Sound plainEnv) onlyDesktop [docs, docs] := by
  constructor
  · rintro ⟨hsound, -⟩
    have htrue : (createShortcut plainEnv onlyDesktop injected).1 = true := by decide +kernel
    have hpresents := hsound (by decide) htrue
    obtain ⟨hdir, hfree, hnode⟩ :=
      node_createShortcut "a\nExec=evil.desktop" ["d"] "a\nExec=evil.desktop" (by decide)
      (by decide +kernel) (by decide +kernel) (by decide +kernel) htrue
    have hd : onlyDesktop.seek plainEnv.limit (plainEnv.desktopPath.map .down) = some ["d"] :=
      by decide +kernel
    obtain ⟨-, hseek, hfile⟩ := seek_pathOf hd hdir hfree hnode
    obtain ⟨-, hexec⟩ := entry_of_presents hd hnode hpresents
    have hreadable : plainEnv.unreadable "a\nExec=evil.desktop" = false := rfl
    obtain ⟨e, he⟩ := entryFromInfo_shortcut (by decide +kernel) hreadable hseek hfile
    have htext := readAll_shortcutText "a\nExec=evil" "/docs" (by decide +kernel) plainEnv.replaced
    have hwhole : (encode (shortcutText injected.displayName injected.targetPath)).take
      injected.room =
        encode (shortcutText "a\nExec=evil" "/docs") := List.take_of_length_le (by decide +kernel)
    rw [he, hwhole, parseDesktopFile] at hexec
    dsimp only at hexec
    rw [htext] at hexec
    exact absurd hexec (by decide +kernel)
  · rintro ⟨-, hsound, -⟩
    have htrue : (createShortcut plainEnv (createShortcut plainEnv onlyDesktop docs).2 docs).1 =
        true := by decide +kernel
    have hpresents := hsound (by decide) htrue
    obtain ⟨hdir, hfree, hnode⟩ :=
      node_createShortcut "Docs.desktop (2)" ["d"] "Docs.desktop (2)" (by decide)
      (by decide +kernel) (by decide +kernel) (by decide +kernel) htrue
    obtain ⟨hshortcut, -⟩ := entry_of_presents (by decide +kernel) hnode hpresents
    rw [isShortcut_entryFromInfo] at hshortcut
    exact absurd hshortcut (by decide +kernel)

end NiraOS.Desktop
