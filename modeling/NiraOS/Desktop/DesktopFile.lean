import NiraOS.Lib.Text
import Mathlib.Data.List.DropRight
import Mathlib.Tactic.Common

/-!
# Desktop files

`createShortcut` writes a desktop file and `parseDesktopFile` reads it
(`desktop/shell/src/DesktopIconModel.cpp`), here as texts.  What is written goes into its line as it
is, and a line is read without the blanks around its value:

```text
in the name or the target     read
a line break                  ends the value; what follows are lines of their own
blanks at the ends            are lost
'#', '?', '%' in a target     as in a URL
```
-/

namespace NiraOS.Desktop

/-- The lines of `QTextStream::readLine`, which would also drop a CR at the end: here that is a
blank. -/
def lines (text : List Char) : List (List Char) :=
  let pieces := text.splitOn '\n'
  if pieces.getLast? = some [] then pieces.dropLast else pieces

/-- What is read of a desktop file.  The type is read, too, and not used. -/
structure Fields where
  name : String
  icon : String
  exec : String
  url : String
  path : String
  deriving DecidableEq

def Fields.empty : Fields := ⟨"", "", "", "", ""⟩

/-- `trimmed`, of a part of a line. -/
def trimmed (chars : List Char) : String := Text.trim (String.ofList chars)

section Reading

variable {σ : Type*}

def Fields.set (f : Fields) (key val : String) : Fields :=
  if key = "Name" then { f with name := val }
  else if key = "Icon" then { f with icon := val }
  else if key = "Exec" then { f with exec := val }
  else if key = "URL" then { f with url := val }
  else if key = "Path" then { f with path := val }
  else f

/-- A line in the group; `set` takes a key and its value. -/
def readLine (set : σ → String → String → σ) (f : σ) (line : List Char) : σ :=
  if (trimmed line).toList.head? = some '#' then f
  else if '=' ∈ line then
    set f (trimmed (line.takeWhile (· ≠ '='))) (trimmed (line.dropWhile (· ≠ '=')).tail)
  else f

/-- The loop, in the group or before it. -/
def parseLines (set : σ → String → String → σ) (inDesktopEntry : Bool) (f : σ) :
    List (List Char) → σ
  | [] => f
  | line :: rest =>
      if line.head? = some '[' then
        if inDesktopEntry then f
        else parseLines set ("[Desktop Entry]".toList.isPrefixOf line) f rest
      else parseLines set inDesktopEntry (if inDesktopEntry then readLine set f line else f) rest

/-- `parseDesktopFile`, of the text of the file. -/
def parse (text : String) : Fields := parseLines Fields.set false .empty (lines text.toList)

end Reading

/-- What `createShortcut` writes. -/
def shortcutText (safeName targetPath : String) : String :=
  "[Desktop Entry]" ++ "\n" ++ "Type=Link" ++ "\n" ++ "Name=" ++ safeName ++ "\n" ++
    "URL=file://" ++ targetPath ++ "\n" ++
    "Icon=folder" ++ "\n"

section Lines

variable {σ : Type*} {set : σ → String → String → σ} {line key val rest : List Char}
    {f : σ} {c : Char}

theorem splitOn_line (h : '\n' ∉ line) (rest : List Char) :
    (line ++ '\n' :: rest).splitOn '\n' = line :: rest.splitOn '\n' := by
  rw [List.splitOn_eq_splitOnP, List.splitOn_eq_splitOnP]
  apply List.splitOnP_append_cons_of_forall_mem
  · intro d hd
    exact beq_false_of_ne fun heq => h (heq ▸ hd)
  · rfl

theorem lines_line (h : '\n' ∉ line) (rest : List Char) :
    lines (line ++ '\n' :: rest) = line :: lines rest := by
  unfold lines
  dsimp only
  rw [splitOn_line h]
  have hne := List.splitOn_ne_nil '\n' rest
  rw [List.getLast?_cons_of_ne_nil hne, List.dropLast_cons_of_ne_nil hne]
  split_ifs <;> rfl

theorem lines_nil : lines [] = [] := by
  decide

theorem trimmed_toList (s : String) : trimmed s.toList = Text.trim s := by
  rw [trimmed, String.ofList_toList]

/-- A blank is not where the text begins that is left. -/
theorem head?_trimmed (h : Text.isWhitespace c = false) (rest : List Char) :
    (trimmed (c :: rest)).toList.head? = some c := by
  rw [trimmed, Text.trim, String.toList_ofList, String.toList_ofList]
  rw [List.dropWhile_cons_of_neg (by simp [h])]
  change (List.rdropWhile Text.isWhitespace (c :: rest)).head? = some c
  have hprefix := List.rdropWhile_prefix Text.isWhitespace (l := c :: rest)
  have hne : List.rdropWhile Text.isWhitespace (c :: rest) ≠ [] := by
    rw [Ne, List.rdropWhile_eq_nil_iff]
    intro hall
    rw [hall c (List.mem_cons_self ..)] at h
    nomatch h
  obtain ⟨d, tail, htail⟩ := List.exists_cons_of_ne_nil hne
  rw [htail] at hprefix ⊢
  rw [(List.cons_prefix_cons.mp hprefix).1]
  rfl

/-- A line with a key. -/
theorem readLine_key (hkey : '=' ∉ c :: key) (hblank : Text.isWhitespace c = false)
    (hcomment : c ≠ '#') (val : List Char) :
    readLine set f (c :: key ++ '=' :: val) = set f (trimmed (c :: key)) (trimmed val) := by
  have htake : (c :: key ++ '=' :: val).takeWhile (· ≠ '=') = c :: key := by
    rw [List.takeWhile_append_of_pos]
    · simp
    · intro d hd
      exact decide_eq_true fun heq => hkey (heq ▸ hd)
  have hdrop : (c :: key ++ '=' :: val).dropWhile (· ≠ '=') = '=' :: val := by
    rw [List.dropWhile_append_of_pos]
    · simp
    · intro d hd
      exact decide_eq_true fun heq => hkey (heq ▸ hd)
  rw [readLine, List.cons_append, head?_trimmed hblank, if_neg (by simpa using hcomment),
    if_pos (by simp), ← List.cons_append, htake, hdrop, List.tail_cons]

theorem parseLines_cons (h : c ≠ '[') (line : List Char) (lines : List (List Char)) :
    parseLines set true f ((c :: line) :: lines) =
      parseLines set true (readLine set f (c :: line)) lines := by
  have hgroup : (c :: line).head? ≠ some '[' := fun heq => h (Option.some.inj heq)
  rw [parseLines, if_neg hgroup, if_pos rfl]

/-- A line in the group with one of the keys that are written. -/
theorem parseLines_key (hkey : '=' ∉ c :: key) (hblank : Text.isWhitespace c = false)
    (hcomment : c ≠ '#') (hgroup : c ≠ '[') (val : List Char) (lines : List (List Char)) :
    parseLines set true f ((c :: key ++ '=' :: val) :: lines) =
      parseLines set true (set f (trimmed (c :: key)) (trimmed val)) lines := by
  rw [List.cons_append, parseLines_cons hgroup, ← List.cons_append,
    readLine_key hkey hblank hcomment]

end Lines

/-! ## What is read of what is written -/

section Shortcut

variable {safeName targetPath : String} {c : Char}

theorem shortcutText_toList (safeName targetPath : String) :
    (shortcutText safeName targetPath).toList =
      "[Desktop Entry]".toList ++ '\n' ::
        ("Type=Link".toList ++ '\n' :: ("Name=".toList ++ safeName.toList ++ '\n' ::
        ("URL=file://".toList ++ targetPath.toList ++ '\n' ::
        ("Icon=folder".toList ++ '\n' :: [])))) := by
  have hend : "\n".toList = ['\n'] := by decide
  unfold shortcutText
  simp only [String.toList_append, hend, List.append_assoc, List.nil_append, List.cons_append]

/-- **A shortcut without line breaks** is read as it was written, but for the blanks. -/
theorem parse_shortcutText (hname : '\n' ∉ safeName.toList) (htarget : '\n' ∉ targetPath.toList) :
    parse (shortcutText safeName targetPath) =
      { name := Text.trim safeName, icon := "folder", exec := "",
        url := Text.trim ("file://" ++ targetPath), path := "" } := by
  have hlines : lines (shortcutText safeName targetPath).toList =
      ["[Desktop Entry]".toList, "Type=Link".toList, "Name=".toList ++ safeName.toList,
        "URL=file://".toList ++ targetPath.toList, "Icon=folder".toList] := by
    rw [shortcutText_toList, lines_line (by decide), lines_line (by decide),
      lines_line (by simp [hname]),
      lines_line (by simp [htarget]), lines_line (by decide), lines_nil]
  have hopen : parseLines Fields.set false .empty ["[Desktop Entry]".toList, "Type=Link".toList,
    "Name=".toList ++ safeName.toList,
        "URL=file://".toList ++ targetPath.toList, "Icon=folder".toList] =
      parseLines Fields.set true .empty ["Type=Link".toList, "Name=".toList ++ safeName.toList,
        "URL=file://".toList ++ targetPath.toList, "Icon=folder".toList] := by
    rw [parseLines, if_pos (by decide), if_neg Bool.false_ne_true]
    rw [show "[Desktop Entry]".toList.isPrefixOf "[Desktop Entry]".toList = true by decide]
  have htype : "Type=Link".toList = 'T' :: ['y', 'p', 'e'] ++ '=' :: "Link".toList := by decide
  have hnameLine : "Name=".toList ++ safeName.toList =
      'N' :: ['a', 'm', 'e'] ++ '=' :: safeName.toList := by
    rw [show "Name=".toList = 'N' :: ['a', 'm', 'e'] ++ ['='] by
      decide, List.append_assoc, List.singleton_append]
  have hurl : "URL=file://".toList ++ targetPath.toList =
      'U' :: ['R', 'L'] ++ '=' :: ("file://" ++ targetPath).toList := by
    rw [show "URL=file://".toList = 'U' :: ['R', 'L'] ++ '=' :: "file://".toList by
      decide, String.toList_append]
    simp only [List.cons_append, List.nil_append]
  have hicon : "Icon=folder".toList = 'I' :: ['c', 'o', 'n'] ++ '=' :: "folder".toList := by decide
  rw [parse, hlines, hopen, htype, hnameLine, hurl, hicon]
  rw [parseLines_key (by decide) (by decide) (by decide) (by decide),
    parseLines_key (by decide) (by decide) (by decide) (by decide),
    parseLines_key (by decide) (by decide) (by decide) (by decide),
    parseLines_key (by decide) (by decide) (by decide) (by decide), parseLines]
  rw [show trimmed ['T', 'y', 'p', 'e'] = "Type" by
    decide, show trimmed ['N', 'a', 'm', 'e'] = "Name" by decide,
    show trimmed ['U', 'R', 'L'] = "URL" by
      decide, show trimmed ['I', 'c', 'o', 'n'] = "Icon" by decide,
    show trimmed "folder".toList = "folder" by decide]
  have hset :
    (((Fields.empty.set "Type" (trimmed "Link".toList)).set "Name" (Text.trim safeName)).set "URL"
      (Text.trim ("file://" ++ targetPath))).set "Icon" "folder" =
      ⟨Text.trim safeName, "folder", "", Text.trim ("file://" ++ targetPath), ""⟩ := by
    generalize Text.trim ("file://" ++ targetPath) = url
    simp [Fields.set, Fields.empty]
  rw [trimmed_toList safeName, trimmed_toList ("file://" ++ targetPath), hset]

theorem noCrLf_line {line : List Char} (h : '\n' ∉ line) (hlast : line.getLast? ≠ some '\r')
    {rest : List Char}
    (hrest : ¬ ['\r', '\n'] <:+: rest) : ¬ ['\r', '\n'] <:+: line ++ '\n' :: rest := by
  induction line with
  | nil =>
      intro hinfix
      rcases List.infix_cons_iff.mp hinfix with hprefix | hinfix
      · exact absurd (List.cons_prefix_cons.mp hprefix).1 (by decide)
      · exact hrest hinfix
  | cons d line ih =>
      obtain ⟨-, hline⟩ := not_or.mp (List.mem_cons.not.mp h)
      intro hinfix
      rcases List.infix_cons_iff.mp hinfix with hprefix | hinfix
      · obtain ⟨rfl, hnext⟩ := List.cons_prefix_cons.mp hprefix
        cases line with
        | nil => exact hlast rfl
        | cons d line => exact hline ((List.cons_prefix_cons.mp hnext).1 ▸ List.mem_cons_self ..)
      · refine ih hline (fun hlast' => hlast ?_) hinfix
        cases line with
        | nil => nomatch hlast'
        | cons d' line => rwa [List.getLast?_cons_cons]

/-- The text has no CR LF, where the values do not end in a CR. -/
theorem noCrLf_shortcutText (hname : '\n' ∉ safeName.toList) (htarget : '\n' ∉ targetPath.toList)
    (hnameEnd : safeName.toList.getLast? ≠ some '\r')
    (htargetEnd : targetPath.toList.getLast? ≠ some '\r') :
    ¬ ['\r', '\n'] <:+: (shortcutText safeName targetPath).toList := by
  have happend {key val : List Char} (hkey : key.getLast? ≠ some '\r')
    (hval : val.getLast? ≠ some '\r') :
      (key ++ val).getLast? ≠ some '\r' := by
    rw [List.getLast?_append]
    cases hlast : val.getLast? with
    | none => rwa [Option.none_or]
    | some c => rwa [Option.some_or, ← hlast]
  rw [shortcutText_toList]
  apply noCrLf_line (by decide) (by decide)
  apply noCrLf_line (by decide) (by decide)
  apply noCrLf_line (by simp [hname]) (happend (by decide) hnameEnd)
  apply noCrLf_line (by simp [htarget]) (happend (by decide) htargetEnd)
  exact noCrLf_line (by decide) (by decide) (by decide)

end Shortcut

end NiraOS.Desktop
