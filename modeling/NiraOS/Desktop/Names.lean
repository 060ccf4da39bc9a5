import NiraOS.Lib.FileTree.Files
import NiraOS.Lib.PathText
import NiraOS.Lib.QString
import NiraOS.Lib.Utf8

/-!
# New items on the desktop

`uniqueName`, `createFile` and `createFolder` of `DesktopIconModel`
(`desktop/shell/src/DesktopIconModel.cpp`), on a file tree.

The name is the first of "New File.txt", "New File (2).txt", … under which nothing is found, or the
10000th, which is not looked for.  To be found, links are followed; so the name is fresh unless

```text
                           createFile              createFolder
a broken link is there     what it leads to is     fails
                           created
all 10000 are taken        the last is truncated   the last, if a directory, is
                                                   taken for the new one
```
-/

namespace NiraOS.Desktop

open FileTree (attempt openTruncate)
open QString (parts arg_append arg_of_parts)
open Utf8 (Bytes)

abbrev Tree := FileTree String Bytes

abbrev Steps := List (Step String)

/-! ## Names -/

/-- `u"%1 (%2)%3"_s.arg(baseName).arg(i).arg(suffix)`. -/
def numbered (baseName suffix : String) (i : ℕ) : String :=
  QString.arg (QString.arg (QString.arg "%1 (%2)%3" baseName) (toString i)) suffix

/-- The loop of `uniqueName`, with so many rounds until the guard. -/
def uniqueNameFrom (taken : String → Bool) (baseName suffix candidate : String) (i : ℕ) : ℕ → String
  | 0 => candidate
  | more + 1 =>
      if taken candidate then
        uniqueNameFrom taken baseName suffix (numbered baseName suffix i) (i + 1) more
      else candidate

section Paths

variable (limit : ℕ) (desktopPath : List String) (t : Tree)

/-- `QDir::absoluteFilePath`: a name may be a path. -/
def absoluteFilePath (name : String) : Steps :=
  match name.toList with
  | '/' :: body => ((body.splitOn '/').map String.ofList).map PathText.step
  | chars => desktopPath.map .down ++ ((chars.splitOn '/').map String.ofList).map PathText.step

/-- `QDir::exists`, links followed. -/
def dirExists (name : String) : Bool :=
  name ≠ "" && (t.seek limit (absoluteFilePath desktopPath name)).isSome

def uniqueName (baseName suffix : String) : String :=
  uniqueNameFrom (dirExists limit desktopPath t) baseName suffix (baseName ++ suffix) 2 9999

def isDir (path : Steps) : Bool :=
  match t.seek limit path with
  | some p => t.node p = some .dir
  | none => false

/-! ## Creating -/

/-- `createFile`: the name that was created, and the tree then. -/
def createFile (ok : Bool) : Option String × Tree :=
  let name := uniqueName limit desktopPath t "New File" ".txt"
  match attempt ok (openTruncate limit t (absoluteFilePath desktopPath name)) with
  | none => (none, t)
  | some (_, t) => (some name, t)

/-- One directory of `mkpath`. -/
def mkdir (ok : Bool) (path : Steps) : Bool × Tree :=
  if isDir limit t path then (true, t)
  else
    match attempt ok ((t.place limit path).bind fun p => t.tryInsert p .dir) with
    | none => (false, t)
    | some t => (true, t)

/-- `QDir::mkpath`, behind the steps that are done. -/
def mkpath (ok : ℕ → Bool) (done : Steps) (t : Tree) : Steps → Bool × Tree
  | [] => (true, t)
  | step :: rest =>
      match mkdir limit t (ok done.length) (done ++ [step]) with
      | (false, t) => (false, t)
      | (true, t) => mkpath ok (done ++ [step]) t rest

def createFolder (ok : ℕ → Bool) : Option String × Tree :=
  let name := uniqueName limit desktopPath t "New Folder" ""
  match mkpath limit ok [] t (absoluteFilePath desktopPath name) with
  | (false, t) => (none, t)
  | (true, t) => (some name, t)

/-! ## What should hold -/

/-- An entry is there, if only a broken link. -/
def isOccupied (path : Steps) : Bool :=
  (t.seek limit path).isSome || ((t.place limit path).bind t.node).isSome

/-- The names that `uniqueName` may come to: the first is not numbered. -/
def candidate (baseName suffix : String) (k : ℕ) : String :=
  if k = 1 then baseName ++ suffix else numbered baseName suffix k

/-- The first candidate that is not found, or else the 10000th. -/
def FirstFree (baseName suffix name : String) : Prop :=
  ∃ k, 1 ≤ k ∧ k ≤ 10000 ∧ name = candidate baseName suffix k ∧
    (∀ j, 1 ≤ j → j < k → dirExists limit desktopPath t (candidate baseName suffix j) = true) ∧
    (dirExists limit desktopPath t name = true → k = 10000)

/-- Exactly one entry is new, in the directory under the name, and all else is as it was; or all is.
-/
def Harmless (n : Node String Bytes) (result : Option String × Tree) : Prop :=
  match result with
  | (none, t') => t'.node = t.node
  | (some name, t') => ∃ d, t.seek limit (desktopPath.map .down) = some d ∧
      t.node (d ++ [name]) = none ∧
      t'.node = Function.update t.node (d ++ [name]) (some n)

end Paths

/-! ## The text of a numbered name -/

section Text

variable {base : String}

theorem isDigit_of_mem_toString {i : ℕ} {c : Char} (h : c ∈ (toString i).toList) :
    c.isDigit = true := by
  have htoDigits : (toString i).toList = Nat.toDigits 10 i := by
    rw [Nat.toString_eq_repr, Nat.repr, String.toList_ofList]
  rw [htoDigits] at h
  exact Nat.isDigit_of_mem_toDigits (by decide) (by decide) h

theorem arg_first (value : String) :
    QString.arg "%1 (%2)%3" value = String.ofList (value.toList ++ " (%2)%3".toList) := by
  have hparts : parts "%1 (%2)%3".length "%1 (%2)%3".toList =
      [.inr (1, ['%', '1']), .inl ' ', .inl '(', .inr (2, ['%', '2']), .inl ')',
        .inr (3, ['%', '3'])] := by
    decide
  rw [arg_of_parts 1 hparts (by decide)]
  simp

theorem arg_second (value : String) :
    QString.arg " (%2)%3" value = String.ofList (" (".toList ++ value.toList ++ ")%3".toList) := by
  have hparts : parts " (%2)%3".length " (%2)%3".toList =
      [.inl ' ', .inl '(', .inr (2, ['%', '2']), .inl ')', .inr (3, ['%', '3'])] := by
    decide
  rw [arg_of_parts 2 hparts (by decide)]
  simp

theorem arg_third (value : String) : QString.arg "%3" value = value := by
  have hparts : parts "%3".length "%3".toList = [.inr (3, ['%', '3'])] := by decide
  rw [arg_of_parts 3 hparts (by decide)]
  simp

theorem numbered_eq (h : '%' ∉ base.toList) (suffix : String) (i : ℕ) :
    numbered base suffix i =
      String.ofList (base.toList ++ " (".toList ++ (toString i).toList ++ [')'] ++
        suffix.toList) := by
  have hdigits : '%' ∉ base.toList ++ " (".toList ++ (toString i).toList ++ [')'] := by
    simp only [List.mem_append, not_or]
    refine ⟨⟨⟨h, by decide⟩, fun hmem => ?_⟩, by decide⟩
    exact absurd (isDigit_of_mem_toString hmem) (by decide)
  calc numbered base suffix i
      = QString.arg (QString.arg (String.ofList (base.toList ++ " (%2)%3".toList)) (toString i))
        suffix := by
        rw [numbered, arg_first]
    _ = QString.arg (String.ofList ((base.toList ++ " (".toList ++ (toString i).toList ++ [')']) ++
      "%3".toList)) suffix := by
        rw [arg_append h, String.ofList_toList, arg_second]
        simp
    _ = String.ofList (base.toList ++ " (".toList ++ (toString i).toList ++ [')'] ++
      suffix.toList) := by
        rw [arg_append hdigits, String.ofList_toList, arg_third]

end Text

/-! ## The name that is found -/

section UniqueName

variable {limit : ℕ} {desktopPath : List String} {t : Tree} {base suffix name name' : String}
    {k more : ℕ}

theorem uniqueNameFrom_spec (taken : String → Bool) (base suffix : String) (hk : 1 ≤ k)
    (hmore : k + more = 10000)
    (hbefore : ∀ j, 1 ≤ j → j < k → taken (candidate base suffix j) = true) :
    ∃ k', 1 ≤ k' ∧ k' ≤ 10000 ∧
      uniqueNameFrom taken base suffix (candidate base suffix k) (k + 1) more =
        candidate base suffix k' ∧
      (∀ j, 1 ≤ j → j < k' → taken (candidate base suffix j) = true) ∧
      (taken (candidate base suffix k') = true → k' = 10000) := by
  induction more generalizing k with
  | zero => exact ⟨k, hk, by omega, rfl, hbefore, fun _ => by omega⟩
  | succ more ih =>
      by_cases htaken : taken (candidate base suffix k) = true
      · have hnext : candidate base suffix (k + 1) = numbered base suffix (k + 1) :=
          if_neg (by omega)
        rw [uniqueNameFrom, if_pos htaken, ← hnext]
        apply ih (by omega) (by omega)
        intro j hj hjk
        rcases Nat.lt_succ_iff_lt_or_eq.mp hjk with hlt | rfl
        · exact hbefore j hj hlt
        · exact htaken
      · rw [uniqueNameFrom, if_neg htaken]
        exact ⟨k, hk, by omega, rfl, hbefore, fun h => absurd h htaken⟩

theorem firstFree_uniqueName (limit : ℕ) (desktopPath : List String) (t : Tree)
    (base suffix : String) :
    FirstFree limit desktopPath t base suffix (uniqueName limit desktopPath t base suffix) := by
  obtain ⟨k, hk, hle, hname, hbefore, hlast⟩ := uniqueNameFrom_spec (dirExists limit desktopPath t)
    base suffix (Nat.le_refl 1) (by omega : 1 + 9999 = 10000) fun j hj hlt => by omega
  exact ⟨k, hk, hle, hname, hbefore, fun h => hlast (hname ▸ h)⟩

theorem FirstFree.unique (h : FirstFree limit desktopPath t base suffix name)
    (h' : FirstFree limit desktopPath t base suffix name') : name = name' := by
  obtain ⟨k, hk, hle, rfl, hbefore, hlast⟩ := h
  obtain ⟨k', hk', hle', rfl, hbefore', hlast'⟩ := h'
  rcases Nat.lt_trichotomy k k' with hlt | rfl | hlt
  · have hend := hlast (hbefore' k hk hlt)
    omega
  · rfl
  · have hend := hlast' (hbefore k' hk' hlt)
    omega

/-- The name is the one that there is. -/
theorem exists_firstFree_iff (P : String → Prop) :
    (∃ name, FirstFree limit desktopPath t base suffix name ∧ P name) ↔
      P (uniqueName limit desktopPath t base suffix) := by
  have hfirst := firstFree_uniqueName limit desktopPath t base suffix
  constructor
  · rintro ⟨name, hname, h⟩
    rwa [← hname.unique hfirst]
  · intro h
    exact ⟨_, hfirst, h⟩

end UniqueName

/-! ## Its path -/

section Paths

variable {limit : ℕ} {desktopPath : List String} {t : Tree} {base suffix name : String} {k : ℕ}
  {pre path : Steps} {d p : List String}

/-- A name that is no path. -/
def Plain (name : String) : Prop := '/' ∉ name.toList ∧ 3 ≤ name.toList.length

theorem absoluteFilePath_of_plain (h : Plain name) :
    absoluteFilePath desktopPath name = desktopPath.map .down ++ [.down name] := by
  obtain ⟨hslash, hlong⟩ := h
  have hsplit : name.toList.splitOn '/' = [name.toList] := by
    rw [List.splitOn_eq_splitOnP]
    apply List.splitOnP_eq_singleton
    intro c hc
    exact beq_false_of_ne fun heq => hslash (heq ▸ hc)
  have hstep : PathText.step name = .down name := by
    have hshort (short : String) (h : short.toList.length < 3) : name ≠ short := by
      rintro rfl
      omega
    have htrivial : PathText.isTrivial name = false := by
      simp [PathText.isTrivial, hshort "" (by decide), hshort "." (by decide)]
    rw [PathText.step, htrivial, if_neg Bool.false_ne_true, if_neg (hshort ".." (by decide))]
  unfold absoluteFilePath
  split
  · next body hname => exact absurd (hname ▸ List.mem_cons_self ..) hslash
  · rw [hsplit]
    simp [hstep]

theorem plain_candidate (hbase : '/' ∉ base.toList) (hpercent : '%' ∉ base.toList)
    (hlong : 3 ≤ base.toList.length)
    (hsuffix : '/' ∉ suffix.toList) (k : ℕ) : Plain (candidate base suffix k) := by
  unfold candidate
  split_ifs
  · refine ⟨?_, ?_⟩
    · simp [hbase, hsuffix]
    · simp only [String.toList_append, List.length_append]
      omega
  · rw [numbered_eq hpercent]
    refine ⟨?_, ?_⟩
    · have hdigits : '/' ∉ (toString k).toList :=
        fun hmem => absurd (isDigit_of_mem_toString hmem) (by decide)
      simp only [String.toList_ofList, List.mem_append, not_or]
      exact ⟨⟨⟨⟨hbase, by decide⟩, hdigits⟩, by decide⟩, hsuffix⟩
    · simp only [String.toList_ofList, List.length_append]
      omega

/-- What is above a path that leads somewhere is a directory. -/
theorem isDir_of_append {rest : Steps} (h : isDir limit t (path ++ rest) = true) :
    isDir limit t path = true := by
  cases rest with
  | nil => rwa [List.append_nil] at h
  | cons step rest =>
      unfold isDir at h
      split at h
      · next p hp =>
          obtain ⟨d, hd, hdir⟩ := FileTree.exists_seek_of_append hp
          simp [isDir, hd, hdir]
      · nomatch h

theorem isDir_iff : isDir limit t path = true ↔
    ∃ d, t.seek limit path = some d ∧ t.node d = some .dir := by
  unfold isDir
  cases t.seek limit path with
  | none => simp
  | some d => simp

/-- Directories that are there are passed. -/
theorem mkpath_append {ok : ℕ → Bool} {path rest : Steps} (h : isDir limit t (pre ++ path) = true) :
    mkpath limit ok pre t (path ++ rest) = mkpath limit ok (pre ++ path) t rest := by
  induction path generalizing pre with
  | nil => rw [List.nil_append, List.append_nil]
  | cons step path ih =>
      have hstep : isDir limit t (pre ++ [step] ++ path) = true := by rwa [List.append_assoc]
      have hpass : mkdir limit t (ok pre.length) (pre ++ [step]) = (true, t) :=
        if_pos (isDir_of_append hstep)
      rw [List.cons_append, mkpath, hpass]
      dsimp only
      rw [ih hstep, List.append_assoc]
      rfl

/-- What is at the place of a path is at least an entry there. -/
theorem isOccupied_iff (hp : t.place limit path = some p) :
    isOccupied limit t path = true ↔ t.node p ≠ none := by
  unfold isOccupied
  rw [hp, Option.bind_some, Bool.or_eq_true, Option.isSome_iff_ne_none, Option.isSome_iff_ne_none]
  constructor
  · rintro (hseek | hnode)
    · obtain ⟨q, hq⟩ := Option.ne_none_iff_exists'.mp hseek
      exact FileTree.node_of_seek hq hp
    · exact hnode
  · exact .inr

end Paths

/-! ## What is created -/

section Creating

variable {limit : ℕ} {desktopPath : List String} {t : Tree} {d : List String} {name : String}

/-- The desktop's directory, and the place of a plain name in it. -/
theorem place_of_plain (hd : t.seek limit (desktopPath.map .down) = some d)
    (hdir : t.node d = some .dir)
    (h : Plain name) : t.place limit (absoluteFilePath desktopPath name) = some (d ++ [name]) := by
  rw [absoluteFilePath_of_plain h]
  exact FileTree.place_concat.mpr ⟨d, hd, hdir, rfl⟩

theorem harmless_createFile_iff (hdesktop : isDir limit t (desktopPath.map .down) = true)
    (ok : Bool) :
    Harmless limit desktopPath t (.file []) (createFile limit desktopPath t ok) ↔
      isOccupied limit t (absoluteFilePath desktopPath
        (uniqueName limit desktopPath t "New File" ".txt")) = false ∨
        attempt ok (openTruncate limit t
          (absoluteFilePath desktopPath (uniqueName limit desktopPath t "New File" ".txt"))) =
          none := by
  obtain ⟨d, hd, hdir⟩ := isDir_iff.mp hdesktop
  have hplain : Plain (uniqueName limit desktopPath t "New File" ".txt") := by
    obtain ⟨k, -, -, hname, -, -⟩ := firstFree_uniqueName limit desktopPath t "New File" ".txt"
    rw [hname]
    exact plain_candidate (by decide) (by decide) (by decide) (by decide) k
  have hplace := place_of_plain hd hdir hplain
  unfold createFile
  generalize uniqueName limit desktopPath t "New File" ".txt" = name at hplain hplace ⊢
  rw [← Bool.not_eq_true, isOccupied_iff hplace, not_not]
  dsimp only
  cases hopen : attempt ok (openTruncate limit t (absoluteFilePath desktopPath name)) with
  | none => exact iff_of_true rfl (.inr rfl)
  | some opened =>
      obtain ⟨q, t'⟩ := opened
      obtain ⟨-, hopened⟩ := FileTree.attempt_eq_some hopen
      constructor
      · rintro ⟨d', hd', hfree, -⟩
        obtain rfl := Option.some.inj (hd.symm.trans hd')
        exact .inl hfree
      · rintro (hfree | hnone)
        · refine ⟨d, hd, hfree, ?_⟩
          unfold openTruncate at hopened
          split at hopened
          · next p hp => exact absurd hfree (FileTree.node_of_seek hp hplace)
          · rw [FileTree.landing_of_place hplace hfree, Option.bind_some] at hopened
            obtain ⟨t₁, ht₁, heq⟩ := Option.map_eq_some_iff.mp hopened
            obtain ⟨-, rfl⟩ := Prod.mk.inj heq
            exact (FileTree.tryInsert_eq_some ht₁).2.2
        · nomatch hnone

theorem harmless_createFolder_iff (hdesktop : isDir limit t (desktopPath.map .down) = true)
    (ok : ℕ → Bool) :
    Harmless limit desktopPath t .dir (createFolder limit desktopPath t ok) ↔
      isDir limit t (absoluteFilePath desktopPath
        (uniqueName limit desktopPath t "New Folder" "")) = false := by
  obtain ⟨d, hd, hdir⟩ := isDir_iff.mp hdesktop
  have hplain : Plain (uniqueName limit desktopPath t "New Folder" "") := by
    obtain ⟨k, -, -, hname, -, -⟩ := firstFree_uniqueName limit desktopPath t "New Folder" ""
    rw [hname]
    exact plain_candidate (by decide) (by decide) (by decide) (by decide) k
  have hplace := place_of_plain hd hdir hplain
  unfold createFolder
  generalize uniqueName limit desktopPath t "New Folder" "" = name at hplain hplace ⊢
  dsimp only
  rw [absoluteFilePath_of_plain hplain] at hplace ⊢
  rw [mkpath_append hdesktop, List.nil_append, mkpath, mkdir]
  cases hisDir : isDir limit t (desktopPath.map .down ++ [.down name]) with
  | true =>
      -- the directory that is there is taken for the new one
      refine iff_of_false ?_ nofun
      rintro ⟨d', hd', hfree, -⟩
      obtain rfl := Option.some.inj (hd.symm.trans hd')
      obtain ⟨q, hq, -⟩ := isDir_iff.mp hisDir
      exact FileTree.node_of_seek hq hplace hfree
  | false =>
      refine iff_of_true ?_ rfl
      rw [if_neg Bool.false_ne_true, hplace, Option.bind_some]
      cases hmade : attempt (ok (desktopPath.map Step.down).length)
        (t.tryInsert (d ++ [name]) .dir) with
      | none => rfl
      | some t' =>
          obtain ⟨-, hinsert⟩ := FileTree.attempt_eq_some hmade
          obtain ⟨-, hfree, hnode⟩ := FileTree.tryInsert_eq_some hinsert
          exact ⟨d, hd, hfree, hnode⟩

end Creating

section Main

variable (limit : ℕ) (desktopPath : List String) (t : Tree)

/-- **Creating items**: the name is fresh, and an existing item is left alone, if and only if the
first name under which nothing is found, or else the 10000th, is one that nothing is done to. -/
theorem fresh_iff (hdesktop : isDir limit t (desktopPath.map .down) = true) :
    (∀ base suffix, isOccupied limit t
      (absoluteFilePath desktopPath (uniqueName limit desktopPath t base suffix)) = false ↔
      ∃ name, FirstFree limit desktopPath t base suffix name ∧
        isOccupied limit t (absoluteFilePath desktopPath name) = false) ∧
    (∀ ok, Harmless limit desktopPath t (.file []) (createFile limit desktopPath t ok) ↔
      ∃ name, FirstFree limit desktopPath t "New File" ".txt" name ∧
        (isOccupied limit t (absoluteFilePath desktopPath name) = false ∨
          attempt ok (openTruncate limit t (absoluteFilePath desktopPath name)) = none)) ∧
    ∀ ok, Harmless limit desktopPath t .dir (createFolder limit desktopPath t ok) ↔
      ∃ name, FirstFree limit desktopPath t "New Folder" "" name ∧
        isDir limit t (absoluteFilePath desktopPath name) = false := by
  refine ⟨fun base suffix => ?_, fun ok => ?_, fun ok => ?_⟩
  · exact (exists_firstFree_iff fun name => isOccupied limit t (absoluteFilePath desktopPath name) =
      false).symm
  · rw [harmless_createFile_iff hdesktop]
    exact (exists_firstFree_iff fun name => isOccupied limit t (absoluteFilePath desktopPath name) =
      false ∨
      attempt ok (openTruncate limit t (absoluteFilePath desktopPath name)) = none).symm
  · rw [harmless_createFolder_iff hdesktop]
    exact (exists_firstFree_iff fun name => isDir limit t (absoluteFilePath desktopPath name) =
      false).symm

end Main

/-- A desktop with a file on it. -/
def withFile : Tree :=
  (FileTree.empty.insert ["d"] .dir rfl rfl).insert ["d", "New File.txt"] (.file [1]) rfl rfl

theorem fresh_withFile : Harmless 0 ["d"] withFile (.file [])
    (createFile 0 ["d"] withFile true) := by
  refine ((fresh_iff 0 ["d"] withFile (by decide)).2.1 true).mpr ⟨"New File (2).txt", ?_,
    .inl (by decide +kernel)⟩
  refine ⟨2, by omega, by omega, by decide +kernel, fun j hj hlt => ?_, by decide +kernel⟩
  obtain rfl : j = 1 := by omega
  decide +kernel

/-- A desktop with a broken link under the first name. -/
def withBrokenLink : Tree :=
  (FileTree.empty.insert ["d"] .dir rfl rfl).insert ["d",
    "New File.txt"] (.link ⟨true, [.down "gone"]⟩) rfl rfl

/-- The name is the one of the link, and the file is created where it leads. -/
theorem not_fresh_withBrokenLink :
    isOccupied 1 withBrokenLink
      (absoluteFilePath ["d"] (uniqueName 1 ["d"] withBrokenLink "New File" ".txt")) = true ∧
      ¬ Harmless 1 ["d"] withBrokenLink (.file []) (createFile 1 ["d"] withBrokenLink true) := by
  have hoccupied : isOccupied 1 withBrokenLink
      (absoluteFilePath ["d"] (uniqueName 1 ["d"] withBrokenLink "New File" ".txt")) = true := by
    decide +kernel
  refine ⟨hoccupied, ?_⟩
  rw [harmless_createFile_iff (by decide +kernel), hoccupied]
  rintro (hfree | hfails)
  · nomatch hfree
  · have hopens : (attempt true (openTruncate 1 withBrokenLink
        (absoluteFilePath ["d"] (uniqueName 1 ["d"] withBrokenLink "New File" ".txt")))).isSome =
          true := by
      decide +kernel
    rw [hfails] at hopens
    nomatch hopens

end NiraOS.Desktop
