import NiraOS.Lib.Decimal
import NiraOS.Lib.Fields
import Mathlib.Data.List.Sort

/-!
# The users that may log in

The greeter reads `/etc/passwd` (`desktop/greeter/src/UserModel.cpp`) and offers those users that
are people and have a shell to log in to, in the order of their numbers.

A line that is blank or a comment is skipped, and so is one of less than seven fields, one whose
user number is none or is out of range, and one whose shell is of no use.  Of a file that is written
by the book (`PasswdLine`), each account that may log in comes out as it went in, and nothing else
does (`parsePasswd_text`).  `std::sort` is not stable, but if no two of these accounts have one
number there is one list that it may leave (`listed_iff`).
-/

namespace NiraOS.Greeter.UserModel

open Text Fields

def DEFAULT_AVATAR : String := "file:///usr/share/niraos/avatar-default.jpg"

def VALID_SHELLS : List String :=
  ["/bin/bash", "/bin/zsh", "/bin/fish", "/bin/sh", "/bin/dash", "/usr/bin/bash", "/usr/bin/zsh",
    "/usr/bin/fish",
    "/usr/bin/sh"]

structure UserEntry where
  username : String
  displayName : String
  uid : ℕ
  homeDir : String
  shell : String
  avatarPath : String
  deriving DecidableEq

/-! ## Reading the file -/

/-- `QString::toUInt`: blanks around the number and a plus before it are allowed. -/
def toUInt (text : String) : Option ℕ :=
  let digits :=
    match (trim text).toList with
    | '+' :: digits => digits
    | digits => digits
  if digits ≠ [] ∧ digits.all Char.isDigit = true ∧ Nat.ofDigitChars 10 digits 0 < 2 ^ 32 then
    some (Nat.ofDigitChars 10 digits 0)
  else none

section Parsing

-- `QFileInfo::exists`
variable (fileExists : String → Bool)

def isValidShell (shell : String) : Bool :=
  if shell = "" || shell = "/sbin/nologin" || shell = "/usr/sbin/nologin" || shell =
    "/usr/bin/nologin" ||
      shell = "/bin/false" || shell = "/usr/bin/false" then
    false
  else if VALID_SHELLS.contains shell then true
  else fileExists shell

/-- The first part of the GECOS field, or the name. -/
def displayNameOf (username gecos : String) : String :=
  let displayName := (fields ',' (trim gecos)).headD ""
  if displayName = "" then username else displayName

/-- One line of the file, if it makes an entry. -/
def parseLine (line : String) : Option UserEntry :=
  let line := trim line
  if line = "" ∨ line.toList.head? = some '#' then none
  else
    match fields ':' line with
    | username :: _ :: number :: _ :: gecos :: homeDir :: shell :: _ =>
        match toUInt number with
        | none => none
        | some uid =>
            if uid < 1000 ∨ 60000 ≤ uid then none
            else if isValidShell fileExists (trim shell) then
              some ⟨username, displayNameOf username gecos, uid, homeDir, trim shell,
                DEFAULT_AVATAR⟩
            else none
    | _ => none

def parsePasswd (text : String) : List UserEntry := (lines text).filterMap (parseLine fileExists)

/-- What `std::sort` may make of the entries: it is not stable. -/
def Listed (text : String) (users : List UserEntry) : Prop :=
  users.Perm (parsePasswd fileExists text) ∧ users.Pairwise fun a b => a.uid ≤ b.uid

end Parsing

/-! ## Files by the book -/

structure Account where
  name : String
  password : String
  uid : ℕ
  gid : String
  gecos : String
  homeDir : String
  shell : String

inductive PasswdLine
  | account (a : Account)
  | comment (text : String)
  | blank (text : String)

def Account.parts (a : Account) : List String :=
  [a.name, a.password, Nat.repr a.uid, a.gid, a.gecos, a.homeDir, a.shell]

def PasswdLine.text : PasswdLine → String
  | .account a => join ':' a.parts
  | .comment text => "#" ++ text
  | .blank text => text

/-- A name that starts with neither a blank nor `#`, a shell without blanks around it, and no field
with a colon or the end of a line in it. -/
structure Account.ByTheBook (a : Account) : Prop where
  name : a.name.toList.head?.any (fun c => !isWhitespace c && c != '#') = true
  shell : trim a.shell = a.shell
  parts : ∀ part ∈ a.parts, ':' ∉ part.toList ∧ '\n' ∉ part.toList

def PasswdLine.ByTheBook : PasswdLine → Prop
  | .account a => a.ByTheBook
  | .comment text => '\n' ∉ text.toList
  | .blank text => isBlank text = true ∧ '\n' ∉ text.toList

instance (a : Account) : Decidable a.ByTheBook :=
  decidable_of_iff (a.name.toList.head?.any (fun c => !isWhitespace c && c != '#') = true ∧
    trim a.shell = a.shell ∧
      ∀ part ∈ a.parts, ':' ∉ part.toList ∧ '\n' ∉ part.toList)
    ⟨fun ⟨h, h', h''⟩ => ⟨h, h', h''⟩, fun h => ⟨h.name, h.shell, h.parts⟩⟩

instance : ∀ line : PasswdLine, Decidable line.ByTheBook
  | .account a => inferInstanceAs (Decidable a.ByTheBook)
  | .comment text => inferInstanceAs (Decidable ('\n' ∉ text.toList))
  | .blank text => inferInstanceAs (Decidable (isBlank text = true ∧ '\n' ∉ text.toList))

def Account.mayLogIn (fileExists : String → Bool) (a : Account) : Bool :=
  1000 ≤ a.uid && a.uid < 60000 && isValidShell fileExists a.shell

def Account.entry (a : Account) : UserEntry :=
  ⟨a.name, displayNameOf a.name a.gecos, a.uid, a.homeDir, a.shell, DEFAULT_AVATAR⟩

/-- The account of a line, if it may log in. -/
def PasswdLine.account? (fileExists : String → Bool) : PasswdLine → Option Account
  | .account a => if a.mayLogIn fileExists then some a else none
  | .comment _ | .blank _ => none

/-! ## Reading what was written -/

theorem isDigit_bounds {c : Char} (h : c.isDigit = true) : isWhitespace c = false ∧ c ≠ '+' := by
  have hrange : 48 ≤ c.toNat ∧ c.toNat ≤ 57 := Char.isDigit_iff_toNat.mp h
  constructor
  · simp only [isWhitespace, Bool.or_eq_false_iff, Bool.and_eq_false_iff, decide_eq_false_iff_not,
      beq_eq_false_iff_ne]
    omega
  · rintro rfl
    exact absurd h (by decide)

/-- A number is read as it was written. -/
theorem toUInt_repr (n : ℕ) : toUInt (Nat.repr n) = if n < 2 ^ 32 then some n else none := by
  have hall : ∀ c ∈ Nat.toDigits 10 n, c.isDigit = true :=
    fun c hc => Nat.isDigit_of_mem_toDigits (by decide) (by decide) hc
  have htrim : trim (Nat.repr n) = Nat.repr n := by
    apply trim_eq_self
    · intro c hc
      exact (isDigit_bounds (hall c (Nat.toList_repr ▸ List.mem_of_mem_head? hc))).1
    · intro c hc
      exact (isDigit_bounds (hall c (Nat.toList_repr ▸ List.mem_of_getLast? hc))).1
  have hsign : (match Nat.toDigits 10 n with
      | '+' :: digits => digits
      | digits => digits) = Nat.toDigits 10 n := by
    split
    · next digits heq =>
        have hplus := hall '+' (by rw [heq]; exact List.mem_cons_self)
        exact absurd rfl (isDigit_bounds hplus).2
    · rfl
  rw [toUInt, htrim, Nat.toList_repr, hsign, Nat.ofDigitChars_toDigits (by decide) (by decide)]
  by_cases hn : n < 2 ^ 32
  · rw [if_pos ⟨Nat.toDigits_ne_nil, List.all_eq_true.mpr hall, hn⟩, if_pos hn]
  · rw [if_neg fun h => hn h.2.2, if_neg hn]

section Lines

variable {fileExists : String → Bool} {a : Account}

theorem Account.ByTheBook.head (h : a.ByTheBook) :
    ∃ c rest, a.name.toList = c :: rest ∧ isWhitespace c = false ∧ c ≠ '#' := by
  obtain ⟨c, hhead, hc⟩ := (Option.any_eq_true _ _).mp h.name
  obtain ⟨rest, hname⟩ := List.head?_eq_some_iff.mp hhead
  rw [Bool.and_eq_true, Bool.not_eq_true', bne_iff_ne] at hc
  exact ⟨c, rest, hname, hc.1, hc.2⟩

/-- The line of an account has nothing to trim. -/
theorem trim_text (h : a.ByTheBook) : trim (join ':' a.parts) = join ':' a.parts := by
  obtain ⟨c, rest, hname, hc, -⟩ := h.head
  obtain ⟨middle, hchars⟩ : ∃ middle,
      (join ':' a.parts).toList = a.name.toList ++ middle ++ ':' :: a.shell.toList := by
    refine ⟨':' :: [':'].intercalate
      ([a.password, Nat.repr a.uid, a.gid, a.gecos, a.homeDir].map String.toList), ?_⟩
    rw [join, String.toList_ofList, Account.parts]
    simp [List.intercalate]
  apply trim_eq_self
  · rw [hchars, hname]
    intro d hd
    rwa [← Option.some.inj hd]
  · intro d hd
    rw [hchars, List.getLast?_append, List.getLast?_cons, Option.some_or] at hd
    have hlast := getLast_of_trim h.shell
    cases hshell : a.shell.toList.getLast? with
    | none =>
        rw [hshell] at hd
        obtain rfl := Option.some.inj hd
        decide
    | some e =>
        rw [hshell] at hd
        obtain rfl := Option.some.inj hd
        exact hlast e hshell

/-- **An account** is read as it was written, if it may log in. -/
theorem parseLine_account (h : a.ByTheBook) :
    parseLine fileExists (join ':' a.parts) = if a.mayLogIn fileExists then some a.entry
      else none := by
  have hskipped : ¬ (join ':' a.parts = "" ∨ (join ':' a.parts).toList.head? = some '#') := by
    obtain ⟨c, rest, hname, -, hcomment⟩ := h.head
    have hhead : (join ':' a.parts).toList.head? = some c := by
      rw [join, String.toList_ofList, Account.parts]
      simp [List.intercalate, hname]
    rintro (hempty | hhash)
    · rw [hempty] at hhead
      cases hhead
    · exact hcomment (Option.some.inj (hhead.symm.trans hhash))
  have hfields : fields ':' (join ':' a.parts) = a.parts :=
    fields_join (List.cons_ne_nil _ _) fun part hpart => (h.parts part hpart).1
  rw [parseLine, trim_text h, if_neg hskipped, hfields, Account.parts]
  dsimp only
  rw [toUInt_repr, h.shell]
  by_cases hrange : 1000 ≤ a.uid ∧ a.uid < 60000
  · have hmay : a.mayLogIn fileExists = isValidShell fileExists a.shell := by
      rw [Account.mayLogIn, decide_eq_true hrange.1, decide_eq_true hrange.2, Bool.true_and,
        Bool.true_and]
    rw [if_pos (by omega), hmay]
    exact if_neg (by omega)
  · have hmay : a.mayLogIn fileExists = false := by
      rw [Account.mayLogIn, ← Bool.decide_and, decide_eq_false hrange, Bool.false_and]
    rw [hmay, if_neg Bool.false_ne_true]
    by_cases hword : a.uid < 2 ^ 32
    · rw [if_pos hword]
      exact if_pos (by omega)
    · rw [if_neg hword]

theorem parseLine_comment (text : String) : parseLine fileExists ("#" ++ text) = none := by
  have hchars : "#" ++ text = String.ofList ('#' :: text.toList) := by
    apply String.toList_injective
    rw [String.toList_append, String.toList_ofList]
    show ['#'] ++ text.toList = _
    rw [List.singleton_append, String.toList_ofList]
  have hhash : isWhitespace '#' = false := by decide
  obtain ⟨rest, hrest⟩ := toList_trim_cons text.toList hhash
  rw [parseLine, hchars, hrest]
  exact if_pos (Or.inr rfl)

theorem parseLine_blank {text : String} (h : isBlank text = true) :
    parseLine fileExists text = none := by
  rw [parseLine, trim_of_blank h]
  exact if_pos (Or.inl rfl)

/-- **One line** makes the entry of its account, if it has one that may log in. -/
theorem parseLine_text {line : PasswdLine} (h : line.ByTheBook) :
    parseLine fileExists line.text = (line.account? fileExists).map Account.entry := by
  cases line with
  | account a =>
      rw [PasswdLine.text, parseLine_account h, PasswdLine.account?]
      split_ifs
      · rfl
      · rfl
  | comment text => exact parseLine_comment text
  | blank text => exact parseLine_blank h.1

theorem newline_not_mem {line : PasswdLine} (h : line.ByTheBook) : '\n' ∉ line.text.toList := by
  cases line with
  | account a =>
      intro hmem
      rcases mem_join hmem with hcolon | ⟨part, hpart, hnewline⟩
      · exact absurd hcolon (by decide)
      · exact (h.parts part hpart).2 hnewline
  | comment text =>
      show '\n' ∉ ("#" ++ text).toList
      rw [String.toList_append, List.mem_append, not_or]
      exact ⟨by decide, h⟩
  | blank text => exact h.2

end Lines

/-- **A file by the book**: the accounts that may log in come out as they went in, and nothing else
does. -/
theorem parsePasswd_text (fileExists : String → Bool) {file : List PasswdLine}
    (h : ∀ line ∈ file, line.ByTheBook) :
    parsePasswd fileExists (unlines (file.map PasswdLine.text)) =
      (file.filterMap (PasswdLine.account? fileExists)).map Account.entry := by
  have hlines : lines (unlines (file.map PasswdLine.text)) = file.map PasswdLine.text ++ [""] := by
    apply lines_unlines
    intro text htext
    obtain ⟨line, hline, rfl⟩ := List.mem_map.mp htext
    exact newline_not_mem (h line hline)
  have hlast : parseLine fileExists "" = none := parseLine_blank rfl
  calc parsePasswd fileExists (unlines (file.map PasswdLine.text))
      = (file.map PasswdLine.text).filterMap (parseLine fileExists) := by
        rw [parsePasswd, hlines, List.filterMap_append, List.filterMap_cons, hlast,
          List.filterMap_nil,
          List.append_nil]
    _ = file.filterMap fun line => (line.account? fileExists).map Account.entry := by
        rw [List.filterMap_map]
        exact List.filterMap_congr fun line hline => parseLine_text (h line hline)
    _ = (file.filterMap (PasswdLine.account? fileExists)).map Account.entry :=
      List.map_filterMap.symm

/-! ## The order of the users -/

def Account.Before (a b : Account) : Prop := a.uid ≤ b.uid

instance (a b : Account) : Decidable (a.Before b) := inferInstanceAs (Decidable (a.uid ≤ b.uid))

instance : Std.Total Account.Before := ⟨fun a b => Nat.le_total a.uid b.uid⟩

instance : IsTrans Account Account.Before := ⟨fun _ _ _ => Nat.le_trans⟩

/-- The accounts that may log in, by their numbers. -/
def people (fileExists : String → Bool) (file : List PasswdLine) : List Account :=
  (file.filterMap (PasswdLine.account? fileExists)).insertionSort Account.Before

/-- **The users that are offered** are the people that may log in, each with the data of the file,
in the order of their numbers. -/
theorem listed_iff (fileExists : String → Bool) {file : List PasswdLine}
    (h : ∀ line ∈ file, line.ByTheBook)
    (hdistinct : ((file.filterMap (PasswdLine.account? fileExists)).map Account.uid).Nodup)
    (users : List UserEntry) :
    Listed fileExists (unlines (file.map PasswdLine.text)) users ↔
      users = (people fileExists file).map Account.entry := by
  have hperm : ((people fileExists file).map Account.entry).Perm
      ((file.filterMap (PasswdLine.account? fileExists)).map Account.entry) :=
    (List.perm_insertionSort Account.Before _).map Account.entry
  have hpairwise : ((people fileExists file).map Account.entry).Pairwise fun a b => a.uid ≤ b.uid :=
    List.pairwise_map.mpr (List.pairwise_insertionSort Account.Before _)
  rw [Listed, parsePasswd_text fileExists h]
  constructor
  · rintro ⟨husers, hsorted⟩
    refine List.Perm.eq_of_pairwise ?_ hsorted hpairwise (husers.trans hperm.symm)
    intro u v hu hv huv hvu
    obtain ⟨a, ha, rfl⟩ := List.mem_map.mp (husers.mem_iff.mp hu)
    obtain ⟨b, hb, rfl⟩ := List.mem_map.mp (hperm.mem_iff.mp hv)
    have hab := List.inj_on_of_nodup_map hdistinct ha hb (Nat.le_antisymm huv hvu)
    rw [hab]
  · rintro rfl
    exact ⟨hperm, hpairwise⟩

/-- A file with a comment, the superuser, two people and one who may not log in. -/
def smallFile : List PasswdLine :=
  [.comment " local users", .account ⟨"root", "x", 0, "0", "root", "/root", "/bin/bash"⟩,
    .account ⟨"mira", "x", 1001, "1001", "Mira Vale,Room 2,,", "/home/mira", "/usr/bin/fish"⟩,
      .blank "  ",
    .account ⟨"nira", "x", 1000, "1000", "", "/home/nira", "/bin/bash"⟩,
    .account ⟨"store", "x", 1002, "1002", "Store", "/srv", "/usr/sbin/nologin"⟩]

theorem listed_smallFile :
    Listed (fun _ => false) (unlines (smallFile.map PasswdLine.text))
      [⟨"nira", "nira", 1000, "/home/nira", "/bin/bash", DEFAULT_AVATAR⟩,
        ⟨"mira", "Mira Vale", 1001, "/home/mira", "/usr/bin/fish", DEFAULT_AVATAR⟩] := by
  refine (listed_iff (fun _ => false) ?_ (by decide) _).mpr ?_
  · decide
  · decide +kernel

end NiraOS.Greeter.UserModel
