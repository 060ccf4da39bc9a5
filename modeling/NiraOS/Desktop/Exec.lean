import NiraOS.Desktop.IconModel

/-!
# What a desktop entry starts

The Exec value of an entry, as `DesktopIconModel::launch` starts it from an icon, as
`AppModel::parseDesktopFile` and `ProcessLauncher::launch` start it from the list of applications
(`desktop/shell/src`), and as the specification of desktop entries has it.  Both launchers remove
what the same regular expression matches; then the one leaves the rest to a shell, the other splits
it.

```text
                        icon                 list                  specification
%%                      removed              removed               a percent sign
a code and a blank      both removed         both removed          the code removed
""                      an empty argument    dropped               an empty argument
three quotes            none                 a quote               none
Terminal=true           ignored              in qterminal          —
"dir/program"           in the directory     below those of PATH   looked up in PATH
```
-/

namespace NiraOS.Desktop

open Words (Reader kept words)

/-! ## Field codes -/

/-- What the regular expression tells apart. -/
inductive Item
  | plain (c : Char)
  | code
  | escaped
  deriving DecidableEq

def isCode (c : Char) : Bool := c ∈ "uUfFdDnNvmick".toList

/-- The matches of `(?:%[uUfFdDnNvmick] ?)|(?:%%)`, without the blank. -/
def lex : List Char → List Item
  | '%' :: c :: rest =>
      if isCode c then .code :: lex rest
      else if c = '%' then .escaped :: lex rest
      else .plain '%' :: lex (c :: rest)
  | c :: rest => .plain c :: lex rest
  | [] => []

/-- What is left; a blank directly behind a code belongs to the match. -/
def stripItems : Bool → List Item → List Char
  | _, [] => []
  | afterCode, .plain c :: rest =>
      if afterCode && c = ' ' then stripItems false rest else c :: stripItems false rest
  | _, .code :: rest => stripItems true rest
  | _, .escaped :: rest => stripItems false rest

/-- `cleaned.replace(re, QString())`. -/
def strip (exec : String) : List Char := stripItems false (lex exec.toList)

/-! ## What is started -/

abbrev Word := List Char

inductive Program
  | path (name : Word)
  /-- It is looked up in the directories of PATH. -/
  | search (name : Word)
  /-- It is looked up from the working directory. -/
  | relative (name : Word)
  /-- The shell does it itself. -/
  | shell (name : Word)
  deriving DecidableEq

structure Start where
  program : Program
  args : List Word
  deriving DecidableEq

/-- What separates the words of a shell. -/
def isBlank (c : Char) : Bool := c = ' ' || c = '\t'

section Launching

-- the commands for which the shell looks up no program: options, assignments, reserved words,
-- built-in utilities
variable (own : String → Bool)

/-- `sh -c`, of a command without metacharacters but double quotes. -/
def shell (command : String) : Option Start :=
  match words '"' isBlank command.toList with
  | [] | [] :: _ => none
  | name :: args =>
      some ⟨if own command then .shell name
        else if name.head? = some '/' then .path name
        else if '/' ∈ name then .relative name
        else .search name, args⟩

/-- What `startDetached` is called with. -/
inductive Detached
  | sh (command : String)
  | xdgOpen (filePath : List String)

/-- `DesktopIconModel::launch`, of the entry of a row.  What is trimmed there is not used. -/
def DesktopEntry.launch (e : DesktopEntry) : Detached :=
  if e.isShortcut = true ∧
    e.exec ≠ "" then .sh (String.ofList (strip e.exec)) else .xdgOpen e.filePath

def launchIcon (e : DesktopEntry) : Option Start :=
  match e.launch with
  | .sh command => shell own command
  | .xdgOpen filePath => some ⟨.search "xdg-open".toList,
      ["/".toList ++ ("/".intercalate filePath).toList]⟩

end Launching

def stripExecFieldCodes (raw : String) : String := Text.trim (String.ofList (strip raw))

/-- `terminal.compare(u"true", Qt::CaseInsensitive) == 0`. -/
def isTrue (value : String) : Bool := value.toList.map foldCase = "true".toList

/-- The command of an application in the list; without a command it is not listed. -/
def appExec (rawExec terminal : String) : Option String :=
  let exec := stripExecFieldCodes rawExec
  if exec = "" then none
  else some (if isTrue terminal then "qterminal -e " ++ exec else exec)

/-- `ProcessLauncher::launch`; a path of Qt's resources is absolute, too. -/
def launchCommand (command : String) : Option Start :=
  match split command.toList with
  | [] => none
  | name :: args => some ⟨if name.head? = some '/' ∨
      name.head? = some ':' then .path name else .search name, args⟩

def launchListed (exec terminal : String) : Option Start :=
  (appExec exec terminal).bind launchCommand

/-! ## The specification -/

def Item.expand : Item → List Char
  | .plain c => [c]
  | .code => []
  | .escaped => ['%']

/-- The arguments, without files or URLs. -/
def specWords (exec : String) : List Word :=
  words '"' isBlank ((lex exec.toList).flatMap Item.expand)

/-- The program has its full path, or is looked up. -/
def programOf (name : Word) : Program := if name.head? = some '/' then .path name else .search name

/-- A value with an unknown code is invalid. -/
def specification (exec : String) : Option Start :=
  if .plain '%' ∈ lex exec.toList then none
  else
    match specWords exec with
    | [] | [] :: _ => none
    | name :: args => some ⟨programOf name, args⟩

/-- Characters that mean something else to a shell, outside quotes. -/
def isMeta (c : Char) : Bool := c ∈ "|&;<>()$`\\'*?[]#~\x7b\x7d\n".toList

/-- Words, blanks, arguments in double quotes and percent signs. -/
def inDomain : Bool → List Item → Bool
  | quoted, [] => !quoted
  | quoted, .plain c :: rest =>
      if c = '"' then inDomain (!quoted) rest
      else
        (if quoted then c ∉ "$`\\\n".toList
          else !isMeta c && (isBlank c || !Text.isWhitespace c)) && inDomain quoted rest
  | quoted, .code :: rest => inDomain quoted rest
  | quoted, .escaped :: rest => inDomain quoted rest

/-- Both start what the specification says. -/
def Agrees (own : String → Bool) (e : DesktopEntry) (terminal : String) : Prop :=
  launchIcon own e = specification e.exec ∧ launchListed e.exec terminal = specification e.exec

/-! ## When they agree -/

/-- The characters of the specification's words, and which of them the launchers keep. -/
def mark : Bool → List Item → List (Char × Bool)
  | _, [] => []
  | afterCode, .plain c :: rest => (c, !(afterCode && c = ' ')) :: mark false rest
  | _, .code :: rest => mark true rest
  | _, .escaped :: rest => ('%', false) :: mark false rest

/-- What has to hold of a value from which something is started. -/
structure Plainly (own : String → Bool) (exec : String) : Prop where
  /-- No unknown codes. -/
  codes : .plain '%' ∉ lex exec.toList
  /-- What is removed besides codes are blanks that separate no words: there is no "%%", no blank
  behind a code in quotes, and behind a code at a word there is another blank or nothing. -/
  blanks : Words.Harmless '"' isBlank .start (mark false (lex exec.toList))
  /-- No empty argument. -/
  arguments : [] ∉ specWords exec
  /-- No three quotes in a row. -/
  quotes : tripled 0 (strip exec) = false
  /-- A program, under its path or a name that the shell looks up. -/
  program : ∃ name args, specWords exec = name :: args ∧ own (String.ofList (strip exec)) = false ∧
    (name.head? = some '/' ∨ '/' ∉ name ∧ name.head? ≠ some ':')

/-- Nothing but quotes, and blanks outside them. -/
def hollow : Bool → List Char → Bool
  | _, [] => true
  | quoted, c :: rest => if c = '"' then hollow (!quoted) rest
      else !quoted && isBlank c && hollow quoted rest

/-- A value from which nothing is started. -/
structure Idle (exec terminal : String) : Prop where
  nonempty : exec ≠ ""
  specification : specification exec = none
  rest : if isTrue terminal then ∀ c ∈ strip exec, Text.isWhitespace c = true
    else tripled 0 (strip exec) = false ∧ hollow false (strip exec) = true

section Marks

variable {afterCode : Bool} {items : List Item}

theorem kept_mark (afterCode : Bool) (items : List Item) :
    kept (mark afterCode items) = stripItems afterCode items := by
  induction items generalizing afterCode with
  | nil => rfl
  | cons item items ih =>
      cases item with
      | plain c =>
          rw [mark, stripItems]
          cases hdrop : afterCode && c = ' ' <;> simp [ih]
      | code => exact ih true
      | escaped => exact ih false

theorem map_fst_mark (afterCode : Bool) (items : List Item) :
    (mark afterCode items).map Prod.fst = items.flatMap Item.expand := by
  induction items generalizing afterCode with
  | nil => rfl
  | cons item items ih => cases item <;> simp [mark, Item.expand, ih]

theorem keepsQuotes_mark (afterCode : Bool) (items : List Item) :
    Words.KeepsQuotes '"' (mark afterCode items) := by
  induction items generalizing afterCode with
  | nil => exact fun m hm => nomatch hm
  | cons item items ih =>
      cases item with
      | plain c =>
          intro m hm hfalse
          rcases List.mem_cons.mp hm with rfl | hm
          · simp only [Bool.not_eq_false', Bool.and_eq_true, decide_eq_true_eq] at hfalse
            simp [hfalse.2]
          · exact ih false m hm hfalse
      | code => exact ih true
      | escaped =>
          intro m hm hfalse
          rcases List.mem_cons.mp hm with rfl | hm
          · decide
          · exact ih false m hm hfalse

/-- The words of what is left are those of the specification if only such blanks are removed. -/
theorem words_strip_iff (exec : String) :
    words '"' isBlank (strip exec) = specWords exec ↔
      Words.Harmless '"' isBlank .start (mark false (lex exec.toList)) := by
  rw [← Words.words_kept_iff (keepsQuotes_mark false (lex exec.toList)), kept_mark, map_fst_mark]
  rfl

end Marks

/-! ## The two kinds of blanks -/

section Tame

/-- Outside quotes, what is white is a blank; and every quote is closed. -/
def Tame : Bool → List Char → Prop
  | quoted, [] => quoted = false
  | quoted, c :: rest =>
      if c = '"' then Tame (!quoted) rest
        else (quoted = false → Text.isWhitespace c = true → isBlank c = true) ∧ Tame quoted rest

variable {quoted afterCode : Bool} {items : List Item} {r : Reader Char} {chars : List Char}

theorem tame_stripItems (h : inDomain quoted items = true) (afterCode : Bool) :
    Tame quoted (stripItems afterCode items) := by
  induction items generalizing quoted afterCode with
  | nil => simpa [inDomain, stripItems, Tame] using h
  | cons item items ih =>
      cases item with
      | plain c =>
          rw [inDomain] at h
          rw [stripItems]
          by_cases hquote : c = '"'
          · rw [if_pos hquote] at h
            simpa [hquote, Tame] using ih h false
          · rw [if_neg hquote, Bool.and_eq_true] at h
            split_ifs
            · exact ih h.2 false
            · rw [Tame, if_neg hquote]
              refine ⟨fun hquoted hwhite => ?_, ih h.2 false⟩
              simp only [hquoted, hwhite, Bool.false_eq_true, if_false, Bool.not_true,
                Bool.or_false, Bool.and_eq_true] at h
              exact h.1.2
      | code => exact ih h true
      | escaped => exact ih h false

theorem isWhitespace_of_isBlank {c : Char} (h : isBlank c = true) : Text.isWhitespace c = true := by
  simp only [isBlank, Bool.or_eq_true, decide_eq_true_eq] at h
  rcases h with rfl | rfl <;> decide

/-- Where both kinds of blanks are the same, so are the words. -/
theorem foldl_read (h : Tame r.quoted chars) :
    chars.foldl (Reader.step '"' isBlank) r = chars.foldl read r := by
  induction chars generalizing r with
  | nil => rfl
  | cons c chars ih =>
      rw [Tame] at h
      rw [List.foldl_cons, List.foldl_cons]
      by_cases hquote : c = '"'
      · rw [if_pos hquote] at h
        rw [hquote, read, Reader.step_quote, Reader.step_quote]
        exact ih h
      · rw [if_neg hquote] at h
        have hstep : r.step '"' isBlank c = read r c := by
          by_cases hblank : r.quoted = false ∧ isBlank c = true
          · rw [Reader.step_blank hquote hblank.1 hblank.2, read,
              Reader.step_blank hquote hblank.1 (isWhitespace_of_isBlank hblank.2)]
          · rw [Reader.step_char hquote hblank, read, Reader.step_char hquote]
            exact fun hwhite => hblank ⟨hwhite.1, h.1 hwhite.1 hwhite.2⟩
        have hquoted : (read r c).quoted = r.quoted := Words.quoted_step r hquote
        rw [hstep]
        exact ih (hquoted ▸ h.2)

/-- At the end no quote is open. -/
theorem quoted_foldl (h : Tame r.quoted chars) : (chars.foldl read r).quoted = false := by
  induction chars generalizing r with
  | nil => exact h
  | cons c chars ih =>
      rw [Tame] at h
      rw [List.foldl_cons]
      apply ih
      by_cases hquote : c = '"'
      · rw [if_pos hquote] at h
        rw [hquote, read, Reader.step_quote]
        exact h
      · rw [if_neg hquote] at h
        rw [read, Words.quoted_step r hquote]
        exact h.2

end Tame

/-! ## Trimming -/

section Trimming

variable {r : Reader Char} {chars white pre post : List Char} {count : ℕ}

theorem ne_quote {c : Char} (h : Text.isWhitespace c = true) : c ≠ '"' := by
  rintro rfl
  exact absurd h (by decide)

theorem foldl_white (hwhite : ∀ c ∈ white, Text.isWhitespace c = true)
    (hquoted : (white.foldl read r).quoted = false) :
    (white.foldl read r).all = r.all ∧ r.quoted = false := by
  induction white generalizing r with
  | nil => exact ⟨rfl, hquoted⟩
  | cons c white ih =>
      have hc := hwhite c (List.mem_cons_self ..)
      obtain ⟨hall, hopen⟩ := ih (fun d hd => hwhite d (List.mem_cons_of_mem _ hd)) hquoted
      rw [read, Words.quoted_step r (ne_quote hc)] at hopen
      have hstep : read r c = r.flush := Reader.step_blank (ne_quote hc) hopen hc
      rw [hstep, Reader.all_flush] at hall
      rw [List.foldl_cons, hstep]
      exact ⟨hall, hopen⟩

theorem foldl_white_start (hwhite : ∀ c ∈ white, Text.isWhitespace c = true) :
    white.foldl read .start = .start := by
  induction white with
  | nil => rfl
  | cons c white ih =>
      have hc := hwhite c (List.mem_cons_self ..)
      rw [List.foldl_cons, read, Reader.step_blank (ne_quote hc) rfl hc]
      exact ih fun d hd => hwhite d (List.mem_cons_of_mem _ hd)

/-- White space around the words is not read. -/
theorem words_trimmed (hpre : ∀ c ∈ pre, Text.isWhitespace c = true)
    (hpost : ∀ c ∈ post, Text.isWhitespace c = true)
    (h : Tame false (pre ++ chars ++ post)) :
    words '"' Text.isWhitespace (pre ++ chars ++ post) = words '"' Text.isWhitespace chars := by
  have hend := quoted_foldl (r := .start) h
  rw [List.foldl_append, List.foldl_append, foldl_white_start hpre] at hend
  unfold words
  rw [List.foldl_append, List.foldl_append]
  change (post.foldl read (chars.foldl read (pre.foldl read .start))).all =
    (chars.foldl read .start).all
  rw [foldl_white_start hpre]
  exact (foldl_white hpost hend).1

theorem tripled_white (hwhite : ∀ c ∈ white, Text.isWhitespace c = true) :
    tripled count white = false := by
  induction white generalizing count with
  | nil => rfl
  | cons c white ih =>
      rw [tripled, if_neg (ne_quote (hwhite c (List.mem_cons_self ..)))]
      exact ih fun d hd => hwhite d (List.mem_cons_of_mem _ hd)

theorem tripled_append_white (hpost : ∀ c ∈ post, Text.isWhitespace c = true) :
    tripled count (chars ++ post) = tripled count chars := by
  induction chars generalizing count with
  | nil => exact tripled_white hpost
  | cons c chars ih => simp only [List.cons_append, tripled, ih]

theorem tripled_trimmed (hpre : ∀ c ∈ pre, Text.isWhitespace c = true)
    (hpost : ∀ c ∈ post, Text.isWhitespace c = true) :
    tripled 0 (pre ++ chars ++ post) = tripled 0 chars := by
  rw [tripled_append_white hpost]
  induction pre with
  | nil => rfl
  | cons c pre ih =>
      rw [List.cons_append, tripled, if_neg (ne_quote (hpre c (List.mem_cons_self ..)))]
      exact ih fun d hd => hpre d (List.mem_cons_of_mem _ hd)

theorem exists_trim (text : List Char) :
    ∃ pre post, text = pre ++ (Text.trim (String.ofList text)).toList ++ post ∧
    (∀ c ∈ pre, Text.isWhitespace c = true) ∧ ∀ c ∈ post, Text.isWhitespace c = true := by
  let body := text.dropWhile Text.isWhitespace
  refine ⟨text.takeWhile Text.isWhitespace,
    (body.reverse.takeWhile Text.isWhitespace).reverse, ?_, ?_, ?_⟩
  · have hbody : body = (body.reverse.dropWhile Text.isWhitespace).reverse ++
        (body.reverse.takeWhile Text.isWhitespace).reverse := by
      rw [← List.reverse_append, List.takeWhile_append_dropWhile, List.reverse_reverse]
    rw [Text.trim, String.toList_ofList, String.toList_ofList, List.append_assoc, ← hbody,
      List.takeWhile_append_dropWhile]
  · exact fun c hc => List.mem_takeWhile_imp hc
  · exact fun c hc => List.mem_takeWhile_imp (List.mem_reverse.mp hc)

end Trimming

/-! ## What each launcher starts -/

section Starting

variable {own : String → Bool} {command exec terminal : String} {name : Word} {args : List Word}

theorem specification_eq_some {start : Start} :
    specification exec = some start ↔ .plain '%' ∉ lex exec.toList ∧
      ∃ name args, specWords exec = name :: args ∧ name ≠ [] ∧ start = ⟨programOf name, args⟩ := by
  unfold specification
  split_ifs with hcodes
  · simp [hcodes]
  · match hwords : specWords exec with
    | [] => simp
    | [] :: args => simp
    | (c :: name) :: args => simp [hcodes, eq_comm]

/-- The shell looks up a program as the specification has it. -/
theorem shell_eq_some : shell own command = some ⟨programOf name, args⟩ ↔
    words '"' isBlank command.toList = name :: args ∧ name ≠ [] ∧ own command = false ∧
      (name.head? = some '/' ∨ '/' ∉ name) := by
  unfold shell programOf
  match words '"' isBlank command.toList with
  | [] => simp
  | [] :: args' =>
      refine iff_of_false nofun fun h => ?_
      exact h.2.1 (List.cons.inj h.1).1.symm
  | (c :: name') :: args' =>
      have hne : c :: name' ≠ [] := List.cons_ne_nil c name'
      generalize c :: name' = found at hne
      constructor
      · intro h
        simp only [Option.some.injEq, Start.mk.injEq] at h
        obtain ⟨hprogram, rfl⟩ := h
        split_ifs at hprogram <;> simp_all
      · rintro ⟨hwords, -, hown, hlookup⟩
        obtain ⟨rfl, rfl⟩ := List.cons.inj hwords
        rcases hlookup with habs | hslash
        · simp [hown, habs]
        · simp [hown, hslash]

/-- Empty words start nothing. -/
theorem shell_eq_none (h : ∀ w ∈ words '"' isBlank command.toList, w = []) :
    shell own command = none := by
  unfold shell
  match hwords : words '"' isBlank command.toList with
  | [] => rfl
  | [] :: _ => rfl
  | (c :: name) :: args =>
      rw [hwords] at h
      nomatch h (c :: name) (List.mem_cons_self ..)

theorem launchCommand_eq_some : launchCommand command = some ⟨programOf name, args⟩ ↔
    split command.toList = name :: args ∧ (name.head? = some '/' ∨ name.head? ≠ some ':') := by
  unfold launchCommand programOf
  match split command.toList with
  | [] => simp
  | found :: args' =>
      constructor
      · intro h
        simp only [Option.some.injEq, Start.mk.injEq] at h
        obtain ⟨hprogram, rfl⟩ := h
        split_ifs at hprogram <;> simp_all
      · rintro ⟨hwords, hresource⟩
        obtain ⟨rfl, rfl⟩ := List.cons.inj hwords
        by_cases habs : found.head? = some '/'
        · simp [habs]
        · simp [habs, hresource.resolve_left habs]

theorem launchCommand_eq_none : launchCommand command = none ↔ split command.toList = [] := by
  unfold launchCommand
  cases split command.toList <;> simp

end Starting

/-! ## The arguments of the list -/

section Splitting

variable {exec : String} {command : List Char}

theorem words_strip (h : inDomain false (lex exec.toList) = true) :
    words '"' Text.isWhitespace (strip exec) = words '"' isBlank (strip exec) := by
  have htame := tame_stripItems h false
  exact congrArg Reader.all (foldl_read (r := .start) htame).symm

/-- Without three quotes in a row, the arguments are the words that are not empty; else one has a
quote. -/
theorem split_stripExecFieldCodes (h : inDomain false (lex exec.toList) = true) :
    (tripled 0 (strip exec) = false ∧
        split (stripExecFieldCodes exec).toList =
        (words '"' isBlank (strip exec)).filter (· ≠ [])) ∨
      tripled 0 (strip exec) = true ∧ '"' ∈ (split (stripExecFieldCodes exec).toList).flatten := by
  obtain ⟨pre, post, htext, hpre, hpost⟩ := exists_trim (strip exec)
  have htame := tame_stripItems h false
  change Tame false (strip exec) at htame
  have htripled : tripled 0 (stripExecFieldCodes exec).toList = tripled 0 (strip exec) := by
    conv_rhs => rw [htext]
    exact (tripled_trimmed hpre hpost).symm
  cases hquotes : tripled 0 (strip exec) with
  | false =>
      refine .inl ⟨rfl, ?_⟩
      rw [split_of_not_tripled (htripled.trans hquotes), ← words_strip h]
      conv_rhs => rw [htext]
      rw [words_trimmed hpre hpost (htext ▸ htame)]
      rfl
  | true =>
      exact .inr ⟨rfl, mem_split_of_tripled (s := .start) (htripled.trans hquotes) (Nat.zero_le 2)⟩

theorem not_mem_words_strip (exec : String) : '"' ∉ (words '"' isBlank (strip exec)).flatten :=
  not_mem_words (r := .start) (by simp [Reader.start, Reader.all])

/-- The list's arguments are the shell's words. -/
theorem split_eq_words_iff (h : inDomain false (lex exec.toList) = true) :
    split (stripExecFieldCodes exec).toList = words '"' isBlank (strip exec) ↔
      tripled 0 (strip exec) = false ∧ [] ∉ words '"' isBlank (strip exec) := by
  rcases split_stripExecFieldCodes h with ⟨hquotes, hsplit⟩ | ⟨hquotes, hmem⟩
  · rw [hsplit, List.filter_eq_self, hquotes]
    constructor
    · intro hall
      exact ⟨rfl, fun hempty => by simpa using hall [] hempty⟩
    · rintro ⟨-, hempty⟩ w hw
      exact decide_eq_true fun heq => hempty (heq ▸ hw)
  · refine iff_of_false (fun heq => ?_) fun hno => by simp [hquotes] at hno
    rw [heq] at hmem
    exact not_mem_words_strip exec hmem

theorem flatten_foldl_eq_nil_iff (r : Reader Char) :
    (command.foldl (Reader.step '"' isBlank) r).all.flatten = [] ↔
      r.all.flatten = [] ∧ hollow r.quoted command = true := by
  induction command generalizing r with
  | nil => simp [hollow]
  | cons c command ih =>
      rw [List.foldl_cons, ih, Words.flatten_step, hollow]
      by_cases hquote : c = '"'
      · simp [hquote]
      · rw [Words.quoted_step r hquote]
        cases hquoted : r.quoted <;> cases hblank : isBlank c <;> simp [hquote]

theorem split_eq_nil_iff (h : inDomain false (lex exec.toList) = true) :
    split (stripExecFieldCodes exec).toList = [] ↔
      tripled 0 (strip exec) = false ∧ hollow false (strip exec) = true := by
  rcases split_stripExecFieldCodes h with ⟨hquotes, hsplit⟩ | ⟨hquotes, hmem⟩
  · have hflatten : (words '"' isBlank (strip exec)).flatten = [] ↔
        hollow false (strip exec) = true := by
      rw [words, flatten_foldl_eq_nil_iff]
      simp [Reader.start, Reader.all]
    rw [hsplit, hquotes, ← hflatten, List.filter_eq_nil_iff, List.flatten_eq_nil_iff]
    simp
  · refine iff_of_false (fun hnil => ?_) fun hno => by simp [hquotes] at hno
    rw [hnil] at hmem
    cases hmem

theorem stripExecFieldCodes_eq_empty (exec : String) :
    stripExecFieldCodes exec = "" ↔ ∀ c ∈ strip exec, Text.isWhitespace c = true := by
  constructor
  · intro h
    obtain ⟨pre, post, htext, hpre, hpost⟩ := exists_trim (strip exec)
    rw [stripExecFieldCodes] at h
    rw [h] at htext
    intro c hc
    rw [htext] at hc
    rcases List.mem_append.mp hc with hc | hc
    · exact hpre c (by simpa using hc)
    · exact hpost c hc
  · intro h
    rw [stripExecFieldCodes, Text.trim, String.toList_ofList, List.dropWhile_eq_nil_iff.mpr h]
    rfl

/-- A command begun before another. -/
theorem flush_foldl_args (args : List (List Char)) (s : Splitter) :
    (command.foldl Splitter.step { s with args := args ++ s.args }).flush =
      args ++ (command.foldl Splitter.step s).flush := by
  have hflush (s : Splitter) : Splitter.flush { s with args := args ++ s.args } =
      args ++ s.flush := by
    unfold Splitter.flush
    split_ifs <;> simp
  induction command generalizing s with
  | nil => exact hflush s
  | cons c command ih =>
      have hstep : Splitter.step { s with args := args ++ s.args } c =
          { s.step c with args := args ++ (s.step c).args } := by
        unfold Splitter.step
        dsimp only
        split_ifs <;> simp [hflush]
      rw [List.foldl_cons, List.foldl_cons, hstep]
      exact ih (s.step c)

theorem split_qterminal (command : String) :
    split ("qterminal -e " ++ command).toList =
      "qterminal".toList :: "-e".toList :: split command.toList := by
  have hprefix : "qterminal -e ".toList.foldl Splitter.step .start =
      ⟨["qterminal".toList, "-e".toList] ++ [], [], 0, false⟩ := by
    decide
  rw [split, String.toList_append, List.foldl_append, hprefix]
  exact flush_foldl_args ["qterminal".toList, "-e".toList] .start

/-- A terminal is not among the words. -/
theorem words_ne_qterminal (h : inDomain false (lex exec.toList) = true) :
    words '"' isBlank (strip exec) ≠
      "qterminal".toList :: "-e".toList :: split (stripExecFieldCodes exec).toList := by
  intro heq
  rcases split_stripExecFieldCodes h with ⟨-, hsplit⟩ | ⟨-, hmem⟩
  · have hfilter := congrArg (List.length ∘ List.filter (· ≠ [])) heq
    rw [hsplit] at hfilter
    simp [List.filter_filter] at hfilter
    omega
  · refine not_mem_words_strip exec ?_
    rw [heq]
    simp [hmem]

end Splitting

section Main

variable {own : String → Bool} {e : DesktopEntry} {terminal : String}

theorem launchIcon_shell (hshortcut : e.isShortcut = true) (hexec : e.exec ≠ "") :
    launchIcon own e = shell own (String.ofList (strip e.exec)) := by
  rw [launchIcon, DesktopEntry.launch, if_pos ⟨hshortcut, hexec⟩]

theorem launchListed_of_plain (hterminal : isTrue terminal = false) (exec : String) :
    launchListed exec terminal = launchCommand (stripExecFieldCodes exec) := by
  unfold launchListed appExec
  dsimp only
  rw [hterminal, if_neg Bool.false_ne_true]
  split_ifs with hempty
  · rw [hempty]
    exact (launchCommand_eq_none.mpr (by decide)).symm
  · rw [Option.bind_some]

theorem launchListed_of_terminal (hterminal : isTrue terminal = true) (exec : String) :
    launchListed exec terminal = if stripExecFieldCodes exec = "" then none
      else some ⟨.search "qterminal".toList,
        "-e".toList :: split (stripExecFieldCodes exec).toList⟩ := by
  unfold launchListed appExec
  dsimp only
  rw [hterminal, if_pos rfl]
  split_ifs with hempty
  · rfl
  · have hname : ¬ ("qterminal".toList.head? = some '/' ∨ "qterminal".toList.head? = some ':') :=
      by decide
    rw [Option.bind_some, launchCommand, split_qterminal]
    dsimp only
    rw [if_neg hname]

/-- Nothing is started. -/
theorem agrees_iff_idle (hdomain : inDomain false (lex e.exec.toList) = true)
    (hshortcut : e.isShortcut = true)
    (hspec : specification e.exec = none) : Agrees own e terminal ↔ Idle e.exec terminal := by
  unfold Agrees
  rw [hspec]
  constructor
  · rintro ⟨hicon, hlist⟩
    refine ⟨fun hempty => ?_, hspec, ?_⟩
    · rw [launchIcon, DesktopEntry.launch, if_neg (by simp [hempty])] at hicon
      nomatch hicon
    · cases hterminal : isTrue terminal with
      | true =>
          rw [launchListed_of_terminal hterminal] at hlist
          split_ifs at hlist with hempty
          rw [if_pos rfl]
          exact (stripExecFieldCodes_eq_empty e.exec).mp hempty
      | false =>
          rw [launchListed_of_plain hterminal, launchCommand_eq_none] at hlist
          rw [if_neg Bool.false_ne_true]
          exact (split_eq_nil_iff hdomain).mp hlist
  · rintro ⟨hne, -, hrest⟩
    have hsplit : split (stripExecFieldCodes e.exec).toList = [] := by
      cases hterminal : isTrue terminal with
      | true =>
          rw [hterminal, if_pos rfl] at hrest
          rw [(stripExecFieldCodes_eq_empty e.exec).mpr hrest]
          decide
      | false =>
          rw [hterminal, if_neg Bool.false_ne_true] at hrest
          exact (split_eq_nil_iff hdomain).mpr hrest
    constructor
    · rw [launchIcon_shell hshortcut hne]
      apply shell_eq_none
      rw [String.toList_ofList]
      rcases split_stripExecFieldCodes hdomain with ⟨-, hfilter⟩ | ⟨-, hmem⟩
      · rw [hsplit, eq_comm, List.filter_eq_nil_iff] at hfilter
        exact fun w hw => by simpa using hfilter w hw
      · rw [hsplit] at hmem
        nomatch hmem
    · cases hterminal : isTrue terminal with
      | true =>
          rw [hterminal, if_pos rfl] at hrest
          rw [launchListed_of_terminal hterminal,
            if_pos ((stripExecFieldCodes_eq_empty e.exec).mpr hrest)]
      | false => rw [launchListed_of_plain hterminal, launchCommand_eq_none, hsplit]

/-- The specification has something started. -/
theorem agrees_iff_plainly (hdomain : inDomain false (lex e.exec.toList) = true)
    (hshortcut : e.isShortcut = true)
    (hspec : specification e.exec ≠ none) :
    Agrees own e terminal ↔ isTrue terminal = false ∧ Plainly own e.exec := by
  obtain ⟨start, hstart⟩ := Option.ne_none_iff_exists'.mp hspec
  obtain ⟨hcodes, name, args, hwords, hname, rfl⟩ := specification_eq_some.mp hstart
  have hne : e.exec ≠ "" := by
    intro hempty
    rw [hempty] at hwords
    exact absurd hwords (by simp [specWords, lex, words, Reader.start, Reader.all])
  unfold Agrees
  rw [hstart, launchIcon_shell hshortcut hne, shell_eq_some, String.toList_ofList]
  cases hterminal : isTrue terminal with
  | true =>
      refine iff_of_false ?_ fun h => Bool.noConfusion h.1
      rintro ⟨⟨hicon, -⟩, hlist⟩
      rw [launchListed_of_terminal hterminal] at hlist
      split_ifs at hlist with hempty
      obtain ⟨hprogram, rfl⟩ := Start.mk.inj (Option.some.inj hlist)
      have hqterminal : name = "qterminal".toList := by
        unfold programOf at hprogram
        split_ifs at hprogram
        exact (Program.search.inj hprogram).symm
      rw [hqterminal] at hicon
      exact words_ne_qterminal hdomain hicon
  | false =>
      rw [launchListed_of_plain hterminal, launchCommand_eq_some]
      constructor
      · rintro ⟨⟨hicon, -, hown, hslash⟩, hlist, hresource⟩
        obtain ⟨hquotes, hempty⟩ := (split_eq_words_iff hdomain).mp (hlist.trans hicon.symm)
        have hsame := hicon.trans hwords.symm
        refine ⟨rfl, hcodes, (words_strip_iff e.exec).mp hsame, hsame ▸ hempty, hquotes, name, args,
          hwords, hown, ?_⟩
        rcases hslash with habs | hslash
        · exact .inl habs
        · exact hresource.imp_right fun hcolon => ⟨hslash, hcolon⟩
      · rintro ⟨-, hplain⟩
        have hsame := (words_strip_iff e.exec).mpr hplain.blanks
        obtain ⟨name', args', hwords', hown, hlookup⟩ := hplain.program
        obtain ⟨rfl, rfl⟩ := List.cons.inj (hwords.symm.trans hwords')
        have hlist := (split_eq_words_iff hdomain).mpr ⟨hplain.quotes, hsame ▸ hplain.arguments⟩
        refine ⟨⟨hsame.trans hwords, hname, hown, ?_⟩, hlist.trans (hsame.trans hwords), ?_⟩
        · exact hlookup.imp_right And.left
        · exact hlookup.imp_right And.right

/-- **One entry, one program**: an icon and the list start what the specification says if and only
if the entry needs no terminal and its value is plain, or nothing is started. -/
theorem agrees_iff (own : String → Bool) (e : DesktopEntry) (terminal : String)
    (hshortcut : e.isShortcut = true)
    (hdomain : inDomain false (lex e.exec.toList) = true) :
    Agrees own e terminal ↔
      isTrue terminal = false ∧ Plainly own e.exec ∨ Idle e.exec terminal := by
  by_cases hspec : specification e.exec = none
  · rw [agrees_iff_idle hdomain hshortcut hspec]
    refine ⟨.inr, fun h => h.resolve_left ?_⟩
    rintro ⟨-, hplain⟩
    obtain ⟨name, args, hwords, -⟩ := hplain.program
    have hname : name ≠ [] :=
      fun hempty => hplain.arguments (by rw [hwords, hempty]; exact List.mem_cons_self ..)
    rw [specification_eq_some.mpr ⟨hplain.codes, name, args, hwords, hname, rfl⟩] at hspec
    nomatch hspec
  · rw [agrees_iff_plainly hdomain hshortcut hspec]
    exact ⟨.inl, fun h => h.resolve_right fun hidle => hspec hidle.specification⟩

end Main

/-- An application on the desktop. -/
def application (exec : String) : DesktopEntry :=
  ⟨["d", "a.desktop"], "a", "", "application-x-desktop", exec, false, true, false⟩

theorem agrees_viewer : Agrees (fun _ => false) (application "viewer --title \"My view\" %U")
    "false" := by
  refine (agrees_iff (fun _ => false) (application "viewer --title \"My view\" %U") "false" rfl
    (by decide +kernel)).mpr
    (.inl ⟨by decide +kernel, ?_⟩)
  exact ⟨by decide +kernel, by decide +kernel, by decide +kernel, by decide +kernel,
    "viewer".toList, ["--title".toList, "My view".toList], by decide +kernel, rfl,
    .inr (by decide +kernel)⟩

/-- The percent sign is lost, the terminal is not started, and so on. -/
theorem not_agrees_percent :
    ¬ Agrees (fun _ => false) (application "viewer --zoom 50%%") "" ∧
      ¬ Agrees (fun _ => false) (application "viewer --title=%c --zoom") "" ∧
      ¬ Agrees (fun _ => false) (application "viewer \"\" a") "" ∧
      ¬ Agrees (fun _ => false) (application "viewer a") "true" := by
  unfold Agrees
  decide +kernel

end NiraOS.Desktop
