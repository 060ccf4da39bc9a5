import NiraOS.Lib.Occurrences
import NiraOS.Lib.Text
import Mathlib.Data.Int.Notation

/-!
# The highlighter of the notepad

`SyntaxHighlighter` (`apps/notepad/src/main.cpp`): `setLanguage` and `highlightBlock`, on the text
of one line.  What a regular expression matches is left open.  Places in a line count characters.
-/

namespace NiraOS.Notepad.Highlighting

open Occurrences (indexOf)

abbrev Line := List Char

inductive Format
  | keyword
  | string
  | comment
  | number
  deriving DecidableEq

/-- The regular expressions of the rules. -/
inductive Pattern
  | keyword (word : String)
  | doubleQuoted
  | singleQuoted
  | number
  deriving DecidableEq

structure Rule where
  pattern : Pattern
  format : Format
  deriving DecidableEq

/-! ## Languages -/

def cppKeywords : List String :=
  ["alignas", "alignof", "and", "auto", "bool", "break", "case", "catch", "char", "class", "const",
    "constexpr", "continue", "decltype", "default", "delete", "do", "double", "else",
      "enum", "explicit",
    "export", "extern", "false", "float", "for", "friend", "goto", "if", "inline", "int",
      "long", "mutable",
    "namespace", "new", "noexcept", "nullptr", "operator", "or", "private", "protected", "public",
    "register", "reinterpret_cast", "return", "short", "signed", "sizeof", "static",
      "static_cast", "struct",
    "switch", "template", "this", "throw", "true", "try", "typedef", "typename",
      "union", "unsigned",
    "using", "virtual", "void", "volatile", "while"]

def rustKeywords : List String :=
  ["as", "async", "await", "break", "const", "continue", "crate", "dyn", "else", "enum",
    "extern", "false",
    "fn", "for", "if", "impl", "in", "let", "loop", "match", "mod", "move", "mut", "pub",
      "ref", "return",
    "self", "Self", "static", "struct", "super", "trait", "true", "type", "unsafe", "use",
      "where", "while"]

def pythonKeywords : List String :=
  ["False", "None", "True", "and", "as", "assert", "async", "await", "break", "class",
    "continue", "def",
    "del", "elif", "else", "except", "finally", "for", "from", "global", "if", "import", "in", "is",
    "lambda", "nonlocal", "not", "or", "pass", "raise", "return", "try", "while", "with", "yield"]

def jsKeywords : List String :=
  ["var", "let", "const", "function", "return", "if", "else", "for", "while", "do",
    "switch", "case",
    "break", "continue", "new", "delete", "typeof", "instanceof", "in", "of", "this",
      "true", "false",
    "null", "undefined", "try", "catch", "finally", "throw", "class", "extends", "super",
      "import", "export",
    "default", "async", "await", "yield", "property", "alias", "signal", "Component", "on",
      "readonly", "id"]

def jsonKeywords : List String :=
  ["true", "false", "null"]

def shKeywords : List String :=
  ["if", "then", "else", "elif", "fi", "for", "do", "done", "while", "case", "esac",
    "function", "return",
    "local", "export", "unset", "echo", "printf", "read", "set", "shift", "in"]

/-- What `setLanguage` finds out about a language. -/
structure Language where
  keywords : List String
  lineComments : List String
  blockStart : String
  blockEnd : String

def languageOf (lang : String) : Option Language :=
  if lang = "cpp" ∨ lang = "c" ∨ lang = "h" ∨ lang = "cxx" ∨ lang = "hpp" ∨ lang = "cc" then
    some ⟨cppKeywords, ["//"], "/*", "*/"⟩
  else if lang = "rust" ∨ lang = "rs" then some ⟨rustKeywords, ["//"], "/*", "*/"⟩
  else if lang = "python" ∨ lang = "py" then some ⟨pythonKeywords, ["#"], "\"\"\"", "\"\"\""⟩
  else if lang = "qml" ∨ lang = "js" ∨
    lang = "javascript" then some ⟨jsKeywords, ["//"], "/*", "*/"⟩
  else if lang = "json" then some ⟨jsonKeywords, [], "", ""⟩
  else if lang = "sh" ∨ lang = "bash" ∨ lang = "shell" then some ⟨shKeywords, ["#"], "", ""⟩
  else none

/-- The members of the highlighter. -/
structure Config where
  rules : List Rule
  lineComments : List String
  blockStart : String
  blockEnd : String
  deriving DecidableEq

def Config.empty : Config := ⟨[], [], "", ""⟩

def rulesOf (keywords : List String) : List Rule :=
  keywords.map (fun kw => ⟨.keyword kw, .keyword⟩) ++
    [⟨.doubleQuoted, .string⟩, ⟨.singleQuoted, .string⟩, ⟨.number, .number⟩]

/-- For a language that is not known only the rules are cleared. -/
def setLanguage (c : Config) (language : String) : Config :=
  match languageOf (Text.toLowercase language) with
  | some l => ⟨rulesOf l.keywords, l.lineComments, l.blockStart, l.blockEnd⟩
  | none => { c with rules := [] }

/-! ## One line -/

/-- `setFormat(start, count, format)`. -/
structure SetFormat where
  start : ℕ
  count : ℕ
  format : Format
  deriving DecidableEq

/-- What `highlightBlock` does with a line: its calls of `setFormat`, and the last state that it
sets. -/
structure Highlighted where
  formats : List SetFormat
  state : Option ℤ
  deriving DecidableEq

section Line

variable (globalMatch : Pattern → Line → List (ℕ × ℕ)) (c : Config) (previousBlockState : ℤ)
    (text : Line)

def ruleFormats : List SetFormat :=
  c.rules.flatMap fun r => (globalMatch r.pattern text).map fun m => ⟨m.1, m.2, r.format⟩

/-- Where the first introducer of a line comment that is in the line stands. -/
def lineComment : Option ℕ := c.lineComments.findSome? fun lc => indexOf text lc.toList 0

/-- The loop over the block comments of a line, for a number of turns. -/
def blockLoop : ℕ → ℕ → Highlighted → Highlighted
  | 0, _, h => h
  | turns + 1, start, h =>
      let found :=
        if previousBlockState = 1 ∧ start = 0 then indexOf text c.blockEnd.toList 0
        else indexOf text c.blockEnd.toList (start + c.blockStart.length)
      let length :=
        match found with
        | some ending => ending + c.blockEnd.length - start
        | none => text.length - start
      let h : Highlighted :=
        { formats := h.formats ++ [⟨start, length, .comment⟩],
          state := some (if found.isSome then 0 else 1) }
      match indexOf text c.blockStart.toList (start + length) with
      | some start => blockLoop turns start h
      | none => h

def highlightBlock : Highlighted :=
  let h : Highlighted := { formats := ruleFormats globalMatch c text, state := none }
  match lineComment c text with
  | some idx => { h with formats := h.formats ++ [⟨idx, text.length - idx, .comment⟩] }
  | none =>
      if c.blockStart = "" then h
      else
        match (if previousBlockState ≠ 1 then indexOf text c.blockStart.toList 0 else some 0) with
        | some start => blockLoop c previousBlockState text (text.length + 1) start h
        | none => h

end Line

end NiraOS.Notepad.Highlighting
