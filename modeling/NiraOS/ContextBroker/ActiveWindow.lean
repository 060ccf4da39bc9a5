import NiraOS.AiDaemon.Requests
import NiraOS.Compositor.ContextExporter
import NiraOS.Lib.JsonWriter

/-!
# The active window, from the compositor to the prompt

Three programs hand the app id and the title of the active window on:

```text
ContextExporter   desktop/compositor/src/ContextExporter.cpp   writes them to a JSON file
ContextServer     core/context-broker/src/main.rs              reads the file for `get_context`
AIService         core/ai-daemon/src/grpc/mod.rs               puts the answer in front of a prompt
```

Nothing is lost on the way: whatever characters are in the title, `from_str` reads what
`writeToDisk` has written (`fromStr_fileText`), so what the model is told about a quiet desktop is
what is active there (`prompt_names_activeWindow`).
-/

namespace NiraOS.ContextBroker

open Json Compositor

/-! ## The file -/

/-- `writeToDisk`: the compact text of a `QJsonObject`, which has its keys in order, and a line
feed. -/
def fileText (c : Capture) : List Char :=
  objectText [("app_id", quoted c.appId), ("seat", quoted c.seat),
    ("title", quoted c.title)] ++ ['\n']

/-- `defaultRuntimeDir`, where a variable that is not set reads as empty. -/
def defaultRuntimeDir (xdgRuntimeDir tempPath : String) : String :=
  if xdgRuntimeDir = "" then tempPath else xdgRuntimeDir

def filePath (xdgRuntimeDir tempPath : String) : String :=
  defaultRuntimeDir xdgRuntimeDir tempPath ++ "/nira-active-window.json"

/-- What a path gives to the broker. -/
inductive FileRead
  | missing
  /-- It exists, and `read_to_string` fails. -/
  | failure
  | content (text : List Char)

/-! ## The broker -/

structure ActiveWindow where
  appId : String
  title : String
  seat : String
  deriving DecidableEq

/-- A field of the struct: it may be missing, may not be there twice, and has to be a string. -/
def stringField (fields : List (String × Value)) (key : String) : Option String :=
  match fields.filter (·.1 = key) with
  | [] => some ""
  | [(_, v)] => v.asStr
  | _ => none

def fromMap (fields : List (String × Value)) : Option ActiveWindow := do
  let appId ← stringField fields "app_id"
  let title ← stringField fields "title"
  let seat ← stringField fields "seat"
  return ⟨appId, title, seat⟩

/-- A sequence is taken for the fields in the order in which they are declared. -/
def fromSeq : List Value → Option ActiveWindow
  | [] => some ⟨"", "", ""⟩
  | [.string appId] => some ⟨appId, "", ""⟩
  | [.string appId, .string title] => some ⟨appId, title, ""⟩
  | [.string appId, .string title, .string seat] => some ⟨appId, title, seat⟩
  | _ => none

/-- The fields of an object, all of them, after its brace. -/
def objectFields (text : List Char) : Option (List (String × Value) × List Char) :=
  if (skipSpace text).head? = some '}' then some ([], (skipSpace text).tail)
  else members (value 126) text.length text

/-- Only white space may follow. -/
def atEnd {α : Type} (read : Option (α × List Char)) : Option α :=
  read.bind fun r => if skipSpace r.2 = [] then some r.1 else none

/-- `serde_json::from_str::<ActiveWindow>`. -/
def fromStr (content : List Char) : Option ActiveWindow :=
  match skipSpace content with
  | '{' :: text => (atEnd (objectFields text)).bind fromMap
  | '[' :: text =>
      match atEnd (array (value 126) text) with
      | some (.array values) => fromSeq values
      | _ => none
  | _ => none

/-- `COMPOSITOR_STATUS_PATHS`. -/
def compositorStatusPaths : List String :=
  ["/run/user/1000/nira-active-window.json", "/tmp/nira-active-window.json"]

/-- The loop of `read_active_window`. -/
def readFirst (files : String → FileRead) : List String → Option ActiveWindow
  | [] => none
  | path :: paths =>
      match files path with
      | .missing | .failure => readFirst files paths
      | .content text => (fromStr text).or (readFirst files paths)

def readActiveWindow (files : String → FileRead) : Option ActiveWindow :=
  readFirst files compositorStatusPaths

structure ContextResponse where
  activeWindowTitle : String
  selectedText : String
  currentFilePath : String

/-- `get_context`, given the summaries of the processes and of the hardware. -/
def getContext (files : String → FileRead) (processSummary hardwareCtx appId : String) :
    Except String ContextResponse :=
  if Text.isBlank appId then .error "app_id is required"
  else
    let w := (readActiveWindow files).getD ⟨"", "NiraOS Compositor (starting)", ""⟩
    .ok
      { activeWindowTitle := w.title ++ " (app: " ++
        (if w.appId = "" then "unknown" else w.appId) ++
          ") | Querying app: " ++ appId
        selectedText := processSummary ++ "\n" ++ hardwareCtx
        currentFilePath := "" }

/-- What the daemon asks the broker, and how it uses the answer. -/
def enrichPrompt (files : String → FileRead)
    (processSummary hardwareCtx prompt : String) : String :=
  match getContext files processSummary hardwareCtx "nira-ai" with
  | .ok ctx => AiDaemon.enrichPromptWithContext prompt
      (some (ctx.activeWindowTitle, ctx.selectedText))
  | .error _ => AiDaemon.enrichPromptWithContext prompt none

/-! ## What is written is read -/

section Reading

theorem denotes_fields (c : Capture) :
    List.Forall₂ (fun field entry => field.1 = entry.1 ∧ Denotes (value 126) field.2 entry.2)
      [("app_id", quoted c.appId), ("seat", quoted c.seat), ("title", quoted c.title)]
      [("app_id", .string c.appId), ("seat", .string c.seat), ("title", .string c.title)] := by
  apply List.Forall₂.cons ⟨rfl, denotes_quoted 126 _⟩
  apply List.Forall₂.cons ⟨rfl, denotes_quoted 126 _⟩
  exact .cons ⟨rfl, denotes_quoted 126 _⟩ .nil

theorem fromMap_fields (c : Capture) :
    fromMap [("app_id", .string c.appId), ("seat", .string c.seat), ("title", .string c.title)] =
      some ⟨c.appId, c.title, c.seat⟩ := rfl

/-- **The round trip** of the file. -/
theorem fromStr_fileText (c : Capture) :
    fromStr (fileText c) = some ⟨c.appId, c.title, c.seat⟩ := by
  have hread := members_length (denotes_fields c) (List.cons_ne_nil _ _) ['\n']
  obtain ⟨text, hskip, -⟩ := skipSpace_fieldsText
    (List.cons_ne_nil ("app_id", quoted c.appId) [("seat", quoted c.seat),
      ("title", quoted c.title)]) ['}', '\n']
  have htext : fileText c = '{' :: (fieldsText [("app_id", quoted c.appId), ("seat", quoted c.seat),
      ("title", quoted c.title)] ++ ['}', '\n']) := by
    rw [fileText, objectText, List.cons_append, List.append_assoc, List.singleton_append]
  rw [htext, fromStr, skipSpace_of_head (by decide)]
  simp only [objectFields, hskip, List.head?_cons, Option.some.injEq,
    show ('"' = '}') = False by decide,
    if_false, hread]
  exact fromMap_fields c

theorem readActiveWindow_of_content {files : String → FileRead} {c : Capture}
    (h : files "/run/user/1000/nira-active-window.json" = .content (fileText c) ∨
      files "/run/user/1000/nira-active-window.json" = .missing ∧
        files "/tmp/nira-active-window.json" = .content (fileText c)) :
    readActiveWindow files = some ⟨c.appId, c.title, c.seat⟩ := by
  rcases h with h | ⟨hmissing, h⟩
  · simp only [readActiveWindow, compositorStatusPaths, readFirst, h, fromStr_fileText,
      Option.some_or]
  · simp only [readActiveWindow, compositorStatusPaths, readFirst, hmissing, h, fromStr_fileText,
      Option.some_or]

end Reading

/-! ## From the compositor to the prompt -/

/-- The broker looks where the exporter writes. -/
structure Published (x : ContextExporter) (path : String) (files : String → FileRead) : Prop where
  place : path = "/run/user/1000/nira-active-window.json" ∨
    path = "/tmp/nira-active-window.json" ∧
    files "/run/user/1000/nira-active-window.json" = .missing
  content : ∀ c : Capture, x.file = some c.object → files path = .content (fileText c)

theorem Published.readActiveWindow {x : ContextExporter} {path : String} {files : String → FileRead}
    (h : Published x path files) {c : Capture} (hfile : x.file = some c.object) :
    readActiveWindow files = some ⟨c.appId, c.title, c.seat⟩ := by
  have hcontent := h.content c hfile
  apply readActiveWindow_of_content
  rcases h.place with rfl | ⟨rfl, hmissing⟩
  · exact .inl hcontent
  · exact .inr ⟨hmissing, hcontent⟩

/-- **The model is told what is active**: when the exporter is quiet, and none of its timers has met
a job that writes something older, the prompt names the window that is active, whatever its title.
-/
theorem prompt_names_activeWindow {x : ContextExporter}
    (h : Compositor.system.ReachableWhere Exporting x)
    (hquiet : x.Quiet) (hcalled : x.called = true) {xdgRuntimeDir tempPath : String}
    {files : String → FileRead}
    (hpublished : Published x (filePath xdgRuntimeDir tempPath) files)
    (processSummary hardwareCtx prompt : String) :
    enrichPrompt files processSummary hardwareCtx prompt =
      AiDaemon.enrichPromptWithContext prompt
        (some (x.activeTitle ++ " (app: " ++
        (if x.activeAppId = "" then "unknown" else x.activeAppId) ++
          ") | Querying app: " ++ "nira-ai", processSummary ++ "\n" ++ hardwareCtx)) := by
  have hfile : x.file = some x.capture.object := (covered_of_exporting h).upToDate hquiet hcalled
  have hasked : Text.isBlank "nira-ai" = false := by decide
  simp only [enrichPrompt, getContext, hasked, hpublished.readActiveWindow hfile, Option.getD_some,
    ContextExporter.capture, Bool.false_eq_true, if_false]

/-- A title with quotes, a line break and a control character in it. -/
def oddTitle : String := "a \"b\" \\ \n \x01 ü"

def oddExporter : ContextExporter :=
  ⟨"", oddTitle, "default", false, false, none,
    some (Capture.object ⟨"", oddTitle, "default"⟩), true⟩

def oddFiles (path : String) : FileRead :=
  if path = "/run/user/1000/nira-active-window.json"
    then .content (fileText ⟨"", oddTitle, "default"⟩) else .missing

theorem prompt_names_oddTitle :
    enrichPrompt oddFiles "Top processes: " "CPU: " "Hello" =
      AiDaemon.enrichPromptWithContext "Hello"
        (some (oddTitle ++ " (app: " ++ (if "" = "" then "unknown" else "") ++
        ") | Querying app: " ++ "nira-ai",
          "Top processes: " ++ "\n" ++ "CPU: ")) := by
  have hset : Compositor.system.ReachableWhere Exporting _ :=
    .step (.init ⟨none, rfl⟩) (e := .setActiveTitle oddTitle) (fun h => absurd h (by decide)) rfl
  have hfired := hset.step (e := Event.timeout) (fun h => absurd h (by decide)) rfl
  have hcommitted := hfired.step (e := Event.commit) trivial rfl
  have hdone : Compositor.system.ReachableWhere Exporting oddExporter :=
    hcommitted.step (e := Event.continuation) trivial rfl
  have hpublished : Published oddExporter (filePath "/run/user/1000" "/tmp") oddFiles := by
    refine ⟨.inl (by decide), fun c hc => ?_⟩
    rw [← Capture.object_injective (Option.some.inj hc)]
    rfl
  exact prompt_names_activeWindow hdone ⟨rfl, by simp [oddExporter]⟩ rfl hpublished
    "Top processes: " "CPU: " "Hello"

end NiraOS.ContextBroker
