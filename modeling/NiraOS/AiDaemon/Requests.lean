import NiraOS.Lib.Text
import Mathlib.Data.Rat.Defs
import Mathlib.Tactic.Common

/-!
# Requests of the AI daemon

The parts of the gRPC handlers (`grpc/mod.rs`) that only compute: validation,
the quick-action test, prompt enrichment, and what becomes of a finished text.
Calls to other services appear as values: `ActionReply` is what became of a call
to the action manager, and the context broker's answer is an optional pair.
-/

namespace NiraOS.AiDaemon

inductive DaemonMode
  | onDemand
  | alwaysEnabled
  | manualPreload
  | autoUnload
  deriving DecidableEq, Repr

inductive ModelState
  | unloaded
  | loading
  | ready
  | unloading
  deriving DecidableEq, Repr

inductive Code
  | invalidArgument
  | failedPrecondition
  | internal
  deriving DecidableEq, Repr

/-- A gRPC status that is not OK. -/
structure Status where
  code : Code
  message : String
  deriving DecidableEq, Repr

structure AiResponse where
  text : String
  isFinished : Bool
  tokensUsed : ℕ
  error : Option String
  deriving DecidableEq, Repr

/-! ## Validation -/

structure GenerateRequest where
  prompt : String
  contextId : String
  maxTokens : ℤ
  /-- `none` when the float is not finite. -/
  temperature : Option ℚ
  deriving DecidableEq

def validateRequest (request : GenerateRequest) : Except Status Unit :=
  if Text.isBlank request.prompt then
    .error ⟨.invalidArgument, "prompt must not be empty"⟩
  else if request.prompt.utf8ByteSize > 32000 then
    .error ⟨.invalidArgument, "prompt exceeds the 32 KiB request limit"⟩
  else if request.maxTokens ≤ 0 ∨ request.maxTokens > 4096 then
    .error ⟨.invalidArgument, "max_tokens must be between 1 and 4096"⟩
  else if ∃ t ∈ request.temperature, 0 ≤ t ∧ t ≤ 2 then .ok ()
  else .error ⟨.invalidArgument, "temperature must be between 0.0 and 2.0"⟩

/-- `set_mode` knows four names. -/
def parseMode (mode : String) : Except String DaemonMode :=
  if mode = "ondemand" then .ok .onDemand
  else if mode = "always" then .ok .alwaysEnabled
  else if mode = "preload" then .ok .manualPreload
  else if mode = "auto-unload" then .ok .autoUnload
  else .error ("unknown mode: " ++ mode)

/-! ## Actions on the desktop -/

structure ToolRequest where
  tool : String
  arguments : List (String × String)
  reason : String
  deriving DecidableEq, Repr

/-- What became of a call to the action manager. -/
inductive ActionReply
  | unreachable
  | failed (error : String)
  | replied (message : String) (success : Bool)
  deriving DecidableEq, Repr

/-- `intercept_quick_action` takes the prompt for a quick action. -/
def isQuickAction (prompt : String) : Bool :=
  let trimmed := Text.toLowercase (Text.trim prompt)
  (Text.contains trimmed "optimize" && Text.contains trimmed "pc") ||
    (Text.contains trimmed "optimize" && Text.contains trimmed "system") ||
    trimmed == "optimize my pc"

def quickActionLabel : String := "Optimize my PC"

def quickActionRequest : ToolRequest :=
  ⟨"optimize_system", [], "User requested: " ++ quickActionLabel⟩

/-- The text of `execute_quick_action`. -/
def quickActionText : ActionReply → String
  | .unreachable =>
      "I could not reach the action system to perform \"" ++ quickActionLabel ++ "\"."
  | .failed error =>
      "**Action: " ++ quickActionLabel ++ "**\n\nI tried, but couldn't reach the system: " ++ error
  | .replied message success =>
      "**Action: " ++ quickActionLabel ++ "**\n\nI've completed that task. " ++
        (if success then "The operation succeeded: " else "There was an issue: ") ++ message

/-- The tool request `dispatch_tool_if_needed` acts on.  `parse` is
`parse_tool_request`. -/
def toolRequest (parse : String → Option ToolRequest) (fullText : String) : Option ToolRequest :=
  if Text.contains fullText "\"tool_request\"" then parse fullText else none

/-- The result of `dispatch_tool_if_needed` once the action manager was called. -/
def toolResult (fullText : String) : ActionReply → String × Option String
  | .unreachable => (fullText, some "failed to connect to Action Manager")
  | .failed error => (fullText, some ("tool execution failed: " ++ error))
  | .replied message success =>
      ("Tool executed: " ++ message ++ " (Success: " ++
        (if success then "true" else "false") ++ ")",
        none)

/-- `dispatch_tool_if_needed`, given the reply to the call it may make. -/
def dispatchToolIfNeeded (parse : String → Option ToolRequest) (fullText : String)
    (reply : ActionReply) : String × Option String :=
  match toolRequest parse fullText with
  | none => (fullText, none)
  | some _ => toolResult fullText reply

/-! ## The prompt -/

def toolSchema : String :=
  "To perform an action, output EXACTLY this JSON: \x7b\"type\": \"tool_request\", \"tool\": " ++
    "\"action_id\", \"arguments\": \x7b\"key\": \"value\"\x7d, \"reason\": \"Why you are doing " ++
    "this\"\x7d"

/-- `enrich_prompt_with_context`, given the active window's title and the
selected text if the context broker answered. -/
def enrichPromptWithContext (prompt : String) : Option (String × String) → String
  | none => prompt
  | some (activeWindowTitle, selectedText) =>
      "<|system|> System Context:\nActive Process: " ++ activeWindowTitle ++ "\nStatus: " ++
        selectedText ++ "\n" ++ toolSchema ++ "\n<|user|> " ++ prompt ++ "\n<|assistant|>"

end NiraOS.AiDaemon
