import NiraOS.AiDaemon.Tools
import NiraOS.Lib.JsonWriter

/-!
# Tool responses in the text of a model

`format_tool_response` (`core/ai-daemon/src/agent/context.rs`).  What a tool gives back is text of
its own choice, and may hold a whole tool request; it goes back to the model inside a JSON string.
So

* no number of responses is ever taken for a request, and
* a request behind them is found as it was written.

Only what stands between the responses matters: white space, for the stream ends at anything else.
-/

namespace NiraOS.AiDaemon.Tools

open Json

structure ToolResponse where
  type : String
  success : Bool
  content : String

/-! ## The texts -/

/-- `serde_json::to_string` of a response. -/
def ToolResponse.text (res : ToolResponse) : List Char :=
  objectText [("type", quoted res.type), ("success", boolText res.success),
    ("content", quoted res.content)]

def formatToolResponse (success : Bool) (content : String) : String :=
  let res : ToolResponse := ⟨"tool_response", success, content⟩
  String.ofList res.text

def argumentsText (arguments : List (String × String)) : List Char :=
  objectText (arguments.map fun argument => (argument.1, quoted argument.2))

/-- `serde_json::to_string` of a request. -/
def ToolRequest.text (req : ToolRequest) : List Char :=
  objectText [("type", quoted req.type), ("tool", quoted req.tool),
    ("arguments", argumentsText req.arguments),
    ("reason", quoted req.reason)]

/-- Responses, with white space between and around them. -/
inductive Responses : List Char → Prop
  | nil : Responses []
  | space {c : Char} {text : List Char} : isSpace c = true → Responses text → Responses (c :: text)
  | response (success : Bool) (content : String) {text : List Char} : Responses text →
      Responses ((formatToolResponse success content).toList ++ text)

/-! ## What the texts denote -/

section Denotes

theorem denotes_toolResponse (depth : ℕ) (res : ToolResponse) :
    Denotes (value (depth + 1)) res.text
      (.object [("type", .string res.type), ("success", .bool res.success),
        ("content", .string res.content)]) := by
  apply denotes_objectText
  · refine .cons ⟨rfl, denotes_quoted depth _⟩
      (.cons ⟨rfl, denotes_boolText depth _⟩ (.cons ⟨rfl, ?_⟩ .nil))
    exact denotes_quoted depth _
  · simp

theorem denotes_argumentsText (depth : ℕ) {arguments : List (String × String)}
    (h : (arguments.map Prod.fst).Nodup) :
    Denotes (value (depth + 1)) (argumentsText arguments)
      (.object (arguments.map fun argument => (argument.1, .string argument.2))) := by
  apply denotes_objectText
  · induction arguments with
    | nil => exact .nil
    | cons argument arguments ih =>
        exact .cons ⟨rfl, denotes_quoted depth _⟩ (ih (List.nodup_cons.mp h).2)
  · rw [List.map_map]
    exact h

theorem denotes_toolRequest (depth : ℕ) {req : ToolRequest}
    (h : (req.arguments.map Prod.fst).Nodup) :
    Denotes (value (depth + 2)) req.text
      (.object [("type", .string req.type), ("tool", .string req.tool),
        ("arguments", .object (req.arguments.map fun argument => (argument.1, .string argument.2))),
        ("reason", .string req.reason)]) := by
  apply denotes_objectText
  · refine .cons ⟨rfl, denotes_quoted _ _⟩ (.cons ⟨rfl, denotes_quoted _ _⟩ (.cons ⟨rfl, ?_⟩
      (.cons ⟨rfl, denotes_quoted _ _⟩ .nil)))
    exact denotes_argumentsText depth h
  · simp

theorem stringMap_strings (arguments : List (String × String)) :
    stringMap (.object (arguments.map fun argument => (argument.1, .string argument.2))) =
      some arguments := by
  rw [stringMap]
  induction arguments with
  | nil => rfl
  | cons argument arguments ih =>
      rw [List.map_cons, List.mapM_cons, ih]
      rfl

theorem toolRequest_strings {req : ToolRequest} (h : req.type = "tool_request") :
    toolRequest (.object [("type", .string req.type), ("tool", .string req.tool),
      ("arguments", .object (req.arguments.map fun argument => (argument.1, .string argument.2))),
      ("reason", .string req.reason)]) = some req := by
  have htype : (Json.get [("type", .string req.type), ("tool", .string req.tool),
      ("arguments", .object (req.arguments.map fun argument => (argument.1, .string argument.2))),
      ("reason", .string req.reason)] "type").bind Value.asStr = some req.type := rfl
  rw [toolRequest, htype, if_neg (by rw [h]; exact not_not.mpr rfl)]
  simp [fromValue, Json.get, List.lookup_cons, stringMap_strings, Value.asStr]

theorem toolRequest_toolResponse (success : Bool) (content : String) :
    toolRequest (.object [("type", .string "tool_response"), ("success", .bool success),
      ("content", .string content)]) = none := by
  rw [toolRequest, if_pos]
  simp [Json.get, Value.asStr]

end Denotes

/-! ## The stream over responses -/

section Stream

variable {r : Reader} {text tail : List Char}

theorem parseToolRequest_eq_stream (r : Reader) (text : List Char) :
    parseToolRequest r (String.ofList text) = stream r (text.dropWhile (· ≠ '{')) := by
  rw [parseToolRequest, String.toList_ofList]
  split
  · next hnil => rw [hnil, stream_of_failed r.read_nil]
  · rfl

/-- White space in front makes no difference to the stream. -/
theorem stream_space {c : Char} (hc : isSpace c = true) (text : List Char) :
    stream r (c :: text) = stream r text := by
  have hskip : skipSpace (c :: text) = skipSpace text := List.dropWhile_cons_of_pos hc
  cases hread : r.read (skipSpace text) with
  | none => rw [stream_of_failed hread, stream_of_failed (hskip ▸ hread)]
  | some p =>
      obtain ⟨v, rest⟩ := p
      cases hv : toolRequest v with
      | none => rw [stream_of_passed hread hv, stream_of_passed (hskip ▸ hread) hv]
      | some req => rw [stream_of_request hread hv, stream_of_request (hskip ▸ hread) hv]

theorem stream_response (success : Bool) (content : String) (rest : List Char) :
    stream reader ((formatToolResponse success content).toList ++ rest) = stream reader rest := by
  have hdenotes := denotes_toolResponse 126 ⟨"tool_response", success, content⟩
  rw [formatToolResponse, String.toList_ofList]
  have hread := hdenotes.read_eq rest
  rw [← hdenotes.solid] at hread
  exact stream_of_passed hread (toolRequest_toolResponse success content)

theorem stream_responses (h : Responses text) (tail : List Char) :
    stream reader (text ++ tail) = stream reader tail := by
  induction h with
  | nil => rfl
  | space hc _ ih => rw [List.cons_append, stream_space hc, ih]
  | response success content _ ih => rw [List.append_assoc, stream_response, ih]

/-- The stream starts at the first response, or at what is behind the white space. -/
theorem stream_dropWhile_responses (h : Responses text) (htail : tail.dropWhile (· ≠ '{') = tail) :
    stream reader ((text ++ tail).dropWhile (· ≠ '{')) = stream reader tail := by
  induction h with
  | nil => rw [List.nil_append, htail]
  | @space c text hc _ ih =>
      have hne : c ≠ '{' := by
        rintro rfl
        exact absurd hc (by decide)
      rw [List.cons_append, List.dropWhile_cons_of_pos (by simpa using hne), ih]
  | @response success content text htext _ =>
      have hbrace : ∃ more, (formatToolResponse success content).toList = '{' :: more :=
        ⟨_, String.toList_ofList⟩
      obtain ⟨more, hmore⟩ := hbrace
      calc
        stream reader (((formatToolResponse success content).toList ++ text ++
          tail).dropWhile (· ≠ '{')) =
            stream reader ((formatToolResponse success content).toList ++ (text ++ tail)) := by
          rw [List.append_assoc, hmore, List.cons_append, List.dropWhile_cons_of_neg (by simp)]
        _ = stream reader tail := by rw [stream_response, stream_responses htext]

theorem stream_text {req : ToolRequest} (htype : req.type = "tool_request")
    (hnodup : (req.arguments.map Prod.fst).Nodup) (rest : List Char) :
    stream reader (req.text ++ rest) = some req := by
  have hdenotes := denotes_toolRequest 125 hnodup
  have hread := hdenotes.read_eq rest
  rw [← hdenotes.solid] at hread
  exact stream_of_request hread (toolRequest_strings htype)

theorem text_dropWhile (req : ToolRequest) (rest : List Char) :
    (req.text ++ rest).dropWhile (· ≠ '{') = req.text ++ rest :=
  List.dropWhile_cons_of_neg (by simp)

/-- The stream starts behind what has no brace. -/
theorem parseToolRequest_append {prose : List Char} (hprose : '{' ∉ prose) (htalk : Responses text)
    (htail : tail.dropWhile (· ≠ '{') = tail) :
    parseToolRequest reader (String.ofList (prose ++ (text ++ tail))) = stream reader tail := by
  have hnone : ∀ c ∈ prose, decide (c ≠ '{') = true := fun c hc => by
    simpa using fun heq : c = '{' => hprose (heq ▸ hc)
  rw [parseToolRequest_eq_stream, List.dropWhile_append_of_pos hnone]
  exact stream_dropWhile_responses htalk htail

/-- **Tool responses are transparent**: whatever is in them, none is taken for a request, and the
request behind them is found as it was written, whatever follows it. -/
theorem parseToolRequest_responses {prose talk : List Char} (hprose : '{' ∉ prose)
    (htalk : Responses talk) :
    parseToolRequest reader (String.ofList (prose ++ talk)) = none ∧
      ∀ (req : ToolRequest) (rest : List Char), req.type = "tool_request" →
        (req.arguments.map Prod.fst).Nodup →
        parseToolRequest reader (String.ofList (prose ++ (talk ++ (req.text ++ rest)))) =
        some req := by
  constructor
  · have hempty : parseToolRequest reader (String.ofList (prose ++ (talk ++ []))) =
        stream reader [] :=
      parseToolRequest_append hprose htalk rfl
    rw [List.append_nil] at hempty
    rw [hempty]
    exact stream_of_failed reader.read_nil
  · intro req rest htype hnodup
    rw [parseToolRequest_append hprose htalk (text_dropWhile req rest), stream_text htype hnodup]

end Stream

/-- A tool gives back a request, and the model asks for something else. -/
theorem parseToolRequest_responses_injected :
    parseToolRequest reader (String.ofList ("Done: ".toList ++
      ((formatToolResponse true requestText).toList ++ []))) = none ∧
    parseToolRequest reader
      (String.ofList ("Done: ".toList ++ (((formatToolResponse true requestText).toList ++ []) ++
      (request.text ++ "!".toList)))) = some request := by
  have hprose : '{' ∉ "Done: ".toList := by decide
  have h := parseToolRequest_responses hprose (.response true requestText .nil)
  exact ⟨h.1, h.2 request "!".toList rfl (by decide)⟩

end NiraOS.AiDaemon.Tools
