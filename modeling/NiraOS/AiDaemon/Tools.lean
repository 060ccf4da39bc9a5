import NiraOS.Lib.Json
import Mathlib.Data.List.TakeWhile

/-!
# Tool requests in the text of a model

`parse_tool_request` (`core/ai-daemon/src/agent/tools.rs`).  The reader of single values is that
of `serde_json`, a parameter here; the stream around it is in the model.

The stream starts at the first brace and reads one value after the other.  `scan` is what it should
amount to: it looks at every brace.  The two part in two ways:

```text
                                 the stream                   the scan
a syntax error                   ends                         goes on with the next brace
a string or an array             goes past it                 looks at the braces in it
```

Where nothing is in the strings and arrays (`Transparent`), they agree when nothing is behind the
syntax error (`Silent`), and then only.
-/

namespace NiraOS.AiDaemon.Tools

open Json

/-- `arguments` has each name once. -/
structure ToolRequest where
  type : String
  tool : String
  arguments : List (String × String)
  reason : String
  deriving DecidableEq, Repr

/-- A `HashMap<String, String>`. -/
def stringMap : Value → Option (List (String × String))
  | .object fields => fields.mapM fun field => field.2.asStr.map (field.1, ·)
  | _ => none

/-- `serde_json::from_value::<ToolRequest>`. -/
def fromValue : Value → Option ToolRequest
  | .object fields => do
      let type ← (get fields "type").bind Value.asStr
      let tool ← (get fields "tool").bind Value.asStr
      let arguments ← (get fields "arguments").bind stringMap
      let reason ← (get fields "reason").bind Value.asStr
      return ⟨type, tool, arguments, reason⟩
  | _ => none

/-- One turn of the loop over the stream. -/
def toolRequest (value : Value) : Option ToolRequest :=
  match value with
  | .object fields =>
      if (get fields "type").bind Value.asStr ≠ some "tool_request" then none else fromValue value
  | _ => none

/-- `self_delineated_value`. -/
def selfDelineated (c : Char) : Bool := c = '[' || c = '"' || c = '{'

/-- `peek_end_of_value`. -/
def endsValue : List Char → Bool
  | [] => true
  | c :: _ => isSpace c || c ∈ ['"', '[', ']', '{', '}', ',', ':']

variable (r : Reader)

/-- The loop over the stream.  A value that cannot be read cuts the rest of the text off; one that
runs into something else is an error, and the stream goes on. -/
def stream (text : List Char) : Option ToolRequest :=
  match _htext : skipSpace text with
  | [] => none
  | c :: tail =>
      match _hread : r.read (c :: tail) with
      | none => none
      | some (v, rest) =>
          if selfDelineated c || endsValue rest then
            match toolRequest v with
            | some req => some req
            | none => stream rest
          else stream rest
termination_by text.length
decreasing_by
  all_goals
    rw [← _htext] at _hread
    exact ((r.leaves _ _ _ _hread).of_suffix_left (skipSpace_suffix text)).length_lt

def parseToolRequest (jsonStr : String) : Option ToolRequest :=
  match jsonStr.toList.dropWhile (· ≠ '{') with
  | [] => none
  | tail => stream r tail

/-- What the scanner looks for. -/
def isToolRequest (v : Value) : Option ToolRequest :=
  (fromValue v).filter fun req => req.type = "tool_request"

/-- The first tool request of a text, looked for at each brace. -/
def scan (text : List Char) : Option ToolRequest :=
  match text with
  | [] => none
  | c :: tail =>
      if c = '{' then
        match _hread : r.read (c :: tail) with
        | some (v, rest) =>
            match isToolRequest v with
            | some req => some req
            | none => scan rest
        | none => scan tail
      else scan tail
termination_by text.length
decreasing_by
  · exact (r.leaves _ _ _ _hread).length_lt
  · exact Nat.lt_succ_self _
  · exact Nat.lt_succ_self _

/-- The stream gets to a text: it has read values that are no tool requests. -/
inductive Reaches (text : List Char) : List Char → Prop
  | start : Reaches text (text.dropWhile (· ≠ '{'))
  | next {t rest : List Char} {v : Value} : Reaches text t → r.read (skipSpace t) = some (v, rest) →
      toolRequest v = none → Reaches text rest

/-- What the stream goes past, the scanner finds nothing in, and comes out at its end. -/
def Transparent (text : List Char) : Prop :=
  ∀ t, Reaches r text t → ∀ v rest, r.read (skipSpace t) = some (v, rest) → v.isObject = false →
    scan r t = scan r rest

/-- Behind a syntax error the scanner finds nothing. -/
def Silent (text : List Char) : Prop :=
  ∀ t, Reaches r text t → r.read (skipSpace t) = none → scan r t = none

/-! ## The two on the same text -/

section Steps

variable {r} {text t rest : List Char} {v : Value} {c : Char}

theorem type_of_fromValue {fields : List (String × Value)} {req : ToolRequest}
    (h : fromValue (.object fields) = some req) :
    (get fields "type").bind Value.asStr = some req.type := by
  obtain ⟨type, htype, h⟩ := Option.bind_eq_some_iff.mp h
  obtain ⟨tool, -, h⟩ := Option.bind_eq_some_iff.mp h
  obtain ⟨arguments, -, h⟩ := Option.bind_eq_some_iff.mp h
  obtain ⟨reason, -, h⟩ := Option.bind_eq_some_iff.mp h
  obtain rfl := Option.some.inj h
  exact htype

/-- The check before the decoding asks for what the scanner asks for after it. -/
theorem toolRequest_eq (v : Value) : toolRequest v = isToolRequest v := by
  cases v with
  | object fields =>
      unfold toolRequest isToolRequest
      cases hreq : fromValue (.object fields) with
      | none => simp
      | some req => simp [type_of_fromValue hreq, Option.filter]
  | _ => rfl

theorem scan_of_no_brace {taken : List Char} (h : '{' ∉ taken) (rest : List Char) :
    scan r (taken ++ rest) = scan r rest := by
  induction taken with
  | nil => rfl
  | cons c taken ih =>
      rw [List.mem_cons, not_or] at h
      obtain ⟨hc, htaken⟩ := h
      rw [List.cons_append, scan, if_neg (Ne.symm hc), ih htaken]

theorem scan_skipSpace (t : List Char) : scan r t = scan r (skipSpace t) := by
  have hspace : '{' ∉ t.takeWhile isSpace := by
    intro hmem
    have hbrace := List.mem_takeWhile_imp hmem
    nomatch hbrace
  calc
    scan r t = scan r (t.takeWhile isSpace ++ skipSpace t) := by
      rw [skipSpace, List.takeWhile_append_dropWhile]
    _ = scan r (skipSpace t) := scan_of_no_brace hspace _

theorem scan_dropWhile (t : List Char) : scan r t = scan r (t.dropWhile (· ≠ '{')) := by
  have hprose : '{' ∉ t.takeWhile (· ≠ '{') := by
    intro hmem
    have hbrace := List.mem_takeWhile_imp hmem
    simp at hbrace
  calc
    scan r t = scan r (t.takeWhile (· ≠ '{') ++ t.dropWhile (· ≠ '{')) := by
      rw [List.takeWhile_append_dropWhile]
    _ = scan r (t.dropWhile (· ≠ '{')) := scan_of_no_brace hprose _

theorem isObject_of_request {req : ToolRequest} (h : toolRequest v = some req) :
    v.isObject = true := by
  cases v with
  | object fields => rfl
  | _ => nomatch h

/-- A value that is no request is passed by the stream. -/
theorem stream_of_passed (hread : r.read (skipSpace t) = some (v, rest))
    (hv : toolRequest v = none) :
    stream r t = stream r rest := by
  rw [stream]
  split
  · next hnil =>
      rw [hnil, r.read_nil] at hread
      nomatch hread
  · next c tail hcons =>
      rw [hcons] at hread
      split
      · next hnone => nomatch hnone.symm.trans hread
      · next v' rest' hsome =>
          obtain ⟨rfl, rfl⟩ := Prod.mk.inj (Option.some.inj (hsome.symm.trans hread))
          rw [hv]
          split <;> rfl

theorem stream_of_request {req : ToolRequest} (hread : r.read (skipSpace t) = some (v, rest))
    (hv : toolRequest v = some req) : stream r t = some req := by
  have hobject := isObject_of_request hv
  rw [stream]
  split
  · next hnil =>
      rw [hnil, r.read_nil] at hread
      nomatch hread
  · next c tail hcons =>
      rw [hcons] at hread
      have hbrace : c = '{' := (r.isObject_iff _ _ _ _ hread).mp hobject
      split
      · next hnone => nomatch hnone.symm.trans hread
      · next v' rest' hsome =>
          obtain ⟨rfl, rfl⟩ := Prod.mk.inj (Option.some.inj (hsome.symm.trans hread))
          rw [if_pos (by simp [selfDelineated, hbrace]), hv]

theorem stream_of_failed (hread : r.read (skipSpace t) = none) : stream r t = none := by
  rw [stream]
  split
  · rfl
  · next c tail hcons =>
      rw [hcons] at hread
      split
      · rfl
      · next v rest hsome => nomatch hsome.symm.trans hread

/-- At an object the scanner does what the stream does. -/
theorem scan_of_object (hread : r.read (skipSpace t) = some (v, rest)) (hv : v.isObject = true) :
    scan r t = (isToolRequest v).or (scan r rest) := by
  rw [scan_skipSpace]
  cases hcons : skipSpace t with
  | nil =>
      rw [hcons, r.read_nil] at hread
      nomatch hread
  | cons c tail =>
      rw [hcons] at hread
      rw [scan, if_pos ((r.isObject_iff _ _ _ _ hread).mp hv)]
      split
      · next v' rest' hsome =>
          obtain ⟨rfl, rfl⟩ := Prod.mk.inj (Option.some.inj (hsome.symm.trans hread))
          cases isToolRequest v' <;> simp
      · next hnone => nomatch hnone.symm.trans hread

theorem scan_of_failed {tail : List Char} (hread : r.read ('{' :: tail) = none) :
    scan r ('{' :: tail) = scan r tail := by
  rw [scan, if_pos rfl]
  split
  · next v rest hsome => nomatch hsome.symm.trans hread
  · rfl

/-- Where the stream goes on, both do, when what is passed is transparent. -/
theorem stream_eq_scan_iff_of_passed (hread : r.read (skipSpace t) = some (v, rest))
    (hv : toolRequest v = none) (hpassed : v.isObject = false → scan r t = scan r rest) :
    stream r t = scan r t ↔ stream r rest = scan r rest := by
  have hscan : scan r t = scan r rest := by
    cases hobject : v.isObject with
    | false => exact hpassed hobject
    | true => rw [scan_of_object hread hobject, ← toolRequest_eq, hv, Option.none_or]
  rw [stream_of_passed hread hv, hscan]

end Steps

/-! ## Agreement -/

section Agreement

variable {r} {text t : List Char}

theorem stream_eq_scan_of_reaches (htransparent : Transparent r text) (ht : Reaches r text t)
    (hstart : stream r (text.dropWhile (· ≠ '{')) = scan r (text.dropWhile (· ≠ '{'))) :
    stream r t = scan r t := by
  induction ht with
  | start => exact hstart
  | next ht hread hv ih =>
      exact (stream_eq_scan_iff_of_passed hread hv (htransparent _ ht _ _ hread)).mp ih

theorem stream_eq_scan_of_silent (htransparent : Transparent r text) (hsilent : Silent r text)
    (ht : Reaches r text t) : stream r t = scan r t := by
  induction hn : t.length using Nat.strongRecOn generalizing t with
  | ind n ih =>
      cases hread : r.read (skipSpace t) with
      | none => rw [stream_of_failed hread, hsilent t ht hread]
      | some p =>
          obtain ⟨v, rest⟩ := p
          cases hv : toolRequest v with
          | none =>
              have hleaves := (r.leaves _ _ _ hread).of_suffix_left (skipSpace_suffix t)
              refine (stream_eq_scan_iff_of_passed hread hv (htransparent t ht v rest hread)).mpr ?_
              exact ih rest.length (hn ▸ hleaves.length_lt) (ht.next hread hv) rfl
          | some req =>
              rw [stream_of_request hread hv, scan_of_object hread (isObject_of_request hv),
                ← toolRequest_eq, hv, Option.some_or]

/-- **The stream** finds what the scanner finds when nothing is behind the syntax error at which it
ends, and then only. -/
theorem parseToolRequest_eq_scan_iff (r : Reader) (jsonStr : String)
    (htransparent : Transparent r jsonStr.toList) :
    parseToolRequest r jsonStr = scan r jsonStr.toList ↔ Silent r jsonStr.toList := by
  have hparse : parseToolRequest r jsonStr = stream r (jsonStr.toList.dropWhile (· ≠ '{')) := by
    unfold parseToolRequest
    split
    · next hnil => rw [hnil, stream_of_failed (r.read_nil)]
    · rfl
  rw [hparse, scan_dropWhile]
  constructor
  · intro hstart t ht hread
    rw [← stream_eq_scan_of_reaches htransparent ht hstart, stream_of_failed hread]
  · intro hsilent
    exact stream_eq_scan_of_silent htransparent hsilent .start

end Agreement

/-! ## A request behind code -/

section Samples

def request : ToolRequest := ⟨"tool_request", "filesystem.read", [("path", "/tmp")], "check"⟩

def requestText : String :=
  "\x7b\"type\": \"tool_request\", \"tool\": \"filesystem.read\", " ++
    "\"arguments\": \x7b\"path\": \"/tmp\"\x7d, \"reason\": \"check\"\x7d"

def answerText : String := "Here is my action: " ++ requestText ++ " fn f() \x7b g(); \x7d"

def codeText : String := "fn f() \x7bx\x7d " ++ requestText

theorem toList_append_eq {s t : String} {cs ds : List Char} (hs : s.toList = cs)
    (ht : t.toList = ds) :
    (s ++ t).toList = cs ++ ds := by
  rw [String.toList_append, hs, ht]

/-- The text is taken apart by a lemma here and below: its bytes take long to decode. -/
theorem read_answerText :
    (reader.read (skipSpace (answerText.toList.dropWhile (· ≠ '{')))).bind (fun p =>
      toolRequest p.1) =
      some request := by
  have hrequest : requestText.toList = _ :=
    toList_append_eq String.toList_ofList String.toList_ofList
  have htext : answerText.toList = _ :=
    toList_append_eq (toList_append_eq String.toList_ofList hrequest) String.toList_ofList
  rw [htext]
  decide +kernel

theorem parseToolRequest_eq_scan_answerText :
    parseToolRequest reader answerText = scan reader answerText.toList := by
  obtain ⟨⟨v, rest⟩, hread, hv⟩ := Option.bind_eq_some_iff.mp read_answerText
  have honly : ∀ t, Reaches reader answerText.toList t →
      t = answerText.toList.dropWhile (· ≠ '{') := by
    intro t ht
    induction ht with
    | start => rfl
    | next _ hread' hv' ih =>
        rw [ih, hread] at hread'
        obtain ⟨rfl, -⟩ := Prod.mk.inj (Option.some.inj hread')
        nomatch hv.symm.trans hv'
  refine (parseToolRequest_eq_scan_iff reader answerText ?_).mpr ?_
  · intro t ht v' rest' hread' hobject
    rw [honly t ht, hread] at hread'
    obtain ⟨rfl, -⟩ := Prod.mk.inj (Option.some.inj hread')
    nomatch (isObject_of_request hv).symm.trans hobject
  · intro t ht hnone
    rw [honly t ht, hread] at hnone
    nomatch hnone

theorem scan_requestText : scan reader requestText.toList = some request := by
  have hrequest : requestText.toList = _ :=
    toList_append_eq String.toList_ofList String.toList_ofList
  have hread : (reader.read (skipSpace requestText.toList)).bind (fun p => toolRequest p.1) =
      some request := by
    rw [hrequest]
    decide +kernel
  obtain ⟨⟨v, rest⟩, hread, hv⟩ := Option.bind_eq_some_iff.mp hread
  rw [scan_of_object hread (isObject_of_request hv), ← toolRequest_eq, hv, Option.some_or]

theorem toList_codeText :
    codeText.toList = "fn f() ".toList ++ '{' :: ("x\x7d ".toList ++ requestText.toList) := by
  have hcode : "fn f() \x7bx\x7d ".toList = "fn f() ".toList ++ '{' :: "x\x7d ".toList :=
    by decide +kernel
  rw [codeText, String.toList_append, hcode, List.append_assoc, List.cons_append]

/-- The braces of a piece of code hide the request behind it. -/
theorem parseToolRequest_ne_scan_codeText :
    parseToolRequest reader codeText = none ∧ scan reader codeText.toList = some request := by
  have hread : reader.read ('{' :: ("x\x7d ".toList ++ requestText.toList)) = none := by
    have hcode : "x\x7d ".toList = _ := String.toList_ofList
    have hrequest : requestText.toList = _ :=
      toList_append_eq String.toList_ofList String.toList_ofList
    rw [hcode, hrequest]
    rfl
  have hdrop : codeText.toList.dropWhile (· ≠ '{') =
      '{' :: ("x\x7d ".toList ++ requestText.toList) := by
    rw [toList_codeText]
    rfl
  constructor
  · have hstream : stream reader ('{' :: ("x\x7d ".toList ++ requestText.toList)) = none :=
      stream_of_failed hread
    unfold parseToolRequest
    rw [hdrop]
    exact hstream
  · calc
      scan reader codeText.toList =
          scan reader ("fn f() ".toList ++ '{' :: ("x\x7d ".toList ++ requestText.toList)) := by
        rw [toList_codeText]
      _ = scan reader ('{' :: ("x\x7d ".toList ++ requestText.toList)) :=
        scan_of_no_brace (by decide) _
      _ = scan reader ("x\x7d ".toList ++ requestText.toList) := scan_of_failed hread
      _ = scan reader requestText.toList := scan_of_no_brace (by decide) _
      _ = some request := scan_requestText

end Samples

end NiraOS.AiDaemon.Tools
