import Mathlib.Algebra.Group.Nat.Defs
import Mathlib.Data.Int.Notation
import Mathlib.Data.List.Basic
import Mathlib.Tactic.Common

/-!
# Evaluating a prompt and generating from it

`generate_impl` (`inference/llama_cpp.rs`) from the tokenised prompt on: the prompt is evaluated in
chunks, and then one token after another is sampled and fed back.  What it does to the batch, the
context and the sampler is recorded as a list of actions, up to the end or the first failure.

`Feed` says what a context may be given, without a program: how many tokens it holds, what stands in
the batch, whether the batch was evaluated.  Every list of actions of `generateImpl` is one that a
feed admits, and it stops only where `Feed.Ends` gives a reason: the environment failed or refused
what the next step needed, the model ended the text, or the budget is spent (`generateImpl_sound`).

```text
  clear      the batch is empty or was evaluated          no token is lost
  add        the batch is not full and not evaluated      no token is submitted twice
             the next token at the next position, below the context length
             logits for the last token of the prompt and for generated ones
  decode     the batch has tokens and was not evaluated
  sample     all tokens were evaluated, the last of them with logits; the budget is not spent
```

Positions are computed as the source does, in `usize` and cast to `i32`; that nothing is cut off is
part of what is proved.
-/

namespace NiraOS.AiDaemon.Generation

abbrev LlamaToken := ℤ

/-! ## Machine integers -/

def usizeAdd (a b : ℕ) : ℕ := (a + b) % 2 ^ 64

def usizeSub (a b : ℕ) : ℕ := (a + 2 ^ 64 - b) % 2 ^ 64

/-- `as i32`. -/
def asI32 (n : ℕ) : ℤ := Int.bmod n (2 ^ 32)

/-- `as u32`. -/
def asU32 (n : ℕ) : ℕ := n % 2 ^ 32

/-! ## The function -/

inductive Action
  | clear
  | add (token : LlamaToken) (position : ℤ) (logits : Bool)
  | decode
  | sample (token : LlamaToken) (endOfGeneration : Bool)
  | accept (token : LlamaToken)
  deriving DecidableEq

/-- What the model, the context and the client answer. -/
structure Environment where
  newContext : Except String Unit := .ok ()
  /-- `LlamaBatch::add` of the token at a position. -/
  add : ℕ → Except String Unit := fun _ => .ok ()
  /-- `LlamaContext::decode` when so many tokens have been submitted. -/
  decode : ℕ → Except String Unit := fun _ => .ok ()
  /-- The token sampled in a round, and its text. -/
  sample : ℕ → LlamaToken
  piece : ℕ → Except String String
  isEog : LlamaToken → Bool
  /-- `try_send` of the text of a round. -/
  trySend : ℕ → Bool := fun _ => true

structure ContextParams where
  nCtx : Option ℕ
  nBatch : ℕ
  nUbatch : ℕ
  deriving DecidableEq

inductive Ending
  | failed (error : String)
  /-- The receiver of the tokens has gone, or does not keep up. -/
  | disconnected
  /-- The terminal item is sent; so many tokens were generated. -/
  | complete (generated : ℕ)
  deriving DecidableEq

structure Run where
  contextParams : Option ContextParams
  actions : List Action
  ending : Ending

/-- `slice::chunks`; the size is not zero. -/
def chunks {α : Type*} (size : ℕ) : List α → List (List α)
  | [] => []
  | x :: xs => (x :: xs.take (size - 1)) :: chunks size (xs.drop (size - 1))
termination_by xs => xs.length
decreasing_by
  simp only [List.length_cons, List.length_drop]
  omega

variable (env : Environment)

/-- The inner loop of the ingestion. -/
def addChunk (promptLen : ℕ) : List LlamaToken → ℕ → List Action × Except String ℕ
  | [], position => ([], .ok position)
  | token :: rest, position =>
      match env.add position with
      | .error error => ([], .error ("failed to prepare inference batch: " ++ error))
      | .ok () =>
          let produceLogits := decide (usizeAdd position 1 = promptLen)
          let (actions, result) := addChunk promptLen rest (usizeAdd position 1)
          (.add token (asI32 position) produceLogits :: actions, result)

/-- The outer loop of the ingestion. -/
def ingest (promptLen : ℕ) : List (List LlamaToken) → ℕ → List Action × Except String ℕ
  | [], position => ([], .ok position)
  | chunk :: rest, position =>
      match addChunk env promptLen chunk position with
      | (actions, .error error) => (.clear :: actions, .error error)
      | (actions, .ok position) =>
          match env.decode position with
          | .error error =>
              (.clear :: actions ++ [.decode], .error ("failed to evaluate prompt: " ++ error))
          | .ok () =>
              let (more, result) := ingest promptLen rest position
              (.clear :: actions ++ .decode :: more, result)

/-- How the decode loop ends; `done` with the position that it has come to. -/
inductive Loop
  | failed (error : String)
  | disconnected
  | done (position : ℕ)

/-- The decode loop, from round `i` on. -/
def decodeLoop : ℕ → ℕ → ℕ → List Action × Loop
  | 0, position, _ => ([], .done position)
  | budget + 1, position, i =>
      let token := env.sample i
      if env.isEog token then ([.sample token true], .done position)
      else
        match env.piece i with
        | .error error => ([.sample token false], .failed ("failed to decode token: " ++ error))
        | .ok text =>
            -- any failure of `try_send` is taken for a client that left
            if text ≠ "" ∧ env.trySend i = false then ([.sample token false], .disconnected)
            else
              match env.add position with
              | .error error =>
                  ([.sample token false, .accept token, .clear],
                    .failed ("failed to advance batch: " ++ error))
              | .ok () =>
                  let fed := [.sample token false, .accept token, .clear,
                    .add token (asI32 position) true, .decode]
                  match env.decode (usizeAdd position 1) with
                  | .error error => (fed, .failed ("failed to decode token: " ++ error))
                  | .ok () =>
                      let (more, result) := decodeLoop budget (usizeAdd position 1) (i + 1)
                      (fed ++ more, result)

def evalBatchSize (contextLength batchSize : ℕ) : ℕ := min (max batchSize 1) contextLength

def generateImpl (promptTokens : List LlamaToken) (maxTokens contextLength batchSize : ℕ) : Run :=
  if promptTokens.length ≥ contextLength then
    ⟨none, [], .failed ("prompt requires " ++ toString promptTokens.length ++
      " tokens but configured context supports fewer than " ++ toString contextLength)⟩
  else
    let budget := min maxTokens (contextLength - promptTokens.length)
    let evalBatch := evalBatchSize contextLength batchSize
    let params : ContextParams :=
      ⟨if asU32 contextLength = 0 then none else some (asU32 contextLength), asU32 evalBatch,
        asU32 evalBatch⟩
    match env.newContext with
    | .error error =>
        ⟨some params, [], .failed ("failed to create inference context: " ++ error)⟩
    | .ok () =>
        match ingest env promptTokens.length (chunks evalBatch promptTokens) 0 with
        | (prompt, .error error) => ⟨some params, prompt, .failed error⟩
        | (prompt, .ok _) =>
            match decodeLoop env budget promptTokens.length 0 with
            | (generated, .failed error) => ⟨some params, prompt ++ generated, .failed error⟩
            | (generated, .disconnected) => ⟨some params, prompt ++ generated, .disconnected⟩
            | (generated, .done position) =>
                ⟨some params, prompt ++ generated,
                  .complete (usizeSub position promptTokens.length)⟩

/-! ## What a context may be given -/

structure Feed where
  /-- The tokens given to the context, by position. -/
  submitted : List LlamaToken
  /-- How many of them stand in the batch. -/
  batch : ℕ
  /-- The batch was evaluated. -/
  evaluated : Bool
  /-- Logits were asked for with the last token. -/
  logits : Bool
  /-- The tokens sampled, without those that end the generation. -/
  sampled : List LlamaToken

def Feed.empty : Feed := ⟨[], 0, false, false, []⟩

structure Limits where
  prompt : List LlamaToken
  contextLength : ℕ
  evalBatch : ℕ
  maxTokens : ℕ
  /-- The tokens that end a generation. -/
  isEog : LlamaToken → Bool

/-- How many tokens there is room for. -/
def Limits.budget (l : Limits) : ℕ := min l.maxTokens (l.contextLength - l.prompt.length)

namespace Feed

variable (l : Limits) (f : Feed)

def next : Action → Feed
  | .clear => { f with batch := 0 }
  | .add token _ logits =>
      { f with
        submitted := f.submitted ++ [token]
        batch := f.batch + 1
        evaluated := false
        logits }
  | .decode => { f with evaluated := true }
  | .sample token endOfGeneration =>
      if endOfGeneration = true then f else { f with sampled := f.sampled ++ [token] }
  | .accept _ => f

/-- What may be done next. -/
def Allows : Action → Prop
  | .clear => f.batch = 0 ∨ f.evaluated = true
  | .add token position logits =>
      (f.batch = 0 ∨ f.evaluated = false) ∧ f.batch < l.evalBatch ∧
      position = f.submitted.length ∧ f.submitted.length < l.contextLength ∧
      (l.prompt ++ f.sampled)[f.submitted.length]? = some token ∧
      (logits = true ↔ l.prompt.length ≤ f.submitted.length + 1)
  | .decode => f.evaluated = false ∧ 1 ≤ f.batch ∧ f.batch ≤ l.evalBatch
  | .sample token endOfGeneration =>
      f.evaluated = true ∧ f.logits = true ∧ f.submitted = l.prompt ++ f.sampled ∧
      f.sampled.length < l.maxTokens ∧ endOfGeneration = l.isEog token
  | .accept _ => True

def after (actions : List Action) : Feed := actions.foldl next f

/-- Each of the actions is allowed where it comes. -/
def Admits : Feed → List Action → Prop
  | _, [] => True
  | f, action :: actions => f.Allows l action ∧ (f.next action).Admits actions

/-- Everything sampled was submitted and evaluated, the last token with logits. -/
structure Ready : Prop where
  evaluated : f.evaluated = true
  logits : f.logits = true
  submitted : f.submitted = l.prompt ++ f.sampled

/-- All but the last of the sampled tokens were submitted; it comes from round `i`. -/
structure Holds (i : ℕ) : Prop where
  length : f.sampled.length = i + 1
  submitted : f.submitted = l.prompt ++ f.sampled.take i

/-- Why a run may end in this way when the context was given `f`. -/
inductive Ends (env : Environment) : Ending → Prop
  | newContext {error : String} (h : env.newContext = .error error)
      (hsubmitted : f.submitted = []) (hsampled : f.sampled = []) :
      Ends env (.failed ("failed to create inference context: " ++ error))
  | addPrompt {error : String} {position : ℕ} (h : env.add position = .error error)
      (hlt : position < l.prompt.length) (hsubmitted : f.submitted = l.prompt.take position)
      (hsampled : f.sampled = []) :
      Ends env (.failed ("failed to prepare inference batch: " ++ error))
  | decodePrompt {error : String} {position : ℕ} (h : env.decode position = .error error)
      (hle : position ≤ l.prompt.length) (hsubmitted : f.submitted = l.prompt.take position)
      (hsampled : f.sampled = []) : Ends env (.failed ("failed to evaluate prompt: " ++ error))
  | piece {error : String} {i : ℕ} (h : env.piece i = .error error) (hholds : f.Holds l i) :
      Ends env (.failed ("failed to decode token: " ++ error))
  | disconnected {text : String} {i : ℕ} (htext : env.piece i = .ok text) (hne : text ≠ "")
      (h : env.trySend i = false) (hholds : f.Holds l i) : Ends env .disconnected
  | add {error : String} {i : ℕ} (h : env.add (l.prompt.length + i) = .error error)
      (hholds : f.Holds l i) : Ends env (.failed ("failed to advance batch: " ++ error))
  | decode {error : String} (h : env.decode f.submitted.length = .error error)
      (hsubmitted : f.submitted = l.prompt ++ f.sampled) (hone : 1 ≤ f.sampled.length) :
      Ends env (.failed ("failed to decode token: " ++ error))
  | endOfGeneration (h : l.isEog (env.sample f.sampled.length) = true)
      (hlt : f.sampled.length < l.budget) (hready : f.Ready l) :
      Ends env (.complete f.sampled.length)
  | spent (h : f.sampled.length = l.budget) (hready : f.Ready l) :
      Ends env (.complete f.sampled.length)

variable {l f}

theorem after_append (actions more : List Action) :
    f.after (actions ++ more) = (f.after actions).after more :=
  List.foldl_append

theorem Admits.append {actions more : List Action} (h : f.Admits l actions)
    (hmore : (f.after actions).Admits l more) : f.Admits l (actions ++ more) := by
  induction actions generalizing f with
  | nil => exact hmore
  | cons action actions ih => exact ⟨h.1, ih h.2 hmore⟩

end Feed

/-! ## Chunks -/

section Chunks

variable {α : Type*} {size : ℕ}

theorem flatten_chunks (size : ℕ) (xs : List α) : (chunks size xs).flatten = xs := by
  induction xs using chunks.induct size with
  | case1 => rw [chunks, List.flatten_nil]
  | case2 x xs ih => rw [chunks, List.flatten_cons, ih, List.cons_append, List.take_append_drop]

theorem length_of_mem_chunks (hsize : 1 ≤ size) {xs chunk : List α} (h : chunk ∈ chunks size xs) :
    1 ≤ chunk.length ∧ chunk.length ≤ size := by
  induction xs using chunks.induct size with
  | case1 => simp [chunks] at h
  | case2 x xs ih =>
      rw [chunks, List.mem_cons] at h
      rcases h with rfl | h
      · rw [List.length_cons, List.length_take]
        omega
      · exact ih h

end Chunks

/-! ## Machine integers in range -/

theorem usizeAdd_eq {a b : ℕ} (h : a + b < 2 ^ 64) : usizeAdd a b = a + b := Nat.mod_eq_of_lt h

theorem usizeSub_eq {a b c : ℕ} (h : a = b + c) (hc : c < 2 ^ 64) : usizeSub a b = c := by
  unfold usizeSub
  have hwrap : a + 2 ^ 64 - b = c + 2 ^ 64 := by omega
  rw [hwrap, Nat.add_mod_right]
  exact Nat.mod_eq_of_lt hc

theorem asI32_eq {n : ℕ} (h : n < 2 ^ 31) : asI32 n = n := by
  unfold asI32
  exact Int.bmod_eq_of_le (by omega) (by omega)

/-! ## The ingestion -/

section Ingestion

variable (env : Environment) {l : Limits}

/-- The first `position` tokens of the prompt were submitted, `batch` of them in the batch. -/
structure Feed.At (l : Limits) (f : Feed) (position batch : ℕ) : Prop where
  submitted : f.submitted = l.prompt.take position
  sampled : f.sampled = []
  batch : f.batch = batch
  le : position ≤ l.prompt.length

/-- The batch is being filled. -/
def Feed.Filling (l : Limits) (f : Feed) (position batch : ℕ) : Prop :=
  f.At l position batch ∧
    (batch = 0 ∨ f.evaluated = false ∧ (f.logits = true ↔ position = l.prompt.length))

/-- The batch was evaluated, or there is none yet. -/
def Feed.Evaluated (l : Limits) (f : Feed) (position : ℕ) : Prop :=
  (∃ batch, f.At l position batch) ∧
    (position = 0 ∧ f.batch = 0 ∨ f.evaluated = true ∧
      (f.logits = true ↔ position = l.prompt.length))

/-- One token of the prompt is put into the batch. -/
theorem Feed.Filling.add {f : Feed} {position batch : ℕ} {token : LlamaToken}
    (h : f.Filling l position batch) (htoken : l.prompt[position]? = some token)
    (hprompt : l.prompt.length < l.contextLength) (hbatch : batch < l.evalBatch) :
    f.Allows l (.add token position (decide (position + 1 = l.prompt.length))) ∧
      (f.next (.add token position (decide (position + 1 = l.prompt.length)))).Filling l
        (position + 1) (batch + 1) := by
  obtain ⟨⟨hsubmitted, hsampled, hcount, -⟩, hfresh⟩ := h
  obtain ⟨hlt, hget⟩ := List.getElem?_eq_some_iff.mp htoken
  have hlength : f.submitted.length = position := by
    rw [hsubmitted, List.length_take]
    omega
  constructor
  · refine ⟨?_, by omega, by rw [hlength], by omega, ?_, ?_⟩
    · rcases hfresh with hzero | ⟨hfresh, -⟩
      · exact .inl (hcount.trans hzero)
      · exact .inr hfresh
    · rw [hsampled, List.append_nil, hlength, htoken]
    · rw [decide_eq_true_iff, hlength]
      omega
  · refine ⟨⟨?_, hsampled, congrArg (· + 1) hcount, hlt⟩, .inr ⟨rfl, ?_⟩⟩
    · change f.submitted ++ [token] = _
      rw [hsubmitted, List.take_succ_eq_append_getElem hlt, hget]
    · exact decide_eq_true_iff

theorem addChunk_admits (hprompt : l.prompt.length < l.contextLength)
    (hlimit : l.contextLength < 2 ^ 31) {chunk rest : List LlamaToken}
    {position batch : ℕ} {f : Feed}
    (h : f.Filling l position batch) (hchunk : l.prompt.drop position = chunk ++ rest)
    (hbatch : batch + chunk.length ≤ l.evalBatch) :
    f.Admits l (addChunk env l.prompt.length chunk position).1 ∧
      (∀ position', (addChunk env l.prompt.length chunk position).2 = .ok position' →
        position' = position + chunk.length ∧
          (f.after (addChunk env l.prompt.length chunk position).1).Filling l position'
            (batch + chunk.length)) ∧
      ∀ error, (addChunk env l.prompt.length chunk position).2 = .error error →
        (f.after (addChunk env l.prompt.length chunk position).1).Ends l env (.failed error) ∧
          (f.after (addChunk env l.prompt.length chunk position).1).sampled = [] := by
  induction chunk generalizing position batch f with
  | nil =>
      refine ⟨trivial, ?_, by simp [addChunk]⟩
      rintro _ ⟨⟩
      exact ⟨rfl, h⟩
  | cons token chunk ih =>
      have htoken : l.prompt[position]? = some token := by
        rw [← List.head?_drop, hchunk]
        rfl
      have hlt : position < l.prompt.length := (List.getElem?_eq_some_iff.mp htoken).1
      have hnext : l.prompt.drop (position + 1) = chunk ++ rest := by
        rw [← List.tail_drop, hchunk]
        rfl
      rw [List.length_cons] at hbatch
      obtain ⟨hallows, hfilling⟩ := h.add htoken hprompt (by omega)
      have hi32 : asI32 position = position := asI32_eq (by omega)
      have husize : usizeAdd position 1 = position + 1 := usizeAdd_eq (by omega)
      unfold addChunk
      split
      next error hadd =>
        refine ⟨trivial, by simp, fun _ herror => ?_⟩
        obtain rfl := Except.error.inj herror
        exact ⟨.addPrompt hadd hlt h.1.submitted h.1.sampled, h.1.sampled⟩
      next hadd =>
        rw [hi32, husize]
        obtain ⟨hadmits, hok, hfails⟩ := ih hfilling hnext (by omega)
        refine ⟨⟨hallows, hadmits⟩, fun position' hposition => ?_, hfails⟩
        obtain ⟨rfl, hafter⟩ := hok position' hposition
        refine ⟨by rw [List.length_cons]; omega, ?_⟩
        rw [List.length_cons, Nat.add_comm chunk.length 1, ← Nat.add_assoc]
        exact hafter

/-- A batch that is not empty is evaluated. -/
theorem Feed.Filling.decode {f : Feed} {position batch : ℕ} (h : f.Filling l position batch)
    (hone : 1 ≤ batch) (hsize : batch ≤ l.evalBatch) :
    f.Allows l .decode ∧ (f.next .decode).Evaluated l position := by
  obtain ⟨hat, hzero | ⟨hfresh, hlogits⟩⟩ := h
  · omega
  have hcount := hat.batch
  exact ⟨⟨hfresh, by omega, by omega⟩,
    ⟨batch, hat.submitted, hat.sampled, hcount, hat.le⟩, .inr ⟨rfl, hlogits⟩⟩

theorem ingest_admits (hprompt : l.prompt.length < l.contextLength)
    (hlimit : l.contextLength < 2 ^ 31) {parts : List (List LlamaToken)} {position : ℕ} {f : Feed}
    (h : f.Evaluated l position) (hparts : l.prompt.drop position = parts.flatten)
    (hsizes : ∀ chunk ∈ parts, 1 ≤ chunk.length ∧ chunk.length ≤ l.evalBatch) :
    f.Admits l (ingest env l.prompt.length parts position).1 ∧
      (∀ position', (ingest env l.prompt.length parts position).2 = .ok position' →
        position' = l.prompt.length ∧
          (f.after (ingest env l.prompt.length parts position).1).Evaluated l position') ∧
      ∀ error, (ingest env l.prompt.length parts position).2 = .error error →
        (f.after (ingest env l.prompt.length parts position).1).Ends l env (.failed error) ∧
          (f.after (ingest env l.prompt.length parts position).1).sampled = [] := by
  induction parts generalizing position f with
  | nil =>
      obtain ⟨⟨batch, hat⟩, -⟩ := id h
      refine ⟨trivial, ?_, by simp [ingest]⟩
      rintro _ ⟨⟩
      have hge := List.drop_eq_nil_iff.mp hparts
      have hle := hat.le
      exact ⟨by omega, h⟩
  | cons chunk parts ih =>
      obtain ⟨⟨batch, hat⟩, hevaluated⟩ := h
      obtain ⟨hone, hsize⟩ := hsizes chunk (List.mem_cons_self ..)
      have hclear : f.Allows l .clear := hevaluated.imp And.right And.left
      have hempty : (f.next .clear).Filling l position 0 :=
        ⟨⟨hat.submitted, hat.sampled, rfl, hat.le⟩, .inl rfl⟩
      obtain ⟨hadmits, hok, hfails⟩ := addChunk_admits env hprompt hlimit hempty hparts
        (by omega)
      unfold ingest
      generalize addChunk env l.prompt.length chunk position = added at hadmits hok hfails
      obtain ⟨actions, error | position₁⟩ := added
      · refine ⟨⟨hclear, hadmits⟩, by simp, fun _ herror => ?_⟩
        obtain rfl := Except.error.inj herror
        exact hfails error rfl
      obtain ⟨rfl, hfilling⟩ := hok position₁ rfl
      obtain ⟨hdecode, hready⟩ := hfilling.decode (by omega) (by omega)
      dsimp only
      split
      next error hfailed =>
        refine ⟨⟨hclear, hadmits.append ⟨hdecode, trivial⟩⟩, by simp, fun _ herror => ?_⟩
        obtain rfl := Except.error.inj herror
        -- the batch was filled and stays as it is
        have hafter : f.after (.clear :: actions ++ [.decode]) =
            ((f.next .clear).after actions).next .decode := Feed.after_append (.clear :: actions) _
        rw [hafter]
        exact ⟨.decodePrompt hfailed hfilling.1.le hfilling.1.submitted hfilling.1.sampled,
          hfilling.1.sampled⟩
      next hevaluated =>
        have hrest : l.prompt.drop (position + chunk.length) = parts.flatten := by
          rw [← List.drop_drop, hparts, List.flatten_cons, List.drop_left]
        obtain ⟨hadmits', hok', hfails'⟩ :=
          ih hready hrest fun c hc => hsizes c (List.mem_cons_of_mem _ hc)
        have hafter : ∀ more, f.after (.clear :: actions ++ .decode :: more) =
            (((f.next .clear).after actions).next .decode).after more := fun more =>
          Feed.after_append (.clear :: actions) (.decode :: more)
        refine ⟨⟨hclear, hadmits.append ⟨hdecode, hadmits'⟩⟩, fun position' hposition => ?_,
          fun error herror => ?_⟩
        · rw [hafter]
          exact hok' position' hposition
        · rw [hafter]
          exact hfails' error herror

end Ingestion

/-! ## The decode loop -/

section Decoding

variable (env : Environment) {l : Limits}

/-- The sampled tokens are those of the first rounds. -/
def Feed.FromRounds (env : Environment) (f : Feed) : Prop :=
  f.sampled = (List.range f.sampled.length).map env.sample

theorem Feed.FromRounds.of_nil {env : Environment} {f : Feed} (h : f.sampled = []) :
    f.FromRounds env := by
  unfold Feed.FromRounds
  rw [h]
  rfl

theorem Feed.FromRounds.concat {env : Environment} {f g : Feed} (h : f.FromRounds env)
    (hg : g.sampled = f.sampled ++ [env.sample f.sampled.length]) : g.FromRounds env := by
  unfold Feed.FromRounds
  rw [hg, List.length_append, List.length_singleton, List.range_succ, List.map_append, ← h]
  rfl

/-- What the function answers after the decode loop. -/
def Loop.ending (promptLen : ℕ) : Loop → Ending
  | .failed error => .failed error
  | .disconnected => .disconnected
  | .done position => .complete (usizeSub position promptLen)

/-- A sampled token is fed back. -/
theorem Feed.Ready.round {f : Feed} (h : f.Ready l) {token : LlamaToken}
    (htoken : l.isEog token = false) (hbudget : f.sampled.length < l.maxTokens)
    (hbatch : 1 ≤ l.evalBatch) (hlength : f.submitted.length < l.contextLength) :
    f.Admits l [.sample token false, .accept token, .clear, .add token f.submitted.length true,
        .decode] ∧
      (f.after [.sample token false, .accept token, .clear, .add token f.submitted.length true,
        .decode]).Ready l ∧
      (f.after [.sample token false, .accept token, .clear, .add token f.submitted.length true,
        .decode]).sampled = f.sampled ++ [token] := by
  obtain ⟨hevaluated, hlogits, hsubmitted⟩ := h
  have hget : (l.prompt ++ (f.sampled ++ [token]))[f.submitted.length]? = some token := by
    rw [← List.append_assoc, ← hsubmitted, List.getElem?_concat_length]
  have hpast : l.prompt.length ≤ f.submitted.length + 1 := by
    rw [hsubmitted, List.length_append]
    omega
  refine ⟨⟨⟨hevaluated, hlogits, hsubmitted, hbudget, htoken.symm⟩, trivial, .inr hevaluated, ?_,
    ?_, trivial⟩, ⟨rfl, rfl, ?_⟩, rfl⟩
  · exact ⟨.inl rfl, hbatch, rfl, hlength, hget, iff_of_true rfl hpast⟩
  · exact ⟨rfl, Nat.le_refl _, hbatch⟩
  · change f.submitted ++ [token] = l.prompt ++ (f.sampled ++ [token])
    rw [hsubmitted, List.append_assoc]

/-- A token that was sampled and not yet submitted. -/
theorem Feed.Ready.holds {f g : Feed} (h : f.Ready l) {token : LlamaToken}
    (hsubmitted : g.submitted = f.submitted) (hsampled : g.sampled = f.sampled ++ [token]) :
    g.Holds l f.sampled.length := by
  constructor
  · rw [hsampled, List.length_append, List.length_singleton]
  · rw [hsubmitted, h.submitted, hsampled, List.take_left]

theorem decodeLoop_admits (heog : l.isEog = env.isEog) (hlimit : l.contextLength < 2 ^ 31)
    (hbatch : 1 ≤ l.evalBatch) (hprompt : l.prompt.length < l.contextLength) {budget i : ℕ}
    {f : Feed} (h : f.Ready l) (hi : f.sampled.length = i) (hbudget : i + budget = l.budget)
    (hrounds : f.FromRounds env) :
    f.Admits l (decodeLoop env budget f.submitted.length i).1 ∧
      (f.after (decodeLoop env budget f.submitted.length i).1).FromRounds env ∧
      (f.after (decodeLoop env budget f.submitted.length i).1).Ends l env
        ((decodeLoop env budget f.submitted.length i).2.ending l.prompt.length) := by
  have hlength : f.submitted.length = l.prompt.length + f.sampled.length := by
    rw [h.submitted, List.length_append]
  unfold Limits.budget at hbudget
  have hdone : usizeSub f.submitted.length l.prompt.length = f.sampled.length :=
    usizeSub_eq hlength (by omega)
  induction budget generalizing i f with
  | zero =>
      refine ⟨trivial, hrounds, ?_⟩
      show f.Ends l env (.complete (usizeSub f.submitted.length l.prompt.length))
      rw [hdone]
      exact .spent (hi.trans hbudget) h
  | succ budget ih =>
      subst hi
      have hmax : f.sampled.length < l.maxTokens := by omega
      have hsample : ∀ token, f.Allows l (.sample token (l.isEog token)) := fun _ =>
        ⟨h.evaluated, h.logits, h.submitted, hmax, rfl⟩
      have hi32 : asI32 f.submitted.length = f.submitted.length := asI32_eq (by omega)
      have husize : usizeAdd f.submitted.length 1 = f.submitted.length + 1 := usizeAdd_eq (by omega)
      unfold decodeLoop
      rw [hi32, husize]
      dsimp only
      split
      next hended =>
        have hend : l.isEog (env.sample f.sampled.length) = true := heog ▸ hended
        refine ⟨⟨hend ▸ hsample _, trivial⟩, hrounds, ?_⟩
        show f.Ends l env (.complete (usizeSub f.submitted.length l.prompt.length))
        rw [hdone]
        exact .endOfGeneration hend (by unfold Limits.budget; omega) h
      next hgoesOn =>
      have hgoes : l.isEog (env.sample f.sampled.length) = false := by
        rw [heog]
        exact Bool.not_eq_true _ ▸ hgoesOn
      have hallows : f.Allows l (.sample (env.sample f.sampled.length) false) := hgoes ▸ hsample _
      obtain ⟨hround, hready, hsampled⟩ := h.round hgoes hmax hbatch (by omega)
      split
      next error hpiece =>
        exact ⟨⟨hallows, trivial⟩, hrounds.concat rfl, .piece hpiece (h.holds rfl rfl)⟩
      next text hpiece =>
      split
      next hrefused =>
        exact ⟨⟨hallows, trivial⟩, hrounds.concat rfl,
          .disconnected hpiece hrefused.1 hrefused.2 (h.holds rfl rfl)⟩
      split
      next error hadd =>
        rw [hlength] at hadd
        exact ⟨⟨hround.1, hround.2.1, hround.2.2.1, trivial⟩, hrounds.concat rfl,
          .add hadd (h.holds rfl rfl)⟩
      have hlength' : (f.after [.sample (env.sample f.sampled.length) false,
          .accept (env.sample f.sampled.length), .clear,
          .add (env.sample f.sampled.length) f.submitted.length true, .decode]).submitted.length =
            f.submitted.length + 1 := List.length_append
      split
      next error hdecode =>
        refine ⟨hround, hrounds.concat hsampled, .decode ?_ hready.submitted ?_⟩
        · rw [hlength', hdecode]
        · rw [hsampled, List.length_append, List.length_singleton]
          omega
      have hcount := congrArg List.length hsampled
      rw [List.length_append, List.length_singleton] at hcount
      obtain ⟨hadmits, hrounds', hends⟩ := ih (i := f.sampled.length + 1) hready hcount (by omega)
        (hrounds.concat hsampled) (by omega) (usizeSub_eq (by omega) (by omega))
      rw [hlength'] at hadmits hrounds' hends
      refine ⟨hround.append hadmits, ?_, ?_⟩
      · rw [Feed.after_append]
        exact hrounds'
      · rw [Feed.after_append]
        exact hends

end Decoding

/-! ## The whole function -/

/-- The context is asked for with the sizes that were configured, it is given nothing that a feed
does not admit, what is fed back is what the sampler gave round by round, and the run goes on until
there is a reason to end. -/
structure Run.Sound (env : Environment) (l : Limits) (run : Run) : Prop where
  params : run.contextParams = some ⟨some l.contextLength, l.evalBatch, l.evalBatch⟩
  admitted : Feed.empty.Admits l run.actions
  sampled : (Feed.empty.after run.actions).FromRounds env
  ends : (Feed.empty.after run.actions).Ends l env run.ending

theorem evalBatchSize_pos {contextLength : ℕ} (h : 0 < contextLength) (batchSize : ℕ) :
    1 ≤ evalBatchSize contextLength batchSize ∧
      evalBatchSize contextLength batchSize ≤ contextLength := by
  unfold evalBatchSize
  omega

theorem contextParams_eq {contextLength evalBatch : ℕ} (hpos : 0 < contextLength)
    (hlimit : contextLength < 2 ^ 31) (hle : evalBatch ≤ contextLength) :
    (⟨if asU32 contextLength = 0 then none else some (asU32 contextLength), asU32 evalBatch,
      asU32 evalBatch⟩ : ContextParams) = ⟨some contextLength, evalBatch, evalBatch⟩ := by
  have hctx : asU32 contextLength = contextLength := Nat.mod_eq_of_lt (by omega)
  have hbatch : asU32 evalBatch = evalBatch := Nat.mod_eq_of_lt (by omega)
  rw [hctx, hbatch, if_neg (by omega)]

theorem sound_of_limits (env : Environment) {l : Limits} {batchSize : ℕ}
    (heval : l.evalBatch = evalBatchSize l.contextLength batchSize) (heog : l.isEog = env.isEog)
    (hone : 1 ≤ l.prompt.length) (hprompt : l.prompt.length < l.contextLength)
    (hlimit : l.contextLength < 2 ^ 31) :
    (generateImpl env l.prompt l.maxTokens l.contextLength batchSize).Sound env l := by
  obtain ⟨hbatch, hle⟩ := evalBatchSize_pos (by omega : 0 < l.contextLength) batchSize
  rw [← heval] at hbatch hle
  have hempty : Feed.empty.Evaluated l 0 := ⟨⟨0, rfl, rfl, rfl, Nat.zero_le _⟩, .inl ⟨rfl, rfl⟩⟩
  have hparts : l.prompt.drop 0 = (chunks l.evalBatch l.prompt).flatten := by
    rw [flatten_chunks, List.drop_zero]
  obtain ⟨hingest, hok, hfails⟩ := ingest_admits env hprompt hlimit hempty hparts
    fun chunk hchunk => length_of_mem_chunks hbatch hchunk
  unfold generateImpl
  rw [if_neg (by omega), ← heval]
  dsimp only
  rw [contextParams_eq (by omega) hlimit hle]
  split
  next error hnewContext => exact ⟨rfl, trivial, rfl, .newContext hnewContext rfl rfl⟩
  generalize ingest env l.prompt.length (chunks l.evalBatch l.prompt) 0 = ingested
    at hingest hok hfails
  obtain ⟨prompt, error | position⟩ := ingested
  · obtain ⟨hends, hsampled⟩ := hfails error rfl
    exact ⟨rfl, hingest, .of_nil hsampled, hends⟩
  obtain ⟨rfl, ⟨batch, hat⟩, hevaluated⟩ := hok position rfl
  -- the prompt is not empty, so its last token was evaluated with logits
  have hready : (Feed.empty.after prompt).Ready l := by
    rcases hevaluated with ⟨hzero, -⟩ | ⟨hevaluated, hlogits⟩
    · omega
    · refine ⟨hevaluated, hlogits.mpr rfl, ?_⟩
      rw [hat.submitted, hat.sampled, List.take_length, List.append_nil]
  have hlength : (Feed.empty.after prompt).submitted.length = l.prompt.length := by
    rw [hat.submitted, List.take_length]
  have hnone : (Feed.empty.after prompt).sampled.length = 0 := by
    rw [hat.sampled, List.length_nil]
  obtain ⟨hdecode, hsampled, hends⟩ := decodeLoop_admits env heog hlimit hbatch hprompt hready hnone
    (Nat.zero_add l.budget) (.of_nil hat.sampled)
  rw [hlength, Limits.budget] at hdecode hsampled hends
  rw [← Feed.after_append] at hsampled hends
  generalize decodeLoop env _ l.prompt.length 0 = decoded at hdecode hsampled hends
  obtain ⟨generated, error | - | position⟩ := decoded
  · exact ⟨rfl, hingest.append hdecode, hsampled, hends⟩
  · exact ⟨rfl, hingest.append hdecode, hsampled, hends⟩
  · exact ⟨rfl, hingest.append hdecode, hsampled, hends⟩

/-- **The context is fed soundly**, whatever the model, the context and the client answer. -/
theorem generateImpl_sound (env : Environment) (promptTokens : List LlamaToken)
    (maxTokens contextLength batchSize : ℕ) (hone : 1 ≤ promptTokens.length)
    (hprompt : promptTokens.length < contextLength) (hlimit : contextLength < 2 ^ 31) :
    (generateImpl env promptTokens maxTokens contextLength batchSize).Sound env
      ⟨promptTokens, contextLength, evalBatchSize contextLength batchSize, maxTokens, env.isEog⟩ :=
  sound_of_limits env rfl rfl hone hprompt hlimit

/-- Two words, then the end. -/
def twoWords : Environment :=
  { sample := fun i => if i < 2 then 7 else 2, piece := fun _ => .ok "word", isEog := (· = 2) }

/-- Two tokens of a prompt, in chunks of one, and two generated ones. -/
theorem generateImpl_sound_short :
    (generateImpl twoWords [1, 5] 8 16 0).ending = .complete 2 ∧
      (generateImpl twoWords [1, 5] 8 16 0).Sound twoWords ⟨[1, 5], 16, 1, 8, twoWords.isEog⟩ := by
  constructor
  · simp [twoWords, generateImpl, evalBatchSize, chunks, ingest, addChunk, decodeLoop, usizeAdd,
      usizeSub]
  · exact generateImpl_sound twoWords [1, 5] 8 16 0 (by decide) (by decide) (by decide)

end NiraOS.AiDaemon.Generation
