import NiraOS.AiDaemon.Gguf

/-!
# The arithmetic of the validator

The lengths in a file are chosen by whoever wrote it, up to `2 ^ 64 - 1`, and the validator adds
them to its position before it looks at the size of the file.  A sum or a product of `u64` that
does not fit panics in a debug build and wraps around in a release build (`Arith`); the loop is the
same in both.

The validator should be safe (`Safe`): no sum or product of a round overflows, every round moves
the position forward, and so there are no more rounds than bytes.  It is if and only if no pair
that the lengths lead to ends beyond 64 bits (`Short`), where the pairs are followed by unbounded
arithmetic:

```text
what ends beyond 64 bits     the sum that overflows
the key, with the type       8 + key_len, or pos + that, or pos + 4
a text                       8 + str_len, or pos + that
an array                     arr_count * 4, or 12 + that, or pos + that
```
-/

namespace NiraOS.AiDaemon.Validator

/-! ## Two builds -/

/-- What comes of a computation: a result, or a panic. -/
inductive Outcome (α : Type)
  | done (result : Except String α)
  | panicked

instance : Monad Outcome where
  pure a := .done (.ok a)
  bind x f :=
    match x with
    | .done (.ok a) => f a
    | .done (.error e) => .done (.error e)
    | .panicked => .panicked

/-- What a sum or a product of `u64` comes to. -/
abbrev Arith := ℕ → Outcome ℕ

def release : Arith := fun n => .done (.ok (wrap n))

def debug : Arith := fun n => if n < 2 ^ 64 then .done (.ok n) else .panicked

section Builds

variable (arith : Arith) (file : File)

def Arith.valSize (pos valType : ℕ) : Outcome ℕ :=
  match valType with
  | 0 | 1 => pure 1
  | 2 | 3 => pure 2
  | 4 | 5 | 6 => pure 4
  | 7 => pure 1
  | 8 => do
      let behind ← arith (pos + 8)
      if behind > file.size then
        .done (.error ("GGUF string value length out of bounds at byte " ++ toString pos))
      else do
        let strLenBytes ← .done (file.readAt pos 8)
        arith (8 + fromLeBytes strLenBytes)
  | 9 => do
      let behindType ← arith (pos + 4)
      let behind ← arith (behindType + 8)
      if behind > file.size then
        .done (.error ("GGUF array header out of bounds at byte " ++ toString pos))
      else do
        let header ← .done (file.readAt pos 12)
        let elems ← arith (fromLeBytes (header.drop 4) * 4)
        arith (12 + elems)
  | 10 | 11 | 12 => pure 8
  | 13 | 14 => pure 2
  | _ => .done (.error ("unknown GGUF metadata value type: " ++ toString valType))

def Arith.checkPair (i pos : ℕ) : Outcome ℕ :=
  if pos ≥ file.size then
    .done (.error ("GGUF metadata KV pair " ++ toString i ++ " extends beyond file at byte " ++
      toString pos))
  else do
    let keyLenBytes ← .done (file.readAt pos 8)
    let key ← arith (8 + fromLeBytes keyLenBytes)
    let pos ← arith (pos + key)
    let behindType ← arith (pos + 4)
    if behindType > file.size then
      .done (.error ("GGUF metadata value type out of bounds at byte " ++ toString pos))
    else do
      let valTypeBytes ← .done (file.readAt pos 4)
      let pos ← arith (pos + 4)
      let valSize ← arith.valSize file pos (fromLeBytes valTypeBytes)
      let pos ← arith (pos + valSize)
      if pos > file.size then
        .done (.error ("GGUF metadata KV pair " ++ toString i ++ " exceeds file at byte " ++
          toString pos))
      else pure pos

end Builds

/-! ## What should hold -/

section Definitions

variable (file : File)

/-- How many pairs the header announces. -/
def pairCount : ℕ := numberAt 8 (file.bytes.drop 16)

/-- The loop comes to round `i` at a position. -/
inductive Reaches : ℕ → ℕ → Prop
  | first (hheader : HeaderOk file.bytes) (hsome : 0 < pairCount file) : Reaches 0 24
  | next {i pos next : ℕ} (h : Reaches i pos) (hround : Validator.checkPair file i pos = .ok next)
      (hmore : i + 1 < pairCount file) : Reaches (i + 1) next

structure Safe : Prop where
  /-- In a debug build no round panics. -/
  noOverflow : ∀ i pos, Reaches file i pos → debug.checkPair file i pos ≠ .panicked
  increases : ∀ i pos next, Reaches file i pos →
    Validator.checkPair file i pos = .ok next → pos < next
  ends : ∀ i pos, Reaches file i pos → i < file.size

/-- How long a value is by what the validator takes it for, if its length can be read. -/
def valueSize (valType : ℕ) (bytes : Bytes) : Option ℕ :=
  match valType with
  | 8 => if 8 ≤ bytes.length then some (8 + numberAt 8 bytes) else none
  | 9 => if 12 ≤ bytes.length then some (12 + 4 * numberAt 8 (bytes.drop 4)) else none
  | 13 | 14 => some 2
  | other => fixedSize other

/-- How long the pair in front is, if its lengths can be read. -/
def pairSize (bytes : Bytes) : Option ℕ :=
  if valueAt bytes ≤ bytes.length then
    (valueSize (typeOf bytes) (bytes.drop (valueAt bytes))).map (valueAt bytes + ·)
  else none

/-- The pair in front, at a position, ends within 64 bits. -/
structure ShortPair (pos : ℕ) (bytes : Bytes) : Prop where
  key : 8 ≤ bytes.length → pos + valueAt bytes < 2 ^ 64
  value : ∀ n, pairSize bytes = some n → pos + n < 2 ^ 64

/-- So do all pairs that the lengths lead to, of so many. -/
def Short : ℕ → ℕ → Bytes → Prop
  | 0, _, _ => True
  | left + 1, pos, bytes =>
      (bytes ≠ [] → ShortPair pos bytes) ∧
        ∀ n, pairSize bytes = some n → n ≤ bytes.length → Short left (pos + n) (bytes.drop n)

end Definitions

/-! ## The release build -/

section Release

variable {α β : Type} {file : File} {i pos valType count : ℕ}

theorem done_bind (x : Except String α) (f : α → Except String β) :
    (Outcome.done x >>= fun a => .done (f a)) = .done (x.bind f) := by
  cases x with
  | ok a => rfl
  | error e => rfl

theorem release_valSize (file : File) (pos valType : ℕ) :
    release.valSize file pos valType = .done (valSize file pos valType) := by
  match valType with
  | 8 =>
      change (if wrap (pos + 8) > file.size then _ else _) =
        Outcome.done (if wrap (pos + 8) > file.size then _ else _)
      split_ifs
      · rfl
      · exact done_bind (file.readAt pos 8) fun strLenBytes =>
          .ok (wrap (8 + fromLeBytes strLenBytes))
  | 9 =>
      change (if wrap (wrap (pos + 4) + 8) > file.size then _ else _) =
        Outcome.done (if wrap (wrap (pos + 4) + 8) > file.size then _ else _)
      split_ifs
      · rfl
      · exact done_bind (file.readAt pos 12) fun header =>
          .ok (wrap (12 + wrap (fromLeBytes (header.drop 4) * 4)))
  | 0 | 1 | 2 | 3 | 4 | 5 | 6 | 7 | 10 | 11 | 12 | 13 | 14 => rfl
  | other + 15 => rfl

/-- The validator is the one of the release build. -/
theorem release_checkPair (file : File) (i pos : ℕ) :
    release.checkPair file i pos = .done (checkPair file i pos) := by
  unfold Arith.checkPair checkPair
  split_ifs
  · rfl
  · rw [← done_bind]
    congr 1
    funext keyLenBytes
    change (if wrap (wrap (pos + wrap (8 + fromLeBytes keyLenBytes)) + 4) > file.size
      then _ else _) = _
    dsimp only
    split_ifs
    · rfl
    · rw [← done_bind]
      congr 1
      funext valTypeBytes
      rw [← done_bind, ← release_valSize]
      change (release.valSize file _ _ >>= fun valSize => _) = _
      congr 1
      funext valSize
      change (if wrap _ > file.size then _ else _) = _
      split_ifs <;> rfl

/-- Behind a header there is the loop. -/
theorem validateGguf_of_headerOk (h : HeaderOk file.bytes) :
    ∃ header, validateGguf file = (checkPairs file (pairCount file) 0 24).map fun _ => header := by
  obtain ⟨hlong, hmagic, hmin, hmax⟩ := h
  have hsize : 24 ≤ file.size := hlong
  have hread (pos count : ℕ) (hfits : pos + count ≤ 24) :
      file.readAt pos count = .ok ((file.bytes.drop pos).take count) :=
    readAt_eq_ok.mpr ⟨by omega, rfl⟩
  refine ⟨⟨numberAt 4 (file.bytes.drop 4), numberAt 8 (file.bytes.drop 8), pairCount file,
    file.size⟩, ?_⟩
  unfold validateGguf
  rw [if_neg (by unfold minSize; omega), hread 0 4 (by omega)]
  refine (if_neg (not_not.mpr hmagic)).trans ?_
  rw [hread 4 4 (by omega)]
  refine (if_neg ?_).trans ?_
  · rintro (hlow | hhigh)
    · exact Nat.not_lt.mpr hmin hlow
    · exact Nat.not_lt.mpr hmax hhigh
  · rw [hread 8 8 (by omega), hread 16 8 (by omega)]
    rfl

theorem reaches_lt (h : Reaches file i pos) : i < pairCount file := by
  cases h with
  | first hheader hsome => exact hsome
  | next h hround hmore => exact hmore

/-- What the validator returns, the rest of the loop returns. -/
theorem validateGguf_of_reaches (h : Reaches file i pos) :
    ∃ header, validateGguf file = (checkPairs file (pairCount file - i) i pos).map fun _ =>
      header := by
  induction h with
  | first hheader hsome => exact validateGguf_of_headerOk hheader
  | @next i pos next h hround hmore ih =>
      obtain ⟨header, hih⟩ := ih
      refine ⟨header, hih.trans ?_⟩
      have hleft : pairCount file - i = pairCount file - (i + 1) + 1 := by omega
      rw [hleft, checkPairs, hround]
      rfl

end Release

/-! ## One round -/

section Round

variable {file : File} {i pos next n valType : ℕ} {bytes : Bytes}

theorem debug_of_lt (h : n < 2 ^ 64) : debug n = .done (.ok n) := if_pos h

theorem debug_of_le (h : 2 ^ 64 ≤ n) : debug n = .panicked := if_neg (Nat.not_lt.mpr h)

theorem readAt_of_le {count : ℕ} (h : pos + count ≤ file.size) :
    file.readAt pos count = .ok ((file.bytes.drop pos).take count) :=
  readAt_eq_ok.mpr ⟨h, rfl⟩

theorem readAt_of_lt {count : ℕ} (h : file.size < pos + count) :
    ∃ e, file.readAt pos count = .error e := by
  cases hread : file.readAt pos count with
  | ok bytes => exact absurd (readAt_eq_ok.mp hread).1 (Nat.not_le.mpr h)
  | error e => exact ⟨e, rfl⟩

theorem bind_assoc {α β γ : Type} (x : Outcome α) (f : α → Outcome β) (g : β → Outcome γ) :
    (x >>= fun a => f a >>= g) = (x >>= f) >>= g := by
  match x with
  | .done (.ok a) => rfl
  | .done (.error e) => rfl
  | .panicked => rfl

/-- What does not panic itself panics only if what comes before does. -/
theorem bind_panicked_iff {α β : Type} (x : Outcome α) {f : α → Outcome β}
    (hf : ∀ a, f a ≠ .panicked) :
    x >>= f = .panicked ↔ x = .panicked := by
  match x with
  | .done (.ok a) => exact ⟨fun h => absurd h (hf a), nofun⟩
  | .done (.error e) => exact ⟨nofun, nofun⟩
  | .panicked => exact ⟨fun _ => rfl, fun _ => rfl⟩

/-- A number is computed and added to the position: that panics if the sum does not fit. -/
theorem debug_bind_panicked_iff (pos n : ℕ) :
    (debug n >>= fun n => debug (pos + n)) = .panicked ↔ 2 ^ 64 ≤ pos + n := by
  by_cases hn : n < 2 ^ 64
  · rw [debug_of_lt hn]
    change debug (pos + n) = _ ↔ _
    unfold debug
    split_ifs with hfits
    · simpa using hfits
    · simpa using hfits
  · rw [debug_of_le (Nat.not_lt.mp hn)]
    exact ⟨fun _ => by omega, fun _ => rfl⟩

theorem fixed_panicked_iff (hpos : pos ≤ file.size) (hn : n ≤ 8) :
    debug (pos + n) = .panicked ↔ ∃ m, some n = some m ∧ 2 ^ 64 ≤ pos + m := by
  have hsize : file.size < 2 ^ 63 := file.length_lt
  rw [debug_of_lt (by omega)]
  simp only [reduceCtorEq, Option.some.injEq, exists_eq_left', false_iff]
  omega

theorem string_panicked_iff (hpos : pos ≤ file.size) :
    (debug.valSize file pos 8 >>= fun n => debug (pos + n)) = .panicked ↔
      ∃ n, valueSize 8 (file.bytes.drop pos) = some n ∧ 2 ^ 64 ≤ pos + n := by
  have hsize : file.size < 2 ^ 63 := file.length_lt
  have hlength : (file.bytes.drop pos).length = file.size - pos := List.length_drop
  change ((debug (pos + 8) >>= fun behind => _) >>= _) = _ ↔
    ∃ n, (if 8 ≤ (file.bytes.drop pos).length then some (8 + numberAt 8 (file.bytes.drop pos))
      else none) = some n ∧ _
  rw [debug_of_lt (by omega)]
  change ((if pos + 8 > file.size then _ else _) >>= _) = _ ↔ _
  by_cases hlate : pos + 8 > file.size
  · rw [if_pos hlate, if_neg (by omega)]
    simp only [reduceCtorEq, false_and, exists_false]
  · rw [if_neg hlate, if_pos (by omega), readAt_of_le (by omega)]
    change (debug (8 + numberAt 8 (file.bytes.drop pos)) >>= _) = _ ↔ _
    rw [debug_bind_panicked_iff]
    simp

theorem array_panicked_iff (hpos : pos ≤ file.size) :
    (debug.valSize file pos 9 >>= fun n => debug (pos + n)) = .panicked ↔
      ∃ n, valueSize 9 (file.bytes.drop pos) = some n ∧ 2 ^ 64 ≤ pos + n := by
  have hsize : file.size < 2 ^ 63 := file.length_lt
  have hlength : (file.bytes.drop pos).length = file.size - pos := List.length_drop
  change ((debug (pos + 4) >>= fun behindType => _) >>= _) = _ ↔
    ∃ n, (if 12 ≤ (file.bytes.drop pos).length
      then some (12 + 4 * numberAt 8 ((file.bytes.drop pos).drop 4))
      else none) = some n ∧ _
  rw [debug_of_lt (by omega)]
  change ((debug (pos + 4 + 8) >>= fun behind => _) >>= _) = _ ↔ _
  rw [debug_of_lt (by omega)]
  change ((if pos + 4 + 8 > file.size then _ else _) >>= _) = _ ↔ _
  by_cases hlate : pos + 4 + 8 > file.size
  · rw [if_pos hlate, if_neg (by omega)]
    simp only [reduceCtorEq, false_and, exists_false]
  · rw [if_neg hlate, if_pos (by omega), readAt_of_le (by omega)]
    have hcount : fromLeBytes (((file.bytes.drop pos).take 12).drop 4) =
        numberAt 8 ((file.bytes.drop pos).drop 4) := by
      rw [numberAt, List.drop_take]
    change ((debug (fromLeBytes (((file.bytes.drop pos).take 12).drop 4) * 4) >>= fun elems =>
      _) >>= _) = _ ↔ _
    rw [hcount]
    generalize numberAt 8 ((file.bytes.drop pos).drop 4) = count
    by_cases hfits : count * 4 < 2 ^ 64
    · rw [debug_of_lt hfits]
      change (debug (12 + count * 4) >>= _) = _ ↔ _
      rw [debug_bind_panicked_iff]
      simp [Nat.mul_comm]
    · rw [debug_of_le (Nat.not_lt.mp hfits)]
      exact ⟨fun _ => ⟨_, rfl, by omega⟩, fun _ => rfl⟩

/-- **The value**: adding its size to its position panics if the sum does not fit. -/
theorem value_panicked_iff (hpos : pos ≤ file.size) (valType : ℕ) :
    (debug.valSize file pos valType >>= fun n => debug (pos + n)) = .panicked ↔
      ∃ n, valueSize valType (file.bytes.drop pos) = some n ∧ 2 ^ 64 ≤ pos + n := by
  match valType with
  | 0 | 1 | 7 => exact fixed_panicked_iff hpos (show 1 ≤ 8 by omega)
  | 2 | 3 | 13 | 14 => exact fixed_panicked_iff hpos (show 2 ≤ 8 by omega)
  | 4 | 5 | 6 => exact fixed_panicked_iff hpos (show 4 ≤ 8 by omega)
  | 10 | 11 | 12 => exact fixed_panicked_iff hpos (show 8 ≤ 8 by omega)
  | 8 => exact string_panicked_iff hpos
  | 9 => exact array_panicked_iff hpos
  | other + 15 =>
      constructor
      · nofun
      · rintro ⟨n, hn, -⟩
        nomatch hn

theorem pairSize_of_lt (h : bytes.length < valueAt bytes) : pairSize bytes = none :=
  if_neg (Nat.not_le.mpr h)

theorem pairSize_of_le (h : valueAt bytes ≤ bytes.length) :
    pairSize bytes = (valueSize (typeOf bytes) (bytes.drop (valueAt bytes))).map
      (valueAt bytes + ·) :=
  if_pos h

/-- **A round** panics if the pair does not end within 64 bits. -/
theorem checkPair_panicked_iff (hpos : pos < file.size) :
    debug.checkPair file i pos = .panicked ↔ ¬ ShortPair pos (file.bytes.drop pos) := by
  have hsize : file.size < 2 ^ 63 := file.length_lt
  have hlength : (file.bytes.drop pos).length = file.size - pos := List.length_drop
  generalize hbytes : file.bytes.drop pos = bytes at hlength
  have hvalueAt : valueAt bytes = 8 + numberAt 8 bytes + 4 := rfl
  rw [Arith.checkPair, if_neg (Nat.not_le.mpr hpos)]
  by_cases hlong : 8 ≤ bytes.length
  · rw [readAt_of_le (by omega), hbytes]
    change (debug (8 + numberAt 8 bytes) >>= fun key => debug (pos + key) >>= fun pos => _) = _ ↔ _
    by_cases hkey : pos + valueAt bytes < 2 ^ 64
    · rw [debug_of_lt (by omega)]
      change (debug (pos + (8 + numberAt 8 bytes)) >>= fun pos => _) = _ ↔ _
      rw [debug_of_lt (by omega)]
      change (debug (pos + (8 + numberAt 8 bytes) + 4) >>= fun behindType => _) = _ ↔ _
      have hbehind : pos + (8 + numberAt 8 bytes) + 4 = pos + valueAt bytes := by omega
      rw [hbehind, debug_of_lt hkey]
      change (if pos + valueAt bytes > file.size then _ else _) = _ ↔ _
      split_ifs with hlate
      · have hshort : ShortPair pos bytes := by
          refine ⟨fun _ => hkey, fun n hn => ?_⟩
          rw [pairSize_of_lt (by omega)] at hn
          nomatch hn
        simpa using hshort
      · have hdrop : file.bytes.drop (pos + (8 + numberAt 8 bytes)) =
            bytes.drop (8 + numberAt 8 bytes) := by
          rw [← List.drop_drop, hbytes]
        rw [readAt_of_le (by omega), hdrop]
        change (debug.valSize file (pos + valueAt bytes) (typeOf bytes) >>= fun n =>
          debug (pos + valueAt bytes + n) >>= fun pos => _) = _ ↔ _
        rw [bind_assoc, bind_panicked_iff _ fun pos => by
          split_ifs <;> nofun, value_panicked_iff (by omega),
          ← List.drop_drop, hbytes]
        have hpair := pairSize_of_le (show valueAt bytes ≤ bytes.length by omega)
        constructor
        · rintro ⟨n, hn, hfar⟩ hshort
          have hend := hshort.value (valueAt bytes + n) (by rw [hpair, hn]; rfl)
          omega
        · intro hlong
          by_contra hnone
          apply hlong
          refine ⟨fun _ => hkey, fun n hn => ?_⟩
          rw [hpair] at hn
          obtain ⟨m, hm, rfl⟩ := Option.map_eq_some_iff.mp hn
          by_contra hfar
          exact hnone ⟨m, hm, by omega⟩
    · -- one of the three sums up to the type overflows
      have hnot : ¬ ShortPair pos bytes := fun hshort => hkey (hshort.key hlong)
      refine iff_of_true ?_ hnot
      by_cases hfirst : 8 + numberAt 8 bytes < 2 ^ 64
      · rw [debug_of_lt hfirst]
        change (debug (pos + (8 + numberAt 8 bytes)) >>= fun pos => _) = _
        by_cases hsecond : pos + (8 + numberAt 8 bytes) < 2 ^ 64
        · rw [debug_of_lt hsecond]
          change (debug (pos + (8 + numberAt 8 bytes) + 4) >>= fun behindType => _) = _
          rw [debug_of_le (by omega)]
          rfl
        · rw [debug_of_le (by omega)]
          rfl
      · rw [debug_of_le (by omega)]
        rfl
  · obtain ⟨e, he⟩ := readAt_of_lt (show file.size < pos + 8 by omega)
    rw [he]
    have hshort : ShortPair pos bytes := by
      refine ⟨fun h => absurd h hlong, fun n hn => ?_⟩
      rw [pairSize_of_lt (by omega)] at hn
      nomatch hn
    simpa using hshort

/-- The size that the validator takes a value for. -/
theorem valSize_eq_ok (hpos : pos ≤ file.size)
    (hfit : ∀ n, valueSize valType (file.bytes.drop pos) = some n → pos + n < 2 ^ 64) :
    valSize file pos valType = .ok n ↔ valueSize valType (file.bytes.drop pos) = some n := by
  match valType with
  | 0 | 1 | 2 | 3 | 4 | 5 | 6 | 7 | 10 | 11 | 12 | 13 | 14 => simp [valSize, valueSize, fixedSize]
  | 8 =>
      have hsize : valueSize 8 (file.bytes.drop pos) =
          if 8 ≤ (file.bytes.drop pos).length then some (8 + numberAt 8 (file.bytes.drop pos))
            else none := rfl
      rw [valSize_string hpos fun hlong => by
        have hend := hfit _ (hsize.trans (if_pos hlong)); omega, hsize]
      split_ifs with hlong
      · simp only [hlong, true_and, Option.some.injEq, eq_comm]
      · simp only [hlong, false_and]
  | 9 =>
      have hsize : valueSize 9 (file.bytes.drop pos) =
          if 12 ≤ (file.bytes.drop pos).length
            then some (12 + 4 * numberAt 8 ((file.bytes.drop pos).drop 4))
          else none := rfl
      rw [valSize_array hpos fun hlong => by
        have hend := hfit _ (hsize.trans (if_pos hlong)); omega, hsize]
      split_ifs with hlong
      · simp only [hlong, true_and, Option.some.injEq, eq_comm]
      · simp only [hlong, false_and]
  | other + 15 => simp [valSize, valueSize, fixedSize]

/-- **A round** whose pair ends within 64 bits goes behind the pair, if it is in the file. -/
theorem checkPair_of_short (hpos : pos < file.size) (hshort : ShortPair pos (file.bytes.drop pos)) :
    checkPair file i pos = .ok next ↔
      ∃ n, pairSize (file.bytes.drop pos) = some n ∧ n ≤ (file.bytes.drop pos).length ∧
        next = pos + n := by
  have hsize : file.size < 2 ^ 63 := file.length_lt
  have hlength : (file.bytes.drop pos).length = file.size - pos := List.length_drop
  by_cases hlong : 8 ≤ (file.bytes.drop pos).length
  · have hkey : pos + (8 + numberAt 8 (file.bytes.drop pos) + 4) < 2 ^ 64 := hshort.key hlong
    rw [checkPair_eq_ok (by omega) (by omega)]
    by_cases hvalue : valueAt (file.bytes.drop pos) ≤ (file.bytes.drop pos).length
    · have hpair := pairSize_of_le hvalue
      rw [hpair]
      have hfit : ∀ n, valueSize (typeOf (file.bytes.drop pos))
        (file.bytes.drop (pos + valueAt (file.bytes.drop pos))) =
          some n → pos + valueAt (file.bytes.drop pos) + n < 2 ^ 64 := by
        intro n hn
        rw [← List.drop_drop] at hn
        have hend := hshort.value (valueAt (file.bytes.drop pos) + n) (by rw [hpair, hn]; rfl)
        omega
      simp only [valSize_eq_ok (show pos + valueAt (file.bytes.drop pos) ≤ file.size by omega) hfit,
        ← List.drop_drop]
      constructor
      · rintro ⟨-, n, hn, hfits, rfl⟩
        rw [List.drop_drop] at hn
        have hend := hfit n hn
        rw [← List.drop_drop] at hn
        rw [wrap_of_lt hend] at hfits ⊢
        exact ⟨valueAt (file.bytes.drop pos) + n, by rw [hn]; rfl, by omega, by omega⟩
      · rintro ⟨m, hm, hfits, rfl⟩
        obtain ⟨n, hn, rfl⟩ := Option.map_eq_some_iff.mp hm
        refine ⟨hvalue, n, hn, ?_⟩
        rw [wrap_of_lt (by omega)]
        omega
    · rw [pairSize_of_lt (by omega)]
      simp only [hvalue, false_and, reduceCtorEq, exists_false]
  · obtain ⟨e, he⟩ := readAt_of_lt (show file.size < pos + 8 by omega)
    have hvalueAt : valueAt (file.bytes.drop pos) = 8 + numberAt 8 (file.bytes.drop pos) + 4 := rfl
    rw [checkPair, if_neg (Nat.not_le.mpr hpos), he, pairSize_of_lt (by omega)]
    simp [Except.bind]

end Round

/-! ## The loop -/

section Loop

variable {file : File} {i pos next n left : ℕ} {bytes : Bytes}

theorem le_pairSize (h : pairSize bytes = some n) : 12 ≤ n := by
  unfold pairSize valueAt at h
  split_ifs at h
  obtain ⟨m, -, rfl⟩ := Option.map_eq_some_iff.mp h
  omega

theorem checkPair_of_end (hpos : file.size ≤ pos) : checkPair file i pos ≠ .ok next := by
  rw [checkPair, if_pos hpos]
  simp

/-- What holds where the loop comes to, if the pairs end within 64 bits. -/
structure Going (file : File) (i pos : ℕ) : Prop where
  inside : pos ≤ file.size
  progress : 24 + 12 * i ≤ pos
  short : Short (pairCount file - i) pos (file.bytes.drop pos)

theorem Going.shortPair (h : Going file i pos) (hmore : i < pairCount file)
    (hpos : pos < file.size) :
    ShortPair pos (file.bytes.drop pos) := by
  have hshort := h.short
  have hleft : pairCount file - i = pairCount file - (i + 1) + 1 := by omega
  rw [hleft] at hshort
  apply hshort.1
  rw [Ne, List.drop_eq_nil_iff]
  exact Nat.not_le.mpr hpos

/-- Where a round goes. -/
theorem Going.round (h : Going file i pos) (hmore : i < pairCount file)
    (hround : checkPair file i pos = .ok next) :
    pos < next ∧ Going file (i + 1) next := by
  have hlength : (file.bytes.drop pos).length = file.size - pos := List.length_drop
  have hpos : pos < file.size := by
    by_contra hend
    exact checkPair_of_end (Nat.not_lt.mp hend) hround
  obtain ⟨n, hn, hfits, rfl⟩ := (checkPair_of_short hpos (h.shortPair hmore hpos)).mp hround
  have hlarge := le_pairSize hn
  have hprogress := h.progress
  have hshort := h.short
  have hleft : pairCount file - i = pairCount file - (i + 1) + 1 := by omega
  rw [hleft] at hshort
  refine ⟨by omega, by omega, by omega, ?_⟩
  rw [← List.drop_drop]
  exact hshort.2 n hn hfits

theorem going_of_reaches (hshort : HeaderOk file.bytes →
      Short (pairCount file) 24 (file.bytes.drop 24))
    (h : Reaches file i pos) : Going file i pos := by
  induction h with
  | first hheader hsome => exact ⟨hheader.1, by omega, hshort hheader⟩
  | @next i pos next h hround hmore ih => exact (ih.round (by omega) hround).2

/-- A loop of which no round panics comes to pairs only that end within 64 bits. -/
theorem short_of_noOverflow
    (hsafe : ∀ i pos, Reaches file i pos → debug.checkPair file i pos ≠ .panicked)
    (hleft : left = pairCount file - i) (h : 0 < left → Reaches file i pos) :
    Short left pos (file.bytes.drop pos) := by
  induction left generalizing i pos with
  | zero => trivial
  | succ left ih =>
      have hreaches := h (Nat.succ_pos left)
      have hpair (hsome : file.bytes.drop pos ≠ []) : ShortPair pos (file.bytes.drop pos) := by
        by_contra hlong
        rw [Ne, List.drop_eq_nil_iff] at hsome
        exact hsafe i pos hreaches ((checkPair_panicked_iff (Nat.not_le.mp hsome)).mpr hlong)
      refine ⟨hpair, fun n hn hfits => ?_⟩
      have hlarge := le_pairSize hn
      have hlength : (file.bytes.drop pos).length = file.size - pos := List.length_drop
      have hpos : pos < file.size := by omega
      have hround : checkPair file i pos = .ok (pos + n) := by
        refine (checkPair_of_short hpos (hpair ?_)).mpr ⟨n, hn, hfits, rfl⟩
        rw [Ne, List.drop_eq_nil_iff]
        exact Nat.not_le.mpr hpos
      rw [List.drop_drop]
      refine ih (i := i + 1) (by omega) fun hmore => ?_
      exact .next hreaches hround (by omega)

end Loop

/-- **The validator is safe** on a file if and only if no pair that the lengths lead to ends beyond
64 bits. -/
theorem safe_iff (file : File) :
    Safe file ↔ (HeaderOk file.bytes → Short (pairCount file) 24 (file.bytes.drop 24)) := by
  constructor
  · intro hsafe hheader
    apply short_of_noOverflow hsafe.noOverflow (Nat.sub_zero _).symm
    exact .first hheader
  · intro hshort
    refine ⟨fun i pos h => ?_, fun i pos next h hround => ?_, fun i pos h => ?_⟩
    · have hgoing := going_of_reaches hshort h
      by_cases hpos : pos < file.size
      · rw [Ne, checkPair_panicked_iff hpos, not_not]
        exact hgoing.shortPair (reaches_lt h) hpos
      · rw [Arith.checkPair, if_pos (Nat.not_lt.mp hpos)]
        nofun
    · exact ((going_of_reaches hshort h).round (reaches_lt h) hround).1
    · have hgoing := going_of_reaches hshort h
      have hinside := hgoing.inside
      have hprogress := hgoing.progress
      omega

/-- A pair at 24 whose key has the length `2 ^ 64 - 13`: the position goes to 19, where the pair
count is read as a type and a value, and back to 24. -/
def spinning : File where
  bytes := ggufMagic ++ [3, 0, 0, 0] ++ [0, 0, 0, 0, 0, 0, 0, 0] ++ [1, 0, 0, 0, 0, 0, 0, 0x80] ++
    [0xf3, 0xff, 0xff, 0xff, 0xff, 0xff, 0xff, 0xff]
  length_lt := by decide

/-- The loop stays where it is for more than `2 ^ 63` rounds. -/
theorem not_safe_spinning : ¬ ∀ file, Safe file := by
  intro h
  have hround : checkPair spinning 0 24 = .ok 24 := by decide +kernel
  have hreaches : Reaches spinning 0 24 :=
    .first ⟨by decide, by decide, by decide, by decide⟩ (by decide)
  exact absurd ((h spinning).increases 0 24 24 hreaches hround) (Nat.lt_irrefl 24)

end NiraOS.AiDaemon.Validator
