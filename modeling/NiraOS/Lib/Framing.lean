import Mathlib.Data.List.Basic
import Mathlib.Tactic.Common

/-!
# Length-prefixed frames in a byte stream

A frame is a header of fixed size, which tells the length of the payload, and the
payload.  A reader keeps the bytes it cannot use yet and hands every complete payload to
a handler; a length outside the accepted range ends the stream.

Reading does not depend on how the stream was cut into pieces (`read_append`), and
reading what was framed hands over the payloads (`read_flatMap_frame`).
-/

namespace Framing

variable {Byte σ : Type*}

/-- How lengths are written in headers.  Lengths from one up to `limit` are accepted. -/
structure Format (Byte : Type*) where
  headerSize : ℕ
  limit : ℕ
  header : ℕ → List Byte
  /-- The length a stream announces, once the header is there. -/
  length : List Byte → ℕ
  length_header : ∀ n, (header n).length = headerSize
  length_append : ∀ stream rest, headerSize ≤ stream.length →
    length (stream ++ rest) = length stream
  read_header : ∀ n, n ≤ limit → length (header n) = n

variable (F : Format Byte)

def Format.frame (payload : List Byte) : List Byte :=
  F.header payload.length ++ payload

/-- What a reader finds at the front of the stream. -/
inductive Front (Byte : Type*)
  | incomplete
  | invalid
  | frame (payload rest : List Byte)

def Format.front (stream : List Byte) : Front Byte :=
  if stream.length < F.headerSize then .incomplete
  else if F.length stream = 0 ∨ F.length stream > F.limit then .invalid
  else if stream.length < F.headerSize + F.length stream then .incomplete
  else
    .frame ((stream.drop F.headerSize).take (F.length stream))
      (stream.drop (F.headerSize + F.length stream))

/-- Hand over the complete frames, at most `fuel` of them; with the bytes that are left,
or `none` after an invalid length. -/
def Format.readFuel (handle : σ → List Byte → σ) : ℕ → σ → List Byte → σ × Option (List Byte)
  | 0, s, stream => (s, some stream)
  | fuel + 1, s, stream =>
      match F.front stream with
      | .incomplete => (s, some stream)
      | .invalid => (s, none)
      | .frame payload rest => readFuel handle fuel (handle s payload) rest

def Format.read (handle : σ → List Byte → σ) (s : σ) (stream : List Byte) :
    σ × Option (List Byte) :=
  F.readFuel handle (stream.length + 1) s stream

variable {F}

/-! ## The front of the stream -/

section Front

variable {stream payload rest more : List Byte}

/-- A frame takes at least one byte. -/
theorem Format.length_of_front (h : F.front stream = .frame payload rest) :
    rest.length < stream.length := by
  unfold Format.front at h
  split_ifs at h with hheader hlength hframe
  cases h
  simp only [List.length_drop]
  omega

/-- A frame that is there stays there when more bytes arrive. -/
theorem Format.front_append_of_frame (h : F.front stream = .frame payload rest) :
    F.front (stream ++ more) = .frame payload (rest ++ more) := by
  unfold Format.front at h
  split_ifs at h with hheader hlength hframe
  cases h
  have hle : F.headerSize ≤ stream.length := by omega
  have hadd : F.headerSize + F.length stream ≤ stream.length := by omega
  rw [Format.front, F.length_append _ _ hle, List.length_append, if_neg (by omega), if_neg hlength,
    if_neg (by omega), List.drop_append_of_le_length hle, List.drop_append_of_le_length hadd,
    List.take_append_of_le_length (by rw [List.length_drop]; omega)]

/-- An invalid length stays invalid. -/
theorem Format.front_append_of_invalid (h : F.front stream = .invalid) :
    F.front (stream ++ more) = .invalid := by
  unfold Format.front at h
  split_ifs at h with hheader hlength
  have hle : F.headerSize ≤ stream.length := by omega
  rw [Format.front, F.length_append _ _ hle, List.length_append, if_neg (by omega), if_pos hlength]

/-- A framed payload of accepted length is read back. -/
theorem Format.front_frame (hpos : payload ≠ []) (hlimit : payload.length ≤ F.limit) :
    F.front (F.frame payload ++ rest) = .frame payload rest := by
  have hheader := F.length_header payload.length
  have hlength : F.length (F.header payload.length ++ (payload ++ rest)) = payload.length := by
    rw [F.length_append _ _ (Nat.le_of_eq hheader.symm), F.read_header _ hlimit]
  have hne : payload.length ≠ 0 := by simpa using hpos
  rw [Format.frame, List.append_assoc, Format.front, hlength, if_neg (by simp [hheader]),
    if_neg (by omega), if_neg (by simp [hheader]), ← List.drop_drop, ← hheader,
    List.drop_left, List.take_left, List.drop_left]

end Front

/-! ## Reading -/

section Read

variable {handle : σ → List Byte → σ} {s : σ} {stream : List Byte}

/-- More fuel than bytes is enough. -/
theorem Format.readFuel_eq {fuel fuel' : ℕ} (h : stream.length < fuel)
    (h' : stream.length < fuel') :
    F.readFuel handle fuel s stream = F.readFuel handle fuel' s stream := by
  induction fuel generalizing s stream fuel' with
  | zero => omega
  | succ fuel ih =>
      obtain ⟨fuel', rfl⟩ : ∃ n, fuel' = n + 1 := ⟨fuel' - 1, by omega⟩
      simp only [Format.readFuel]
      cases hfront : F.front stream with
      | incomplete => rfl
      | invalid => rfl
      | frame payload rest =>
          have hrest := Format.length_of_front hfront
          exact ih (by omega) (by omega)

/-- One round of reading. -/
theorem Format.read_eq (s : σ) (stream : List Byte) :
    F.read handle s stream =
      match F.front stream with
      | .incomplete => (s, some stream)
      | .invalid => (s, none)
      | .frame payload rest => F.read handle (handle s payload) rest := by
  rw [Format.read, Format.readFuel]
  cases hfront : F.front stream with
  | incomplete => rfl
  | invalid => rfl
  | frame payload rest =>
      exact Format.readFuel_eq (Format.length_of_front hfront) (Nat.lt_succ_self _)

/-- **Cutting a stream does not matter**: reading a stream at once is reading the first
part and, unless that met an invalid length, what it left followed by the second part. -/
theorem Format.read_append (s : σ) (stream more : List Byte) :
    F.read handle s (stream ++ more) =
      match F.read handle s stream with
      | (s', some left) => F.read handle s' (left ++ more)
      | (s', none) => (s', none) := by
  generalize hlength : stream.length = n
  induction n using Nat.strongRecOn generalizing s stream with
  | _ n ih =>
      subst hlength
      rw [Format.read_eq s stream]
      cases hfront : F.front stream with
      | incomplete => rfl
      | invalid =>
          rw [Format.read_eq, Format.front_append_of_invalid hfront]
      | frame payload rest =>
          rw [Format.read_eq, Format.front_append_of_frame hfront]
          exact ih _ (Format.length_of_front hfront) _ _ rfl

/-- What is left is no complete frame. -/
theorem Format.front_of_read {s' : σ} {left : List Byte}
    (h : F.read handle s stream = (s', some left)) : F.front left = .incomplete := by
  generalize hlength : stream.length = n
  induction n using Nat.strongRecOn generalizing s stream with
  | _ n ih =>
      subst hlength
      rw [Format.read_eq] at h
      cases hfront : F.front stream with
      | incomplete =>
          rw [hfront] at h
          cases h
          exact hfront
      | invalid =>
          rw [hfront] at h
          cases h
      | frame payload rest =>
          rw [hfront] at h
          exact ih _ (Format.length_of_front hfront) h rfl

/-- What every handled payload keeps is kept. -/
theorem Format.read_preserves {P : σ → Prop} (hhandle : ∀ s payload, P s → P (handle s payload))
    (hs : P s) : P (F.read handle s stream).1 := by
  generalize hlength : stream.length = n
  induction n using Nat.strongRecOn generalizing s stream with
  | _ n ih =>
      subst hlength
      rw [Format.read_eq]
      cases hfront : F.front stream with
      | incomplete => exact hs
      | invalid => exact hs
      | frame payload rest =>
          exact ih _ (Format.length_of_front hfront) (hhandle s payload hs) rfl

/-- What was framed is handed over, payload by payload, and nothing is left. -/
theorem Format.read_flatMap_frame {payloads : List (List Byte)}
    (h : ∀ payload ∈ payloads, payload ≠ [] ∧ payload.length ≤ F.limit)
    (hheader : 0 < F.headerSize) :
    F.read handle s (payloads.flatMap F.frame) = (payloads.foldl handle s, some []) := by
  induction payloads generalizing s with
  | nil =>
      rw [Format.read_eq, List.flatMap_nil, Format.front, if_pos (by simpa using hheader)]
      rfl
  | cons payload payloads ih =>
      obtain ⟨hne, hlimit⟩ := h payload (List.mem_cons_self ..)
      rw [List.flatMap_cons, Format.read_eq, Format.front_frame hne hlimit]
      exact ih fun other hother => h other (List.mem_cons_of_mem _ hother)

/-- **Reading a piece of what was framed** hands over the first payloads and keeps the beginning of
the others. -/
theorem Format.read_piece (handle : σ → List Byte → σ) (s : σ) {payloads : List (List Byte)}
    {rest : List Byte}
    (h : ∀ payload ∈ payloads, payload ≠ [] ∧ payload.length ≤ F.limit) (hheader : 0 < F.headerSize)
    (hframes : stream ++ rest = payloads.flatMap F.frame) :
    ∃ first others left, payloads = first ++ others ∧
      F.read handle s stream = (first.foldl handle s, some left) ∧
      left ++ rest = others.flatMap F.frame := by
  induction payloads generalizing s stream with
  | nil =>
      obtain ⟨rfl, rfl⟩ := List.append_eq_nil_iff.mp hframes
      refine ⟨[], [], [], rfl, ?_, rfl⟩
      rw [Format.read_eq, Format.front, if_pos (by simpa using hheader)]
      rfl
  | cons payload payloads ih =>
      obtain ⟨hne, hlimit⟩ := h payload (List.mem_cons_self ..)
      have hwhole : F.front (stream ++ rest) = .frame payload (payloads.flatMap F.frame) := by
        rw [hframes, List.flatMap_cons, Format.front_frame hne hlimit]
      rw [Format.read_eq]
      cases hfront : F.front stream with
      | incomplete => exact ⟨[], payload :: payloads, stream, rfl, rfl, hframes⟩
      | invalid => cases hwhole.symm.trans (Format.front_append_of_invalid hfront)
      | frame payload' rest' =>
          -- the frame that is complete is the first one
          obtain ⟨rfl, hrest⟩ :=
            Front.frame.inj (hwhole.symm.trans (Format.front_append_of_frame hfront))
          obtain ⟨first, others, left, rfl, hread, hleft⟩ :=
            ih (handle s payload)
              (fun other hother => h other (List.mem_cons_of_mem _ hother)) hrest.symm
          exact ⟨payload :: first, others, left, rfl, hread, hleft⟩

end Read

end Framing
