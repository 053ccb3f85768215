import CanTransfer.CanFrame
import CanTransfer.Fault

/-!
# Cutting buffers into chunks

A sequence of byte buffers is cut into chunks of a fixed size; only the last chunk may be shorter.
A chunk is lent out of its buffer where one buffer holds all of it, and copied where it takes
bytes from more than one.

* `Chunk.next?` — the first chunk and the buffers that are left. It looks at no more buffers than
  the chunk takes bytes from, and the next non-empty one.
* `chunks` — all of them.
* `Chunk.next?_flatten`, `Chunk.next?_bytes_ne_nil` — no byte is lost, and no chunk is empty.
-/

set_option autoImplicit false

namespace CanTransfer

/-- A run of bytes cut out of a sequence of buffers. -/
structure Chunk where
  bytes : Bytes
  /-- The bytes come from more than one buffer. -/
  copied : Bool
  deriving DecidableEq, Repr

namespace Chunk

/-- Takes the first `n` bytes out of the buffers, all of them if there are fewer. -/
def draw : Nat → List Bytes → Bytes × List Bytes
  | _, [] => ([], [])
  | n, b :: rest =>
    if n ≤ b.length then (b.take n, b.drop n :: rest)
    else
      let more := draw (n - b.length) rest
      (b ++ more.1, more.2)

/-- The first chunk of the buffers and what is left of them; nothing if all of them are empty. -/
def next? (size : Nat) (buffers : List Bytes) : Option (Chunk × List Bytes) :=
  match buffers.dropWhile List.isEmpty with
  | [] => none
  | b :: rest =>
    if size ≤ b.length then some (⟨b.take size, false⟩, b.drop size :: rest)
    else if rest.all List.isEmpty then some (⟨b, false⟩, [])
    else
      let more := draw (size - b.length) rest
      some (⟨b ++ more.1, true⟩, more.2)

theorem draw_flatten (n : Nat) (buffers : List Bytes) :
    (draw n buffers).1 ++ (draw n buffers).2.flatten = buffers.flatten := by
  induction buffers generalizing n with
  | nil => simp [draw]
  | cons b rest ih =>
    unfold draw
    split
    · simp [← List.append_assoc]
    · simp [ih]

theorem flatten_dropWhile_isEmpty (buffers : List Bytes) :
    (buffers.dropWhile List.isEmpty).flatten = buffers.flatten := by
  induction buffers with
  | nil => rfl
  | cons b rest ih => cases b <;> simp [List.dropWhile, ih]

theorem flatten_eq_nil_of_all_isEmpty {buffers : List Bytes}
    (h : buffers.all List.isEmpty = true) : buffers.flatten = [] := by
  simpa [List.flatten_eq_nil_iff] using h

/-- The first buffer that is not skipped holds a byte. -/
theorem ne_nil_of_dropWhile_isEmpty {buffers rest : List Bytes} {b : Bytes}
    (h : buffers.dropWhile List.isEmpty = b :: rest) : b ≠ [] := by
  rintro rfl
  have := List.head?_dropWhile_not List.isEmpty buffers
  simp [h] at this

/-- What a call can do with the first buffer that holds a byte: lend its front, lend all of it if
nothing comes behind it, or copy it together with bytes from behind it. -/
theorem next?_cases {size : Nat} {buffers rest : List Bytes} {c : Chunk}
    (h : next? size buffers = some (c, rest)) :
    ∃ b later, buffers.dropWhile List.isEmpty = b :: later ∧ b ≠ [] ∧
      ((size ≤ b.length ∧ c = ⟨b.take size, false⟩ ∧ rest = b.drop size :: later) ∨
        (b.length < size ∧ later.flatten = [] ∧ c = ⟨b, false⟩ ∧ rest = []) ∨
        (b.length < size ∧ later.flatten ≠ [] ∧
          c = ⟨b ++ (draw (size - b.length) later).1, true⟩ ∧
          rest = (draw (size - b.length) later).2)) := by
  unfold next? at h
  split at h
  · cases h
  · rename_i b later hb
    refine ⟨b, later, hb, ne_nil_of_dropWhile_isEmpty hb, ?_⟩
    split at h
    · rename_i hle
      cases h
      exact .inl ⟨hle, rfl, rfl⟩
    · rename_i hlt
      split at h
      · rename_i hempty
        cases h
        exact .inr (.inl ⟨by omega, flatten_eq_nil_of_all_isEmpty hempty, rfl, rfl⟩)
      · rename_i hmore
        cases h
        exact .inr (.inr ⟨by omega, by simpa [List.flatten_eq_nil_iff] using hmore, rfl, rfl⟩)

/-- A chunk and the buffers left after it hold the bytes that were there before. -/
theorem next?_flatten {size : Nat} {buffers rest : List Bytes} {c : Chunk}
    (h : next? size buffers = some (c, rest)) : c.bytes ++ rest.flatten = buffers.flatten := by
  obtain ⟨b, later, hb, -, ⟨-, rfl, rfl⟩ | ⟨-, hlater, rfl, rfl⟩ | ⟨-, -, rfl, rfl⟩⟩ :=
    next?_cases h
  all_goals rw [← flatten_dropWhile_isEmpty buffers, hb]
  · simp [← List.append_assoc]
  · simp [hlater]
  · simp [draw_flatten]

/-- No chunk is empty. -/
theorem next?_bytes_ne_nil {size : Nat} {buffers rest : List Bytes} {c : Chunk} (pos : 0 < size)
    (h : next? size buffers = some (c, rest)) : c.bytes ≠ [] := by
  obtain ⟨b, later, -, hne, ⟨-, rfl, -⟩ | ⟨-, -, rfl, -⟩ | ⟨-, -, rfl, -⟩⟩ := next?_cases h
  · simp only [ne_eq, List.take_eq_nil_iff, not_or]
    exact ⟨by omega, hne⟩
  · exact hne
  · simp [hne]

/-- Each chunk leaves fewer bytes to cut. -/
theorem next?_length_lt {size : Nat} {buffers rest : List Bytes} {c : Chunk} (pos : 0 < size)
    (h : next? size buffers = some (c, rest)) : rest.flatten.length < buffers.flatten.length := by
  have hl := congrArg List.length (next?_flatten h)
  have hc := List.length_pos_iff.mpr (next?_bytes_ne_nil pos h)
  simp only [List.length_append] at hl
  omega

end Chunk

/-- All chunks of the buffers, in order. -/
def chunks (size : Nat) (pos : 0 < size) (buffers : List Bytes) : List Chunk :=
  match _h : Chunk.next? size buffers with
  | none => []
  | some (c, rest) => c :: chunks size pos rest
termination_by buffers.flatten.length
decreasing_by exact Chunk.next?_length_lt pos _h

/-- All chunks of the buffers; a chunk size of zero is refused. -/
def cut (size : Nat) (buffers : List Bytes) : Except SettingsFault (List Chunk) :=
  if h : 0 < size then .ok (chunks size h buffers) else .error .zeroChunkSize

end CanTransfer
