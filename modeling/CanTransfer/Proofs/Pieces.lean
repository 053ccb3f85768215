import CanTransfer.Chunk

/-!
# Pieces of a byte string

What the cutting of buffers comes to once the buffers themselves are forgotten.

* `Bytes.pieces` — a byte string in pieces of one size, of which only the last may be shorter. The
  empty string is one empty piece.
* `Bytes.flatten_pieces`, `Bytes.length_of_mem_pieces` — no byte is lost, and the length of a piece
  is the size or the remainder.
* `Bytes.exists_pieces_eq`, `Bytes.length_le_head_pieces` — a string that is longer than one piece
  has a first and a last one, and no piece is longer than the first.
* `Chunk.next?_bytes`, `Chunk.next?_rest` — a chunk is the front of all bytes that the buffers hold
  together, wherever the buffers begin and end.
-/

set_option autoImplicit false

namespace CanTransfer

namespace Bytes

/-- A byte string in pieces of `size` bytes; the last one holds what is left over. -/
def pieces (size : Nat) (bytes : Bytes) : List Bytes :=
  if _h : 0 < size ∧ size < bytes.length then bytes.take size :: pieces size (bytes.drop size)
  else [bytes]
termination_by bytes.length
decreasing_by simp only [List.length_drop]; omega

variable {size : Nat} {bytes : Bytes}

theorem pieces_of_le (h : bytes.length ≤ size) : pieces size bytes = [bytes] := by
  rw [pieces, dif_neg (by omega)]

theorem pieces_of_lt (pos : 0 < size) (h : size < bytes.length) :
    pieces size bytes = bytes.take size :: pieces size (bytes.drop size) := by
  rw [pieces, dif_pos ⟨pos, h⟩]

theorem pieces_ne_nil (size : Nat) (bytes : Bytes) : pieces size bytes ≠ [] := by
  rw [pieces]
  split <;> simp

/-- The pieces hold the bytes of the string, in order. -/
theorem flatten_pieces (size : Nat) (bytes : Bytes) : (pieces size bytes).flatten = bytes := by
  fun_induction pieces size bytes with
  | case1 bytes h ih => rw [List.flatten_cons, ih, List.take_append_drop]
  | case2 bytes h => simp

/-- The length of a piece is the size, or what a division by the size leaves. -/
theorem length_of_mem_pieces {piece : Bytes} (pos : 0 < size) (h : piece ∈ pieces size bytes) :
    piece.length = size ∨ piece.length = bytes.length % size := by
  fun_induction pieces size bytes with
  | case1 bytes hlt ih =>
    rcases List.mem_cons.mp h with rfl | h
    · left
      rw [List.length_take]
      omega
    · have hmod : (bytes.length - size) % size = bytes.length % size :=
        (Nat.mod_eq_sub_mod (by omega)).symm
      rw [← hmod, ← List.length_drop]
      exact ih h
  | case2 bytes hle =>
    rw [List.mem_singleton.mp h]
    by_cases heq : bytes.length = size
    · exact .inl heq
    · exact .inr (Nat.mod_eq_of_lt (by omega)).symm

theorem length_le_of_mem_pieces {piece : Bytes} (pos : 0 < size) (h : piece ∈ pieces size bytes) :
    piece.length ≤ size := by
  have hmod := Nat.mod_lt bytes.length pos
  rcases length_of_mem_pieces pos h with h | h <;> omega

theorem ne_nil_of_mem_pieces {piece : Bytes} (pos : 0 < size) (nonempty : bytes ≠ [])
    (h : piece ∈ pieces size bytes) : piece ≠ [] := by
  fun_induction pieces size bytes with
  | case1 bytes hlt ih =>
    rcases List.mem_cons.mp h with rfl | h
    · rw [ne_eq, List.take_eq_nil_iff, not_or]
      exact ⟨by omega, nonempty⟩
    · refine ih ?_ h
      rw [ne_eq, List.drop_eq_nil_iff]
      omega
  | case2 bytes hle =>
    rw [List.mem_singleton.mp h]
    exact nonempty

/-- A string that is longer than one piece has a first piece and another last one. -/
theorem exists_pieces_eq (pos : 0 < size) (h : size < bytes.length) :
    ∃ first middle last, pieces size bytes = first :: (middle ++ [last]) := by
  have hne := pieces_ne_nil size (bytes.drop size)
  refine ⟨bytes.take size, (pieces size (bytes.drop size)).dropLast,
    (pieces size (bytes.drop size)).getLast hne, ?_⟩
  rw [pieces_of_lt pos h, List.dropLast_concat_getLast]

/-- No piece is longer than the first one. -/
theorem length_le_head_pieces {first : Bytes} {rest : List Bytes} (pos : 0 < size)
    (h : pieces size bytes = first :: rest) : ∀ piece ∈ rest, piece.length ≤ first.length := by
  intro piece hp
  have hle : piece.length ≤ size := length_le_of_mem_pieces pos (h ▸ List.mem_cons_of_mem _ hp)
  by_cases hlt : size < bytes.length
  · rw [pieces_of_lt pos hlt] at h
    obtain ⟨rfl, rfl⟩ := List.cons.inj h
    rw [List.length_take]
    omega
  · rw [pieces_of_le (by omega)] at h
    obtain ⟨rfl, rfl⟩ := List.cons.inj h
    cases hp

end Bytes

/-! ## Chunks -/

namespace Chunk

/-- What is drawn out of buffers is the front of their bytes. -/
theorem draw_bytes (n : Nat) (buffers : List Bytes) :
    (draw n buffers).1 = buffers.flatten.take n := by
  induction buffers generalizing n with
  | nil => simp [draw]
  | cons b rest ih =>
    unfold draw
    split
    · rename_i h
      rw [List.flatten_cons, List.take_append_of_le_length h]
    · rename_i h
      simp only
      rw [ih, List.flatten_cons, List.take_append,
        List.take_of_length_le (show b.length ≤ n by omega)]

/-- Nothing can be cut out of buffers without a byte, and out of all others something can. -/
theorem next?_eq_none_iff {size : Nat} {buffers : List Bytes} :
    next? size buffers = none ↔ buffers.flatten = [] := by
  rw [← flatten_dropWhile_isEmpty buffers]
  unfold next?
  split
  · rename_i h
    simp [h]
  · rename_i b rest h
    have hb := ne_nil_of_dropWhile_isEmpty h
    have hn : (b :: rest).flatten ≠ [] := by simp [hb]
    rw [h]
    split
    · simp [hb]
    · split <;> simp [hb]

variable {size : Nat} {buffers rest : List Bytes} {c : Chunk}

/-- A chunk is the front of the bytes of all buffers. -/
theorem next?_bytes (h : next? size buffers = some (c, rest)) :
    c.bytes = buffers.flatten.take size := by
  obtain ⟨b, later, hb, -, ⟨hle, rfl, -⟩ | ⟨hlt, hlater, rfl, -⟩ | ⟨hlt, -, rfl, -⟩⟩ :=
    next?_cases h
  all_goals rw [← flatten_dropWhile_isEmpty buffers, hb, List.flatten_cons]
  · rw [List.take_append_of_le_length hle]
  · rw [hlater, List.append_nil, List.take_of_length_le (by omega)]
  · rw [draw_bytes, List.take_append, List.take_of_length_le (show b.length ≤ size by omega)]

/-- The buffers after a chunk hold the bytes behind it. -/
theorem next?_rest (h : next? size buffers = some (c, rest)) :
    rest.flatten = buffers.flatten.drop size := by
  have hall := next?_flatten h
  rw [next?_bytes h] at hall
  exact List.append_cancel_left (hall.trans (List.take_append_drop size buffers.flatten).symm)

end Chunk

end CanTransfer
