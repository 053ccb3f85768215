import CanTransfer.Proofs.Reference

/-!
# Cutting to the end

Chunks are cut one call at a time until a call gives nothing. Here is what all calls give together.

* `Chunk.left` — the buffers that a number of calls leave.
* `getElem?_chunks` — the list of all chunks holds what the calls give, one after another; the calls
  behind its end give nothing.
* `map_bytes_chunks` — as bytes, the chunks are the pieces of all that the buffers hold together.
* `Chunk.Partition`, `cut_partition` — no byte is lost, doubled or moved; only the last chunk may be
  shorter, none is empty, and the division into buffers leaves no trace.
-/

set_option autoImplicit false

namespace CanTransfer

variable {size : Nat}

/-! ## One call after another -/

/-- The buffers that are left after a number of calls. A call that gives nothing changes nothing. -/
def Chunk.left (size : Nat) (buffers : List Bytes) : Nat → List Bytes
  | 0 => buffers
  | calls + 1 =>
    match Chunk.next? size (left size buffers calls) with
    | none => left size buffers calls
    | some (_, rest) => rest

theorem Chunk.left_succ_of_none {buffers : List Bytes} {calls : Nat}
    (h : next? size (left size buffers calls) = none) :
    left size buffers (calls + 1) = left size buffers calls := by
  simp only [left, h]

theorem Chunk.left_succ_of_some {buffers rest : List Bytes} {calls : Nat} {c : Chunk}
    (h : next? size (left size buffers calls) = some (c, rest)) :
    left size buffers (calls + 1) = rest := by
  simp only [left, h]

theorem chunks_of_none (pos : 0 < size) {buffers : List Bytes}
    (h : Chunk.next? size buffers = none) : chunks size pos buffers = [] := by
  rw [chunks]
  split
  · rfl
  · rename_i hs
    rw [h] at hs
    cases hs

theorem chunks_of_some (pos : 0 < size) {buffers rest : List Bytes} {c : Chunk}
    (h : Chunk.next? size buffers = some (c, rest)) :
    chunks size pos buffers = c :: chunks size pos rest := by
  rw [chunks]
  split
  · rename_i hn
    rw [h] at hn
    cases hn
  · rename_i hs
    rw [h] at hs
    cases hs
    rfl

/-- Each call takes one chunk off the list of those to come. -/
theorem chunks_left (pos : 0 < size) (buffers : List Bytes) (calls : Nat) :
    chunks size pos (Chunk.left size buffers calls) = (chunks size pos buffers).drop calls := by
  induction calls with
  | zero => rfl
  | succ calls ih =>
    rw [← List.drop_drop, ← ih]
    cases h : Chunk.next? size (Chunk.left size buffers calls) with
    | none => rw [Chunk.left_succ_of_none h, chunks_of_none pos h, List.drop_nil]
    | some found =>
      obtain ⟨c, rest⟩ := found
      rw [Chunk.left_succ_of_some h, chunks_of_some pos h, List.drop_one, List.tail_cons]

/-- The chunks are what the calls give, and behind the last chunk each call gives nothing. -/
theorem getElem?_chunks (pos : 0 < size) (buffers : List Bytes) (i : Nat) :
    (chunks size pos buffers)[i]? =
      (Chunk.next? size (Chunk.left size buffers i)).map Prod.fst := by
  have hhead : (chunks size pos buffers)[i]? =
      (chunks size pos (Chunk.left size buffers i)).head? := by
    rw [chunks_left, List.head?_drop]
  rw [hhead]
  cases h : Chunk.next? size (Chunk.left size buffers i) with
  | none => rw [chunks_of_none pos h]; rfl
  | some found =>
    obtain ⟨c, rest⟩ := found
    rw [chunks_of_some pos h]
    rfl

/-! ## The bytes of the chunks -/

theorem chunks_of_flatten_eq_nil (pos : 0 < size) {buffers : List Bytes}
    (h : buffers.flatten = []) : chunks size pos buffers = [] :=
  chunks_of_none pos (Chunk.next?_eq_none_iff.mpr h)

/-- The chunks hold the pieces of all bytes together. -/
theorem map_bytes_chunks (pos : 0 < size) {buffers : List Bytes} (more : buffers.flatten ≠ []) :
    (chunks size pos buffers).map Chunk.bytes = Bytes.pieces size buffers.flatten := by
  fun_induction chunks size pos buffers with
  | case1 buffers h => exact absurd (Chunk.next?_eq_none_iff.mp h) more
  | case2 buffers c rest h ih =>
    have hbytes := Chunk.next?_bytes h
    have hrest := Chunk.next?_rest h
    by_cases hle : buffers.flatten.length ≤ size
    · have hnil : rest.flatten = [] := by rw [hrest, List.drop_eq_nil_of_le hle]
      rw [chunks_of_flatten_eq_nil pos hnil, List.map_cons, List.map_nil, hbytes,
        List.take_of_length_le hle, Bytes.pieces_of_le hle]
    · have hlt : size < buffers.flatten.length := by omega
      have hmore : rest.flatten ≠ [] := by
        rw [hrest, ne_eq, List.drop_eq_nil_iff]
        exact hle
      rw [List.map_cons, ih hmore, hbytes, hrest, ← Bytes.pieces_of_lt pos hlt]

theorem bytes_ne_nil_of_mem_chunks (pos : 0 < size) {buffers : List Bytes} {c : Chunk}
    (h : c ∈ chunks size pos buffers) : c.bytes ≠ [] := by
  obtain ⟨i, hi⟩ := List.mem_iff_getElem?.mp h
  rw [getElem?_chunks] at hi
  obtain ⟨⟨found, rest⟩, hnext, rfl⟩ := Option.map_eq_some_iff.mp hi
  exact Chunk.next?_bytes_ne_nil pos hnext

/-- A chunk is as long as the others, or as long as what they leave. -/
theorem length_of_mem_chunks (pos : 0 < size) {buffers : List Bytes} {c : Chunk}
    (h : c ∈ chunks size pos buffers) :
    c.bytes.length = size ∨ c.bytes.length = buffers.flatten.length % size := by
  by_cases hnil : buffers.flatten = []
  · rw [chunks_of_flatten_eq_nil pos hnil] at h
    cases h
  · apply Bytes.length_of_mem_pieces pos
    rw [← map_bytes_chunks pos hnil]
    exact List.mem_map_of_mem h

namespace Chunk

/-- What the calls on an iterator over the buffers give: all bytes in order, in chunks of one size,
of which the last may be shorter. -/
structure Partition (size : Nat) (buffers : List Bytes) (cs : List Chunk) : Prop where
  calls : ∀ i, cs[i]? = (next? size (left size buffers i)).map Prod.fst
  flatten : (cs.map bytes).flatten = buffers.flatten
  full : ∀ i c, cs[i]? = some c → i + 1 < cs.length → c.bytes.length = size
  last : ∀ c, cs.getLast? = some c → 0 < c.bytes.length ∧ c.bytes.length ≤ size
  empty : buffers.flatten = [] → cs = []
  multiple : size ∣ buffers.flatten.length → ∀ c ∈ cs, c.bytes.length = size

theorem partition_chunks (pos : 0 < size) (buffers : List Bytes) :
    Partition size buffers (chunks size pos buffers) := by
  have hmod := Nat.mod_lt buffers.flatten.length pos
  by_cases hnil : buffers.flatten = []
  · have hcs := chunks_of_flatten_eq_nil pos hnil
    refine ⟨getElem?_chunks pos buffers, ?_, ?_, ?_, fun _ => hcs, ?_⟩
    · rw [hcs, hnil]
      rfl
    all_goals simp [hcs]
  · have hpieces := map_bytes_chunks pos hnil
    have hcut := Bytes.isCut_pieces pos buffers.flatten
    rw [← hpieces] at hcut
    refine ⟨getElem?_chunks pos buffers, ?_, ?_, ?_, fun h => absurd h hnil, ?_⟩
    · rw [hpieces, Bytes.flatten_pieces]
    · intro i c hc hi
      exact hcut.full i c.bytes (by rw [List.getElem?_map, hc]; rfl) (by rwa [List.length_map])
    · intro c hc
      have hmem := List.mem_of_getLast? hc
      refine ⟨List.length_pos_iff.mpr (bytes_ne_nil_of_mem_chunks pos hmem), ?_⟩
      rcases length_of_mem_chunks pos hmem with h | h <;> omega
    · intro hdvd c hc
      have hne := List.length_pos_iff.mpr (bytes_ne_nil_of_mem_chunks pos hc)
      have hzero := Nat.mod_eq_zero_of_dvd hdvd
      rcases length_of_mem_chunks pos hc with h | h <;> omega

end Chunk

/-- Buffers that hold the same bytes give chunks that hold the same bytes. -/
theorem map_bytes_chunks_congr (pos : 0 < size) {buffers other : List Bytes}
    (same : other.flatten = buffers.flatten) :
    (chunks size pos other).map Chunk.bytes = (chunks size pos buffers).map Chunk.bytes := by
  by_cases hnil : buffers.flatten = []
  · rw [chunks_of_flatten_eq_nil pos hnil, chunks_of_flatten_eq_nil pos (same.trans hnil)]
  · rw [map_bytes_chunks pos hnil, map_bytes_chunks pos (same ▸ hnil), same]

/-- **Cutting comes to an end and keeps every byte.** The calls give chunks until there is nothing
left, all of them full but the last, which is neither empty nor longer; together they hold the bytes
of the buffers in order. Other buffers with the same bytes give the same. -/
theorem cut_partition (pos : 0 < size) (buffers : List Bytes) :
    ∃ cs, cut size buffers = .ok cs ∧ Chunk.Partition size buffers cs ∧
      ∀ other : List Bytes, other.flatten = buffers.flatten →
        ∃ ds, cut size other = .ok ds ∧ ds.map Chunk.bytes = cs.map Chunk.bytes := by
  refine ⟨chunks size pos buffers, dif_pos pos, Chunk.partition_chunks pos buffers, ?_⟩
  intro other same
  exact ⟨chunks size pos other, dif_pos pos, map_bytes_chunks_congr pos same⟩

/-- Buffers of one byte, of none and of two make up the first chunk; the same bytes in one buffer. -/
theorem cut_partition_of_five_buffers :
    0 < 3 ∧ ∃ cs, cut 3 [[1], [], [2, 3], [4, 5, 6, 7], []] = .ok cs ∧
      Chunk.Partition 3 [[1], [], [2, 3], [4, 5, 6, 7], []] cs ∧
      ∃ ds, cut 3 [[1, 2, 3, 4, 5, 6, 7]] = .ok ds ∧ ds.map Chunk.bytes = cs.map Chunk.bytes := by
  obtain ⟨cs, hcut, hcs, hsame⟩ :=
    cut_partition (by decide : 0 < 3) [[1], [], [2, 3], [4, 5, 6, 7], []]
  exact ⟨by decide, cs, hcut, hcs, hsame [[1, 2, 3, 4, 5, 6, 7]] (by decide)⟩

end CanTransfer
