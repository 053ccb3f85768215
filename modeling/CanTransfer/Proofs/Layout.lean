import CanTransfer.Proofs.Padding
import CanTransfer.Proofs.Pieces
import CanTransfer.Transfer.Stream

/-!
# The frame sequence of a transfer

The frames that a stream cuts one at a time, as one list.

* `Frame.sequence` — frames with given payloads, numbered from some place on.
* `FrameStream.toList_pending` — a stream gives the pieces of the buffers that are still to come,
  numbered on from its place.
* `Transfer.content` — payload, padding and CRC: all bytes that travel in front of the tails.
* `Transfer.layout`, `Transfer.frames_of_pos` — the frames of a transfer are the pieces of its
  content in order.
* `Transfer.content_rest_legal` — the last frame has a legal length where a full one has.
-/

set_option autoImplicit false

namespace CanTransfer

/-! ## Numbered frames -/

namespace Frame

variable (identifier : UInt32) (transferId : TransferId) (loopback : Bool)

/-- The frame at a place of a transfer, counted from zero. -/
def placed (index : Nat) (last : Bool) (payload : Bytes) : Frame where
  identifier := identifier
  payload := payload
  tail :=
    { first := index == 0
      last := last
      toggle := Tail.toggleAt index
      transferId := transferId }
  loopback := loopback

/-- The frames with the given payloads, the first of them at place `start` and the last one marked
as the last of its transfer. -/
def sequence (start : Nat) (payloads : List Bytes) : List Frame :=
  payloads.mapIdx fun i payload =>
    placed identifier transferId loopback (start + i) (i + 1 == payloads.length) payload

theorem sequence_cons (start : Nat) (payload : Bytes) (rest : List Bytes) :
    sequence identifier transferId loopback start (payload :: rest) =
      placed identifier transferId loopback start rest.isEmpty payload ::
        sequence identifier transferId loopback (start + 1) rest := by
  have hlast : (0 + 1 == (payload :: rest).length) = rest.isEmpty := by cases rest <;> simp
  unfold sequence
  rw [List.mapIdx_cons, hlast]
  simp [Nat.add_assoc, Nat.add_comm 1]

theorem sequence_concat (start : Nat) (payloads : List Bytes) (last : Bytes) :
    sequence identifier transferId loopback start (payloads ++ [last]) =
      (payloads.mapIdx fun i => placed identifier transferId loopback (start + i) false) ++
        [placed identifier transferId loopback (start + payloads.length) true last] := by
  induction payloads generalizing start with
  | nil => rfl
  | cons payload rest ih =>
    have hmore : (rest ++ [last]).isEmpty = false := by simp
    rw [List.cons_append, sequence_cons, ih, hmore, List.mapIdx_cons]
    simp [Nat.add_assoc, Nat.add_comm 1]

theorem eq_placed_of_getElem?_sequence {start i : Nat} {payloads : List Bytes} {f : Frame}
    (h : (sequence identifier transferId loopback start payloads)[i]? = some f) :
    f = placed identifier transferId loopback (start + i) (i + 1 == payloads.length) f.payload := by
  rw [sequence, List.getElem?_mapIdx] at h
  obtain ⟨payload, -, rfl⟩ := Option.map_eq_some_iff.mp h
  rfl

theorem mem_sequence {start : Nat} {payloads : List Bytes} {f : Frame}
    (h : f ∈ sequence identifier transferId loopback start payloads) :
    f.identifier = identifier ∧ f.payload ∈ payloads := by
  obtain ⟨i, hi, rfl⟩ := List.mem_mapIdx.mp h
  exact ⟨rfl, List.getElem_mem hi⟩

theorem sequence_ne_nil {start : Nat} {payloads : List Bytes} (h : payloads ≠ []) :
    sequence identifier transferId loopback start payloads ≠ [] := by
  simpa [sequence] using h

theorem map_payload_sequence (start : Nat) (payloads : List Bytes) :
    (sequence identifier transferId loopback start payloads).map payload = payloads := by
  induction payloads generalizing start with
  | nil => rfl
  | cons payload rest ih =>
    rw [sequence_cons, List.map_cons, ih]
    rfl

end Frame

/-! ## Frames from a stream -/

namespace FrameStream

theorem toList_of_next? {s s' : FrameStream} {f : Frame} (h : s.next? = some (f, s')) :
    s.toList = f :: s'.toList := by
  rw [toList]
  split
  · rename_i hn
    rw [h] at hn
    cases hn
  · rename_i hn
    rw [h] at hn
    cases hn
    rfl

theorem toList_of_next?_none {s : FrameStream} (h : s.next? = none) : s.toList = [] := by
  rw [toList]
  split
  · rfl
  · rename_i hs
    rw [h] at hs
    cases hs

theorem toList_of_pending_none {s : FrameStream} (h : s.pending = none) : s.toList = [] := by
  apply toList_of_next?_none
  simp [next?, h]

/-- A frame after which no byte is left is the last one. -/
theorem emit_of_nil {s : FrameStream} {payload : Bytes} {rest : List Bytes}
    (h : rest.flatten = []) :
    s.emit payload rest =
      (s.frame payload true, { s with index := s.index + 1, pending := none }) := by
  have hall : rest.all List.isEmpty = true := by
    simpa [List.flatten_eq_nil_iff] using h
  simp [emit, hall]

theorem emit_of_ne_nil {s : FrameStream} {payload : Bytes} {rest : List Bytes}
    (h : rest.flatten ≠ []) :
    s.emit payload rest =
      (s.frame payload false, { s with index := s.index + 1, pending := some rest }) := by
  have hall : rest.all List.isEmpty = false := by
    rw [Bool.eq_false_iff]
    exact fun he => h (Chunk.flatten_eq_nil_of_all_isEmpty he)
  simp [emit, hall]

variable {s : FrameStream} {buffers : List Bytes}

/-- Bytes that fit one frame travel in the last one. -/
theorem toList_of_le (h : s.pending = some buffers)
    (hle : buffers.flatten.length ≤ s.plan.capacity) :
    s.toList = [s.frame buffers.flatten true] := by
  have hnext : s.next? = some (s.frame buffers.flatten true,
      { s with index := s.index + 1, pending := none }) := by
    unfold next?
    rw [h]
    simp only
    split
    · rename_i c rest hc
      have hrest := Chunk.next?_rest hc
      rw [List.drop_eq_nil_of_le hle] at hrest
      rw [emit_of_nil hrest, Chunk.next?_bytes hc, List.take_of_length_le hle]
    · rename_i hc
      rw [emit_of_nil rfl, Chunk.next?_eq_none_iff.mp hc]
  rw [toList_of_next? hnext, toList_of_pending_none rfl]

/-- Of more bytes, as many as fit travel in a frame before the others. -/
theorem toList_of_lt (h : s.pending = some buffers)
    (hlt : s.plan.capacity < buffers.flatten.length) :
    ∃ rest : List Bytes, rest.flatten = buffers.flatten.drop s.plan.capacity ∧
      s.toList = s.frame (buffers.flatten.take s.plan.capacity) false ::
        { s with index := s.index + 1, pending := some rest }.toList := by
  cases hc : Chunk.next? s.plan.capacity buffers with
  | none =>
    rw [Chunk.next?_eq_none_iff.mp hc] at hlt
    exact absurd hlt (Nat.not_lt_zero _)
  | some found =>
    obtain ⟨c, rest⟩ := found
    have hrest := Chunk.next?_rest hc
    have hne : rest.flatten ≠ [] := by
      rw [hrest, ne_eq, List.drop_eq_nil_iff]
      omega
    have hnext : s.next? = some (s.emit c.bytes rest) := by simp [next?, h, hc]
    rw [emit_of_ne_nil hne, Chunk.next?_bytes hc] at hnext
    exact ⟨rest, hrest, toList_of_next? hnext⟩

/-- A stream gives the pieces of the buffers still to come, numbered on from its place. -/
theorem toList_pending (h : s.pending = some buffers) :
    s.toList = Frame.sequence s.plan.identifier s.plan.transferId s.plan.loopback s.index
      (Bytes.pieces s.plan.capacity buffers.flatten) := by
  -- Induction on the bytes still to come: each frame before the last takes some of them.
  generalize hn : buffers.flatten.length = n
  induction n using Nat.strongRecOn generalizing s buffers with
  | ind n ih =>
    have pos := s.plan.capacity_pos
    by_cases hle : buffers.flatten.length ≤ s.plan.capacity
    · rw [toList_of_le h hle, Bytes.pieces_of_le hle, Frame.sequence_cons]
      rfl
    · obtain ⟨rest, hrest, htoList⟩ := toList_of_lt h (by omega)
      have hlt : rest.flatten.length < n := by
        rw [hrest, List.length_drop]
        omega
      have hmore : (Bytes.pieces s.plan.capacity rest.flatten).isEmpty = false := by
        simp [Bytes.pieces_ne_nil]
      have hpieces : Bytes.pieces s.plan.capacity buffers.flatten
          = buffers.flatten.take s.plan.capacity :: Bytes.pieces s.plan.capacity rest.flatten := by
        rw [Bytes.pieces_of_lt pos (by omega), hrest]
      rw [htoList, ih _ hlt rfl rfl, hpieces, Frame.sequence_cons, hmore]
      rfl

end FrameStream

/-! ## The frames of a transfer -/

namespace Transfer

/-- All bytes that travel in front of the tails: payload, padding and, if one frame does not hold
the payload, the CRC. -/
def content (t : Transfer) (capacity : Nat) : Bytes := t.payload ++ t.trailer capacity

/-- The frames of a transfer: the pieces of its content in order. -/
def layout (t : Transfer) (capacity : Nat) : List Frame :=
  Frame.sequence t.identifier (TransferId.truncate t.number) t.loopback 0
    (Bytes.pieces capacity (t.content capacity))

variable (t : Transfer) {capacity : Nat}

/-- **The frames that are cut one at a time are the layout of the transfer.** -/
theorem frames_of_pos (pos : 0 < capacity) : t.frames capacity = .ok (t.layout capacity) := by
  unfold frames plan
  rw [dif_pos pos]
  simp only [Except.map, Plan.stream]
  rw [FrameStream.toList_pending rfl]
  simp [layout, content, payload, Plan.buffers]

theorem frames_eq_ok_iff {frames : List Frame} :
    t.frames capacity = .ok frames ↔ 0 < capacity ∧ frames = t.layout capacity := by
  by_cases pos : 0 < capacity
  · rw [frames_of_pos t pos]
    simp [pos, eq_comm]
  · simp [Transfer.frames, plan, pos, Except.map]

theorem layout_ne_nil (capacity : Nat) : t.layout capacity ≠ [] :=
  Frame.sequence_ne_nil _ _ _ (Bytes.pieces_ne_nil _ _)

theorem content_of_le (h : t.length ≤ capacity) :
    t.content capacity = t.payload ++ t.fill capacity := by
  rw [content, trailer, if_pos h]

theorem content_of_lt (h : capacity < t.length) :
    t.content capacity = t.payload ++ t.fill capacity ++
      (Crc.ofBytes (t.payload ++ t.fill capacity)).digest := by
  rw [content, trailer, if_neg (by omega), List.append_assoc]

theorem length_payload_fill :
    (t.payload ++ t.fill capacity).length = t.length + fillCount t.length capacity := by
  simp [fill, length]

theorem length_content_le (h : t.length ≤ capacity) : (t.content capacity).length ≤ capacity := by
  rw [content_of_le t h, length_payload_fill]
  exact length_add_fillCount_le h

theorem length_le_length_content (capacity : Nat) : t.length ≤ (t.content capacity).length := by
  rw [content, List.length_append]
  exact Nat.le_add_right _ _

theorem lt_length_content (h : capacity < t.length) : capacity < (t.content capacity).length :=
  Nat.lt_of_lt_of_le h (length_le_length_content t capacity)

/-- Where a full frame is legal, what the full frames leave of the content makes a legal one too. -/
theorem content_rest_legal (pos : 0 < capacity) (full : capacity + tailLength ∈ DataLength.table) :
    (t.content capacity).length % capacity + tailLength ∈ DataLength.table := by
  by_cases h : t.length ≤ capacity
  · rw [content_of_le t h, length_payload_fill]
    exact rest_legal_of_le full h
  · have hlt : capacity < t.length := by omega
    rw [content_of_lt t hlt, List.length_append, length_payload_fill]
    exact rest_legal_of_lt pos full hlt

end Transfer

end CanTransfer
