import CanTransfer.Proofs.RoundTrip

/-!
# The frames of a transfer as a flat layout

The frames are cut lazily, over the fragments and the trailer, and the end is found by looking one
chunk ahead. Here they are described without any of this.

* `Bytes.IsCut`, `Bytes.eq_pieces_iff` — pieces of one size, of which only the last may be shorter;
  there is one way to cut a string into them.
* `Reference.fill`, `Reference.stream` — payload, padding and CRC, put one behind the other.
* `Transfer.LaidOut` — what is to be seen of the frames, one by one.
* `Transfer.frames_eq_ok_iff_laidOut`, `Transfer.frames_laidOut` — the frames of a transfer are the
  only ones that are laid out in this way.
-/

set_option autoImplicit false

namespace CanTransfer

/-! ## Pieces of one size -/

namespace Bytes

/-- All parts but the last have the size; the last one is not longer, and not empty unless it is the
only one. -/
structure IsCut (size : Nat) (parts : List Bytes) : Prop where
  notEmpty : parts ≠ []
  full : ∀ (i : Nat) (part : Bytes), parts[i]? = some part → i + 1 < parts.length →
    part.length = size
  last_le : ∀ part, parts.getLast? = some part → part.length ≤ size
  last_empty : ∀ part, parts.getLast? = some part → part = [] → parts.length = 1

variable {size : Nat} {bytes part : Bytes} {parts : List Bytes}

theorem isCut_singleton (h : part.length ≤ size) : IsCut size [part] := by
  refine ⟨List.cons_ne_nil _ _, ?_, ?_, fun _ _ _ => rfl⟩
  · intro i other _ hi
    exact absurd hi (by simp)
  · intro other hother
    obtain rfl : part = other := by simpa using hother
    exact h

/-- A part of full size may stand in front, if there are bytes behind it. -/
theorem isCut_cons (more : parts.flatten ≠ []) :
    IsCut size (part :: parts) ↔ part.length = size ∧ IsCut size parts := by
  have hne : parts ≠ [] := by
    rintro rfl
    exact more rfl
  have hpos := List.length_pos_iff.mpr hne
  have hlast : (part :: parts).getLast? = parts.getLast? := List.getLast?_cons_of_ne_nil hne
  constructor
  · intro h
    refine ⟨h.full 0 part rfl (by simpa using hpos), hne, ?_, ?_, ?_⟩
    · intro i other hother hi
      exact h.full (i + 1) other hother (by simpa using hi)
    · rw [← hlast]
      exact h.last_le
    · intro other hother hempty
      have := h.last_empty other (hlast.trans hother) hempty
      simp only [List.length_cons] at this
      omega
  · rintro ⟨hpart, h⟩
    refine ⟨List.cons_ne_nil _ _, ?_, ?_, ?_⟩
    · intro i other hother hi
      cases i with
      | zero =>
        obtain rfl : part = other := by simpa using hother
        exact hpart
      | succ i => exact h.full i other hother (by simpa using hi)
    · rw [hlast]
      exact h.last_le
    · intro other hother hempty
      have hone := h.last_empty other (hlast.symm.trans hother) hempty
      obtain ⟨only, rfl⟩ := List.length_eq_one_iff.mp hone
      obtain rfl : only = other := by simpa using hlast.symm.trans hother
      exact absurd (by simpa using hempty) more

theorem isCut_pieces (pos : 0 < size) (bytes : Bytes) : IsCut size (pieces size bytes) := by
  fun_induction pieces size bytes with
  | case1 bytes h ih =>
    have hmore : (pieces size (bytes.drop size)).flatten ≠ [] := by
      rw [flatten_pieces, ne_eq, List.drop_eq_nil_iff]
      omega
    refine (isCut_cons hmore).mpr ⟨?_, ih⟩
    rw [List.length_take]
    omega
  | case2 bytes h => exact isCut_singleton (by omega)

/-- There is only one way to cut a string. -/
theorem eq_pieces_of_isCut (pos : 0 < size) (h : IsCut size parts) :
    parts = pieces size parts.flatten := by
  induction parts with
  | nil => exact absurd rfl h.notEmpty
  | cons part rest ih =>
    by_cases hrest : rest = []
    · subst hrest
      have hle := h.last_le part rfl
      rw [List.flatten_cons, List.flatten_nil, List.append_nil, pieces_of_le hle]
    · have hmore : rest.flatten ≠ [] := by
        intro hempty
        have hlast : (part :: rest).getLast? = some (rest.getLast hrest) := by
          rw [List.getLast?_cons_of_ne_nil hrest, List.getLast?_eq_some_getLast hrest]
        have := h.last_empty _ hlast (List.flatten_eq_nil_iff.mp hempty _ (List.getLast_mem hrest))
        have := List.length_pos_iff.mpr hrest
        simp only [List.length_cons] at *
        omega
      obtain ⟨hpart, hcut⟩ := (isCut_cons hmore).mp h
      have hpos := List.length_pos_iff.mpr hmore
      rw [List.flatten_cons, pieces_of_lt pos (by rw [List.length_append]; omega), ← hpart,
        List.take_left, List.drop_left, hpart, ← ih hcut]

theorem eq_pieces_iff (pos : 0 < size) :
    parts = pieces size bytes ↔ parts.flatten = bytes ∧ IsCut size parts := by
  constructor
  · rintro rfl
    exact ⟨flatten_pieces size bytes, isCut_pieces pos bytes⟩
  · rintro ⟨rfl, h⟩
    exact eq_pieces_of_isCut pos h

end Bytes

/-! ## The reference -/

namespace Reference

/-- Padding bytes behind a payload. -/
def fill (length capacity : Nat) : Nat :=
  if length ≤ capacity then padding length capacity
  else if capacity ≤ length % capacity + 2 then 0
  else padding (length % capacity + 2) capacity

/-- Payload and padding, and behind them their CRC if one frame does not hold the payload. -/
def stream (payload : Bytes) (capacity : Nat) : Bytes :=
  let padded := payload ++ List.replicate (fill payload.length capacity) 0x55
  if payload.length ≤ capacity then padded else padded ++ (Crc.ofBytes padded).digest

theorem length_stream (payload : Bytes) (capacity : Nat) :
    (stream payload capacity).length = payload.length + fill payload.length capacity +
      if payload.length ≤ capacity then 0 else Crc.length := by
  unfold stream
  split <;> simp [Nat.add_assoc]

end Reference

namespace Transfer

/-- The frames carry the stream of the transfer in pieces, and each of them says where it stands. -/
structure LaidOut (t : Transfer) (capacity : Nat) (frames : List Frame) : Prop where
  stream : (frames.map Frame.payload).flatten = Reference.stream t.payload capacity
  pieces : Bytes.IsCut capacity (frames.map Frame.payload)
  identifier : ∀ f ∈ frames, f.identifier = t.identifier
  transferId : ∀ f ∈ frames, f.tail.transferId.val = t.number.toNat % 32
  loopback : ∀ f ∈ frames, f.loopback = t.loopback
  first : ∀ (i : Nat) (f : Frame), frames[i]? = some f → (f.tail.first = true ↔ i = 0)
  last : ∀ (i : Nat) (f : Frame), frames[i]? = some f →
    (f.tail.last = true ↔ i + 1 = frames.length)
  toggle : ∀ (i : Nat) (f : Frame), frames[i]? = some f → (f.tail.toggle = true ↔ i % 2 = 0)

variable (t : Transfer) {capacity : Nat} {frames : List Frame}

theorem content_eq_stream (capacity : Nat) :
    t.content capacity = Reference.stream t.payload capacity := by
  by_cases h : t.length ≤ capacity
  · rw [content_of_le t h]
    exact (if_pos h).symm
  · rw [content_of_lt t (by omega)]
    exact (if_neg h).symm

end Transfer

/-- Frames whose tails say where they stand are numbered from the first on. -/
theorem Frame.eq_sequence {identifier : UInt32} {transferId : TransferId} {loopback : Bool}
    {frames : List Frame}
    (h : ∀ (i : Nat) (f : Frame), frames[i]? = some f →
      f = placed identifier transferId loopback i (i + 1 == frames.length) f.payload) :
    frames = sequence identifier transferId loopback 0 (frames.map payload) := by
  apply List.ext_getElem?
  intro i
  rw [sequence, List.getElem?_mapIdx, List.getElem?_map, List.length_map, Nat.zero_add]
  cases hf : frames[i]? with
  | none => rfl
  | some f => exact congrArg some (h i f hf)

namespace Transfer

variable (t : Transfer) {capacity : Nat} {frames : List Frame}

theorem map_payload_layout (capacity : Nat) :
    (t.layout capacity).map Frame.payload = Bytes.pieces capacity (t.content capacity) := by
  rw [layout, Frame.map_payload_sequence]

theorem eq_placed_of_getElem?_layout {i : Nat} {f : Frame}
    (h : (t.layout capacity)[i]? = some f) :
    f = Frame.placed t.identifier (TransferId.truncate t.number) t.loopback i
      (i + 1 == (t.layout capacity).length) f.payload := by
  have hlength : (t.layout capacity).length
      = (Bytes.pieces capacity (t.content capacity)).length := by
    rw [← map_payload_layout, List.length_map]
  have hf := Frame.eq_placed_of_getElem?_sequence _ _ _ h
  rw [Nat.zero_add] at hf
  rw [hlength]
  exact hf

theorem laidOut_layout (pos : 0 < capacity) : t.LaidOut capacity (t.layout capacity) := by
  obtain ⟨hflatten, hcut⟩ := (Bytes.eq_pieces_iff pos).mp (map_payload_layout t capacity)
  have hplace : ∀ f ∈ t.layout capacity, ∃ i last, f =
      Frame.placed t.identifier (TransferId.truncate t.number) t.loopback i last f.payload := by
    intro f hf
    obtain ⟨i, hi⟩ := List.mem_iff_getElem?.mp hf
    exact ⟨i, _, eq_placed_of_getElem?_layout t hi⟩
  refine ⟨by rw [hflatten, content_eq_stream], hcut, ?_, ?_, ?_, ?_, ?_, ?_⟩
  · intro f hf
    obtain ⟨i, last, hf⟩ := hplace f hf
    rw [hf]
    rfl
  · intro f hf
    obtain ⟨i, last, hf⟩ := hplace f hf
    rw [hf]
    rfl
  · intro f hf
    obtain ⟨i, last, hf⟩ := hplace f hf
    rw [hf]
    rfl
  · intro i f hf
    rw [eq_placed_of_getElem?_layout t hf]
    simp [Frame.placed]
  · intro i f hf
    rw [eq_placed_of_getElem?_layout t hf]
    simp [Frame.placed]
  · intro i f hf
    rw [eq_placed_of_getElem?_layout t hf]
    simp [Frame.placed, Tail.toggleAt, Tail.firstToggle]

/-- The stream, the cut and the tails leave no choice. -/
theorem LaidOut.eq_layout (pos : 0 < capacity) (h : t.LaidOut capacity frames) :
    frames = t.layout capacity := by
  have hpayloads : frames.map Frame.payload = Bytes.pieces capacity (t.content capacity) := by
    rw [Bytes.eq_pieces_iff pos, content_eq_stream]
    exact ⟨h.stream, h.pieces⟩
  rw [layout, ← hpayloads]
  apply Frame.eq_sequence
  intro i f hf
  have hmem := List.mem_of_getElem? hf
  have htail : f.tail = ⟨i == 0, i + 1 == frames.length, Tail.toggleAt i,
      TransferId.truncate t.number⟩ := by
    have hfirst : f.tail.first = (i == 0) := by
      rw [Bool.eq_iff_iff, h.first i f hf, beq_iff_eq]
    have hlast : f.tail.last = (i + 1 == frames.length) := by
      rw [Bool.eq_iff_iff, h.last i f hf, beq_iff_eq]
    have htoggle : f.tail.toggle = Tail.toggleAt i := by
      rw [Bool.eq_iff_iff, h.toggle i f hf]
      simp [Tail.toggleAt, Tail.firstToggle]
    have hid : f.tail.transferId = TransferId.truncate t.number := Fin.ext (h.transferId f hmem)
    rw [← hfirst, ← hlast, ← htoggle, ← hid]
  have hidentifier := h.identifier f hmem
  have hloopback := h.loopback f hmem
  cases f
  simp_all [Frame.placed]

/-- The frames of a transfer are the only ones that are laid out as they are. -/
theorem frames_eq_ok_iff_laidOut (pos : 0 < capacity) :
    t.frames capacity = .ok frames ↔ t.LaidOut capacity frames := by
  rw [frames_eq_ok_iff]
  constructor
  · rintro ⟨-, rfl⟩
    exact laidOut_layout t pos
  · intro h
    exact ⟨pos, h.eq_layout t pos⟩

/-- The fragments and the upper bits of the number leave no trace. -/
theorem LaidOut.of_eq {u : Transfer} (h : t.LaidOut capacity frames)
    (payload : u.payload = t.payload) (number : u.number.toNat % 32 = t.number.toNat % 32)
    (identifier : u.identifier = t.identifier) (loopback : u.loopback = t.loopback) :
    u.LaidOut capacity frames where
  stream := by rw [h.stream, payload]
  pieces := h.pieces
  identifier f hf := by rw [h.identifier f hf, identifier]
  transferId f hf := by rw [h.transferId f hf, number]
  loopback f hf := by rw [h.loopback f hf, loopback]
  first := h.first
  last := h.last
  toggle := h.toggle

/-- The frames are a single one, which holds payload and padding and no CRC. -/
def InOneFrame (capacity : Nat) (frames : List Frame) : Prop :=
  ∃ f, frames = [f] ∧ f.tail.first = true ∧ f.tail.last = true ∧ f.tail.toggle = true ∧
    f.payload = t.payload ++ List.replicate (Reference.fill t.length capacity) 0x55

theorem inOneFrame_layout_iff (pos : 0 < capacity) :
    t.InOneFrame capacity (t.layout capacity) ↔ t.length ≤ capacity := by
  constructor
  · rintro ⟨f, hlayout, -, -, -, hpayload⟩
    by_contra hlong
    change ¬ t.payload.length ≤ capacity at hlong
    -- The stream of a long payload is longer by the CRC.
    have hstream := (laidOut_layout t pos).stream
    have hlength := Reference.length_stream t.payload capacity
    rw [if_neg hlong, ← hstream, hlayout, List.map_singleton, List.flatten_singleton, hpayload,
      List.length_append, List.length_replicate] at hlength
    have hcrc : Crc.length = 2 := rfl
    simp only [length] at hlength
    omega
  · intro h
    exact ⟨_, layout_of_le t h, rfl, rfl, rfl, rfl⟩

/-- **The frames of a transfer are those of the reference.** Cutting always succeeds, and the frames
are laid out as payload, padding and CRC ask for, which no other frames are. There is one frame
without a CRC exactly if it holds the payload. Neither the division of the payload nor the upper
bits of the number have any part in it. -/
theorem frames_laidOut (pos : 0 < capacity) :
    ∃ frames, t.frames capacity = .ok frames ∧ t.LaidOut capacity frames ∧
      (∀ other, t.LaidOut capacity other → other = frames) ∧
      (t.InOneFrame capacity frames ↔ t.length ≤ capacity) ∧
      ∀ u : Transfer, u.payload = t.payload → u.number.toNat % 32 = t.number.toNat % 32 →
        u.identifier = t.identifier → u.loopback = t.loopback → u.frames capacity = .ok frames := by
  have hlaid := laidOut_layout t pos
  refine ⟨t.layout capacity, frames_of_pos t pos, hlaid, ?_, inOneFrame_layout_iff t pos, ?_⟩
  · intro other hother
    exact hother.eq_layout t pos
  · intro u payload number identifier loopback
    exact (frames_eq_ok_iff_laidOut u pos).mpr (hlaid.of_eq t payload number identifier loopback)

/-- The CRC is cut between the last two frames; another division of the payload, and a number with
other upper bits, give the same frames. -/
theorem frames_laidOut_digest_cut :
    0 < 7 ∧ ∃ frames,
      Transfer.frames ⟨0x123, 35, [[1, 2, 3, 4, 5, 6, 7, 8], [], [9, 10, 11, 12, 13]], true⟩ 7
        = .ok frames ∧
      LaidOut ⟨0x123, 35, [[1, 2, 3, 4, 5, 6, 7, 8], [], [9, 10, 11, 12, 13]], true⟩ 7 frames ∧
      ¬ InOneFrame ⟨0x123, 35, [[1, 2, 3, 4, 5, 6, 7, 8], [], [9, 10, 11, 12, 13]], true⟩ 7
        frames ∧
      Transfer.frames ⟨0x123, 3, [[], [1, 2, 3, 4, 5, 6, 7, 8, 9, 10, 11, 12, 13]], true⟩ 7
        = .ok frames := by
  obtain ⟨frames, hframes, hlaid, -, hone, hsame⟩ := frames_laidOut
    ⟨0x123, 35, [[1, 2, 3, 4, 5, 6, 7, 8], [], [9, 10, 11, 12, 13]], true⟩ (by decide : 0 < 7)
  refine ⟨by decide, frames, hframes, hlaid, ?_, hsame _ rfl rfl rfl rfl⟩
  rw [hone]
  decide

end Transfer

end CanTransfer
