import CanTransfer.Proofs.Gathering
import CanTransfer.Proofs.Layout

/-!
# From the frames of a transfer back to the transfer

* `Delivery.Carries` — what a receiver should get of a transfer.
* `Transfer.delivery` — what it does get.
* `Transfer.layout_of_le`, `Transfer.exists_layout_completes` — the frames of a transfer are one
  frame, or the frames of a whole transfer in the sense of a receiver.
* `Transfer.feedAll_layout` — any receiver that is fed the frames of a transfer delivers it with the
  last one.
-/

set_option autoImplicit false

namespace CanTransfer

/-- What a receiver should get of a transfer: all of it, of its number the low five bits, and a
number of padding bytes behind the payload. -/
structure Delivery.Carries (d : Delivery) (t : Transfer) (padded : Nat) : Prop where
  identifier : d.identifier = t.identifier
  transferId : d.transferId.val = t.number.toNat % 32
  payload : d.payload = t.payload ++ List.replicate padded 0x55
  loopback : d.loopback = t.loopback

/-! ## Numbered frames make a whole transfer -/

namespace Frame

variable (identifier : UInt32) (transferId : TransferId) (loopback : Bool)

theorem placed_follows (first payload : Bytes) (last : Bool) (index : Nat) :
    (placed identifier transferId loopback 0 false first).Follows (index + 1)
      (placed identifier transferId loopback (index + 1) last payload) :=
  ⟨rfl, rfl, Tail.toggleAt_eq_flipped _⟩

/-- The frames of two or more payloads are those of a whole transfer. -/
theorem exists_sequence_completes (first last : Bytes) (middle : List Bytes) :
    ∃ m between f, sequence identifier transferId loopback 0 (first :: (middle ++ [last])) =
        m :: (between ++ [f]) ∧ m.Completes between f ∧
      m.tail.transferId = transferId ∧ f.identifier = identifier ∧ f.loopback = loopback := by
  refine ⟨placed identifier transferId loopback 0 false first,
    middle.mapIdx fun i => placed identifier transferId loopback (i + 1) false,
    placed identifier transferId loopback (middle.length + 1) true last, ?_,
    ⟨⟨rfl, rfl, ?_, ?_⟩, ?_, rfl⟩, rfl, rfl, rfl⟩
  · have hmore : (middle ++ [last]).isEmpty = false := by simp
    rw [sequence_cons, sequence_concat, hmore]
    simp [Nat.add_comm 1]
  · intro i g hg
    rw [List.getElem?_mapIdx] at hg
    obtain ⟨payload, -, rfl⟩ := Option.map_eq_some_iff.mp hg
    exact placed_follows identifier transferId loopback first payload false i
  · intro g hg
    obtain ⟨i, hi, rfl⟩ := List.mem_mapIdx.mp hg
    rfl
  · rw [List.length_mapIdx]
    exact placed_follows identifier transferId loopback first last true middle.length

end Frame

/-! ## The round trip -/

namespace Transfer

variable (t : Transfer) {capacity : Nat}

/-- What a receiver gets of a transfer that is cut into frames. -/
def delivery (capacity : Nat) : Delivery where
  identifier := t.identifier
  transferId := TransferId.truncate t.number
  payload := t.payload ++ t.fill capacity
  loopback := t.loopback

theorem delivery_carries : (t.delivery capacity).Carries t (fillCount t.length capacity) :=
  ⟨rfl, rfl, rfl, rfl⟩

/-- A payload that fits one frame travels in a frame that is a whole transfer. -/
theorem layout_of_le (h : t.length ≤ capacity) :
    t.layout capacity = [Frame.placed t.identifier (TransferId.truncate t.number) t.loopback 0 true
      (t.payload ++ t.fill capacity)] := by
  rw [layout, Bytes.pieces_of_le (length_content_le t h), content_of_le t h]
  rfl

/-- The frames carry the content and nothing else. -/
theorem bytes_layout : Frame.bytes (t.layout capacity) = t.content capacity := by
  rw [Frame.bytes, List.flatMap_def, layout, Frame.map_payload_sequence, Bytes.flatten_pieces]

/-- A longer payload travels in the frames of a whole transfer, whose bytes are the content. -/
theorem exists_layout_completes (pos : 0 < capacity) (h : capacity < t.length) :
    ∃ m middle f, t.layout capacity = m :: (middle ++ [f]) ∧ m.Completes middle f ∧
      Frame.bytes (m :: middle ++ [f]) = t.content capacity ∧
      m.tail.transferId = TransferId.truncate t.number ∧ f.identifier = t.identifier ∧
      f.loopback = t.loopback := by
  obtain ⟨first, between, last, hpieces⟩ := Bytes.exists_pieces_eq pos (lt_length_content t h)
  obtain ⟨m, middle, f, hlayout, hcompletes, htail⟩ :=
    Frame.exists_sequence_completes t.identifier (TransferId.truncate t.number) t.loopback
      first last between
  rw [← hpieces] at hlayout
  refine ⟨m, middle, f, hlayout, hcompletes, ?_, htail⟩
  rw [List.cons_append, ← hlayout]
  exact bytes_layout t

/-- Any receiver that is fed the frames of a transfer accepts them, and delivers with the last. -/
theorem feedAll_layout (pos : 0 < capacity) (r : Reception) :
    r.feedAll (t.layout capacity) =
      (List.replicate ((t.layout capacity).length - 1) .accepted ++
        [.delivered (t.delivery capacity)], .idle) := by
  by_cases h : t.length ≤ capacity
  · rw [layout_of_le t h]
    simp only [Reception.feedAll]
    rw [Reception.feed_first rfl]
    rfl
  · obtain ⟨m, middle, f, hlayout, hcompletes, hbytes, hid, hidentifier, hloopback⟩ :=
      exists_layout_completes t pos (by omega)
    have hfinish : Reception.finish f m.tail.transferId (t.content capacity)
        = .delivered (t.delivery capacity) :=
      Reception.finish_eq_delivered_iff.mpr
        ⟨content_of_lt t (by omega), hidentifier.symm, hid.symm, hloopback.symm⟩
    rw [hlayout, Reception.feedAll_completes hcompletes, hbytes, hfinish]
    simp

/-- **A transfer survives the way through its frames.** However its payload is divided, and whatever
the receiver was doing before, each frame but the last is accepted without a delivery, the last one
delivers the transfer with at most 15 padding bytes, none of them if the frames are short, and the
receiver is idle again. -/
theorem feedAll_frames (pos : 0 < capacity) (r : Reception) :
    ∃ frames d padded, t.frames capacity = .ok frames ∧
      r.feedAll frames =
        (List.replicate (frames.length - 1) .accepted ++ [.delivered d], .idle) ∧
      d.Carries t padded ∧ padded ≤ 15 ∧ (capacity ≤ 7 → padded = 0) :=
  ⟨t.layout capacity, t.delivery capacity, fillCount t.length capacity, frames_of_pos t pos,
    feedAll_layout t pos r, delivery_carries t, fillCount_le_fifteen _ _, fillCount_eq_zero⟩

/-- The CRC is cut between two frames, and the receiver was in a transfer of the same number. -/
theorem feedAll_frames_digest_cut :
    0 < 7 ∧ ∃ frames d padded,
      Transfer.frames ⟨0x123, 35, [[1, 2, 3, 4, 5, 6, 7, 8], [], [9, 10, 11, 12, 13]], true⟩ 7
        = .ok frames ∧
      (Reception.receiving 3 false [0xAA]).feedAll frames =
        (List.replicate (frames.length - 1) .accepted ++ [.delivered d], .idle) ∧
      d.Carries ⟨0x123, 35, [[1, 2, 3, 4, 5, 6, 7, 8], [], [9, 10, 11, 12, 13]], true⟩ padded ∧
      padded ≤ 15 ∧ (7 ≤ 7 → padded = 0) :=
  ⟨by decide, feedAll_frames _ (by decide) _⟩

end Transfer

end CanTransfer
