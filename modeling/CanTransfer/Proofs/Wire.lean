import CanTransfer.Proofs.Layout
import CanTransfer.Settings

/-!
# Frames on the wire

* `Frame.wire` — the CAN frame of a frame, without the checks.
* `Frame.Fits`, `Frame.encode_of_fits`, `Frame.encode_of_not_fits` — which frames can be encoded.
* `Frame.decode_wire` — what was encoded is read again.
* `Transfer.layout_legal`, `Transfer.exists_layout_eq` — where a full frame is legal, so is each
  frame of a transfer, and none of them is longer than the first.
* `Transfer.encoded`, `Transfer.encoded_of_legal` — the CAN frames of a whole transfer.
* `CanFrame.Legal`, `Transfer.frames_encode` — which sizes of frames can be used is known from the
  full frame alone.
-/

set_option autoImplicit false

namespace CanTransfer

open DataLength (table)

namespace Frame

/-- The CAN frame of a frame. -/
def wire (f : Frame) : CanFrame where
  identifier := f.identifier
  data := f.data
  fd := decide (8 < f.data.length)
  loopback := f.loopback

/-- The frame can travel: its identifier has 29 bits, and its length is legal. -/
structure Fits (f : Frame) : Prop where
  identifier : fitsIdentifier f.identifier
  legal : f.data.length ∈ table

variable {f : Frame}

theorem length_data (f : Frame) : f.data.length = f.payload.length + tailLength := by
  simp [data, tailLength]

theorem encode_of_fits (h : f.Fits) : f.encode = .ok f.wire := by
  unfold encode
  rw [if_neg fun hn => hn h.identifier, if_neg fun hn => hn h.legal]
  rfl

theorem encode_of_not_fits (h : ¬ f.Fits) : ∃ fault, f.encode = .error fault := by
  unfold encode
  split
  · exact ⟨_, rfl⟩
  · rename_i hid
    split
    · exact ⟨_, rfl⟩
    · rename_i hlegal
      exact absurd ⟨Decidable.not_not.mp hid, Decidable.not_not.mp hlegal⟩ h

/-- Frames that can travel are encoded one by one. -/
theorem mapM_encode {frames : List Frame} (h : ∀ f ∈ frames, f.Fits) :
    frames.mapM encode = .ok (frames.map wire) := by
  induction frames with
  | nil => rfl
  | cons f rest ih =>
    rw [List.mapM_cons, encode_of_fits (h f List.mem_cons_self),
      ih fun g hg => h g (List.mem_cons_of_mem _ hg)]
    rfl

/-- A frame is read from the wire as it was put on it. -/
theorem decode_wire (h : fitsIdentifier f.identifier) : decode f.wire = .ok f := by
  unfold decode
  have hlast : f.wire.data.getLast? = some f.tail.toByte := by simp [wire, data]
  rw [if_neg (by simp [wire]), if_neg fun hn => hn h, hlast]
  simp [wire, data, Tail.ofByte_toByte]

end Frame

/-! ## The frames of a transfer -/

namespace Transfer

variable (t : Transfer) {capacity : Nat}

theorem identifier_of_mem_layout {f : Frame} (h : f ∈ t.layout capacity) :
    f.identifier = t.identifier :=
  (Frame.mem_sequence _ _ _ h).1

/-- Where a full frame is legal, each frame of a transfer is. -/
theorem layout_legal (pos : 0 < capacity) (full : capacity + tailLength ∈ table) {f : Frame}
    (h : f ∈ t.layout capacity) : f.data.length ∈ table := by
  have hmem := (Frame.mem_sequence _ _ _ h).2
  rw [Frame.length_data]
  rcases Bytes.length_of_mem_pieces pos hmem with hlen | hlen
  · rw [hlen]
    exact full
  · rw [hlen]
    exact content_rest_legal t pos full

/-- So with an identifier of 29 bits each frame of it can travel. -/
theorem layout_fits (pos : 0 < capacity) (full : capacity + tailLength ∈ table)
    (hid : fitsIdentifier t.identifier) {f : Frame} (h : f ∈ t.layout capacity) : f.Fits := by
  refine ⟨?_, layout_legal t pos full h⟩
  rw [identifier_of_mem_layout t h]
  exact hid

/-- The CAN frames of a transfer: it is cut into frames, and each of them is encoded. -/
def encoded (capacity : Nat) : Except Fault (List CanFrame) := do
  let frames ← (t.frames capacity).mapError Fault.settings
  (frames.mapM Frame.encode).mapError Fault.frame

theorem encoded_of_legal (pos : 0 < capacity) (full : capacity + tailLength ∈ table)
    (hid : fitsIdentifier t.identifier) :
    t.encoded capacity = .ok ((t.layout capacity).map Frame.wire) := by
  have hencode := Frame.mapM_encode fun f hf => layout_fits t pos full hid hf
  unfold encoded
  rw [frames_of_pos t pos]
  show ((t.layout capacity).mapM Frame.encode).mapError Fault.frame = _
  rw [hencode]
  rfl

/-- A transfer has a first frame, and none of its frames is longer. -/
theorem exists_layout_eq (pos : 0 < capacity) :
    ∃ first rest, t.layout capacity = first :: rest ∧
      ∀ f ∈ rest, f.data.length ≤ first.data.length := by
  obtain ⟨first, rest, hpieces⟩ :=
    List.exists_cons_of_ne_nil (Bytes.pieces_ne_nil capacity (t.content capacity))
  refine ⟨_, _, by rw [layout, hpieces, Frame.sequence_cons], ?_⟩
  intro f hf
  have hle := Bytes.length_le_head_pieces pos hpieces f.payload (Frame.mem_sequence _ _ _ hf).2
  rw [Frame.length_data, Frame.length_data]
  simpa [Frame.placed] using hle

/-- Of a transfer that fills a frame, the first frame is full. -/
theorem length_data_first {first : Frame} {rest : List Frame} (pos : 0 < capacity)
    (h : capacity ≤ t.length) (hlayout : t.layout capacity = first :: rest) :
    first.data.length = capacity + tailLength := by
  have hpieces : first.payload :: rest.map Frame.payload
      = Bytes.pieces capacity (t.content capacity) := by
    rw [← List.map_cons, ← hlayout, layout, Frame.map_payload_sequence]
  have hlength : t.length ≤ (t.content capacity).length := by
    rw [content, List.length_append]
    exact Nat.le_add_right _ _
  rw [Frame.length_data]
  by_cases hlt : capacity < (t.content capacity).length
  · rw [Bytes.pieces_of_lt pos hlt] at hpieces
    rw [(List.cons.inj hpieces).1, List.length_take, Nat.min_eq_left (Nat.le_of_lt hlt)]
  · rw [Bytes.pieces_of_le (by omega)] at hpieces
    rw [(List.cons.inj hpieces).1]
    omega

end Transfer

/-! ## The two kinds of bus -/

namespace Mtu

theorem capacity_pos (m : Mtu) : 0 < m.capacity := by
  cases m <;> decide

theorem capacity_legal (m : Mtu) : m.capacity + tailLength ∈ table := by
  cases m <;> decide

end Mtu

/-! ## The sizes of frames that can be used -/

/-- The CAN frame can travel on a bus whose frames have at most `longest` bytes. -/
structure CanFrame.Legal (longest : Nat) (c : CanFrame) : Prop where
  legal : c.data.length ∈ table
  short : c.data.length ≤ longest
  extended : c.extended = true
  fd : c.fd = true ↔ 8 < c.data.length

namespace Transfer

variable (t : Transfer) {capacity : Nat}

theorem loopback_of_mem_layout {f : Frame} (h : f ∈ t.layout capacity) :
    f.loopback = t.loopback := by
  obtain ⟨i, hi, rfl⟩ := List.mem_mapIdx.mp h
  rfl

theorem wire_legal (pos : 0 < capacity) (full : capacity + tailLength ∈ table) {f : Frame}
    (h : f ∈ t.layout capacity) : f.wire.Legal (capacity + tailLength) := by
  refine ⟨layout_legal t pos full h, ?_, rfl, decide_eq_true_iff⟩
  have hle := Bytes.length_le_of_mem_pieces pos (Frame.mem_sequence _ _ _ h).2
  show f.data.length ≤ _
  rw [Frame.length_data]
  omega

/-- **A full frame decides whether transfers can travel.** Where it has a legal length, as on both
kinds of bus, each frame of each transfer with an identifier of 29 bits is encoded, and in a legal
CAN frame; where it has not, the first frame of each transfer that fills one is refused. -/
theorem frames_encode (pos : 0 < capacity) :
    ∃ first rest, t.frames capacity = .ok (first :: rest) ∧
      (capacity + tailLength ∈ table → fitsIdentifier t.identifier → ∀ f ∈ first :: rest,
        ∃ c, f.encode = .ok c ∧ c.Legal (capacity + tailLength) ∧ c.loopback = t.loopback) ∧
      (∀ m : Mtu, m.capacity + tailLength ∈ table) ∧
      (capacity + tailLength ∉ table → capacity ≤ t.length →
        first.encode = .error (if fitsIdentifier t.identifier
          then .illegalLength (capacity + tailLength) else .wideIdentifier t.identifier)) := by
  obtain ⟨first, rest, hlayout, -⟩ := exists_layout_eq t pos
  refine ⟨first, rest, by rw [frames_of_pos t pos, hlayout], ?_, Mtu.capacity_legal, ?_⟩
  · intro full hid f hf
    rw [← hlayout] at hf
    exact ⟨f.wire, Frame.encode_of_fits (layout_fits t pos full hid hf), wire_legal t pos full hf,
      loopback_of_mem_layout t hf⟩
  · intro notFull long
    have hmem : first ∈ t.layout capacity := hlayout ▸ List.mem_cons_self
    have hlength := length_data_first t pos long hlayout
    unfold Frame.encode
    rw [identifier_of_mem_layout t hmem, hlength]
    by_cases hid : fitsIdentifier t.identifier
    · rw [if_neg (Decidable.not_not.mpr hid), if_pos notFull, if_pos hid]
    · rw [if_pos hid, if_neg hid]

/-- A frame of 64 bytes is legal, also where the CRC of the transfer needs one of its own; one of
nine bytes is not. -/
theorem frames_encode_of_64_and_9 :
    0 < 63 ∧ 0 < 8 ∧
    (∃ first rest,
      Transfer.frames ⟨0x1FFFFFFF, 31, [List.replicate 63 1, [], List.replicate 62 2], true⟩ 63
        = .ok (first :: rest) ∧
      ∀ f ∈ first :: rest, ∃ c, f.encode = .ok c ∧ c.Legal 64 ∧ c.loopback = true) ∧
    ∃ first rest, Transfer.frames ⟨0x100, 1, [List.replicate 8 1], false⟩ 8 = .ok (first :: rest) ∧
      first.encode = .error (.illegalLength 9) := by
  obtain ⟨first, rest, hframes, hencode, -⟩ :=
    frames_encode ⟨0x1FFFFFFF, 31, [List.replicate 63 1, [], List.replicate 62 2], true⟩
      (show 0 < 63 by decide)
  obtain ⟨first', rest', hframes', -, -, hrefused⟩ :=
    frames_encode ⟨0x100, 1, [List.replicate 8 1], false⟩ (show 0 < 8 by decide)
  exact ⟨by decide, by decide, ⟨first, rest, hframes, hencode (by decide) (by decide)⟩,
    first', rest', hframes', hrefused (by decide) (by decide)⟩

end Transfer

end CanTransfer
