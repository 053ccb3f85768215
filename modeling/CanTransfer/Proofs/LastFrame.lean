import Mathlib.Order.Bounds.Defs
import CanTransfer.Proofs.Gathering
import CanTransfer.Proofs.Wire

/-!
# Padding and the last frame

Padding goes into the last frame of a transfer. What it is good for, and that it costs nothing, is
seen beside the frames that the transfer would have with another number of padding bytes.

* `padding_least` — fewer bytes than the padding do not bring a frame to a legal length.
* `Bytes.pieces_of_length` — the number of pieces and the length of the last one follow from the
  length of the string.
* `exists_rest` — what is left for the last frame if there is no padding; the padding of a transfer
  is the one that this rest asks for.
* `Transfer.layoutWith`, `Transfer.finalFrame` — the frames with any number of padding bytes, and the
  last one among them.
* `Transfer.frames_padded` — the padding is the least that makes the last frame legal, and there are
  no more frames than without it.
-/

set_option autoImplicit false

namespace CanTransfer

open DataLength (table)

/-- No number of bytes below the padding brings a frame to a legal length. -/
theorem padding_least {used count : Nat} (capacity : Nat)
    (legal : used + count + tailLength ∈ table) : padding used capacity ≤ count := by
  unfold padding
  split
  · exact Nat.zero_le _
  · rename_i l hl
    have := DataLength.ceil?_least hl legal (by omega)
    omega

/-! ## The length of the last piece -/

/-- A string of some full pieces and a rest has the rest as its last piece. A rest may be as long as
a full piece, but not empty behind one. -/
theorem Bytes.pieces_of_length {size full rest : Nat} {bytes : Bytes}
    (sum : bytes.length = size * full + rest) (fits : rest ≤ size) (more : 0 < full → 0 < rest) :
    (pieces size bytes).length = full + 1 ∧
      (pieces size bytes).getLast?.map List.length = some rest := by
  induction full generalizing bytes with
  | zero =>
    rw [Nat.mul_zero, Nat.zero_add] at sum
    rw [pieces_of_le (by omega)]
    simp [sum]
  | succ full ih =>
    have hrest := more (Nat.succ_pos full)
    rw [Nat.mul_succ] at sum
    have hdrop : (bytes.drop size).length = size * full + rest := by
      rw [List.length_drop]
      omega
    obtain ⟨hcount, hlast⟩ := ih hdrop fun _ => hrest
    rw [pieces_of_lt (by omega) (by omega), List.length_cons, hcount,
      List.getLast?_cons_of_ne_nil (pieces_ne_nil _ _)]
    exact ⟨rfl, hlast⟩

/-! ## The rest that the full frames leave -/

/-- Bytes that the CRC of a payload takes. -/
def digestLength (length capacity : Nat) : Nat := if length ≤ capacity then 0 else Crc.length

variable {capacity full rest : Nat}

/-- Without padding, the last frame of a transfer holds a rest of its bytes, and the padding of the
transfer is the padding of this rest. -/
theorem exists_rest (pos : 0 < capacity) (length : Nat) :
    ∃ full rest, length + digestLength length capacity = capacity * full + rest ∧
      rest ≤ capacity ∧ (0 < full → 0 < rest) ∧
      fillCount length capacity = padding rest capacity := by
  unfold fillCount digestLength
  by_cases h : length ≤ capacity
  · rw [if_pos h, if_pos h]
    exact ⟨0, length, by omega, h, fun hfull => absurd hfull (Nat.lt_irrefl 0), rfl⟩
  · rw [if_neg h, if_neg h]
    simp only
    have hcrc : Crc.length = 2 := rfl
    have hlength := Nat.div_add_mod length capacity
    have hmod := Nat.mod_lt length pos
    -- The CRC leaves room behind it, ends with the frame, or runs over by its second byte.
    rcases Nat.lt_trichotomy (length % capacity + Crc.length) capacity with hlt | heq | hgt
    · rw [if_neg (by omega)]
      exact ⟨length / capacity, length % capacity + Crc.length, by omega, by omega, by omega, rfl⟩
    · have hroom := padding_le_room capacity capacity
      rw [if_pos (by omega)]
      exact ⟨length / capacity, capacity, by omega, Nat.le_refl _, fun _ => pos, by omega⟩
    · have hshort : 1 + tailLength ∈ table := by decide
      rw [if_pos (by omega)]
      refine ⟨length / capacity + 1, 1, ?_, pos, fun _ => Nat.one_pos, (padding_eq_zero hshort).symm⟩
      rw [Nat.mul_succ]
      omega

/-- There is one frame if it holds the payload. Otherwise payload and CRC are divided by the size of
a frame, and the quotient is rounded up. -/
theorem full_eq {length : Nat}
    (sum : length + digestLength length capacity = capacity * full + rest)
    (fits : rest ≤ capacity) (more : 0 < full → 0 < rest) :
    full + 1 = if length ≤ capacity then 1
      else (length + Crc.length + (capacity - 1)) / capacity := by
  unfold digestLength at sum
  split
  · rename_i h
    rw [if_pos h] at sum
    cases full with
    | zero => rfl
    | succ full =>
      have := more (Nat.succ_pos full)
      rw [Nat.mul_succ] at sum
      omega
  · rename_i h
    rw [if_neg h] at sum
    have hrest : 0 < rest := by
      cases full with
      | zero =>
        rw [Nat.mul_zero, Nat.zero_add] at sum
        omega
      | succ full => exact more (Nat.succ_pos full)
    have hone : (rest + (capacity - 1)) / capacity = 1 :=
      Nat.div_eq_of_lt_le (by omega) (by omega)
    rw [sum, Nat.add_assoc, Nat.mul_add_div (by omega), hone]

/-! ## Other numbers of padding bytes -/

namespace Transfer

variable (t : Transfer) (count : Nat)

/-- What the frames carry if the payload is followed by `count` padding bytes, and by the CRC of
both if one frame does not hold the payload. -/
def contentWith (capacity : Nat) : Bytes :=
  let padded := t.payload ++ List.replicate count padByte
  if t.length ≤ capacity then padded else padded ++ (Crc.ofBytes padded).digest

/-- The frames of the transfer if it is sent with `count` padding bytes. -/
def layoutWith (capacity : Nat) : List Frame :=
  Frame.sequence t.identifier (TransferId.truncate t.number) t.loopback 0
    (Bytes.pieces capacity (t.contentWith count capacity))

theorem map_payload_layoutWith (capacity : Nat) :
    (t.layoutWith count capacity).map Frame.payload
      = Bytes.pieces capacity (t.contentWith count capacity) := by
  rw [layoutWith, Frame.map_payload_sequence]

theorem layoutWith_ne_nil (capacity : Nat) : t.layoutWith count capacity ≠ [] :=
  Frame.sequence_ne_nil _ _ _ (Bytes.pieces_ne_nil _ _)

/-- The last one of these frames. -/
def finalFrame (capacity : Nat) : Frame :=
  (t.layoutWith count capacity).getLast (t.layoutWith_ne_nil count capacity)

/-- The frames of the transfer itself are those with its own number of padding bytes. -/
theorem layoutWith_fillCount (capacity : Nat) :
    t.layoutWith (fillCount t.length capacity) capacity = t.layout capacity := by
  rw [layoutWith, layout, content, trailer, contentWith]
  simp only [fill]
  split
  · rfl
  · rw [List.append_assoc]

theorem length_contentWith (capacity : Nat) :
    (t.contentWith count capacity).length = t.length + digestLength t.length capacity + count := by
  unfold contentWith digestLength
  simp only
  split
  · simp [length]
  · rw [List.length_append, List.length_append, Crc.length_digest, List.length_replicate]
    simp only [length]
    omega

variable {t count}

/-- Padding that fits behind the rest makes the last frame longer, and no frame more. -/
theorem layoutWith_of_rest (sum : t.length + digestLength t.length capacity = capacity * full + rest)
    (fits : rest + count ≤ capacity) (more : 0 < full → 0 < rest) :
    (t.layoutWith count capacity).length = full + 1 ∧
      (t.finalFrame count capacity).payload.length = rest + count := by
  have hlength := length_contentWith t count capacity
  rw [sum, Nat.add_assoc] at hlength
  obtain ⟨hcount, hlast⟩ := Bytes.pieces_of_length hlength fits
    fun hfull => Nat.add_pos_left (more hfull) count
  rw [← map_payload_layoutWith, List.getLast?_map,
    List.getLast?_eq_some_getLast (t.layoutWith_ne_nil count capacity)] at hlast
  rw [← map_payload_layoutWith, List.length_map] at hcount
  exact ⟨hcount, Option.some.inj hlast⟩

variable (t)

/-- **Padding is the least that does, and it is free.** The frames of a transfer are those with
`fillCount` padding bytes, of which there are at most 15. They are as many as without padding, one if
it holds the payload and otherwise as many as payload and CRC fill. All padding is in the last
frame, which it does not overfill, and there is none if this frame has a legal length without.
Where a full frame is legal, no smaller number of padding bytes makes the last frame legal. -/
theorem frames_padded (pos : 0 < capacity) :
    t.frames capacity = .ok (t.layoutWith (fillCount t.length capacity) capacity) ∧
    fillCount t.length capacity ≤ 15 ∧
    (t.layoutWith (fillCount t.length capacity) capacity).length
      = (t.layoutWith 0 capacity).length ∧
    (t.layoutWith 0 capacity).length =
      (if t.length ≤ capacity then 1 else (t.length + 2 + (capacity - 1)) / capacity) ∧
    (t.finalFrame (fillCount t.length capacity) capacity).payload.length
      = (t.finalFrame 0 capacity).payload.length + fillCount t.length capacity ∧
    (t.finalFrame (fillCount t.length capacity) capacity).payload.length ≤ capacity ∧
    (0 < fillCount t.length capacity → (t.finalFrame 0 capacity).data.length ∉ table) ∧
    (capacity + tailLength ∈ table →
      IsLeast {count | (t.finalFrame count capacity).data.length ∈ table}
        (fillCount t.length capacity)) := by
  obtain ⟨full, rest, sum, hrest, more, hfill⟩ := exists_rest pos t.length
  have hroom : rest + fillCount t.length capacity ≤ capacity := by
    have := padding_le_room rest capacity
    omega
  obtain ⟨hframes, hfinal⟩ := layoutWith_of_rest sum hroom more
  obtain ⟨hbare, hbareFinal⟩ := layoutWith_of_rest sum (show rest + 0 ≤ capacity from hrest) more
  refine ⟨?_, fillCount_le_fifteen _ _, by rw [hframes, hbare], ?_, by rw [hfinal, hbareFinal]; rfl,
    by rw [hfinal]; exact hroom, ?_, ?_⟩
  · rw [layoutWith_fillCount]
    exact frames_of_pos t pos
  · rw [hbare]
    exact full_eq sum hrest more
  · intro hpadded hlegal
    rw [Frame.length_data, hbareFinal, Nat.add_zero] at hlegal
    rw [hfill, padding_eq_zero hlegal] at hpadded
    exact Nat.lt_irrefl 0 hpadded
  · intro legal
    refine ⟨?_, ?_⟩
    · show (t.finalFrame (fillCount t.length capacity) capacity).data.length ∈ table
      rw [Frame.length_data, hfinal, hfill]
      exact padding_legal legal hrest
    · intro count hcount
      refine Nat.le_of_not_lt fun hlt => ?_
      have hfits : rest + count ≤ capacity := by omega
      obtain ⟨-, hother⟩ := layoutWith_of_rest sum hfits more
      have hcount : (t.finalFrame count capacity).data.length ∈ table := hcount
      rw [Frame.length_data, hother] at hcount
      have := padding_least capacity hcount
      omega

/-- Of 103 bytes the second frame gets 40 and the CRC, and five padding bytes make it legal; the
transfer has two frames in any case. -/
theorem frames_padded_of_103 :
    0 < 63 ∧ 63 + tailLength ∈ table ∧
    Transfer.frames ⟨0x123, 35, [List.replicate 63 1, [], List.replicate 40 2], true⟩ 63 =
      .ok (layoutWith ⟨0x123, 35, [List.replicate 63 1, [], List.replicate 40 2], true⟩ 5 63) ∧
    (layoutWith ⟨0x123, 35, [List.replicate 63 1, [], List.replicate 40 2], true⟩ 5 63).length = 2 ∧
    (finalFrame ⟨0x123, 35, [List.replicate 63 1, [], List.replicate 40 2], true⟩ 0 63).data.length
      ∉ table ∧
    IsLeast {count | (finalFrame ⟨0x123, 35, [List.replicate 63 1, [], List.replicate 40 2], true⟩
      count 63).data.length ∈ table} 5 := by
  have hfill : fillCount (Transfer.length
      ⟨0x123, 35, [List.replicate 63 1, [], List.replicate 40 2], true⟩) 63 = 5 := by decide
  obtain ⟨hframes, -, hcount, hbare, -, -, hneeded, hleast⟩ := frames_padded
    ⟨0x123, 35, [List.replicate 63 1, [], List.replicate 40 2], true⟩ (show 0 < 63 by decide)
  rw [hfill] at hframes hcount hneeded hleast
  exact ⟨by decide, by decide, hframes, hcount.trans hbare, hneeded (by decide),
    hleast (by decide)⟩

end Transfer

end CanTransfer
