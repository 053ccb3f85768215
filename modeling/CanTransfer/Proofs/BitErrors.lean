import Mathlib.Data.Finset.Basic
import CanTransfer.Proofs.Residue
import CanTransfer.Proofs.RoundTrip

/-!
# Inverted bits

Some bits of the payloads of a transfer's frames arrive inverted; the tails arrive as they were
sent. The reception then goes on to the last frame, where the CRC decides, and all that the CRC sees
of the errors is their pattern.

* `Bytes.flipBits`, `Bytes.bits_flipBits` — a byte string with inverted bits is its sum with their
  pattern.
* `Crc.ofBytes_flipBits` — its CRC differs by what the pattern leaves in an empty register.
* `Frame.flipped` — the frames with inverted bits, counted through all payloads.
* `Frame.Completes.of_tails` — frames make a whole transfer by their tails alone.
* `Reception.RejectsLast` — the last frame fails by its CRC.
* `Transfer.rejectsLast_of_tails` — it does if what arrives leaves something in the register,
* `Transfer.rejectsLast_of_pattern`, `Transfer.rejectsLast_of_frames` — and so it does, whatever the
  reception was doing before, if the pattern leaves something in an empty register.
-/

set_option autoImplicit false

namespace CanTransfer

/-! ## Byte strings with inverted bits -/

namespace Bytes

/-- Which of the bits from place `start` on are inverted. -/
def flipPattern (flips : Finset Nat) (start count : Nat) : List Bool :=
  (List.range count).map fun i => decide (start + i ∈ flips)

/-- The byte with the given bits, most significant first. -/
def ofBits (bits : List Bool) : UInt8 := bits.foldl (fun b bit => b <<< 1 ||| bit.toUInt8) 0

/-- The bits that are inverted in the byte at a place. -/
def maskAt (flips : Finset Nat) (place : Nat) : UInt8 := ofBits (flipPattern flips (8 * place) 8)

/-- Inverts bits of a byte string whose first byte is at the given place. Bits are counted from the
most significant bit of the byte at place zero on. -/
def flipBits (flips : Finset Nat) : Nat → Bytes → Bytes
  | _, [] => []
  | place, b :: rest => (b ^^^ maskAt flips place) :: flipBits flips (place + 1) rest

variable (flips : Finset Nat)

@[simp] theorem length_flipPattern (start count : Nat) :
    (flipPattern flips start count).length = count := by
  simp [flipPattern]

theorem flipPattern_add (start a b : Nat) :
    flipPattern flips start (a + b) = flipPattern flips start a ++ flipPattern flips (start + a) b := by
  simp [flipPattern, List.range_add, Nat.add_assoc, Function.comp_def]

/-- Nothing is inverted where no error is. -/
theorem flipPattern_eq_replicate {flips : Finset Nat} {start count : Nat}
    (h : ∀ p ∈ flips, p < start ∨ start + count ≤ p) :
    flipPattern flips start count = List.replicate count false := by
  rw [flipPattern, List.eq_replicate_iff]
  refine ⟨by simp, ?_⟩
  intro bit hbit
  obtain ⟨i, hi, rfl⟩ := List.mem_map.mp hbit
  rw [List.mem_range] at hi
  rw [decide_eq_false_iff_not]
  intro hmem
  have := h _ hmem
  omega

theorem bitsOf_xor (a b : UInt8) : bitsOf (a ^^^ b) = List.zipWith xor (bitsOf a) (bitsOf b) := by
  simp [bitsOf, List.zipWith_map]

theorem bitsOf_ofBits {bits : List Bool} (h : bits.length = 8) : bitsOf (ofBits bits) = bits := by
  have hall : ∀ a b c d e f g h : Bool,
      bitsOf (ofBits [a, b, c, d, e, f, g, h]) = [a, b, c, d, e, f, g, h] := by decide +kernel
  match bits, h with
  | [a, b, c, d, e, f, g, h], _ => exact hall a b c d e f g h

theorem bitsOf_maskAt (place : Nat) :
    bitsOf (maskAt flips place) = flipPattern flips (8 * place) 8 :=
  bitsOf_ofBits (length_flipPattern flips _ _)

@[simp] theorem length_flipBits (place : Nat) (bytes : Bytes) :
    (flipBits flips place bytes).length = bytes.length := by
  induction bytes generalizing place with
  | nil => rfl
  | cons b rest ih => simp [flipBits, ih]

theorem flipBits_append (place : Nat) (a b : Bytes) :
    flipBits flips place (a ++ b) = flipBits flips place a ++ flipBits flips (place + a.length) b := by
  induction a generalizing place with
  | nil => rfl
  | cons x a ih => simp [flipBits, ih, Nat.add_assoc, Nat.add_comm 1]

/-- Inverting bits adds their pattern. -/
theorem bits_flipBits (place : Nat) (bytes : Bytes) :
    bits (flipBits flips place bytes) =
      List.zipWith xor (bits bytes) (flipPattern flips (8 * place) (8 * bytes.length)) := by
  induction bytes generalizing place with
  | nil => rfl
  | cons b rest ih =>
    have hlength : 8 * (b :: rest).length = 8 + 8 * rest.length := by
      rw [List.length_cons]
      omega
    rw [flipBits, bits_cons, bits_cons, hlength, flipPattern_add, bitsOf_xor, bitsOf_maskAt, ih,
      List.zipWith_append (by simp)]
    rfl

example : flipBits {0, 15} 0 [0, 0, 0] = [0x80, 1, 0] := by decide

end Bytes

/-- The CRC of a string with inverted bits differs by what the pattern leaves in an empty register. -/
theorem Crc.ofBytes_flipBits (flips : Finset Nat) (bytes : Bytes) :
    ofBytes (bytes.flipBits flips 0) =
      ofBytes bytes ^^^ feedBits 0 (Bytes.flipPattern flips 0 (8 * bytes.length)) := by
  unfold ofBytes
  rw [addAll_eq_feedBits, addAll_eq_feedBits, Bytes.bits_flipBits]
  have h := feedBits_zipWith_xor (a := bytes.bits) (b := Bytes.flipPattern flips 0 (8 * bytes.length))
    (by simp) init 0
  simpa using h

/-! ## Frames with inverted bits -/

namespace Frame

/-- Inverts bits in the payloads of frames that follow each other, where the payload of the first
one begins at the given place of all of them. -/
def flipped (flips : Finset Nat) : Nat → List Frame → List Frame
  | _, [] => []
  | place, f :: rest =>
    { f with payload := f.payload.flipBits flips place } ::
      flipped flips (place + f.payload.length) rest

variable (flips : Finset Nat)

/-- The tails stay as they are. -/
theorem map_tail_flipped (place : Nat) (frames : List Frame) :
    (flipped flips place frames).map tail = frames.map tail := by
  induction frames generalizing place with
  | nil => rfl
  | cons f rest ih => simp [flipped, ih]

/-- The payloads together have the same bits inverted. -/
theorem bytes_flipped (place : Nat) (frames : List Frame) :
    bytes (flipped flips place frames) = (bytes frames).flipBits flips place := by
  induction frames generalizing place with
  | nil => rfl
  | cons f rest ih =>
    have hcons : ∀ (g : Frame) (more : List Frame), bytes (g :: more) = g.payload ++ bytes more :=
      fun _ _ => List.flatMap_cons
    rw [flipped, hcons, hcons, Bytes.flipBits_append, ih]

/-- Whether a frame follows another one is seen from the tails. -/
theorem Follows.of_tails {m f m' f' : Frame} {n : Nat} (h : m.Follows n f) (hm : m'.tail = m.tail)
    (hf : f'.tail = f.tail) : m'.Follows n f' := by
  refine ⟨?_, ?_, ?_⟩
  · rw [hf]
    exact h.notFirst
  · rw [hm, hf]
    exact h.transferId
  · rw [hm, hf]
    exact h.toggle

/-- So is whether frames are those of a whole transfer. -/
theorem Completes.of_tails {m f m' f' : Frame} {middle middle' : List Frame}
    (h : m.Completes middle f) (hm : m'.tail = m.tail)
    (hmiddle : middle'.map tail = middle.map tail) (hf : f'.tail = f.tail) :
    m'.Completes middle' f' := by
  have hlength : middle'.length = middle.length := by
    simpa using congrArg List.length hmiddle
  have hplace : ∀ (i : Nat) (g' : Frame), middle'[i]? = some g' →
      ∃ g, middle[i]? = some g ∧ g'.tail = g.tail := by
    intro i g' hg'
    have hi := congrArg (·[i]?) hmiddle
    simp only [List.getElem?_map, hg', Option.map_some] at hi
    obtain ⟨g, hg, htail⟩ := Option.map_eq_some_iff.mp hi.symm
    exact ⟨g, hg, htail.symm⟩
  refine ⟨⟨?_, ?_, ?_, ?_⟩, ?_, ?_⟩
  · rw [hm]
    exact h.begun.first
  · rw [hm]
    exact h.begun.notLast
  · intro i g' hg'
    obtain ⟨g, hg, htail⟩ := hplace i g' hg'
    exact (h.begun.follows i g hg).of_tails hm htail
  · intro g' hg'
    obtain ⟨i, hi⟩ := List.mem_iff_getElem?.mp hg'
    obtain ⟨g, hg, htail⟩ := hplace i g' hi
    rw [htail]
    exact h.begun.middleNotLast g (List.mem_of_getElem? hg)
  · rw [hlength]
    exact h.follows.of_tails hm hf
  · rw [hf]
    exact h.last

end Frame

/-! ## What a receiver makes of them -/

/-- All frames but the last are accepted, the CRC fails with the last one, and the reception is idle
afterwards. -/
def Reception.RejectsLast (r : Reception) (frames : List Frame) : Prop :=
  ∃ transmitted computed, r.feedAll frames =
    (List.replicate (frames.length - 1) .accepted ++ [.failed (.checksum transmitted computed)],
      .idle)

namespace Transfer

variable (t : Transfer) {capacity : Nat} (flips : Finset Nat)

/-- The content of a transfer of several frames leaves nothing in the register. -/
theorem ofBytes_content (several : capacity < t.length) : Crc.ofBytes (t.content capacity) = 0 :=
  ofBytes_of_openTrailer (openTrailer_eq_ok_iff.mpr (content_of_lt t several))

/-- If the tails of a transfer's frames arrive as they were sent, and the bytes leave something in the
register, the CRC fails. -/
theorem rejectsLast_of_tails (pos : 0 < capacity) (several : capacity < t.length)
    {frames : List Frame} (tails : frames.map Frame.tail = (t.layout capacity).map Frame.tail)
    (left : Crc.ofBytes (Frame.bytes frames) ≠ 0) (r : Reception) : r.RejectsLast frames := by
  obtain ⟨m, middle, f, hlayout, hcompletes, -⟩ := exists_layout_completes t pos several
  rw [hlayout, List.map_cons, List.map_append, List.map_singleton] at tails
  obtain ⟨m', rest, rfl, hm, hrest⟩ := List.map_eq_cons_iff.mp tails
  obtain ⟨middle', back, rfl, hmiddle, hback⟩ := List.map_eq_append_iff.mp hrest
  obtain ⟨f', rfl, hf⟩ := List.map_eq_singleton_iff.mp hback
  obtain ⟨transmitted, computed, hfault⟩ :=
    Reception.finish_of_residue left f' m'.tail.transferId
  refine ⟨transmitted, computed, ?_⟩
  rw [Reception.feedAll_completes (hcompletes.of_tails hm hmiddle hf), List.cons_append, hfault]
  simp

/-- **Inverted bits are noticed unless they leave nothing in an empty register.** -/
theorem rejectsLast_of_pattern (pos : 0 < capacity) (several : capacity < t.length)
    (left : Crc.feedBits 0 (Bytes.flipPattern flips 0 (8 * (t.content capacity).length)) ≠ 0)
    (r : Reception) : r.RejectsLast (Frame.flipped flips 0 (t.layout capacity)) := by
  refine rejectsLast_of_tails t pos several (Frame.map_tail_flipped flips 0 _) ?_ r
  rw [Frame.bytes_flipped, bytes_layout, Crc.ofBytes_flipBits, ofBytes_content t several]
  simpa using left

/-- The same of the frames that a transfer is cut into. -/
theorem rejectsLast_of_frames {frames : List Frame} (cut : t.frames capacity = .ok frames)
    (several : capacity < t.length)
    (left : Crc.feedBits 0 (Bytes.flipPattern flips 0 (8 * (Frame.bytes frames).length)) ≠ 0)
    (r : Reception) : r.RejectsLast (Frame.flipped flips 0 frames) := by
  obtain ⟨pos, rfl⟩ := (frames_eq_ok_iff t).mp cut
  rw [bytes_layout] at left
  exact rejectsLast_of_pattern t flips pos several left r

end Transfer

end CanTransfer
