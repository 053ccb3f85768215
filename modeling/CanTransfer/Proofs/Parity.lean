import Mathlib.Algebra.Ring.Parity
import Mathlib.Data.Nat.Count
import CanTransfer.Proofs.BitErrors

/-!
# Odd numbers of errors

The generator polynomial has four terms, so the multiples of it have an even number of terms as
well. A shift therefore keeps the parity of the register, and each bit that is fed adds its own.

* `parity` — whether an odd number of bits are set.
* `Crc.parity_shift`, `Crc.parity_feedBits` — the parity of the register is that of all bits fed.
* `Bytes.parity_flipPattern` — the parity of a pattern is that of the number of inverted bits.
* `Transfer.odd_errors_rejected` — an odd number of errors is noticed, wherever they are.
-/

set_option autoImplicit false

namespace CanTransfer

/-- An odd number of bits are set. -/
def parity (bits : List Bool) : Bool := bits.foldr xor false

@[simp] theorem parity_nil : parity [] = false := rfl

@[simp] theorem parity_cons (bit : Bool) (bits : List Bool) :
    parity (bit :: bits) = (bit ^^ parity bits) := rfl

theorem parity_append (a b : List Bool) : parity (a ++ b) = (parity a ^^ parity b) := by
  induction a with
  | nil => simp
  | cons bit a ih => simp [ih]

/-- The parity of a sum of bit strings is the sum of their parities. -/
theorem parity_zipWith_xor {a b : List Bool} (h : a.length = b.length) :
    parity (List.zipWith xor a b) = (parity a ^^ parity b) := by
  induction a generalizing b with
  | nil =>
    obtain rfl : b = [] := List.length_eq_zero_iff.mp h.symm
    rfl
  | cons x a ih =>
    cases b with
    | nil => cases h
    | cons y b =>
      simp only [List.zipWith_cons_cons, parity_cons, ih (Nat.succ.inj h), Bool.xor_assoc,
        Bool.xor_left_comm]

theorem parity_eq_true_iff {bits : List Bool} : parity bits = true ↔ Odd (bits.count true) := by
  induction bits with
  | nil => simp
  | cons bit bits ih =>
    cases bit with
    | false => simpa using ih
    | true => simp [Nat.odd_add_one, ← ih]

/-! ## The register -/

namespace Crc

/-- What is added for a bit that was shifted out has the parity of that bit. -/
theorem parity_reduction (carry : Bool) : parity (coefficients (reduction carry)) = carry := by
  cases carry <;> decide

/-- A shift keeps the parity. -/
theorem parity_shift (r : Crc) : parity (coefficients (shift r)) = parity (coefficients r) := by
  have hleft := congrArg parity (coefficients_shiftLeft r)
  rw [parity_cons, parity_append, parity_cons, parity_nil] at hleft
  rw [shift_eq_reduction, coefficients_xor, parity_zipWith_xor (by simp), parity_reduction,
    Bool.xor_comm, hleft]
  simp

theorem parity_feedBit (r : Crc) (bit : Bool) :
    parity (coefficients (feedBit r bit)) = (parity (coefficients r) ^^ bit) := by
  have hhigh : parity (coefficients (highBit bit)) = bit := by cases bit <;> decide
  rw [feedBit, parity_shift, coefficients_xor, parity_zipWith_xor (by simp), hhigh]

/-- The register has the parity of all bits that were fed. -/
theorem parity_feedBits (r : Crc) (bits : List Bool) :
    parity (coefficients (feedBits r bits)) = (parity (coefficients r) ^^ parity bits) := by
  induction bits generalizing r with
  | nil => simp [feedBits]
  | cons bit bits ih =>
    show parity (coefficients (feedBits (feedBit r bit) bits)) = _
    rw [ih, parity_feedBit, parity_cons, Bool.xor_assoc]

/-- Bits of odd parity leave something in an empty register. -/
theorem feedBits_ne_zero_of_parity {bits : List Bool} (h : parity bits = true) :
    feedBits 0 bits ≠ 0 := by
  intro hzero
  have hparity := parity_feedBits 0 bits
  rw [hzero, h] at hparity
  revert hparity
  decide

end Crc

/-! ## Patterns of errors -/

variable {flips : Finset Nat}

/-- A pattern has as many set bits as there are errors. -/
theorem Bytes.count_flipPattern {count : Nat} (inside : ∀ p ∈ flips, p < count) :
    (flipPattern flips 0 count).count true = flips.card := by
  have hplaces : {p ∈ Finset.range count | p ∈ flips} = flips := by
    ext p
    simpa using inside p
  calc (flipPattern flips 0 count).count true
      = Nat.count (· ∈ flips) count := by
        simp [flipPattern, Nat.count, List.count_eq_countP, List.countP_map, Function.comp_def]
    _ = flips.card := by rw [Nat.count_eq_card_filter_range, hplaces]

theorem Bytes.parity_flipPattern {count : Nat} (inside : ∀ p ∈ flips, p < count) :
    parity (flipPattern flips 0 count) = true ↔ Odd flips.card := by
  rw [parity_eq_true_iff, count_flipPattern inside]

namespace Transfer

variable (t : Transfer) {capacity : Nat}

/-- **An odd number of inverted bits is noticed.** Whatever the reception was doing before, the frames
of a transfer with an odd number of bits inverted, be they of the payload, the padding or the CRC and
however far apart, are accepted up to the last one, and the CRC fails there. -/
theorem odd_errors_rejected {frames : List Frame} (cut : t.frames capacity = .ok frames)
    (several : capacity < t.length) (inside : ∀ p ∈ flips, p < 8 * (Frame.bytes frames).length)
    (odd : Odd flips.card) (r : Reception) : r.RejectsLast (Frame.flipped flips 0 frames) := by
  have hparity := (Bytes.parity_flipPattern inside).mpr odd
  exact rejectsLast_of_frames t flips cut several (Crc.feedBits_ne_zero_of_parity hparity) r

/-- One error in the first bit of the payload, one in its last byte and one in the last bit of the
CRC, which is alone in the last frame. -/
theorem odd_errors_rejected_scattered :
    ∃ frames, Transfer.frames ⟨0x123, 35, [List.replicate 20 0xA5], true⟩ 7 = .ok frames ∧
      7 < Transfer.length ⟨0x123, 35, [List.replicate 20 0xA5], true⟩ ∧
      (∀ p ∈ ({0, 159, 175} : Finset Nat), p < 8 * (Frame.bytes frames).length) ∧
      Odd ({0, 159, 175} : Finset Nat).card ∧
      (Reception.receiving 3 false [0xAA]).RejectsLast (Frame.flipped {0, 159, 175} 0 frames) := by
  have several : 7 < Transfer.length ⟨0x123, 35, [List.replicate 20 0xA5], true⟩ := by decide
  have inside : ∀ p ∈ ({0, 159, 175} : Finset Nat), p < 8 * (Frame.bytes
      (Transfer.layout ⟨0x123, 35, [List.replicate 20 0xA5], true⟩ 7)).length := by decide +kernel
  have odd : Odd ({0, 159, 175} : Finset Nat).card := by decide
  have cut := frames_of_pos ⟨0x123, 35, [List.replicate 20 0xA5], true⟩ (show 0 < 7 by decide)
  exact ⟨_, cut, several, inside, odd, odd_errors_rejected _ cut several inside odd _⟩

end Transfer

end CanTransfer
