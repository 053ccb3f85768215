import CanTransfer.Proofs.BitErrors

/-!
# Bursts

Errors of a short disturbance lie close together. No more than sixteen bits that are not all clear
leave something in an empty register, and clear bits behind them do not take it away.

* `Crc.feedBits_zero_ne_zero` — few bits leave something.
* `Bytes.flipPattern_burst` — the pattern of a burst is clear in front of sixteen bits and behind
  them.
* `Transfer.burst_rejected` — a burst is noticed, wherever it lies in the payloads and however the
  frames divide it.
-/

set_option autoImplicit false

namespace CanTransfer

/-- Bits that are not all clear, and no more than the register holds, leave something in an empty
register. -/
theorem Crc.feedBits_zero_ne_zero {bits : List Bool} (h : bits.length ≤ 16) (set : true ∈ bits) :
    feedBits 0 bits ≠ 0 := by
  intro hzero
  rw [feedBits_eq_shifts h, shifts_eq_zero_iff] at hzero
  have hclear := front_eq_zero h (by simpa using hzero) true set
  cases hclear

namespace Bytes

variable {flips : Finset Nat}

/-- In front of a burst and behind it, nothing is inverted. -/
theorem flipPattern_burst {first count : Nat} (fits : first + 16 ≤ count)
    (narrow : ∀ p ∈ flips, first ≤ p ∧ p < first + 16) :
    flipPattern flips 0 count =
      List.replicate first false ++ flipPattern flips first 16 ++
        List.replicate (count - (first + 16)) false := by
  have hcount : count = first + 16 + (count - (first + 16)) := by omega
  have hbefore : flipPattern flips 0 first = List.replicate first false := by
    apply flipPattern_eq_replicate
    intro p hp
    have := narrow p hp
    omega
  have hbehind : flipPattern flips (first + 16) (count - (first + 16))
      = List.replicate (count - (first + 16)) false := by
    apply flipPattern_eq_replicate
    intro p hp
    have := narrow p hp
    omega
  conv => lhs; rw [hcount]
  rw [flipPattern_add, flipPattern_add, Nat.zero_add, Nat.zero_add, hbefore, hbehind]

theorem true_mem_flipPattern {start count p : Nat} (hp : p ∈ flips) (h : start ≤ p)
    (hlt : p < start + count) : true ∈ flipPattern flips start count := by
  refine List.mem_map.mpr ⟨p - start, List.mem_range.mpr (by omega), ?_⟩
  rw [Nat.add_sub_cancel' h, decide_eq_true hp]

/-- The sixteen bits of a burst can be chosen inside a string that has as many. -/
theorem exists_window {start count : Nat} (enough : 16 ≤ count) (inside : ∀ p ∈ flips, p < count)
    (narrow : ∀ p ∈ flips, start ≤ p ∧ p < start + 16) :
    ∃ first, first + 16 ≤ count ∧ ∀ p ∈ flips, first ≤ p ∧ p < first + 16 := by
  refine ⟨min start (count - 16), by omega, ?_⟩
  intro p hp
  have := inside p hp
  have := narrow p hp
  omega

end Bytes

/-- A burst leaves something in an empty register. -/
theorem Crc.feedBits_burst_ne_zero {flips : Finset Nat} {start count : Nat} (nonempty : flips.Nonempty)
    (enough : 16 ≤ count) (inside : ∀ p ∈ flips, p < count)
    (narrow : ∀ p ∈ flips, start ≤ p ∧ p < start + 16) :
    feedBits 0 (Bytes.flipPattern flips 0 count) ≠ 0 := by
  obtain ⟨first, fits, hwindow⟩ := Bytes.exists_window enough inside narrow
  obtain ⟨p, hp⟩ := nonempty
  have hset : true ∈ Bytes.flipPattern flips first 16 :=
    Bytes.true_mem_flipPattern hp (hwindow p hp).1 (hwindow p hp).2
  rw [Bytes.flipPattern_burst fits hwindow, feedBits_append, feedBits_append,
    feedBits_zero_replicate, ne_eq, feedBits_replicate_eq_zero_iff]
  exact feedBits_zero_ne_zero (by simp) hset

namespace Transfer

variable (t : Transfer) {capacity : Nat}

/-- **A burst of at most sixteen bits is noticed.** Whatever the reception was doing before, the
frames of a transfer with some of sixteen bits in a row inverted, be they of the payload, the padding
or the CRC and in whichever frames, are accepted up to the last one, and the CRC fails there. -/
theorem burst_rejected {frames : List Frame} (cut : t.frames capacity = .ok frames)
    (several : capacity < t.length) {flips : Finset Nat} (nonempty : flips.Nonempty)
    (inside : ∀ p ∈ flips, p < 8 * (Frame.bytes frames).length)
    (narrow : ∃ start, ∀ p ∈ flips, start ≤ p ∧ p < start + 16) (r : Reception) :
    r.RejectsLast (Frame.flipped flips 0 frames) := by
  obtain ⟨pos, rfl⟩ := (frames_eq_ok_iff t).mp cut
  obtain ⟨start, hburst⟩ := narrow
  rw [bytes_layout] at inside
  have hlength := lt_length_content t several
  exact rejectsLast_of_pattern t flips pos several
    (Crc.feedBits_burst_ne_zero nonempty (by omega) inside hburst) r

/-- The burst begins in the last byte of the payload and ends in the second byte of the CRC, which is
alone in the last frame. -/
theorem burst_rejected_across_frames :
    ∃ frames, Transfer.frames ⟨0x123, 35, [List.replicate 20 0xA5], true⟩ 7 = .ok frames ∧
      7 < Transfer.length ⟨0x123, 35, [List.replicate 20 0xA5], true⟩ ∧
      ({155, 160, 170} : Finset Nat).Nonempty ∧
      (∀ p ∈ ({155, 160, 170} : Finset Nat), p < 8 * (Frame.bytes frames).length) ∧
      (∃ start, ∀ p ∈ ({155, 160, 170} : Finset Nat), start ≤ p ∧ p < start + 16) ∧
      (Reception.receiving 3 false [0xAA]).RejectsLast
        (Frame.flipped {155, 160, 170} 0 frames) := by
  have several : 7 < Transfer.length ⟨0x123, 35, [List.replicate 20 0xA5], true⟩ := by decide
  have nonempty : ({155, 160, 170} : Finset Nat).Nonempty := by decide
  have inside : ∀ p ∈ ({155, 160, 170} : Finset Nat), p < 8 * (Frame.bytes
      (Transfer.layout ⟨0x123, 35, [List.replicate 20 0xA5], true⟩ 7)).length := by decide +kernel
  have narrow : ∃ start, ∀ p ∈ ({155, 160, 170} : Finset Nat), start ≤ p ∧ p < start + 16 :=
    ⟨155, by decide⟩
  have cut := frames_of_pos ⟨0x123, 35, [List.replicate 20 0xA5], true⟩ (show 0 < 7 by decide)
  exact ⟨_, cut, several, nonempty, inside, narrow,
    burst_rejected _ cut several nonempty inside narrow _⟩

end Transfer

end CanTransfer
