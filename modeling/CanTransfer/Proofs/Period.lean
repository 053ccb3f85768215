import Mathlib.GroupTheory.OrderOfElement
import Mathlib.Tactic.NormNum.Prime
import CanTransfer.Proofs.BitErrors

/-!
# The period of the register

Two errors cancel exactly if the register, shifted from the first one to the second, comes back to
where it was. It first does after 32767 shifts, as many as x to a power takes to come back to one
modulo the generator polynomial.

* `Crc.times`, `Crc.shifts_eq_times` — a product modulo the generator; shifting is multiplying with
  what the same shifts make of one.
* `Crc.power`, `Crc.shifts_sum_two_pow` — many shifts at once, by repeated squaring.
* `Crc.orderOf_cycle` — the order of the shift. It is a product of three primes, and no divisor that
  lacks one of them will do.
* `Crc.feedBits_pair_eq_zero_iff`, `Crc.ofBytes_flipBits_pair_eq_iff` — which two errors leave nothing
  in an empty register, and so cannot be seen.
* `Transfer.double_error_rejected` — two errors less than a period apart are noticed.
-/

set_option autoImplicit false

namespace CanTransfer

namespace Crc

/-! ## Products -/

/-- Multiplies `s` by the polynomial with the given coefficients, highest first, and adds it to what
the shifts make of `sum`. -/
def horner (s : Crc) (coefficients : List Bool) (sum : Crc) : Crc :=
  coefficients.foldl (fun sum bit => shift sum ^^^ if bit then s else 0) sum

theorem shift_horner (s : Crc) (bits : List Bool) (sum : Crc) :
    shift (horner s bits sum) = horner (shift s) bits (shift sum) := by
  induction bits generalizing sum with
  | nil => rfl
  | cons bit bits ih =>
    have hterm : shift (if bit then s else 0) = if bit then shift s else 0 := by
      rw [apply_ite shift, shift_eq_zero_iff.mpr rfl]
    show shift (horner s bits (shift sum ^^^ if bit then s else 0)) = horner (shift s) bits _
    rw [ih, shift_xor, hterm]

theorem shifts_horner (n : Nat) (s : Crc) (bits : List Bool) (sum : Crc) :
    shifts n (horner s bits sum) = horner (shifts n s) bits (shifts n sum) := by
  induction n generalizing s sum with
  | zero => rfl
  | succ n ih => rw [shifts, shift_horner, ih, shifts, shifts]

/-- Bits that are fed are the coefficients of a multiple of x^16. -/
theorem feedBits_eq_horner (r : Crc) (bits : List Bool) :
    feedBits r bits = horner polynomial bits r := by
  induction bits generalizing r with
  | nil => rfl
  | cons bit bits ih =>
    have hbit : feedBit r bit = shift r ^^^ if bit then polynomial else 0 := by
      rw [feedBit, shift_xor]
      cases bit <;> rfl
    show feedBits (feedBit r bit) bits = horner polynomial bits _
    rw [ih, hbit]

/-- The product of two registers modulo the generator. -/
def times (r s : Crc) : Crc := horner s (coefficients r) 0

/-- A register is the product of itself and one. It is enough that both are the same after sixteen
shifts, for these turn one into what a bit leaves that is fed. -/
theorem times_one (r : Crc) : times r 1 = r := by
  have hpolynomial : shifts 16 1 = polynomial := by decide +kernel
  rw [← shifts_inj (n := 16), times, shifts_horner, hpolynomial, shifts_zero,
    ← feedBits_eq_horner, feedBits_eq_shifts (by simp), front_coefficients]
  simp

/-- Shifting is multiplying with a power of x. -/
theorem shifts_eq_times (n : Nat) (r : Crc) : shifts n r = times r (shifts n 1) := by
  conv => lhs; rw [← times_one r, times, shifts_horner, shifts_zero]
  rfl

/-! ## Powers of x -/

/-- The power of x whose exponent is the power of two with the given exponent. -/
def squares (k : Nat) : Crc := (fun r => times r r)^[k] 2

/-- The power of x whose exponent is the sum of powers of two with the given exponents. -/
def power (exponents : List Nat) : Crc := exponents.foldr (fun k r => times r (squares k)) 1

theorem shifts_two_pow (k : Nat) : shifts (2 ^ k) 1 = squares k := by
  induction k with
  | zero => rfl
  | succ k ih =>
    rw [pow_succ, Nat.mul_two, shifts_add, shifts_eq_times, ih, squares, squares,
      Function.iterate_succ_apply']

theorem shifts_sum_two_pow (exponents : List Nat) :
    shifts (exponents.map (2 ^ ·)).sum 1 = power exponents := by
  induction exponents with
  | nil => rfl
  | cons k exponents ih =>
    rw [List.map_cons, List.sum_cons, Nat.add_comm, shifts_add, ih, shifts_eq_times,
      shifts_two_pow]
    rfl

/-! ## The order of the shift -/

/-- The shift as an element of the monoid of maps. -/
def cycle : Function.End Crc := shift

theorem cycle_pow_apply (n : Nat) (r : Crc) : (cycle ^ n) r = shifts n r := by
  induction n generalizing r with
  | zero => rfl
  | succ n ih =>
    rw [pow_succ]
    exact ih (shift r)

/-- Shifts that bring one back bring all registers back. -/
theorem cycle_pow_eq_one_iff {n : Nat} : cycle ^ n = 1 ↔ shifts n 1 = 1 := by
  constructor
  · intro h
    rw [← cycle_pow_apply, h]
    rfl
  · intro h
    funext r
    rw [cycle_pow_apply, shifts_eq_times, h, times_one]
    rfl

/-- **The register comes back after 32767 shifts and not before.** -/
theorem orderOf_cycle : orderOf cycle = 32767 := by
  apply orderOf_eq_of_pow_and_pow_div_prime (by decide)
  · -- fifteen squarings of x give x again, so one power less gives one
    have hsum : 32767 + 1 = 2 ^ 15 := by decide
    have hsquares : squares 15 = shifts 1 1 := by decide +kernel
    rw [cycle_pow_eq_one_iff, ← shifts_inj (n := 1), ← shifts_add, hsum, shifts_two_pow, hsquares]
  · intro p hp hdvd
    have hfactors : 32767 = 7 * 31 * 151 := by decide
    rw [hfactors, hp.dvd_mul, hp.dvd_mul, Nat.prime_dvd_prime_iff_eq hp (by norm_num),
      Nat.prime_dvd_prime_iff_eq hp (by norm_num), Nat.prime_dvd_prime_iff_eq hp (by norm_num)]
      at hdvd
    rw [ne_eq, cycle_pow_eq_one_iff]
    -- without one of the primes the exponent is 4681, 1057 or 217, here as sums of powers of two
    obtain (rfl | rfl) | rfl := hdvd
    · have hpower : power [12, 9, 6, 3, 0] ≠ 1 := by decide +kernel
      rwa [← shifts_sum_two_pow] at hpower
    · have hpower : power [10, 5, 0] ≠ 1 := by decide +kernel
      rwa [← shifts_sum_two_pow] at hpower
    · have hpower : power [7, 6, 4, 3, 0] ≠ 1 := by decide +kernel
      rwa [← shifts_sum_two_pow] at hpower

/-- The same holds of a register with a single bit at the end where errors enter, which is a power
of x. -/
theorem shifts_highBit_eq_iff {n : Nat} :
    shifts n (highBit true) = highBit true ↔ 32767 ∣ n := by
  have hhigh : highBit true = shifts 15 1 := by decide +kernel
  rw [hhigh, ← shifts_add, Nat.add_comm, shifts_add, shifts_inj, ← cycle_pow_eq_one_iff,
    ← orderOf_dvd_iff_pow_eq_one, orderOf_cycle]

end Crc

/-! ## Two errors -/

variable {flips : Finset Nat}

namespace Bytes

/-- Between two errors, in front of them and behind them, nothing is inverted. -/
theorem flipPattern_pair {p q count : Nat} (lt : p < q) (inside : q < count) :
    flipPattern {p, q} 0 count =
      List.replicate p false ++ [true] ++ List.replicate (q - (p + 1)) false ++ [true] ++
        List.replicate (count - (q + 1)) false := by
  have hcount : count = p + 1 + (q - (p + 1)) + 1 + (count - (q + 1)) := by omega
  have hq : p + 1 + (q - (p + 1)) = q := by omega
  have hone : ∀ i ∈ ({p, q} : Finset Nat), flipPattern {p, q} i 1 = [true] := by
    intro i hi
    simpa [flipPattern] using hi
  have hclear : ∀ start n, q < start ∨ (p < start ∧ start + n ≤ q) ∨ start + n ≤ p →
      flipPattern {p, q} start n = List.replicate n false := by
    intro start n h
    apply flipPattern_eq_replicate
    intro i hi
    obtain rfl | rfl := by simpa using hi
    all_goals omega
  conv => lhs; rw [hcount]
  rw [flipPattern_add, flipPattern_add, flipPattern_add, flipPattern_add, Nat.zero_add, Nat.zero_add,
    Nat.zero_add, Nat.zero_add, hq, hclear 0 p (by omega), hone p (by simp),
    hclear (p + 1) _ (by omega), hone q (by simp), hclear (q + 1) _ (by omega)]

end Bytes

/-- **Two errors leave nothing exactly if they are a multiple of the period apart.** -/
theorem Crc.feedBits_pair_eq_zero_iff {p q count : Nat} (lt : p < q) (inside : q < count) :
    feedBits 0 (Bytes.flipPattern {p, q} 0 count) = 0 ↔ 32767 ∣ q - p := by
  have hfirst : feedBits 0 [true] = shift (highBit true) := by simp [feedBits, feedBit]
  have hsecond : ∀ r, feedBits r [true] = shift (r ^^^ highBit true) := fun r => rfl
  have hbetween : shifts (q - (p + 1)) (shift (highBit true)) = shifts (q - p) (highBit true) := by
    rw [← shifts]
    congr 1
    omega
  rw [Bytes.flipPattern_pair lt inside, feedBits_append, feedBits_append, feedBits_append,
    feedBits_append, feedBits_zero_replicate, hfirst, feedBits_replicate_eq_zero_iff,
    feedBits_replicate, hbetween, hsecond, shift_eq_zero_iff, ← shifts_highBit_eq_iff]
  exact BitVec.xor_eq_zero_iff

/-- So the CRC of a string does not show two errors a period apart, and shows all that are closer. -/
theorem Crc.ofBytes_flipBits_pair_eq_iff {p q : Nat} {bytes : Bytes} (lt : p < q)
    (inside : q < 8 * bytes.length) :
    ofBytes (bytes.flipBits {p, q} 0) = ofBytes bytes ↔ 32767 ∣ q - p := by
  rw [← feedBits_pair_eq_zero_iff lt inside, ofBytes_flipBits, ← BitVec.xor_eq_zero_iff,
    BitVec.xor_comm, ← BitVec.xor_assoc, BitVec.xor_self, BitVec.zero_xor]
  rfl

/-- Two errors less than a period apart leave something. -/
theorem Crc.feedBits_two_ne_zero {count : Nat} (inside : ∀ p ∈ flips, p < count)
    (two : flips.card = 2) (near : ∀ p ∈ flips, ∀ q ∈ flips, q < p + 32767) :
    feedBits 0 (Bytes.flipPattern flips 0 count) ≠ 0 := by
  have hordered : ∃ p q, p < q ∧ flips = {p, q} := by
    obtain ⟨p, q, hne, rfl⟩ := Finset.card_eq_two.mp two
    rcases Nat.lt_or_gt_of_ne hne with hlt | hlt
    · exact ⟨p, q, hlt, rfl⟩
    · exact ⟨q, p, hlt, Finset.pair_comm p q⟩
  obtain ⟨p, q, hlt, rfl⟩ := hordered
  have hnear := near p (by simp) q (by simp)
  rw [ne_eq, feedBits_pair_eq_zero_iff hlt (inside q (by simp))]
  exact Nat.not_dvd_of_pos_of_lt (by omega) (by omega)

namespace Transfer

variable (t : Transfer) {capacity : Nat}

/-- **Two inverted bits less than 32767 bits apart are noticed.** Whatever the reception was doing
before, the frames of a transfer with two such bits inverted, be they of the payload, the padding or
the CRC, are accepted up to the last one, and the CRC fails there. -/
theorem double_error_rejected {frames : List Frame} (cut : t.frames capacity = .ok frames)
    (several : capacity < t.length) (inside : ∀ p ∈ flips, p < 8 * (Frame.bytes frames).length)
    (two : flips.card = 2) (near : ∀ p ∈ flips, ∀ q ∈ flips, q < p + 32767) (r : Reception) :
    r.RejectsLast (Frame.flipped flips 0 frames) :=
  rejectsLast_of_frames t flips cut several (Crc.feedBits_two_ne_zero inside two near) r

/-- The longest distance that is still noticed, in a payload of 4100 bytes. -/
theorem double_error_rejected_far_apart :
    ∃ frames, Transfer.frames ⟨0x123, 35, [List.replicate 4100 0xA5], true⟩ 7 = .ok frames ∧
      7 < Transfer.length ⟨0x123, 35, [List.replicate 4100 0xA5], true⟩ ∧
      (∀ p ∈ ({5, 32771} : Finset Nat), p < 8 * (Frame.bytes frames).length) ∧
      ({5, 32771} : Finset Nat).card = 2 ∧
      (∀ p ∈ ({5, 32771} : Finset Nat), ∀ q ∈ ({5, 32771} : Finset Nat), q < p + 32767) ∧
      (Reception.receiving 3 false [0xAA]).RejectsLast (Frame.flipped {5, 32771} 0 frames) := by
  have hlength : Transfer.length ⟨0x123, 35, [List.replicate 4100 0xA5], true⟩ = 4100 := by
    rw [Transfer.length, Transfer.payload, List.flatten_singleton, List.length_replicate]
  have several : 7 < Transfer.length ⟨0x123, 35, [List.replicate 4100 0xA5], true⟩ := by omega
  have inside : ∀ p ∈ ({5, 32771} : Finset Nat), p < 8 * (Frame.bytes
      (Transfer.layout ⟨0x123, 35, [List.replicate 4100 0xA5], true⟩ 7)).length := by
    have hcontent := length_le_length_content
      ⟨0x123, 35, [List.replicate 4100 0xA5], true⟩ 7
    rw [hlength, ← bytes_layout] at hcontent
    intro p hp
    have hlast : p ≤ 32771 := by
      revert p
      decide
    omega
  have two : ({5, 32771} : Finset Nat).card = 2 := by decide
  have near : ∀ p ∈ ({5, 32771} : Finset Nat), ∀ q ∈ ({5, 32771} : Finset Nat), q < p + 32767 := by
    decide
  have cut := frames_of_pos ⟨0x123, 35, [List.replicate 4100 0xA5], true⟩ (show 0 < 7 by decide)
  exact ⟨_, cut, several, inside, two, near, double_error_rejected _ cut several inside two near _⟩

end Transfer

end CanTransfer
