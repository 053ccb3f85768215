import Mathlib.Data.List.Basic
import CanTransfer.Crc

/-!
# The CRC register, bit by bit

A byte goes into the register as a whole and is then shifted through. Here it goes in bit by bit,
which makes the register a linear function of the bits that travel.

* `Bytes.bits` — the bits of a byte string in the order in which they travel.
* `Crc.shift_xor`, `Crc.shift_eq_zero_iff` — a shift is linear, and loses nothing; so are many.
* `Crc.feedBits`, `Crc.addAll_eq_feedBits` — the register fed with bits; bytes are fed as their bits.
* `Crc.feedBits_eq_shifts` — as many bits as the register holds may go in at once.
* `Crc.addAll_ne` — one byte that is changed shows in the register.
* `Crc.feedBits_zipWith_xor` — the sum of two bit strings leaves the sum of what each of them leaves.
-/

set_option autoImplicit false

namespace CanTransfer

namespace Bytes

/-- The bits of a byte, most significant first. -/
def bitsOf (b : UInt8) : List Bool := (List.range 8).map b.toBitVec.getMsbD

/-- The bits of a byte string in the order in which they travel. -/
def bits (bytes : Bytes) : List Bool := bytes.flatMap bitsOf

@[simp] theorem length_bitsOf (b : UInt8) : (bitsOf b).length = 8 := by simp [bitsOf]

theorem getElem?_bitsOf {b : UInt8} {i : Nat} (h : i < 8) :
    (bitsOf b)[i]? = some (b.toBitVec.getMsbD i) := by
  simp [bitsOf, h]

@[simp] theorem bits_nil : bits [] = [] := rfl

@[simp] theorem bits_cons (b : UInt8) (bytes : Bytes) : bits (b :: bytes) = bitsOf b ++ bits bytes :=
  List.flatMap_cons

@[simp] theorem length_bits (bytes : Bytes) : (bits bytes).length = 8 * bytes.length := by
  induction bytes with
  | nil => rfl
  | cons b bytes ih =>
    simp only [bits_cons, List.length_append, length_bitsOf, ih, List.length_cons]
    omega

end Bytes

namespace Crc

/-! ## Shifting -/

/-- What a shift adds if a bit was shifted out. -/
def reduction (carry : Bool) : Crc := if carry then polynomial else 0

theorem shift_eq_reduction (r : Crc) : shift r = (r <<< 1) ^^^ reduction r.msb := by
  unfold shift reduction
  split <;> simp

theorem reduction_xor (a b : Bool) : reduction (a ^^ b) = reduction a ^^^ reduction b := by
  cases a <;> cases b <;> rfl

theorem shift_xor (r s : Crc) : shift (r ^^^ s) = shift r ^^^ shift s := by
  simp only [shift_eq_reduction, BitVec.shiftLeft_xor_distrib, BitVec.msb_xor, reduction_xor]
  ac_rfl

theorem shift_eq_zero_iff {r : Crc} : shift r = 0 ↔ r = 0 := by
  constructor
  · intro h
    have hmsb : r.msb = false := by
      by_contra hne
      rw [Bool.not_eq_false] at hne
      have hlow := congrArg (BitVec.getLsbD · 0) h
      simp [shift, hne, polynomial] at hlow
    have hleft : r <<< 1 = 0 := by simpa [shift, hmsb] using h
    apply BitVec.eq_of_getMsbD_eq
    intro i hi
    cases i with
    | zero => rw [← BitVec.msb_eq_getMsbD_zero, hmsb]; rfl
    | succ i =>
      have hbit := congrArg (BitVec.getMsbD · i) hleft
      simpa using hbit
  · rintro rfl
    rfl

theorem shifts_eq_zero_iff {n : Nat} {r : Crc} : shifts n r = 0 ↔ r = 0 := by
  induction n generalizing r with
  | zero => rfl
  | succ n ih => rw [shifts, ih, shift_eq_zero_iff]

@[simp] theorem shifts_zero (n : Nat) : shifts n 0 = 0 := shifts_eq_zero_iff.mpr rfl

theorem shifts_add (m n : Nat) (r : Crc) : shifts (m + n) r = shifts n (shifts m r) := by
  induction m generalizing r with
  | zero => rw [Nat.zero_add, shifts]
  | succ m ih => rw [Nat.succ_add, shifts, shifts, ih]

theorem shifts_xor (n : Nat) (r s : Crc) : shifts n (r ^^^ s) = shifts n r ^^^ shifts n s := by
  induction n generalizing r s with
  | zero => rfl
  | succ n ih => rw [shifts, shifts, shifts, shift_xor, ih]

theorem shifts_inj {n : Nat} {r s : Crc} : shifts n r = shifts n s ↔ r = s := by
  rw [← BitVec.xor_eq_zero_iff, ← shifts_xor]
  exact shifts_eq_zero_iff.trans BitVec.xor_eq_zero_iff

/-- A register with a clear lowest bit is the shift of its half. -/
theorem shift_half {r : Crc} (h : r.getMsbD 15 = false) : shift (r >>> 1) = r := by
  have hmsb : (r >>> 1).msb = false := by simp [BitVec.msb_eq_getMsbD_zero]
  unfold shift
  rw [hmsb, if_neg Bool.false_ne_true]
  apply BitVec.eq_of_getMsbD_eq
  intro i hi
  rw [BitVec.getMsbD_shiftLeft, BitVec.getMsbD_ushiftRight]
  by_cases hlast : i = 15
  · subst hlast
    simp [h]
  · simp
    omega

/-! ## Bits instead of bytes -/

/-- The bit at the high end of the register, all others clear. -/
def highBit (bit : Bool) : Crc := if bit then 0x8000#16 else 0#16

/-- Feeds one bit: it enters at the high end and is shifted through. -/
def feedBit (r : Crc) (bit : Bool) : Crc := shift (r ^^^ highBit bit)

/-- Feeds bits in order. -/
def feedBits (r : Crc) (bits : List Bool) : Crc := bits.foldl feedBit r

/-- The register that begins with the given bits at the high end. -/
def front : List Bool → Crc
  | [] => 0
  | bit :: rest => highBit bit ^^^ (front rest >>> 1)

theorem getMsbD_highBit (bit : Bool) (i : Nat) :
    (highBit bit).getMsbD i = (bit && i == 0) := by
  cases bit with
  | false => simp [highBit]
  | true =>
    cases i with
    | zero => rfl
    | succ i =>
      have h : ∀ j : Fin 16, (highBit true).getMsbD (j + 1) = false := by decide
      by_cases hi : i < 16
      · simpa using h ⟨i, hi⟩
      · simp [BitVec.getMsbD]
        omega

theorem getMsbD_front {bits : List Bool} {i : Nat} (hi : i < 16) :
    (front bits).getMsbD i = bits.getD i false := by
  induction bits generalizing i with
  | nil => simp [front]
  | cons bit rest ih =>
    rw [front, BitVec.getMsbD_xor, getMsbD_highBit, BitVec.getMsbD_ushiftRight]
    cases i with
    | zero => simp
    | succ i => simp [hi, ih (show i < 16 by omega)]

/-- The coefficients of the register, highest first. -/
def coefficients (r : Crc) : List Bool := (List.range 16).map r.getMsbD

@[simp] theorem length_coefficients (r : Crc) : r.coefficients.length = 16 := by
  simp [coefficients]

/-- A register begins with its coefficients. -/
theorem front_coefficients (r : Crc) : front r.coefficients = r := by
  apply BitVec.eq_of_getMsbD_eq
  intro i hi
  simp [getMsbD_front hi, coefficients, hi]

theorem coefficients_xor (r s : Crc) :
    coefficients (r ^^^ s) = List.zipWith xor (coefficients r) (coefficients s) := by
  simp [coefficients, List.zipWith_map]

/-- A register that is moved up loses its highest coefficient. -/
theorem coefficients_shiftLeft (r : Crc) :
    r.msb :: coefficients (r <<< 1) = coefficients r ++ [false] := by
  have hhead : coefficients r = r.msb :: (List.range 15).map fun i => r.getMsbD (i + 1) := by
    rw [coefficients, List.range_succ_eq_map, List.map_cons, List.map_map,
      BitVec.msb_eq_getMsbD_zero]
    rfl
  have hmoved : coefficients (r <<< 1) =
      (List.range 15).map (fun i => r.getMsbD (i + 1)) ++ [false] := by
    rw [coefficients, List.range_succ, List.map_append]
    simp
  rw [hmoved, hhead, List.cons_append]

/-- Up to sixteen bits can be fed at once. -/
theorem feedBits_eq_shifts {bits : List Bool} (h : bits.length ≤ 16) (r : Crc) :
    feedBits r bits = shifts bits.length (r ^^^ front bits) := by
  induction bits generalizing r with
  | nil => simp [feedBits, front, shifts]
  | cons bit rest ih =>
    have hrest : rest.length < 16 := h
    have hclear : (front rest).getMsbD 15 = false := by
      rw [getMsbD_front (by omega), List.getD_eq_getElem?_getD, List.getElem?_eq_none (by omega)]
      rfl
    show feedBits (feedBit r bit) rest = shifts rest.length (shift _)
    rw [ih (by omega), front, ← BitVec.xor_assoc, shift_xor, shift_half hclear]
    rfl

theorem feedBits_append (r : Crc) (a b : List Bool) :
    feedBits r (a ++ b) = feedBits (feedBits r a) b :=
  List.foldl_append

theorem front_bitsOf (b : UInt8) : front (Bytes.bitsOf b) = b.toBitVec.setWidth 16 <<< 8 := by
  have h : ∀ n : Fin 256, front (Bytes.bitsOf (UInt8.ofFin n))
      = (UInt8.ofFin n).toBitVec.setWidth 16 <<< 8 := by decide +kernel
  exact h b.toFin

theorem add_eq_feedBits (r : Crc) (b : UInt8) : add r b = feedBits r (Bytes.bitsOf b) := by
  rw [feedBits_eq_shifts (by simp), Bytes.length_bitsOf, front_bitsOf]
  rfl

/-- Feeding bytes is feeding their bits. -/
theorem addAll_eq_feedBits (r : Crc) (bytes : Bytes) : addAll r bytes = feedBits r bytes.bits := by
  induction bytes generalizing r with
  | nil => rfl
  | cons b bytes ih => rw [addAll_cons, ih, add_eq_feedBits, Bytes.bits_cons, feedBits_append]

/-! ## One string changed -/

theorem add_inj {r s : Crc} {b : UInt8} : add r b = add s b ↔ r = s := by
  rw [add, add, shifts_inj, BitVec.xor_left_inj]

/-- What is fed behind them does not make two registers equal. -/
theorem addAll_inj {r s : Crc} {bytes : Bytes} : addAll r bytes = addAll s bytes ↔ r = s := by
  induction bytes generalizing r s with
  | nil => rfl
  | cons b rest ih => rw [addAll_cons, addAll_cons, ih, add_inj]

theorem eq_of_add_eq {r : Crc} {b c : UInt8} (h : add r b = add r c) : b = c := by
  rw [add, add, shifts_inj, BitVec.xor_right_inj] at h
  apply UInt8.toBitVec_inj.mp
  apply BitVec.eq_of_getLsbD_eq
  intro i hi
  have hbit := congrArg (BitVec.getLsbD · (i + 8)) h
  simpa [hi, show i + 8 < 16 by omega, show i < 16 by omega, show ¬ i + 8 < 8 by omega] using hbit

/-- Two strings that differ in one byte lead to different registers. -/
theorem addAll_ne {b c : UInt8} (h : b ≠ c) (r : Crc) (front back : Bytes) :
    addAll r (front ++ b :: back) ≠ addAll r (front ++ c :: back) := by
  rw [addAll_append, addAll_append, addAll_cons, addAll_cons, ne_eq, addAll_inj]
  exact fun heq => h (eq_of_add_eq heq)

/-! ## Two strings at once -/

/-- A register that is fed the sum of two bit strings is the sum of two that are fed one each. -/
theorem feedBits_zipWith_xor {a b : List Bool} (h : a.length = b.length) (r s : Crc) :
    feedBits (r ^^^ s) (List.zipWith xor a b) = feedBits r a ^^^ feedBits s b := by
  induction a generalizing b r s with
  | nil =>
    obtain rfl : b = [] := List.length_eq_zero_iff.mp h.symm
    rfl
  | cons x a ih =>
    cases b with
    | nil => cases h
    | cons y b =>
      have hbit : feedBit (r ^^^ s) (x ^^ y) = feedBit r x ^^^ feedBit s y := by
        have hhigh : highBit (x ^^ y) = highBit x ^^^ highBit y := by cases x <;> cases y <;> rfl
        rw [feedBit, feedBit, feedBit, ← shift_xor, hhigh]
        congr 1
        ac_rfl
      show feedBits (feedBit (r ^^^ s) (x ^^ y)) (List.zipWith xor a b) = _
      rw [hbit, ih (Nat.succ.inj h)]
      rfl

/-- Where nothing is set, the register is only shifted. -/
theorem feedBits_replicate (n : Nat) (r : Crc) :
    feedBits r (List.replicate n false) = shifts n r := by
  induction n generalizing r with
  | zero => rfl
  | succ n ih =>
    show feedBits (feedBit r false) (List.replicate n false) = shifts n (shift r)
    rw [ih, feedBit]
    simp [highBit]

/-- So an empty register stays empty, -/
theorem feedBits_zero_replicate (n : Nat) : feedBits 0 (List.replicate n false) = 0 := by
  rw [feedBits_replicate, shifts_zero]

/-- and any other one stays different from it. -/
theorem feedBits_replicate_eq_zero_iff {n : Nat} {r : Crc} :
    feedBits r (List.replicate n false) = 0 ↔ r = 0 := by
  rw [feedBits_replicate, shifts_eq_zero_iff]

theorem front_eq_zero {bits : List Bool} (h : bits.length ≤ 16) (hzero : front bits = 0) :
    ∀ bit ∈ bits, bit = false := by
  intro bit hbit
  obtain ⟨i, hi, rfl⟩ := List.mem_iff_getElem.mp hbit
  have hfront : (front bits).getMsbD i = bits.getD i false := getMsbD_front (by omega)
  rw [hzero] at hfront
  simpa [hi] using hfront.symm

end Crc

end CanTransfer
