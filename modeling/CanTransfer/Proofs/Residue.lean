import CanTransfer.Proofs.Gathering
import CanTransfer.Proofs.Register

/-!
# The residue of a string

Two bytes go into the register at once, so they bring it to zero exactly if they are what it held
before. A string that ends with its CRC therefore leaves nothing, and any other string leaves
something. The check at the end of a transfer takes the string apart and compares; it could as well
run the register over all of it.

* `Crc.addAll_pair_eq_zero_iff` — the two bytes that bring a register to zero.
* `Crc.ofBytes_ne_zero` — a string too short to hold a CRC leaves something.
* `openTrailer_isOk_iff` — the check passes exactly the strings that leave nothing.
* `Reception.finish_of_no_residue`, `Reception.finish_of_residue` — the last frame delivers bytes that
  leave nothing, and fails with any others.
* `residue_eq_zero_iff` — which strings leave nothing, from any register, and what the last frame of
  a transfer makes of it.
-/

set_option autoImplicit false

namespace CanTransfer

namespace Crc

/-! ## Two bytes -/

theorem front_bits_pair (high low : UInt8) : front (Bytes.bits [high, low]) = ofDigest high low := by
  apply BitVec.eq_of_getMsbD_eq
  intro i hi
  rw [getMsbD_front hi, ofDigest, BitVec.getMsbD_append, List.getD_eq_getElem?_getD]
  simp only [Bytes.bits_cons, Bytes.bits_nil, List.append_nil, List.getElem?_append,
    Bytes.length_bitsOf]
  split
  · rw [if_neg (by omega), Bytes.getElem?_bitsOf (by omega)]
    rfl
  · rw [if_pos (by omega), Bytes.getElem?_bitsOf (by omega)]
    rfl

/-- **Two bytes bring a register to zero exactly if they are its digest.** -/
theorem addAll_pair_eq_zero_iff {r : Crc} {high low : UInt8} :
    addAll r [high, low] = 0 ↔ [high, low] = r.digest := by
  have hlength : (Bytes.bits [high, low]).length ≤ 16 := by simp
  rw [addAll_eq_feedBits, feedBits_eq_shifts hlength, shifts_eq_zero_iff, front_bits_pair,
    ← ofDigest_eq_iff, eq_comm (b := r)]
  exact BitVec.xor_eq_zero_iff

theorem ofBytes_append_pair_eq_zero_iff {body : Bytes} {high low : UInt8} :
    ofBytes (body ++ [high, low]) = 0 ↔ [high, low] = (ofBytes body).digest := by
  rw [ofBytes, addAll_append]
  exact addAll_pair_eq_zero_iff

/-! ## Fewer than two bytes -/

/-- The register begins with all bits set, and the last of them is still there while fewer than
sixteen bits have been fed. -/
theorem feedBits_init_ne_zero {bits : List Bool} (h : bits.length < 16) : feedBits init bits ≠ 0 := by
  rw [feedBits_eq_shifts (by omega), ne_eq, shifts_eq_zero_iff]
  intro hzero
  have heq : init = front bits := BitVec.xor_eq_zero_iff.mp hzero
  have hlow : (front bits).getMsbD 15 = bits.getD 15 false := getMsbD_front (by omega)
  rw [← heq, List.getD_eq_getElem?_getD, List.getElem?_eq_none (by omega)] at hlow
  cases hlow

theorem ofBytes_ne_zero {bytes : Bytes} (h : bytes.length < length) : ofBytes bytes ≠ 0 := by
  have hlength : length = 2 := rfl
  have hbits := Bytes.length_bits bytes
  rw [ofBytes, addAll_eq_feedBits]
  exact feedBits_init_ne_zero (by omega)

end Crc

/-! ## The check at the end of a transfer -/

variable {bytes body : Bytes}

theorem ofBytes_of_openTrailer (h : openTrailer bytes = .ok body) : Crc.ofBytes bytes = 0 := by
  rw [openTrailer_eq_ok_iff.mp h]
  exact Crc.ofBytes_append_pair_eq_zero_iff.mpr rfl

/-- What passes has lost its last two bytes. -/
theorem eq_take_of_openTrailer (h : openTrailer bytes = .ok body) :
    body = bytes.take (bytes.length - Crc.length) := by
  obtain rfl := openTrailer_eq_ok_iff.mp h
  simp

/-- Bytes that do not pass leave something: too few of them always do, and of all pairs at the end
only the digest takes away what is there. -/
theorem TrailerFault.ofBytes_ne_zero {fault : ReceptionFault} (h : TrailerFault bytes fault) :
    Crc.ofBytes bytes ≠ 0 := by
  cases h with
  | short few => exact Crc.ofBytes_ne_zero few
  | mismatch other => exact fun hzero => other (Crc.ofBytes_append_pair_eq_zero_iff.mp hzero)

/-- **The check passes bytes exactly if they leave nothing in the register.** -/
theorem openTrailer_isOk_iff : (∃ body, openTrailer bytes = .ok body) ↔ Crc.ofBytes bytes = 0 := by
  constructor
  · rintro ⟨body, h⟩
    exact ofBytes_of_openTrailer h
  · intro hzero
    cases h : openTrailer bytes with
    | ok body => exact ⟨body, rfl⟩
    | error fault => exact absurd hzero (openTrailer_eq_error_iff.mp h).ofBytes_ne_zero

namespace Reception

variable {gathered : Bytes}

theorem finish_of_no_residue (h : Crc.ofBytes gathered = 0) (f : Frame) (transferId : TransferId) :
    finish f transferId gathered = .delivered
      ⟨f.identifier, transferId, gathered.take (gathered.length - Crc.length), f.loopback⟩ := by
  obtain ⟨body, hbody⟩ := openTrailer_isOk_iff.mpr h
  rw [finish, hbody, ← eq_take_of_openTrailer hbody]

theorem finish_of_residue (h : Crc.ofBytes gathered ≠ 0) (f : Frame) (transferId : TransferId) :
    ∃ transmitted computed,
      finish f transferId gathered = .failed (.checksum transmitted computed) := by
  cases hopen : openTrailer gathered with
  | ok body => exact absurd (ofBytes_of_openTrailer hopen) h
  | error fault =>
    cases openTrailer_eq_error_iff.mp hopen with
    | short few => exact ⟨_, _, by rw [finish, hopen]⟩
    | mismatch other => exact ⟨_, _, by rw [finish, hopen]⟩

end Reception

/-- **Nothing is left exactly by what ends with its CRC.** From any register, a string and two bytes
more lead to zero if and only if the two bytes are the digest of what the string leads to. So the
last frame of a transfer delivers what has been gathered, less its last two bytes, if and only if all
of it leaves nothing, and otherwise the CRC fails. This includes strings that are too short for a
CRC: they fail, and they leave something. -/
theorem residue_eq_zero_iff :
    (∀ (v : Crc) (m : Bytes) (x y : UInt8),
      Crc.addAll v (m ++ [x, y]) = 0 ↔ [x, y] = (Crc.addAll v m).digest) ∧
    ∀ (f : Frame) (transferId : TransferId) (gathered : Bytes),
      (Reception.finish f transferId gathered = .delivered
          ⟨f.identifier, transferId, gathered.take (gathered.length - Crc.length), f.loopback⟩ ↔
        Crc.ofBytes gathered = 0) ∧
      ((∃ transmitted computed,
          Reception.finish f transferId gathered = .failed (.checksum transmitted computed)) ↔
        Crc.ofBytes gathered ≠ 0) := by
  refine ⟨?_, ?_⟩
  · intro v m x y
    rw [Crc.addAll_append]
    exact Crc.addAll_pair_eq_zero_iff
  · intro f transferId gathered
    refine ⟨⟨?_, fun hzero => Reception.finish_of_no_residue hzero f transferId⟩,
      ⟨?_, fun hresidue => Reception.finish_of_residue hresidue f transferId⟩⟩
    · intro hdelivered
      by_contra hresidue
      obtain ⟨transmitted, computed, hfailed⟩ := Reception.finish_of_residue hresidue f transferId
      rw [hdelivered] at hfailed
      cases hfailed
    · rintro ⟨transmitted, computed, hfailed⟩ hzero
      rw [Reception.finish_of_no_residue hzero] at hfailed
      cases hfailed

end CanTransfer
