import Mathlib.Algebra.Group.Nat.Defs
import CanTransfer.Proofs.Wire

/-!
# Encoding and decoding

A transport frame and the CAN frame that carries it hold the same data. Decoding takes more than
encoding gives: any length, any time stamp, and either mark of the kind of bus.

* `fitsIdentifier_iff`, `Frame.fits_iff` — which frames can travel, in numbers.
* `Frame.encode_eq_ok_iff`, `Frame.decode_eq_ok_iff` — both functions, said as relations between the
  two kinds of frames.
* `Frame.wire_of_decode` — a frame that was read is put back on the wire as it was, apart from what
  the hardware adds.
* `Frame.encode_decode_inverse` — so each of the two functions inverts the other where the other one
  succeeds, up to lengths that no data length code stands for.
-/

set_option autoImplicit false

namespace CanTransfer

open DataLength (table)

theorem fitsIdentifier_iff (identifier : UInt32) :
    fitsIdentifier identifier ↔ identifier.toNat < 2 ^ 29 := by
  rw [fitsIdentifier, UInt32.le_iff_toNat_le]
  show _ ≤ 0x1FFFFFFF ↔ _
  omega

namespace Frame

variable {f : Frame} {c : CanFrame}

/-! ## Encoding -/

theorem fits_iff :
    f.Fits ↔ f.identifier.toNat < 2 ^ 29 ∧ f.payload.length + tailLength ∈ table := by
  rw [← fitsIdentifier_iff, ← length_data]
  exact ⟨fun h => ⟨h.identifier, h.legal⟩, fun h => ⟨h.1, h.2⟩⟩

theorem encode_eq_ok_iff : f.encode = .ok c ↔ f.Fits ∧ c = f.wire := by
  constructor
  · intro h
    have hfits : f.Fits := by
      refine Classical.byContradiction fun hnot => ?_
      obtain ⟨fault, hfault⟩ := encode_of_not_fits hnot
      rw [hfault] at h
      cases h
    rw [encode_of_fits hfits] at h
    exact ⟨hfits, (Except.ok.inj h).symm⟩
  · rintro ⟨hfits, rfl⟩
    exact encode_of_fits hfits

/-- The length is refused, once the identifier has been taken. -/
theorem encode_of_illegal (identifier : fitsIdentifier f.identifier)
    (illegal : f.data.length ∉ table) : f.encode = .error (.illegalLength f.data.length) := by
  unfold encode
  rw [if_neg fun hn => hn identifier, if_pos illegal]

/-! ## Decoding -/

theorem data_ne_nil (f : Frame) : f.data ≠ [] := by
  simp [data]

/-- The frame whose data field is the given one. -/
theorem data_dropLast_getLast {bytes : Bytes} (h : bytes ≠ []) (identifier : UInt32)
    (loopback : Bool) :
    data ⟨identifier, bytes.dropLast, Tail.ofByte (bytes.getLast h), loopback⟩ = bytes := by
  rw [data, Tail.toByte_ofByte, List.dropLast_concat_getLast]

/-- A CAN frame is read as the frame that has its data, if it has an identifier of 29 bits. -/
theorem decode_eq_ok_iff :
    decode c = .ok f ↔ c.extended = true ∧ fitsIdentifier c.identifier ∧
      f.identifier = c.identifier ∧ f.data = c.data ∧ f.loopback = c.loopback := by
  constructor
  · intro h
    unfold decode at h
    split at h
    · cases h
    · rename_i hextended
      split at h
      · cases h
      · rename_i hid
        split at h
        · cases h
        · rename_i b hlast
          have hne : c.data ≠ [] := by
            intro hempty
            simp [hempty] at hlast
          rw [List.getLast?_eq_some_getLast hne] at hlast
          cases hlast
          cases h
          exact ⟨by simpa using hextended, Decidable.not_not.mp hid, rfl,
            data_dropLast_getLast hne _ _, rfl⟩
  · rintro ⟨hextended, hid, hidentifier, hdata, hloopback⟩
    unfold decode
    have hlast : c.data.getLast? = some f.tail.toByte := by simp [← hdata, data]
    have hpayload : c.data.dropLast = f.payload := by simp [← hdata, data]
    rw [if_neg (by simp [hextended]), if_neg (Decidable.not_not.mpr hid), hlast]
    simp only
    rw [hpayload, Tail.ofByte_toByte, ← hidentifier, ← hloopback]

theorem exists_decode_iff :
    (∃ f, decode c = .ok f) ↔
      c.extended = true ∧ fitsIdentifier c.identifier ∧ c.data ≠ [] := by
  simp only [decode_eq_ok_iff]
  constructor
  · rintro ⟨f, hextended, hid, -, hdata, -⟩
    exact ⟨hextended, hid, hdata ▸ data_ne_nil f⟩
  · rintro ⟨hextended, hid, hne⟩
    exact ⟨_, hextended, hid, rfl, data_dropLast_getLast hne c.identifier c.loopback, rfl⟩

/-- What was read goes back on the wire without the time stamp, and marked by its length. -/
theorem wire_of_decode (h : decode c = .ok f) :
    f.wire = { c with timestamp := 0, fd := decide (8 < c.data.length) } := by
  obtain ⟨hextended, -, hidentifier, hdata, hloopback⟩ := decode_eq_ok_iff.mp h
  rw [wire, hdata, hidentifier, hloopback, ← hextended]

theorem encode_of_decode (h : decode c = .ok f) :
    f.encode = if c.data.length ∈ table
      then .ok { c with timestamp := 0, fd := decide (8 < c.data.length) }
      else .error (.illegalLength c.data.length) := by
  obtain ⟨-, hid, hidentifier, hdata, -⟩ := decode_eq_ok_iff.mp h
  rw [← hidentifier] at hid
  split
  · rename_i hlegal
    rw [encode_of_fits ⟨hid, hdata ▸ hlegal⟩, wire_of_decode h]
  · rename_i hillegal
    rw [encode_of_illegal hid (hdata ▸ hillegal), hdata]

/-! ## Both together -/

/-- **Encoding and decoding are inverse to each other.** A frame can be encoded exactly if its
identifier has 29 bits and some data length code stands for its length with the tail, and it is
then decoded as it was. A CAN frame can be decoded exactly if it is extended, its identifier has 29
bits and it is not empty; what was decoded is encoded as the same CAN frame, but for the time stamp
and the kind of bus, or refused if no code stands for its length. -/
theorem encode_decode_inverse (f : Frame) (c : CanFrame) :
    ((∃ raw, f.encode = .ok raw) ↔
      f.identifier.toNat < 2 ^ 29 ∧ f.payload.length + tailLength ∈ table) ∧
    (∀ raw, f.encode = .ok raw → decode raw = .ok f) ∧
    ((∃ g, decode c = .ok g) ↔
      c.extended = true ∧ c.identifier.toNat < 2 ^ 29 ∧ c.data ≠ []) ∧
    ∀ g, decode c = .ok g →
      g.encode = if c.data.length ∈ table
        then .ok { c with timestamp := 0, fd := decide (8 < c.data.length) }
        else .error (.illegalLength c.data.length) := by
  refine ⟨?_, ?_, ?_, fun g => encode_of_decode⟩
  · simp only [encode_eq_ok_iff, fits_iff]
    exact ⟨fun ⟨_, hfits, _⟩ => hfits, fun hfits => ⟨f.wire, hfits, rfl⟩⟩
  · intro raw hraw
    obtain ⟨hfits, rfl⟩ := encode_eq_ok_iff.mp hraw
    exact decode_wire hfits.identifier
  · rw [exists_decode_iff, fitsIdentifier_iff]

/-- A frame of 12 bytes comes back; of a frame with a time stamp and the mark of the other kind of
bus all else comes back; and a frame of ten bytes is read but not encoded. -/
theorem encode_decode_inverse_of_12_and_3_and_10 :
    (∃ raw, encode ⟨0x1FFFFFFF, List.replicate 11 7, ⟨true, false, true, 31⟩, true⟩ = .ok raw ∧
      decode raw = .ok ⟨0x1FFFFFFF, List.replicate 11 7, ⟨true, false, true, 31⟩, true⟩) ∧
    (∃ g, decode { identifier := 5, data := [1, 2, 0xA3], timestamp := 77, fd := true } = .ok g ∧
      g.encode = .ok { identifier := 5, data := [1, 2, 0xA3] }) ∧
    ∃ g, decode { identifier := 5, data := List.replicate 10 0xE0 } = .ok g ∧
      g.encode = .error (.illegalLength 10) := by
  obtain ⟨hencodes, hback, -, -⟩ := encode_decode_inverse
    ⟨0x1FFFFFFF, List.replicate 11 7, ⟨true, false, true, 31⟩, true⟩ {}
  obtain ⟨-, -, hshort, hagain⟩ := encode_decode_inverse ⟨0, [], ⟨true, true, true, 0⟩, false⟩
    { identifier := 5, data := [1, 2, 0xA3], timestamp := 77, fd := true }
  obtain ⟨-, -, hlong, hrefused⟩ := encode_decode_inverse ⟨0, [], ⟨true, true, true, 0⟩, false⟩
    { identifier := 5, data := List.replicate 10 0xE0 }
  obtain ⟨raw, hraw⟩ := hencodes.mpr (by decide)
  obtain ⟨g, hg⟩ := hshort.mpr (by decide)
  obtain ⟨g', hg'⟩ := hlong.mpr (by decide)
  exact ⟨⟨raw, hraw, hback raw hraw⟩, ⟨g, hg, hagain g hg⟩, g', hg', hrefused g' hg'⟩

end Frame

end CanTransfer
