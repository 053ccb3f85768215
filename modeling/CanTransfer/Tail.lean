/-!
# The tail byte

The last byte of every frame says where the frame stands in its transfer: bit 7 marks the first
frame, bit 6 the last one, bit 5 alternates from frame to frame, and the low five bits number the
transfer.

* `TransferId` — the part of a transfer's number that travels.
* `Tail.toByte`, `Tail.ofByte` — the byte and its reading; every byte is the byte of its reading.
-/

set_option autoImplicit false

namespace CanTransfer

/-- The low five bits of a transfer's number. -/
abbrev TransferId := Fin 32

namespace TransferId

/-- How many transfer ids there are. -/
def modulo : Nat := 32

/-- Keeps the low five bits of a transfer's full number. -/
def truncate (number : UInt64) : TransferId := Fin.ofNat 32 number.toNat

/-- The id as a byte. -/
def toByte (i : TransferId) : UInt8 := UInt8.ofNat i.val

end TransferId

/-- A decoded tail byte. -/
structure Tail where
  /-- The frame starts its transfer. -/
  first : Bool
  /-- The frame ends its transfer. -/
  last : Bool
  /-- Alternates from one frame of a transfer to the next. -/
  toggle : Bool
  transferId : TransferId
  deriving DecidableEq, Repr

namespace Tail

/-- The toggle of a transfer's first frame. -/
def firstToggle : Bool := true

/-- The toggle of the frame with the given index in its transfer. -/
def toggleAt (index : Nat) : Bool := (index % 2 == 0) == firstToggle

/-- Packs the tail into its byte. -/
def toByte (t : Tail) : UInt8 :=
  (if t.first then 0x80 else 0) ||| (if t.last then 0x40 else 0) |||
    (if t.toggle then 0x20 else 0) ||| t.transferId.toByte

/-- Reads a tail byte. -/
def ofByte (b : UInt8) : Tail where
  first := b &&& 0x80 != 0
  last := b &&& 0x40 != 0
  toggle := b &&& 0x20 != 0
  transferId := Fin.ofNat 32 b.toNat

theorem ofByte_toByte (t : Tail) : ofByte t.toByte = t := by
  obtain ⟨first, last, toggle, transferId⟩ := t
  revert first last toggle transferId
  decide

theorem toByte_ofByte (b : UInt8) : (ofByte b).toByte = b := by
  have h : ∀ n : Fin 256, (ofByte (UInt8.ofFin n)).toByte = UInt8.ofFin n := by decide +kernel
  exact h b.toFin

end Tail

end CanTransfer
