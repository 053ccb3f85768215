import CanTransfer.Crc
import CanTransfer.DataLength
import CanTransfer.Fault
import CanTransfer.Transfer.Basic

/-!
# Planning a transfer

A payload that fits one frame travels alone, with padding where its frame would have no legal
length. A longer payload is followed by padding and by the CRC of payload and padding; the whole
is then cut into full frames, and the padding is chosen so that the last frame has a legal length.

* `fillCount` — the number of padding bytes.
* `Transfer.trailer` — what follows the payload.
* `Transfer.plan` — a transfer with its trailer, ready to be cut. A capacity of zero is refused.
-/

set_option autoImplicit false

namespace CanTransfer

/-- The byte that padding consists of. -/
def padByte : UInt8 := 0x55

/-- Padding bytes after a payload of the given length. Where the CRC already fills the last frame,
or runs over into another one, there are none. -/
def fillCount (length capacity : Nat) : Nat :=
  if length ≤ capacity then padding length capacity
  else
    let used := length % capacity + Crc.length
    if capacity ≤ used then 0 else padding used capacity

namespace Transfer

/-- The padding after the payload. -/
def fill (t : Transfer) (capacity : Nat) : Bytes :=
  List.replicate (fillCount t.length capacity) padByte

/-- What follows the payload: the padding and, if one frame does not hold the payload, the CRC. -/
def trailer (t : Transfer) (capacity : Nat) : Bytes :=
  if t.length ≤ capacity then t.fill capacity
  else t.fill capacity ++ (Crc.ofBytes (t.payload ++ t.fill capacity)).digest

end Transfer

/-- A transfer that is ready to be cut into frames. -/
structure Plan where
  identifier : UInt32
  transferId : TransferId
  fragments : List Bytes
  trailer : Bytes
  /-- Bytes in front of the tail of a full frame. -/
  capacity : Nat
  loopback : Bool
  capacity_pos : 0 < capacity
  deriving DecidableEq, Repr

namespace Plan

/-- The buffers that are cut into frames. -/
def buffers (p : Plan) : List Bytes := p.fragments ++ [p.trailer]

end Plan

/-- Computes the trailer of a transfer for frames with `capacity` bytes in front of the tail. -/
def Transfer.plan (t : Transfer) (capacity : Nat) : Except SettingsFault Plan :=
  if h : 0 < capacity then
    .ok
      { identifier := t.identifier
        transferId := TransferId.truncate t.number
        fragments := t.fragments
        trailer := t.trailer capacity
        capacity := capacity
        loopback := t.loopback
        capacity_pos := h }
  else .error .zeroCapacity

end CanTransfer
