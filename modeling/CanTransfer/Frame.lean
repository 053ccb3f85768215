import CanTransfer.CanFrame
import CanTransfer.DataLength
import CanTransfer.Fault
import CanTransfer.Tail

/-!
# Transport frames

* `Frame` — a piece of a transfer with its tail byte decoded.
* `Frame.encode` — the CAN frame that carries it. Only 29-bit identifiers and legal lengths travel.
* `Frame.decode` — reads a CAN frame. It asks for an extended identifier of 29 bits and for a tail
  byte, and takes any length.
-/

set_option autoImplicit false

namespace CanTransfer

/-- A piece of a transfer: payload, padding or CRC bytes, and the tail. -/
structure Frame where
  identifier : UInt32
  /-- The bytes in front of the tail. -/
  payload : Bytes
  tail : Tail
  loopback : Bool
  deriving DecidableEq, Repr

namespace Frame

/-- The frame is a whole transfer. -/
def isSingle (f : Frame) : Bool := f.tail.first && f.tail.last

/-- The data field: the payload, then the tail byte. -/
def data (f : Frame) : Bytes := f.payload ++ [f.tail.toByte]

/-- The CAN frame that carries `f`. -/
def encode (f : Frame) : Except FrameFault CanFrame :=
  if ¬ fitsIdentifier f.identifier then .error (.wideIdentifier f.identifier)
  else if f.data.length ∉ DataLength.table then .error (.illegalLength f.data.length)
  else .ok
    { identifier := f.identifier
      data := f.data
      fd := decide (8 < f.data.length)
      loopback := f.loopback }

/-- The transport frame that a CAN frame carries. -/
def decode (c : CanFrame) : Except FrameFault Frame :=
  if c.extended = false then .error (.standardIdentifier c.identifier)
  else if ¬ fitsIdentifier c.identifier then .error (.wideIdentifier c.identifier)
  else
    match c.data.getLast? with
    | none => .error .noTail
    | some b => .ok
        { identifier := c.identifier
          payload := c.data.dropLast
          tail := Tail.ofByte b
          loopback := c.loopback }

end Frame

end CanTransfer
