/-!
# Frames on the bus

* `Bytes` — bytes in the order in which they travel; `Bytes.xorAt` inverts chosen bits of one byte.
* `CanFrame` — a frame as the bus hardware sends and receives it. The default values are those of
  an empty classic frame with an extended identifier.
* `fitsIdentifier` — the identifiers that an extended frame can carry.
-/

set_option autoImplicit false

namespace CanTransfer

/-- Bytes in the order in which they travel. -/
abbrev Bytes := List UInt8

/-- Inverts the bits of `mask` in one byte. Places are counted modulo the length; an empty string
stays empty. -/
def Bytes.xorAt (bytes : Bytes) (place : Nat) (mask : UInt8) : Bytes :=
  bytes.modify (place % bytes.length) (· ^^^ mask)

@[simp] theorem Bytes.length_xorAt (bytes : Bytes) (place : Nat) (mask : UInt8) :
    (bytes.xorAt place mask).length = bytes.length := by
  simp [xorAt]

/-- The largest identifier of an extended frame: 29 bits. -/
def maxIdentifier : UInt32 := 0x1FFFFFFF

/-- The identifier fits an extended frame. -/
def fitsIdentifier (identifier : UInt32) : Prop := identifier ≤ maxIdentifier

instance (identifier : UInt32) : Decidable (fitsIdentifier identifier) :=
  inferInstanceAs (Decidable (identifier ≤ maxIdentifier))

/-- A frame as the bus hardware sends and receives it. -/
structure CanFrame where
  identifier : UInt32 := 0
  data : Bytes := []
  /-- Milliseconds, set by the hardware. -/
  timestamp : UInt64 := 0
  /-- The identifier has 29 bits rather than 11. -/
  extended : Bool := true
  /-- The frame is a CAN FD frame. -/
  fd : Bool := false
  /-- The sender wants to see the frame come back. -/
  loopback : Bool := false
  deriving DecidableEq, Repr

end CanTransfer
