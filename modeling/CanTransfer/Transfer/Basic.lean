import CanTransfer.CanFrame
import CanTransfer.Tail

/-!
# Transfers

* `Transfer` — what a sender hands over: the payload may come in any number of fragments.
* `Delivery` — what a receiver gets back: the payload in one piece, and of the transfer's number
  only the part that travels. Padding bytes are still at the payload's end.
-/

set_option autoImplicit false

namespace CanTransfer

/-- A transfer to send. -/
structure Transfer where
  identifier : UInt32
  /-- The full number of the transfer; its low five bits travel. -/
  number : UInt64
  /-- The payload in order; where it is divided has no meaning. -/
  fragments : List Bytes
  loopback : Bool := false
  deriving DecidableEq, Repr

namespace Transfer

/-- The payload in one piece. -/
def payload (t : Transfer) : Bytes := t.fragments.flatten

/-- Bytes of the payload. -/
def length (t : Transfer) : Nat := t.payload.length

end Transfer

/-- A transfer that has been received completely. -/
structure Delivery where
  identifier : UInt32
  transferId : TransferId
  payload : Bytes
  loopback : Bool
  deriving DecidableEq, Repr

end CanTransfer
