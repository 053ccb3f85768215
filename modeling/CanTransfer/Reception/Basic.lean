import CanTransfer.Crc
import CanTransfer.Fault
import CanTransfer.Frame
import CanTransfer.Transfer.Basic

/-!
# Receiving the transfers of one identifier

Frames are fed one by one. A first frame always starts a new reception and abandons the one in
progress. A frame that does not fit the reception in progress ends it with a fault; the frames
after it find the receiver idle, as if nothing had happened.

* `Reception` — the state: idle, or the bytes gathered so far and what the next frame must carry.
* `Outcome` — what a frame did.
* `Reception.feed` — takes one frame.
* `openTrailer` — the payload of the gathered bytes, if the CRC at their end is right.
* `Reception.run` — takes frames and resets in order.
-/

set_option autoImplicit false

namespace CanTransfer

/-- What a frame did to the reception it was fed to. -/
inductive Outcome where
  /-- It continues a transfer that is not being received, and was ignored. -/
  | orphan
  /-- It was taken, and more frames are to come. -/
  | accepted
  | delivered (transfer : Delivery)
  /-- The reception was discarded. -/
  | failed (fault : ReceptionFault)
  deriving DecidableEq, Repr

/-- The outcome as its receiver sees it: a fault, or perhaps a transfer. -/
def Outcome.result : Outcome → Except ReceptionFault (Option Delivery)
  | .orphan => .ok none
  | .accepted => .ok none
  | .delivered transfer => .ok (some transfer)
  | .failed fault => .error fault

/-- Checks the CRC in the last two bytes against the bytes before them, and takes it off. Bytes too
few to hold a CRC are treated as if a zero had been transmitted. -/
def openTrailer (bytes : Bytes) : Except ReceptionFault Bytes :=
  let body := bytes.take (bytes.length - Crc.length)
  match bytes.drop (bytes.length - Crc.length) with
  | [high, low] =>
    if Crc.ofDigest high low = Crc.ofBytes body then .ok body
    else .error (.checksum (Crc.ofDigest high low) (Crc.ofBytes body))
  | _ => .error (.checksum 0 (Crc.ofBytes bytes))

/-- The reception of the transfers of one identifier. -/
inductive Reception where
  | idle
  /-- A transfer has begun and not ended. -/
  | receiving (transferId : TransferId) (toggle : Bool) (gathered : Bytes)
  deriving DecidableEq, Repr

namespace Reception

def isIdle : Reception → Bool
  | .idle => true
  | .receiving .. => false

/-- Takes a first frame. If it is the last one too, it is delivered as it stands. -/
def start (f : Frame) : Outcome × Reception :=
  if f.tail.last then
    (.delivered
      { identifier := f.identifier
        transferId := f.tail.transferId
        payload := f.payload
        loopback := f.loopback }, .idle)
  else (.accepted, .receiving f.tail.transferId (!f.tail.toggle) f.payload)

/-- Ends a reception with its last frame, after all bytes have been gathered. -/
def finish (f : Frame) (transferId : TransferId) (gathered : Bytes) : Outcome :=
  match openTrailer gathered with
  | .error fault => .failed fault
  | .ok payload =>
    .delivered
      { identifier := f.identifier
        transferId := transferId
        payload := payload
        loopback := f.loopback }

/-- Takes a frame. Of several faults, the transfer id is reported before the toggle and the toggle
before the CRC. -/
def feed (f : Frame) : Reception → Outcome × Reception
  | .idle => if f.tail.first then start f else (.orphan, .idle)
  | .receiving transferId toggle gathered =>
    if f.tail.first then start f
    else if f.tail.transferId ≠ transferId then
      (.failed (.transferId transferId.toByte f.tail.transferId.toByte), .idle)
    else if f.tail.toggle ≠ toggle then (.failed (.toggle toggle f.tail.toggle), .idle)
    else if f.tail.last then (finish f transferId (gathered ++ f.payload), .idle)
    else (.accepted, .receiving transferId (!toggle) (gathered ++ f.payload))

/-- Something that happens to a reception. -/
inductive Op where
  | feed (frame : Frame)
  /-- Drops what has been gathered. -/
  | reset
  deriving DecidableEq, Repr

/-- One operation. A reset has no outcome. -/
def step (r : Reception) : Op → Option Outcome × Reception
  | .feed f =>
    let next := r.feed f
    (some next.1, next.2)
  | .reset => (none, .idle)

/-- Several operations in order: the outcomes of the frames, and the last state. -/
def run : Reception → List Op → List (Option Outcome) × Reception
  | r, [] => ([], r)
  | r, op :: rest =>
    let next := r.step op
    let later := run next.2 rest
    (next.1 :: later.1, later.2)

/-- Feeds frames in order. -/
def feedAll : Reception → List Frame → List Outcome × Reception
  | r, [] => ([], r)
  | r, f :: rest =>
    let next := r.feed f
    let later := feedAll next.2 rest
    (next.1 :: later.1, later.2)

end Reception

end CanTransfer
