import CanTransfer.Link.Disturbance
import CanTransfer.Reception.Table
import CanTransfer.Transfer.Stream

/-!
# A disturbed link

Transfers are cut into frames, the frames are disturbed on their way, and a receiver takes what is
left.

* `Link` — the transfers and what happens to their frames.
* `Link.arriving` — the frames that reach the receiver.
* `Link.run` — what each of them does there.
-/

set_option autoImplicit false

namespace CanTransfer

/-- Sends a frame over a bus: it is encoded, and the CAN frame is decoded again. -/
def Frame.travel (f : Frame) : Except FrameFault Frame := do
  let c ← f.encode
  Frame.decode c

/-- Transfers on their way to a receiver. -/
structure Link where
  transfers : List Transfer
  /-- Bytes in front of the tail of a full frame. -/
  capacity : Nat
  /-- The frames of the transfers take turns; otherwise one transfer follows the other. -/
  interleaved : Bool
  disturbances : List Disturbance
  /-- The frames that are left travel as CAN frames. -/
  encoded : Bool
  deriving DecidableEq, Repr

namespace Link

/-- The frames that reach the receiver. The first transfer that cannot be cut stops all. -/
def arriving (l : Link) : Except SettingsFault (List Frame) := do
  let sequences ← l.transfers.mapM fun t => t.frames l.capacity
  let joined := if l.interleaved then interleave sequences else sequences.flatten
  return l.disturbances.foldl Disturbance.apply joined

/-- Feeds frames to a table. A frame that cannot travel is answered with its fault and not fed. -/
def feedAll (encoded : Bool) :
    ReceptionTable → List Frame → List (Except FrameFault Outcome) × ReceptionTable
  | t, [] => ([], t)
  | t, f :: rest =>
    match if encoded then f.travel else .ok f with
    | .error fault =>
      let later := feedAll encoded t rest
      (.error fault :: later.1, later.2)
    | .ok arrived =>
      let next := t.feed arrived
      let later := feedAll encoded next.2 rest
      (.ok next.1 :: later.1, later.2)

/-- What each arriving frame does at a receiver that has received nothing before. -/
def run (l : Link) : Except SettingsFault (List (Except FrameFault Outcome) × ReceptionTable) :=
  l.arriving.map (feedAll l.encoded .empty)

end Link

end CanTransfer
