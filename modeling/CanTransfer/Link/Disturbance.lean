import CanTransfer.Frame

/-!
# Disturbances on the way

What can happen to a sequence of frames between sender and receiver: frames are lost, repeated,
exchanged or altered, and several sequences are interleaved.

* `Frame.Change` — an alteration of one frame.
* `Disturbance` — a change of the whole sequence. Places are counted modulo the present length.
* `interleave` — takes one frame of each sequence in turn.
-/

set_option autoImplicit false

namespace CanTransfer

/-- An alteration of one frame. -/
inductive Frame.Change where
  | invertFirst
  | invertLast
  | invertToggle
  | invertLoopback
  | transferId (transferId : TransferId)
  | identifier (identifier : UInt32)
  /-- Keeps at most the first bytes of the payload. -/
  | truncate (length : Nat)
  | append (bytes : Bytes)
  | xor (place : Nat) (mask : UInt8)
  deriving DecidableEq, Repr

/-- The altered frame. -/
def Frame.Change.apply (f : Frame) : Frame.Change → Frame
  | .invertFirst => { f with tail := { f.tail with first := !f.tail.first } }
  | .invertLast => { f with tail := { f.tail with last := !f.tail.last } }
  | .invertToggle => { f with tail := { f.tail with toggle := !f.tail.toggle } }
  | .invertLoopback => { f with loopback := !f.loopback }
  | .transferId value => { f with tail := { f.tail with transferId := value } }
  | .identifier value => { f with identifier := value }
  | .truncate length => { f with payload := f.payload.take length }
  | .append bytes => { f with payload := f.payload ++ bytes }
  | .xor place mask => { f with payload := f.payload.xorAt place mask }

/-- A change of a sequence of frames. -/
inductive Disturbance where
  | drop (place : Nat)
  | duplicate (place : Nat)
  | exchange (place other : Nat)
  | alter (place : Nat) (change : Frame.Change)
  deriving DecidableEq, Repr

/-- The sequence after the disturbance. A sequence without frames stays as it is. -/
def Disturbance.apply (frames : List Frame) : Disturbance → List Frame
  | .drop place => frames.eraseIdx (place % frames.length)
  | .duplicate place =>
    let i := place % frames.length
    frames.take (i + 1) ++ frames.drop i
  | .exchange place other =>
    let i := place % frames.length
    let j := other % frames.length
    match frames[i]?, frames[j]? with
    | some f, some g => (frames.set i g).set j f
    | _, _ => frames
  | .alter place change => frames.modify (place % frames.length) change.apply

/-- Takes the first frame of each sequence, then the second of each, and so on; sequences that have
ended are passed over. -/
def interleave (sequences : List (List Frame)) : List Frame :=
  let longest := (sequences.map List.length).foldl max 0
  (List.range longest).flatMap fun i => sequences.filterMap fun s => s[i]?

end CanTransfer
