import CanTransfer.CanFrame

/-!
# Relays

A relay stands between the sender and the receiver of a bus. It sees each frame once and hands on
what it likes, or nothing.

* `Relay` — a rule that decides from the frame and from the frames seen before it.
* `CanFrame.Change` — what a script does to one frame.
* `Relay.scripted` — the relay that follows a script of numbered changes.
-/

set_option autoImplicit false

namespace CanTransfer

/-- A device that hands frames on. -/
structure Relay where
  /-- What becomes of a frame, given the frames seen before, newest first. -/
  rule : List CanFrame → CanFrame → Option CanFrame
  /-- The frames seen so far, newest first. -/
  seen : List CanFrame := []

/-- Hands a frame on, if the rule wants it. -/
def Relay.pass (r : Relay) (c : CanFrame) : Option CanFrame × Relay :=
  (r.rule r.seen c, { r with seen := c :: r.seen })

/-- What a script does to a frame. -/
inductive CanFrame.Change where
  | drop
  | identifier (identifier : UInt32)
  /-- Marks the identifier as one of 11 bits. -/
  | standard
  /-- Keeps at most the first bytes. -/
  | truncate (length : Nat)
  | xor (place : Nat) (mask : UInt8)
  deriving DecidableEq, Repr

/-- The changed frame; nothing if it is dropped. -/
def CanFrame.Change.apply (c : CanFrame) : CanFrame.Change → Option CanFrame
  | .drop => none
  | .identifier value => some { c with identifier := value }
  | .standard => some { c with extended := false }
  | .truncate length => some { c with data := c.data.take length }
  | .xor place mask => some { c with data := c.data.xorAt place mask }

/-- Applies changes in order, up to the first that drops the frame. -/
def CanFrame.changed (c : CanFrame) (changes : List CanFrame.Change) : Option CanFrame :=
  changes.foldlM CanFrame.Change.apply c

/-- The relay that follows a script: each change is meant for the frame with the given number,
counted from zero. -/
def Relay.scripted (script : List (Nat × CanFrame.Change)) : Relay where
  rule seen c := c.changed ((script.filter fun line => line.1 == seen.length).map Prod.snd)

end CanTransfer
