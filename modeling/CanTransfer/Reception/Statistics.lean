import CanTransfer.Reception.Basic

/-!
# Reception statistics

Counters over all frames fed to a receiver. Each frame is counted once as a frame and, unless it
was merely accepted, once more by its outcome.
-/

set_option autoImplicit false

namespace CanTransfer

/-- Counts of frames and of their outcomes. -/
structure Statistics where
  frames : Nat := 0
  transfers : Nat := 0
  orphans : Nat := 0
  toggle : Nat := 0
  transferId : Nat := 0
  checksum : Nat := 0
  deriving DecidableEq, Repr

namespace Statistics

/-- Receptions that were discarded. -/
def faults (s : Statistics) : Nat := s.toggle + s.transferId + s.checksum

/-- Counts a discarded reception by its fault. -/
def recordFault (s : Statistics) : ReceptionFault → Statistics
  | .toggle .. => { s with toggle := s.toggle + 1 }
  | .transferId .. => { s with transferId := s.transferId + 1 }
  | .checksum .. => { s with checksum := s.checksum + 1 }

/-- Counts a frame and its outcome. -/
def record (s : Statistics) (outcome : Outcome) : Statistics :=
  let s := { s with frames := s.frames + 1 }
  match outcome with
  | .orphan => { s with orphans := s.orphans + 1 }
  | .accepted => s
  | .delivered _ => { s with transfers := s.transfers + 1 }
  | .failed fault => s.recordFault fault

end Statistics

end CanTransfer
