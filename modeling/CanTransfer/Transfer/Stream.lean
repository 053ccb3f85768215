import CanTransfer.Chunk
import CanTransfer.Frame
import CanTransfer.Transfer.Plan

/-!
# The frames of a transfer

* `FrameStream` — the frames of a plan that are still to come, cut one at a time.
* `Plan.stream` — all of them; the plan can be streamed again at any time.
* `FrameStream.next?` — the next frame and the stream after it; nothing after the last frame.
* `FrameStream.toList` — all frames to come.
* `FrameStream.run` — takes frames and starts again, in any order.
* `Transfer.frames` — the frames of a transfer. There is at least one: an empty transfer is one
  empty frame.
-/

set_option autoImplicit false

namespace CanTransfer

/-- The frames of a plan that are still to come. -/
structure FrameStream where
  plan : Plan
  /-- Place of the next frame in the transfer, counted from zero. -/
  index : Nat
  /-- The buffers not yet cut; nothing once the last frame is out. -/
  pending : Option (List Bytes)
  deriving DecidableEq, Repr

/-- The frames of a plan from the first one on. -/
def Plan.stream (p : Plan) : FrameStream := ⟨p, 0, some p.buffers⟩

namespace FrameStream

/-- The frame with the given payload at the stream's place. -/
def frame (s : FrameStream) (payload : Bytes) (last : Bool) : Frame where
  identifier := s.plan.identifier
  payload := payload
  tail :=
    { first := s.index == 0
      last := last
      toggle := Tail.toggleAt s.index
      transferId := s.plan.transferId }
  loopback := s.plan.loopback

/-- Puts out a frame. It is the last one if the buffers that are left hold no byte. -/
def emit (s : FrameStream) (payload : Bytes) (rest : List Bytes) : Frame × FrameStream :=
  let last := rest.all List.isEmpty
  (s.frame payload last, { s with index := s.index + 1, pending := if last then none else some rest })

/-- The next frame. Buffers without a byte are cut into one empty frame. -/
def next? (s : FrameStream) : Option (Frame × FrameStream) :=
  match s.pending with
  | none => none
  | some buffers =>
    match Chunk.next? s.plan.capacity buffers with
    | some (c, rest) => some (s.emit c.bytes rest)
    | none => some (s.emit [] [])

/-- An upper bound for the number of frames to come. -/
def remaining (s : FrameStream) : Nat :=
  match s.pending with
  | none => 0
  | some buffers => buffers.flatten.length + 1

theorem remaining_emit_lt {s : FrameStream} {buffers rest : List Bytes} (payload : Bytes)
    (h : rest.all List.isEmpty = true ∨ rest.flatten.length < buffers.flatten.length) :
    (s.emit payload rest).2.remaining < buffers.flatten.length + 1 := by
  by_cases he : rest.all List.isEmpty = true
  · simp [emit, remaining, he]
  · have := h.resolve_left he
    simp only [emit, remaining, he]
    simpa using this

/-- Each frame brings the end of the stream nearer. -/
theorem remaining_next?_lt {s s' : FrameStream} {f : Frame} (h : s.next? = some (f, s')) :
    s'.remaining < s.remaining := by
  unfold next? at h
  split at h
  · cases h
  · rename_i buffers hp
    have hs : s.remaining = buffers.flatten.length + 1 := by simp [remaining, hp]
    rw [hs]
    split at h
    · rename_i c rest hc
      have hlt := Chunk.next?_length_lt s.plan.capacity_pos hc
      cases h
      exact remaining_emit_lt c.bytes (.inr hlt)
    · cases h
      exact remaining_emit_lt [] (.inl rfl)

/-- All frames to come. -/
def toList (s : FrameStream) : List Frame :=
  match _h : s.next? with
  | none => []
  | some (f, s') => f :: s'.toList
termination_by s.remaining
decreasing_by exact remaining_next?_lt _h

/-- What is done to a stream. -/
inductive Op where
  | next
  /-- Begins again with the first frame. -/
  | restart
  deriving DecidableEq, Repr

/-- One operation. After the last frame, `next` gives nothing and changes nothing. -/
def step (s : FrameStream) : Op → Option Frame × FrameStream
  | .next =>
    match s.next? with
    | none => (none, s)
    | some (f, s') => (some f, s')
  | .restart => (none, s.plan.stream)

/-- Several operations in order: the frames they give, and the last state. -/
def run : FrameStream → List Op → List (Option Frame) × FrameStream
  | s, [] => ([], s)
  | s, op :: rest =>
    let next := s.step op
    let later := run next.2 rest
    (next.1 :: later.1, later.2)

end FrameStream

/-- The frames of a transfer, in order, with `capacity` bytes in front of the tail of each full one.
A capacity of zero is refused. -/
def Transfer.frames (t : Transfer) (capacity : Nat) : Except SettingsFault (List Frame) :=
  (t.plan capacity).map fun p => p.stream.toList

end CanTransfer
