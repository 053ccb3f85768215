import CanTransfer.Bus.Basic
import CanTransfer.Reception.Table
import CanTransfer.Transfer.Stream

/-!
# The transport

A transport sends transfers over a bus and receives the transfers of all identifiers from it.

* `Transport` — the state: settings, the bus, the receptions.
* `Transport.over` — a transport over a bus; both begin disabled.
* `Transport.send` — writes the frames of a transfer; `Bus.writeAll` stops at the first failure.
* `Transport.receive` — reads, decodes and feeds until a transfer is complete. Faults on the way
  only show in the statistics.
* `Transport.process` — takes one CAN frame, and answers with its fault.

An operation that can fail gives its result together with the transport after it.
-/

set_option autoImplicit false

namespace CanTransfer

/-- The settings of a transport that is made without any. -/
def Transport.defaultSettings : Settings where
  mtu := .classic
  timeoutMs := 1000

/-- A transport over a bus. -/
structure Transport where
  settings : Settings
  bus : Bus
  table : ReceptionTable := .empty
  enabled : Bool := false

/-- Encodes frames and writes them in order, up to the first failure. -/
def Bus.writeAll : Bus → List Frame → Except Fault Unit × Bus
  | b, [] => (.ok (), b)
  | b, f :: rest =>
    match f.encode with
    | .error fault => (.error (.frame fault), b)
    | .ok c =>
      match b.write c with
      | (.error fault, b) => (.error fault, b)
      | (.ok (), b) => writeAll b rest

/-- Decodes a CAN frame and feeds it. -/
def ReceptionTable.process (t : ReceptionTable) (c : CanFrame) :
    Except Fault (Option Delivery) × ReceptionTable :=
  match Frame.decode c with
  | .error fault => (.error (.frame fault), t)
  | .ok f =>
    let next := t.feed f
    (next.1.result.mapError Fault.reception, next.2)

namespace Transport

-- The name is quoted because `over` is a keyword where all of Mathlib is imported.
/-- A transport over a bus. The transport's own settings are validated. -/
def «over» (settings : Settings) (bus : Bus) : Except SettingsFault Transport :=
  settings.validate.map fun _ => { settings := settings, bus := bus }

/-- There is no transport without a bus. -/
def withoutBus (_ : Settings) : Except Fault Transport := .error .notReady

/-- The statistics of all receptions. -/
def statistics (t : Transport) : Statistics := t.table.statistics

/-- Makes the transport ready: enables the bus and hands it the timeout. A transport that is ready
stays as it is. -/
def enable (t : Transport) : Transport :=
  if t.enabled then t
  else { t with bus := t.bus.enable.setTimeout t.settings.timeoutMs, enabled := true }

/-- Drops what the receptions have gathered and disables the bus. A transport that is not ready
stays as it is. -/
def disable (t : Transport) : Transport :=
  if t.enabled then
    { t with bus := t.bus.disable, table := t.table.resetAll, enabled := false }
  else t

/-- Sends a transfer. -/
def send (t : Transport) (transfer : Transfer) : Except Fault Unit × Transport :=
  if t.enabled then
    match transfer.frames t.settings.mtu.capacity with
    | .error fault => (.error (.settings fault), t)
    | .ok frames =>
      let written := t.bus.writeAll frames
      (written.1, { t with bus := written.2 })
  else (.error .notReady, t)

/-- Reads a frame from the bus. -/
def readFrame (t : Transport) : Except Fault CanFrame × Transport :=
  if t.enabled then
    let next := t.bus.read
    (next.1, { t with bus := next.2 })
  else (.error .notReady, t)

theorem readFrame_of_not_ready {t : Transport} (h : (t.enabled && t.bus.enabled) = false) :
    t.readFrame = (.error .notReady, t) := by
  unfold readFrame
  split
  · rename_i enabled
    rw [enabled, Bool.true_and] at h
    rw [Bus.read_of_not_enabled h]
  · rfl

theorem readFrame_nil {t : Transport} (ready : (t.enabled && t.bus.enabled) = true)
    (waiting : t.bus.queue = []) : t.readFrame = (.error .timeout, t) := by
  rw [Bool.and_eq_true] at ready
  rw [readFrame, if_pos ready.1, Bus.read_nil ready.2 waiting]

theorem readFrame_cons {t : Transport} {c : CanFrame} {rest : List CanFrame}
    (ready : (t.enabled && t.bus.enabled) = true) (waiting : t.bus.queue = c :: rest) :
    t.readFrame = (.ok c, { t with bus := { t.bus with queue := rest } }) := by
  rw [Bool.and_eq_true] at ready
  rw [readFrame, if_pos ready.1, Bus.read_cons ready.2 waiting]

/-- A frame that has been read no longer waits. -/
theorem length_queue_of_readFrame {t next : Transport} {c : CanFrame}
    (h : t.readFrame = (.ok c, next)) : next.bus.queue.length < t.bus.queue.length := by
  unfold readFrame at h
  split at h
  · cases hread : t.bus.read with
    | mk read bus =>
      rw [hread] at h
      cases h
      exact Bus.length_queue_of_read hread
  · cases h

/-- Reads frames and feeds them until a transfer is complete, or until no frame can be read. Frames
that cannot be decoded and receptions that fail are passed over. -/
def receive (t : Transport) : Except Fault Delivery × Transport :=
  match _h : t.readFrame with
  | (.error fault, next) => (.error fault, next)
  | (.ok c, next) =>
    match Frame.decode c with
    | .error _ => receive next
    | .ok f =>
      match next.table.feed f with
      | (.delivered d, table) => (.ok d, { next with table := table })
      | (_, table) => receive { next with table := table }
termination_by t.bus.queue.length
decreasing_by all_goals exact length_queue_of_readFrame ‹_›

section

variable {t next : Transport} {c : CanFrame} {f : Frame}

theorem receive_of_readFrame_error {fault : Fault} (h : t.readFrame = (.error fault, next)) :
    t.receive = (.error fault, next) := by
  rw [receive]
  split <;> simp_all

/-- One round: a frame that was read is decoded and fed. -/
theorem receive_of_readFrame_ok (h : t.readFrame = (.ok c, next)) :
    t.receive =
      match Frame.decode c with
      | .error _ => next.receive
      | .ok f =>
        match next.table.feed f with
        | (.delivered d, table) => (.ok d, { next with table := table })
        | (_, table) => receive { next with table := table } := by
  rw [receive]
  split <;> simp_all

/-- A frame that cannot be decoded is passed over. -/
theorem receive_of_decode_error {fault : FrameFault} (h : t.readFrame = (.ok c, next))
    (hdecode : Frame.decode c = .error fault) : t.receive = next.receive := by
  rw [receive_of_readFrame_ok h, hdecode]

/-- A frame that completes a transfer is the last one that is read. -/
theorem receive_of_delivered {d : Delivery} (h : t.readFrame = (.ok c, next))
    (hdecode : Frame.decode c = .ok f) (hfeed : (next.table.feed f).1 = .delivered d) :
    t.receive = (.ok d, { next with table := (next.table.feed f).2 }) := by
  cases hnext : next.table.feed f with
  | mk outcome table =>
    obtain rfl : outcome = .delivered d := by simpa [hnext] using hfeed
    simp only [receive_of_readFrame_ok h, hdecode, hnext]

/-- Any other frame is fed and passed over. -/
theorem receive_of_not_delivered (h : t.readFrame = (.ok c, next))
    (hdecode : Frame.decode c = .ok f) (hfeed : ∀ d, (next.table.feed f).1 ≠ .delivered d) :
    t.receive = receive { next with table := (next.table.feed f).2 } := by
  cases hnext : next.table.feed f with
  | mk outcome table =>
    rw [hnext] at hfeed
    cases outcome with
    | delivered d => exact absurd rfl (hfeed d)
    | _ => simp only [receive_of_readFrame_ok h, hdecode, hnext]

end

/-- Takes a frame that was received in another way. The transport need not be ready. -/
def process (t : Transport) (c : CanFrame) : Except Fault (Option Delivery) × Transport :=
  let next := t.table.process c
  (next.1, { t with table := next.2 })

/-- Drops what the reception of an identifier has gathered. -/
def resetReception (t : Transport) (identifier : UInt32) : Transport :=
  { t with table := t.table.reset identifier }

/-- Changes the timeout of the transport and of its bus; zero is refused. -/
def setTimeout (t : Transport) (timeoutMs : UInt32) : Except Fault Unit × Transport :=
  if t.enabled then
    if timeoutMs = 0 then (.error (.settings .zeroTimeout), t)
    else
      (.ok (), { t with
        settings := { t.settings with timeoutMs := timeoutMs }
        bus := t.bus.setTimeout timeoutMs })
  else (.error .notReady, t)

end Transport

end CanTransfer
