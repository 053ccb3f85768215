import CanTransfer.Bus.Relay
import CanTransfer.Fault
import CanTransfer.Settings

/-!
# A bus that talks to itself

What is written to the bus comes back when it is read, in the same order. A relay may change or
swallow frames on the way, and frames may be injected as if another node had sent them.

* `Bus` — the state: settings, relay, the frames on their way and all frames written.
* `Bus.write`, `Bus.read` — only an enabled bus takes frames and gives them back.
* `Bus.step` — the operations as data.

An operation that can fail gives its result together with the bus after it.
-/

set_option autoImplicit false

namespace CanTransfer

/-- The settings of a bus that is made without any. -/
def Bus.defaultSettings : Settings where
  mtu := .fd
  timeoutMs := 1000

/-- A bus whose frames come back to their sender. -/
structure Bus where
  settings : Settings := Bus.defaultSettings
  relay : Option Relay := none
  /-- Frames that wait to be read, oldest first. -/
  queue : List CanFrame := []
  /-- Frames written so far, oldest first, as they were before the relay. -/
  sent : List CanFrame := []
  enabled : Bool := false

namespace Bus

/-- A bus with default settings and without relay. -/
def loopback : Bus := {}

/-- A bus with the given settings; they are validated. -/
def ofSettings (settings : Settings) : Except SettingsFault Bus :=
  settings.validate.map fun _ => { settings := settings }

/-- Lets frames be written and read. -/
def enable (b : Bus) : Bus := { b with enabled := true }

/-- Stops writing and reading. Frames that wait stay where they are. -/
def disable (b : Bus) : Bus := { b with enabled := false }

/-- Changes the timeout. Any value is taken. -/
def setTimeout (b : Bus) (timeoutMs : UInt32) : Bus :=
  { b with settings := { b.settings with timeoutMs := timeoutMs } }

/-- Puts a relay in, or takes it out. -/
def setRelay (b : Bus) (relay : Option Relay) : Bus := { b with relay := relay }

/-- Queues a frame as if another node had sent it. -/
def inject (b : Bus) (c : CanFrame) : Bus := { b with queue := b.queue ++ [c] }

/-- Hands a frame to the relay and queues what comes out. -/
def carry (b : Bus) (c : CanFrame) : Bus :=
  match b.relay with
  | none => b.inject c
  | some relay =>
    let passed := relay.pass c
    { b with relay := some passed.2, queue := b.queue ++ passed.1.toList }

/-- Writes a frame. -/
def write (b : Bus) (c : CanFrame) : Except Fault Unit × Bus :=
  if b.enabled = false then (.error .notReady, b)
  else if b.settings.mtu.frameLength < c.data.length then (.error .overflow, b)
  else (.ok (), carry { b with sent := b.sent ++ [c] } c)

/-- Reads the frame that has waited longest. -/
def read (b : Bus) : Except Fault CanFrame × Bus :=
  if b.enabled = false then (.error .notReady, b)
  else
    match b.queue with
    | [] => (.error .timeout, b)
    | c :: rest => (.ok c, { b with queue := rest })

theorem read_of_not_enabled {b : Bus} (h : b.enabled = false) : b.read = (.error .notReady, b) :=
  if_pos h

theorem read_nil {b : Bus} (enabled : b.enabled = true) (waiting : b.queue = []) :
    b.read = (.error .timeout, b) := by
  rw [read, if_neg (by simp [enabled]), waiting]

theorem read_cons {b : Bus} {c : CanFrame} {rest : List CanFrame} (enabled : b.enabled = true)
    (waiting : b.queue = c :: rest) : b.read = (.ok c, { b with queue := rest }) := by
  rw [read, if_neg (by simp [enabled]), waiting]

/-- A frame that has been read no longer waits. -/
theorem length_queue_of_read {b next : Bus} {c : CanFrame} (h : b.read = (.ok c, next)) :
    next.queue.length < b.queue.length := by
  cases henabled : b.enabled with
  | false =>
    rw [read_of_not_enabled henabled] at h
    cases h
  | true =>
    cases hqueue : b.queue with
    | nil =>
      rw [read_nil henabled hqueue] at h
      cases h
    | cons c rest =>
      rw [read_cons henabled hqueue] at h
      cases h
      exact Nat.lt_succ_self _

/-! ## Operations as data -/

/-- Something that is done to a bus. -/
inductive Op where
  | enable
  | disable
  | write (frame : CanFrame)
  | read
  | inject (frame : CanFrame)
  | setTimeout (timeoutMs : UInt32)
  | setRelay (relay : Option Relay)

/-- One operation; `read` alone answers with a frame. -/
def step (b : Bus) : Op → Except Fault (Option CanFrame) × Bus
  | .enable => (.ok none, b.enable)
  | .disable => (.ok none, b.disable)
  | .write c =>
    let next := b.write c
    (next.1.map fun _ => none, next.2)
  | .read =>
    let next := b.read
    (next.1.map some, next.2)
  | .inject c => (.ok none, b.inject c)
  | .setTimeout timeoutMs => (.ok none, b.setTimeout timeoutMs)
  | .setRelay relay => (.ok none, b.setRelay relay)

end Bus

end CanTransfer
