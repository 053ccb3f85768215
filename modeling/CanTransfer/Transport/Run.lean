import CanTransfer.Transport.Basic

/-!
# Runs of a transport

The operations of a transport as data, those of its bus among them.

* `Transport.Op`, `Transport.Reply` — an operation and what it answers.
* `Transport.step`, `Transport.run` — one operation, or many in order.
-/

set_option autoImplicit false

namespace CanTransfer

namespace Transport

/-- Something that is done to a transport. -/
inductive Op where
  | enable
  | disable
  | send (transfer : Transfer)
  | receive
  | process (frame : CanFrame)
  | resetReception (identifier : UInt32)
  | setTimeout (timeoutMs : UInt32)
  /-- Done to the bus behind the transport's back. -/
  | bus (op : Bus.Op)

/-- What an operation answers if it does not fail. -/
inductive Reply where
  | done
  | transfer (delivery : Delivery)
  | frame (frame : CanFrame)
  deriving DecidableEq, Repr

/-- One operation. -/
def step (t : Transport) : Op → Except Fault Reply × Transport
  | .enable => (.ok .done, t.enable)
  | .disable => (.ok .done, t.disable)
  | .send transfer =>
    let next := t.send transfer
    (next.1.map fun _ => .done, next.2)
  | .receive =>
    let next := t.receive
    (next.1.map Reply.transfer, next.2)
  | .process c =>
    let next := t.process c
    (next.1.map fun found => found.elim .done Reply.transfer, next.2)
  | .resetReception identifier => (.ok .done, t.resetReception identifier)
  | .setTimeout timeoutMs =>
    let next := t.setTimeout timeoutMs
    (next.1.map fun _ => .done, next.2)
  | .bus op =>
    let next := t.bus.step op
    (next.1.map fun read => read.elim .done Reply.frame, { t with bus := next.2 })

/-- Several operations in order: the replies, and the last state. -/
def run : Transport → List Op → List (Except Fault Reply) × Transport
  | t, [] => ([], t)
  | t, op :: rest =>
    let next := t.step op
    let later := run next.2 rest
    (next.1 :: later.1, later.2)

end Transport

end CanTransfer
