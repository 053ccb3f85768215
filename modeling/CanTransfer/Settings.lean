import CanTransfer.DataLength
import CanTransfer.Fault

/-!
# Settings of a bus and of a transport

* `Mtu` — the two kinds of bus, told apart by their longest frame.
* `Settings` — an MTU and a timeout; `Settings.validate` refuses a timeout of zero.
-/

set_option autoImplicit false

namespace CanTransfer

/-- The kind of bus: classic CAN or CAN FD. -/
inductive Mtu where
  | classic
  | fd
  deriving DecidableEq, Repr

namespace Mtu

/-- The longest frame, tail byte included. -/
def frameLength : Mtu → Nat
  | .classic => 8
  | .fd => 64

/-- Transfer bytes that one frame carries in front of its tail. -/
def capacity (m : Mtu) : Nat := m.frameLength - tailLength

/-- The kind of bus whose longest frame has `length` bytes. -/
def ofLength (length : Nat) : Except SettingsFault Mtu :=
  if length = 8 then .ok .classic
  else if length = 64 then .ok .fd
  else .error (.unsupportedMtu length)

@[simp] theorem ofLength_frameLength (m : Mtu) : ofLength m.frameLength = .ok m := by
  cases m <;> rfl

end Mtu

/-- What a bus and a transport are set to. -/
structure Settings where
  mtu : Mtu
  timeoutMs : UInt32
  deriving DecidableEq, Repr

/-- Refuses a timeout of zero. -/
def Settings.validate (s : Settings) : Except SettingsFault Unit :=
  if s.timeoutMs = 0 then .error .zeroTimeout else .ok ()

end CanTransfer
