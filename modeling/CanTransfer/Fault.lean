/-!
# What can go wrong

Every failure is a value that names its cause:

* `ReceptionFault` — a reception was discarded; only that reception is affected.
* `SettingsFault` — a parameter was refused before anything happened.
* `FrameFault` — a frame cannot be put on the bus, or a CAN frame is not a transport frame.
* `Fault` — any failure of a transport or its bus.

`message` of each type is the only place that knows the wording. `hex` and `hexWord` write the
numbers in it.
-/

set_option autoImplicit false

namespace CanTransfer

/-- Lower-case hexadecimal digits of `n`, without leading zeros. -/
def hex (n : Nat) : String := String.ofList (Nat.toDigits 16 n)

/-- The four hexadecimal digits of a 16-bit word. -/
def hexWord (w : BitVec 16) : String :=
  let digits := Nat.toDigits 16 w.toNat
  String.ofList (List.replicate (4 - digits.length) '0' ++ digits)

/-- Why a reception was discarded. -/
inductive ReceptionFault where
  | toggle (expected received : Bool)
  | transferId (expected received : UInt8)
  | checksum (transmitted computed : BitVec 16)
  deriving DecidableEq, Repr

def ReceptionFault.message : ReceptionFault → String
  | .toggle expected received =>
      s!"toggle bit violation: expected {expected}, received {received}"
  | .transferId expected received =>
      s!"transfer id mismatch: expected {expected.toNat}, received {received.toNat}"
  | .checksum transmitted computed =>
      s!"transfer CRC mismatch: transmitted 0x{hexWord transmitted}, computed 0x{hexWord computed}"

/-- Why a parameter was refused. -/
inductive SettingsFault where
  /-- No bus has frames of this length. -/
  | unsupportedMtu (length : Nat)
  | zeroChunkSize
  | zeroCapacity
  | zeroTimeout
  /-- A cause that the user of the library puts into words. -/
  | described (text : String)
  deriving DecidableEq, Repr

def SettingsFault.text : SettingsFault → String
  | .unsupportedMtu length => s!"unsupported MTU: {length}"
  | .zeroChunkSize => "invalid chunk size: 0"
  | .zeroCapacity => "invalid max payload: 0"
  | .zeroTimeout => "timeout must be non-zero"
  | .described text => text

def SettingsFault.message (f : SettingsFault) : String := "invalid configuration: " ++ f.text

/-- Why a frame is not fit for the bus, or a CAN frame not a transport frame. -/
inductive FrameFault where
  | wideIdentifier (identifier : UInt32)
  /-- No data length code stands for this length; the tail byte is counted. -/
  | illegalLength (length : Nat)
  | standardIdentifier (identifier : UInt32)
  | noTail
  /-- A cause that the user of the library puts into words. -/
  | described (text : String)
  deriving DecidableEq, Repr

def FrameFault.text : FrameFault → String
  | .wideIdentifier identifier => s!"identifier 0x{hex identifier.toNat} exceeds 29 bits"
  | .illegalLength length => s!"frame length {length} is not DLC-legal"
  | .standardIdentifier identifier => s!"standard identifier 0x{hex identifier.toNat}"
  | .noTail => "frame without tail byte"
  | .described text => text

def FrameFault.message (f : FrameFault) : String := "malformed frame: " ++ f.text

/-- Any failure of a transport or its bus. -/
inductive Fault where
  | settings (cause : SettingsFault)
  | frame (cause : FrameFault)
  | reception (cause : ReceptionFault)
  /-- Nothing arrived in time. -/
  | timeout
  /-- A frame was longer than the bus can carry. -/
  | overflow
  /-- The transport or the bus is not enabled. -/
  | notReady
  /-- The bus hardware reported a failure of its own. -/
  | hardware (text : String)
  deriving DecidableEq, Repr

def Fault.message : Fault → String
  | .settings cause => cause.message
  | .frame cause => cause.message
  | .reception cause => "reception error: " ++ cause.message
  | .timeout => "operation timed out"
  | .overflow => "buffer overflow"
  | .notReady => "component not initialized"
  | .hardware text => "port error: " ++ text

end CanTransfer
