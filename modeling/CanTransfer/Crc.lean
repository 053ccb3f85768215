import CanTransfer.CanFrame

/-!
# The transfer CRC

A 16-bit register, fed with bytes, most significant bit first. It divides by the polynomial
x^16 + x^12 + x^5 + 1 and starts from all ones; nothing is reflected and nothing is inverted at
the end.

* `Crc.shift` — one bit of the division.
* `Crc.add`, `Crc.addAll` — one byte, a string of bytes.
* `Crc.digest` — the two bytes of a register as they travel, high byte first.
-/

set_option autoImplicit false

namespace CanTransfer

/-- The state of the CRC register. -/
abbrev Crc := BitVec 16

namespace Crc

/-- The coefficients below x^16 of the generator polynomial. -/
def polynomial : Crc := 0x1021#16

/-- The register before the first byte. -/
def init : Crc := 0xFFFF#16

/-- Bytes that a digest takes. -/
def length : Nat := 2

/-- Multiplies by x and reduces by the generator. -/
def shift (r : Crc) : Crc :=
  if r.msb then (r <<< 1) ^^^ polynomial else r <<< 1

/-- As many shifts as the first argument says. -/
def shifts : Nat → Crc → Crc
  | 0, r => r
  | n + 1, r => shifts n (shift r)

/-- Feeds one byte: it enters at the high end and is shifted through. -/
def add (r : Crc) (b : UInt8) : Crc :=
  shifts 8 (r ^^^ (b.toBitVec.setWidth 16 <<< 8))

/-- Feeds a string of bytes. -/
def addAll (r : Crc) (bytes : Bytes) : Crc := bytes.foldl add r

/-- The registers after each of several strings that are fed one behind the other. -/
def addEach (r : Crc) : List Bytes → List Crc
  | [] => []
  | bytes :: rest => addAll r bytes :: addEach (addAll r bytes) rest

/-- The CRC of a whole string. -/
def ofBytes (bytes : Bytes) : Crc := addAll init bytes

/-- The register as two bytes, high byte first. -/
def digest (r : Crc) : Bytes :=
  [UInt8.ofBitVec (r.extractLsb' 8 8), UInt8.ofBitVec (r.extractLsb' 0 8)]

/-- The register whose digest is the two bytes. -/
def ofDigest (high low : UInt8) : Crc := high.toBitVec ++ low.toBitVec

@[simp] theorem addAll_nil (r : Crc) : addAll r [] = r := rfl

@[simp] theorem addAll_cons (r : Crc) (b : UInt8) (bytes : Bytes) :
    addAll r (b :: bytes) = addAll (add r b) bytes := rfl

theorem addAll_append (r : Crc) (a b : Bytes) : addAll r (a ++ b) = addAll (addAll r a) b := by
  simp [addAll]

end Crc

end CanTransfer
