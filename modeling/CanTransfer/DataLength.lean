/-!
# Data lengths and padding

A CAN frame carries its data length as a four-bit code. Codes 0 to 8 stand for themselves;
codes 9 to 15 exist on CAN FD only and stand for 12, 16, 20, 24, 32, 48 and 64 bytes.

* `DataLength` — a length that some code stands for.
* `DataLength.ofNat?`, `DataLength.ceil?` — the length itself, or the least one not below it.
* `padding` — how many bytes bring a frame with its tail byte to such a length.
-/

set_option autoImplicit false

namespace CanTransfer

/-- Frame lengths in the order of their codes. -/
def DataLength.table : List Nat := [0, 1, 2, 3, 4, 5, 6, 7, 8, 12, 16, 20, 24, 32, 48, 64]

/-- A frame length that a data length code stands for. -/
structure DataLength where
  bytes : Nat
  legal : bytes ∈ DataLength.table
  deriving DecidableEq, Repr

namespace DataLength

/-- The longest data field. -/
def max : Nat := 64

/-- The code of a length: its place in the table. -/
def code (l : DataLength) : Nat := table.idxOf l.bytes

/-- The length itself, if a code stands for it. -/
def ofNat? (n : Nat) : Option DataLength :=
  if h : n ∈ table then some ⟨n, h⟩ else none

/-- The length that a code stands for. -/
def ofCode? (code : Nat) : Option DataLength :=
  if h : code < table.length then some ⟨table[code], List.getElem_mem h⟩ else none

/-- The least length not below `n`, if a frame can be that long. -/
def ceil? (n : Nat) : Option DataLength :=
  match h : table.find? (fun l => decide (n ≤ l)) with
  | some l => some ⟨l, List.mem_of_find?_eq_some h⟩
  | none => none

@[simp] theorem ofNat?_bytes (l : DataLength) : ofNat? l.bytes = some l := by
  simp [ofNat?, l.legal]

/-- A code and its length name the same frame length. -/
@[simp] theorem ofCode?_code (l : DataLength) : ofCode? l.code = some l := by
  obtain ⟨bytes, legal⟩ := l
  have h : table.idxOf bytes < table.length := List.idxOf_lt_length_iff.mpr legal
  simp [ofCode?, code, h]

theorem le_max (l : DataLength) : l.bytes ≤ max := by
  have h : ∀ n ∈ table, n ≤ max := by decide
  exact h l.bytes l.legal

end DataLength

/-- Bytes that the tail takes in each frame. -/
def tailLength : Nat := 1

/-- Padding for a frame that holds `used` bytes of at most `capacity` in front of its tail: as
many bytes as bring it, tail included, to the next legal length, but never more than fit. A frame
longer than any legal length gets none. -/
def padding (used capacity : Nat) : Nat :=
  match DataLength.ceil? (used + tailLength) with
  | none => 0
  | some l => min (l.bytes - (used + tailLength)) (capacity - used)

end CanTransfer
