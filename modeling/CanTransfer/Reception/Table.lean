import CanTransfer.Directory
import CanTransfer.Reception.Statistics

/-!
# Receiving the transfers of all identifiers

Transfers of different identifiers may arrive interleaved: each identifier has a reception of its
own, made when its first frame arrives and kept, idle or not, until it is erased.

* `ReceptionTable` — the receptions by identifier, and the statistics of all of them together.
* `ReceptionTable.feed` — gives a frame to the reception of its identifier.
* `ReceptionTable.reset`, `ReceptionTable.resetAll` — make receptions idle; the entries stay.
* `ReceptionTable.erase` — takes out an entry.
* `ReceptionTable.reception_feed` and its companions — what each operation does to the reception of
  any identifier.
* `ReceptionTable.step`, `ReceptionTable.run` — the operations as data, one or many.
-/

set_option autoImplicit false

namespace CanTransfer

/-- The receptions of all identifiers. -/
structure ReceptionTable where
  receptions : Directory Reception := {}
  statistics : Statistics := {}

namespace ReceptionTable

/-- The table before the first frame. -/
def empty : ReceptionTable := {}

/-- The reception of an identifier; idle if there is no entry. -/
def reception (t : ReceptionTable) (identifier : UInt32) : Reception :=
  (t.receptions.find? identifier).getD .idle

/-- Feeds a frame to the reception of its identifier. -/
def feed (t : ReceptionTable) (f : Frame) : Outcome × ReceptionTable :=
  let next := (t.reception f.identifier).feed f
  (next.1,
    { receptions := t.receptions.set f.identifier next.2
      statistics := t.statistics.record next.1 })

/-- Drops what the reception of an identifier has gathered. -/
def reset (t : ReceptionTable) (identifier : UInt32) : ReceptionTable :=
  { t with receptions := t.receptions.adjust identifier fun _ => .idle }

/-- Drops what all receptions have gathered. -/
def resetAll (t : ReceptionTable) : ReceptionTable :=
  { t with receptions := t.receptions.map fun _ => .idle }

/-- The identifier has an entry. -/
def contains (t : ReceptionTable) (identifier : UInt32) : Bool := t.receptions.contains identifier

/-- Takes out the entry of an identifier. -/
def erase (t : ReceptionTable) (identifier : UInt32) : ReceptionTable :=
  { t with receptions := t.receptions.erase identifier }

/-- The number of entries. -/
def size (t : ReceptionTable) : Nat := t.receptions.size

/-- There are no entries. -/
def isEmpty (t : ReceptionTable) : Bool := t.size == 0

/-! ## Each operation touches one reception, or makes all of them idle -/

@[simp] theorem reception_empty (key : UInt32) : empty.reception key = .idle := rfl

theorem reception_feed (t : ReceptionTable) (f : Frame) (key : UInt32) :
    (t.feed f).2.reception key
      = if key = f.identifier then ((t.reception key).feed f).2 else t.reception key := by
  by_cases h : key = f.identifier
  · subst h
    simp [feed, reception]
  · simp [feed, reception, h]

theorem reception_reset (t : ReceptionTable) (identifier key : UInt32) :
    (t.reset identifier).reception key = if key = identifier then .idle else t.reception key := by
  simp only [reset, reception, Directory.find?_adjust]
  split
  · cases t.receptions.find? key <;> rfl
  · rfl

@[simp] theorem reception_resetAll (t : ReceptionTable) (key : UInt32) :
    t.resetAll.reception key = .idle := by
  simp only [resetAll, reception, Directory.find?_map]
  cases t.receptions.find? key <;> rfl

theorem reception_erase (t : ReceptionTable) (identifier key : UInt32) :
    (t.erase identifier).reception key = if key = identifier then .idle else t.reception key := by
  simp only [erase, reception, Directory.find?_erase]
  split <;> rfl

theorem contains_feed (t : ReceptionTable) (f : Frame) (key : UInt32) :
    (t.feed f).2.contains key = (key == f.identifier || t.contains key) := by
  by_cases h : key = f.identifier <;> simp [feed, contains, Directory.contains, h]

theorem contains_erase (t : ReceptionTable) (identifier key : UInt32) :
    (t.erase identifier).contains key = (key != identifier && t.contains key) := by
  by_cases h : key = identifier <;> simp [erase, contains, Directory.contains, h]

/-! ## Operations as data -/

/-- Something that happens to a table. -/
inductive Op where
  | feed (frame : Frame)
  | reset (identifier : UInt32)
  | resetAll
  | erase (identifier : UInt32)
  | contains (identifier : UInt32)
  deriving DecidableEq, Repr

/-- What an operation answers. -/
inductive Answer where
  | done
  | outcome (value : Outcome)
  /-- Whether the identifier had an entry. -/
  | present (entry : Bool)
  deriving DecidableEq, Repr

/-- One operation. -/
def step (t : ReceptionTable) : Op → Answer × ReceptionTable
  | .feed f =>
    let next := t.feed f
    (.outcome next.1, next.2)
  | .reset identifier => (.done, t.reset identifier)
  | .resetAll => (.done, t.resetAll)
  | .erase identifier => (.present (t.contains identifier), t.erase identifier)
  | .contains identifier => (.present (t.contains identifier), t)

/-- Several operations in order: the answers, and the last state. -/
def run : ReceptionTable → List Op → List Answer × ReceptionTable
  | t, [] => ([], t)
  | t, op :: rest =>
    let next := t.step op
    let later := run next.2 rest
    (next.1 :: later.1, later.2)

end ReceptionTable

end CanTransfer
