/-!
# Directories

A finite map from identifiers to values, kept in the order in which the identifiers were first
entered. No identifier has two entries.

* `Directory.find?` — the view: what is entered under an identifier.
* `Directory.set`, `Directory.erase`, `Directory.map` — the changes, each with its `find?` lemma.
* `Directory.size` — the number of entries; `Directory.mem_keys` ties it to the view.
-/

set_option autoImplicit false

namespace CanTransfer

/-- A finite map from identifiers to values. -/
structure Directory (α : Type) where
  entries : List (UInt32 × α) := []
  nodup : (entries.map Prod.fst).Nodup := by simp

namespace Directory

variable {α : Type}

/-- The directory without entries. -/
def empty : Directory α := {}

/-- The identifiers that are entered. -/
def keys (d : Directory α) : List UInt32 := d.entries.map Prod.fst

/-- What is entered under an identifier. -/
def find? (d : Directory α) (key : UInt32) : Option α :=
  (d.entries.find? fun e => e.1 == key).map Prod.snd

/-- Something is entered under the identifier. -/
def contains (d : Directory α) (key : UInt32) : Bool := (d.find? key).isSome

/-- The number of entries. -/
def size (d : Directory α) : Nat := d.entries.length

/-! ## Changes -/

/-- Changes each value. -/
def map (d : Directory α) (f : α → α) : Directory α where
  entries := d.entries.map fun e => (e.1, f e.2)
  nodup := by simpa [Function.comp_def] using d.nodup

/-- Replaces the value of an identifier that is entered. -/
def adjust (d : Directory α) (key : UInt32) (f : α → α) : Directory α where
  entries := d.entries.map fun e => if e.1 = key then (e.1, f e.2) else e
  nodup := by
    have h : (d.entries.map fun e => if e.1 = key then (e.1, f e.2) else e).map Prod.fst
        = d.entries.map Prod.fst := by
      rw [List.map_map]
      exact List.map_congr_left fun e _ => by
        by_cases he : e.1 = key <;> simp [he]
    rw [h]
    exact d.nodup

theorem find?_eq_none_iff {d : Directory α} {key : UInt32} : d.find? key = none ↔ key ∉ d.keys := by
  simp only [find?, keys, Option.map_eq_none_iff, List.find?_eq_none, List.mem_map, not_exists,
    not_and, beq_iff_eq]

/-- Enters a value that is not entered yet, behind all others. -/
def append (d : Directory α) (key : UInt32) (value : α) (h : key ∉ d.keys) : Directory α where
  entries := d.entries ++ [(key, value)]
  nodup := by
    rw [List.map_append, List.nodup_append]
    refine ⟨d.nodup, by simp, ?_⟩
    intro a ha b hb hab
    simp only [List.map_cons, List.map_nil, List.mem_singleton] at hb
    exact h (by rw [← hb, ← hab]; exact ha)

/-- Enters a value, in place of the one that is entered. -/
def set (d : Directory α) (key : UInt32) (value : α) : Directory α :=
  if h : key ∈ d.keys then d.adjust key fun _ => value else d.append key value h

/-- Takes an identifier out. -/
def erase (d : Directory α) (key : UInt32) : Directory α where
  entries := d.entries.filter fun e => e.1 != key
  nodup := d.nodup.sublist (List.filter_sublist.map Prod.fst)

/-! ## Looking up after a change -/

@[simp] theorem find?_empty (key : UInt32) : (empty : Directory α).find? key = none := rfl

@[simp] theorem find?_map (d : Directory α) (f : α → α) (key : UInt32) :
    (d.map f).find? key = (d.find? key).map f := by
  simp [find?, map, List.find?_map, Function.comp_def]

theorem find?_adjust (d : Directory α) (key other : UInt32) (f : α → α) :
    (d.adjust key f).find? other
      = if other = key then (d.find? other).map f else d.find? other := by
  have h : ∀ l : List (UInt32 × α),
      ((l.map fun e => if e.1 = key then (e.1, f e.2) else e).find? fun e => e.1 == other).map
          Prod.snd
        = if other = key then ((l.find? fun e => e.1 == other).map Prod.snd).map f
          else (l.find? fun e => e.1 == other).map Prod.snd := by
    intro l
    induction l with
    | nil => simp
    | cons e rest ih => grind
  exact h d.entries

theorem find?_append {d : Directory α} {key : UInt32} {value : α} (h : key ∉ d.keys)
    (other : UInt32) :
    (d.append key value h).find? other = if other = key then some value else d.find? other := by
  have hn := find?_eq_none_iff.mpr h
  by_cases ho : other = key
  · subst ho
    simp only [find?, Option.map_eq_none_iff] at hn
    simp [find?, append, List.find?_append, hn]
  · have : (key == other) = false := by simpa using fun he => ho he.symm
    simp [find?, append, List.find?_append, ho, this]

/-- After a value has been entered, it is found, and all else is found as before. -/
@[simp] theorem find?_set (d : Directory α) (key other : UInt32) (value : α) :
    (d.set key value).find? other = if other = key then some value else d.find? other := by
  unfold set
  split
  · rename_i h
    rw [find?_adjust]
    by_cases ho : other = key
    · subst ho
      have : d.find? other ≠ none := fun hn => find?_eq_none_iff.mp hn h
      obtain ⟨v, hv⟩ := Option.ne_none_iff_exists'.mp this
      simp [hv]
    · simp [ho]
  · exact find?_append _ _

/-- After an identifier has been taken out it is not found, and all else is found as before. -/
@[simp] theorem find?_erase (d : Directory α) (key other : UInt32) :
    (d.erase key).find? other = if other = key then none else d.find? other := by
  have h : ∀ l : List (UInt32 × α),
      ((l.filter fun e => e.1 != key).find? fun e => e.1 == other).map Prod.snd
        = if other = key then none else (l.find? fun e => e.1 == other).map Prod.snd := by
    intro l
    induction l with
    | nil => simp
    | cons e rest ih => grind
  exact h d.entries

/-! ## Counting -/

theorem nodup_keys (d : Directory α) : d.keys.Nodup := d.nodup

/-- The size counts the identifiers under which something is found. -/
theorem size_eq_length_keys (d : Directory α) : d.size = d.keys.length := by
  simp [size, keys]

theorem mem_keys {d : Directory α} {key : UInt32} : key ∈ d.keys ↔ (d.find? key).isSome = true := by
  rw [← Option.ne_none_iff_isSome, ne_eq, find?_eq_none_iff, Decidable.not_not]

end Directory

end CanTransfer
