import CanTransfer.Transfer.Plan

/-!
# How much padding there is

* `DataLength.ceil?_least`, `DataLength.ceil?_eq_none_iff` — the legal length that a frame is
  brought to is the least one, and only frames beyond the longest legal length have none.
* `padding_le_fifteen`, `padding_le_room`, `padding_eq_zero` — the widest gap between two legal
  lengths has 15 bytes, padding never overfills a frame, and classic frames need none.
* `padding_legal` — where a full frame is legal, padding makes each shorter frame legal.
* `rest_legal_of_le`, `rest_legal_of_lt` — and so the last frame of each transfer.
-/

set_option autoImplicit false

namespace CanTransfer

namespace DataLength

theorem map_bytes_ceil? (n : Nat) :
    (ceil? n).map bytes = table.find? fun l => decide (n ≤ l) := by
  unfold ceil?
  split <;> simp [*]

theorem le_of_ceil? {n : Nat} {l : DataLength} (h : ceil? n = some l) : n ≤ l.bytes := by
  have hf := map_bytes_ceil? n
  rw [h, Option.map_some] at hf
  simpa using List.find?_some hf.symm

/-- The legal length above `n` is the least one. -/
theorem ceil?_least {n m : Nat} {l : DataLength} (h : ceil? n = some l) (hm : m ∈ table)
    (hn : n ≤ m) : l.bytes ≤ m := by
  have sorted : table.Pairwise (· < ·) := by decide
  have hf := map_bytes_ceil? n
  rw [h, Option.map_some, eq_comm, List.find?_eq_some_iff_append] at hf
  obtain ⟨-, before, after, heq, hbefore⟩ := hf
  rw [heq] at hm sorted
  rcases List.mem_append.mp hm with hm | hm
  · have := hbefore m hm
    simp only [Bool.not_eq_true', decide_eq_false_iff_not] at this
    omega
  · rcases List.mem_cons.mp hm with rfl | hm
    · exact Nat.le_refl _
    · have hpair := (List.pairwise_append.mp sorted).2.1
      exact Nat.le_of_lt (List.rel_of_pairwise_cons hpair hm)

theorem ceil?_eq_none_iff {n : Nat} : ceil? n = none ↔ max < n := by
  rw [← Option.map_eq_none_iff, map_bytes_ceil?, List.find?_eq_none]
  constructor
  · intro h
    have := h max (by decide)
    simpa using this
  · intro h m hm
    have hmax := le_max ⟨m, hm⟩
    simp only at hmax
    simp only [decide_eq_true_eq]
    omega

/-- Above each length that a frame can have, a legal one follows within 15 bytes. -/
theorem exists_legal_near : ∀ n ≤ max, ∃ m ∈ table, n ≤ m ∧ m ≤ n + 15 := by
  decide

end DataLength

open DataLength (table)

variable {used capacity : Nat}

theorem padding_le_room (used capacity : Nat) : padding used capacity ≤ capacity - used := by
  unfold padding
  split
  · exact Nat.zero_le _
  · exact Nat.min_le_right _ _

theorem padding_le_fifteen (used capacity : Nat) : padding used capacity ≤ 15 := by
  unfold padding
  split
  · exact Nat.zero_le _
  · rename_i l hl
    have hmax : used + tailLength ≤ DataLength.max := by
      have := DataLength.le_of_ceil? hl
      have := l.le_max
      omega
    obtain ⟨m, hm, hle, hnear⟩ := DataLength.exists_legal_near _ hmax
    have := DataLength.ceil?_least hl hm hle
    omega

/-- A frame whose length is legal already gets no padding. -/
theorem padding_eq_zero (h : used + tailLength ∈ table) : padding used capacity = 0 := by
  unfold padding
  split
  · rfl
  · rename_i l hl
    have := DataLength.ceil?_least hl h (Nat.le_refl _)
    omega

/-- Where a full frame has a legal length, padding brings each shorter frame to one. -/
theorem padding_legal (full : capacity + tailLength ∈ table) (h : used ≤ capacity) :
    used + padding used capacity + tailLength ∈ table := by
  unfold padding
  split
  · rename_i hn
    have := DataLength.le_max ⟨_, full⟩
    rw [DataLength.ceil?_eq_none_iff] at hn
    simp only at this
    omega
  · rename_i l hl
    have hle := DataLength.le_of_ceil? hl
    have hleast := DataLength.ceil?_least hl full (by omega)
    have hsum : used + min (l.bytes - (used + tailLength)) (capacity - used) + tailLength
        = l.bytes := by omega
    rw [hsum]
    exact l.legal

/-! ## The padding of a transfer -/

variable {length : Nat}

theorem fillCount_le_fifteen (length capacity : Nat) : fillCount length capacity ≤ 15 := by
  unfold fillCount
  split
  · exact padding_le_fifteen _ _
  · simp only
    split
    · exact Nat.zero_le _
    · exact padding_le_fifteen _ _

/-- Frames of at most eight bytes are never padded. -/
theorem fillCount_eq_zero (h : capacity ≤ 7) : fillCount length capacity = 0 := by
  have short : ∀ n ≤ 8, n ∈ table := by decide
  unfold fillCount
  split
  · exact padding_eq_zero (short _ (by unfold tailLength; omega))
  · simp only
    split
    · rfl
    · exact padding_eq_zero (short _ (by unfold tailLength; omega))

theorem length_add_fillCount_le (h : length ≤ capacity) :
    length + fillCount length capacity ≤ capacity := by
  have := padding_le_room length capacity
  unfold fillCount
  rw [if_pos h]
  omega

/-! ## The length of the last frame

Beyond the full frames of a transfer, the last frame holds what a division by the capacity leaves.
-/

theorem mod_legal {n : Nat} (h : n ≤ capacity) (legal : n + tailLength ∈ table) :
    n % capacity + tailLength ∈ table := by
  by_cases heq : n = capacity
  · rw [heq, Nat.mod_self]
    decide
  · rw [Nat.mod_eq_of_lt (by omega)]
    exact legal

theorem rest_legal_of_le (full : capacity + tailLength ∈ table) (h : length ≤ capacity) :
    (length + fillCount length capacity) % capacity + tailLength ∈ table := by
  have hlegal := padding_legal full h
  have hroom := length_add_fillCount_le h
  unfold fillCount at hroom ⊢
  rw [if_pos h] at hroom ⊢
  exact mod_legal hroom hlegal

theorem rest_legal_of_lt (pos : 0 < capacity) (full : capacity + tailLength ∈ table)
    (h : capacity < length) :
    (length + fillCount length capacity + Crc.length) % capacity + tailLength ∈ table := by
  have short : ∀ n ≤ 1, n + tailLength ∈ table := by decide
  have hcomm : length + fillCount length capacity + Crc.length
      = length + (Crc.length + fillCount length capacity) := by omega
  have hlt := Nat.mod_lt length pos
  rw [hcomm, ← Nat.mod_add_mod, ← Nat.add_assoc]
  unfold fillCount
  rw [if_neg (by omega)]
  simp only
  split
  · -- The CRC ends the last full frame, or its second byte runs over into one more.
    have hcrc : Crc.length = 2 := rfl
    rw [Nat.mod_eq_sub_mod (by omega)]
    exact short _ (Nat.le_trans (Nat.mod_le _ _) (by omega))
  · have hused : length % capacity + Crc.length ≤ capacity := by omega
    have hroom := padding_le_room (length % capacity + Crc.length) capacity
    exact mod_legal (by omega) (padding_legal full hused)

end CanTransfer
