import CanTransfer.Proofs.Cutting

/-!
# Lent and copied chunks

A chunk is lent out of a buffer or copied, and which of the two is decided from the buffers that are
left, before the chunk is filled. Here it is read off the places that the chunk and the buffers have
among all bytes.

* `Chunk.start`, `Chunk.StandsIn` — where a buffer begins among the bytes of all buffers, and in
  which buffer a byte stands. There is one such buffer for each byte.
* `Chunk.Remains`, `Chunk.remains_left` — what the calls leave: the rest of one buffer, and the
  buffers behind it.
* `Chunk.TakesFrom`, `Chunk.LentFrom` — some bytes of a chunk, or all of them as one run, stand in a
  buffer.
* `cut_copied_iff` — a chunk is copied exactly if it takes bytes from two buffers, and lent by the
  buffer that holds all of it otherwise.
-/

set_option autoImplicit false

namespace CanTransfer

namespace Chunk

variable {size : Nat} {buffers left rest : List Bytes} {c : Chunk} {place : Nat}

/-! ## Places among all bytes -/

/-- The place where buffer `j` begins, counted in the bytes of all buffers together. -/
def start (buffers : List Bytes) (j : Nat) : Nat := (buffers.take j).flatten.length

/-- The byte at a place of all buffers together stands in buffer `j`. -/
def StandsIn (buffers : List Bytes) (place j : Nat) : Prop :=
  ∃ b, buffers[j]? = some b ∧ start buffers j ≤ place ∧ place < start buffers j + b.length

/-- Of the `count` bytes from a place on, at least one stands in buffer `j`. -/
def TakesFrom (buffers : List Bytes) (place count j : Nat) : Prop :=
  ∃ p, place ≤ p ∧ p < place + count ∧ StandsIn buffers p j

/-- The bytes are a run of those of buffer `j`, and the place is where the run begins. -/
def LentFrom (buffers : List Bytes) (place : Nat) (bytes : Bytes) (j : Nat) : Prop :=
  ∃ front back, buffers[j]? = some (front ++ bytes ++ back) ∧
    place = start buffers j + front.length

theorem start_succ {j : Nat} {b : Bytes} (h : buffers[j]? = some b) :
    start buffers (j + 1) = start buffers j + b.length := by
  simp [start, List.take_add_one, h]

theorem start_le_start (buffers : List Bytes) {j k : Nat} (h : j ≤ k) :
    start buffers j ≤ start buffers k := by
  obtain ⟨d, rfl⟩ := Nat.exists_eq_add_of_le h
  unfold start
  rw [List.take_add, List.flatten_append, List.length_append]
  exact Nat.le_add_right _ _

theorem start_append (earlier later : List Bytes) :
    start (earlier ++ later) earlier.length = earlier.flatten.length := by
  rw [start, List.take_left]

/-- No byte stands in two buffers, -/
theorem StandsIn.unique {j k : Nat} (hj : StandsIn buffers place j) (hk : StandsIn buffers place k) :
    j = k := by
  obtain ⟨a, ha, haFrom, haTo⟩ := hj
  obtain ⟨b, hb, hbFrom, hbTo⟩ := hk
  rw [← start_succ ha] at haTo
  rw [← start_succ hb] at hbTo
  rcases Nat.lt_trichotomy j k with hlt | heq | hlt
  · have := start_le_start buffers (show j + 1 ≤ k from hlt)
    omega
  · exact heq
  · have := start_le_start buffers (show k + 1 ≤ j from hlt)
    omega

/-- and each byte stands in one. -/
theorem exists_standsIn (h : place < buffers.flatten.length) : ∃ j, StandsIn buffers place j := by
  induction buffers generalizing place with
  | nil => exact absurd h (Nat.not_lt_zero _)
  | cons b later ih =>
    rw [List.flatten_cons, List.length_append] at h
    by_cases hb : place < b.length
    · refine ⟨0, b, rfl, Nat.zero_le _, ?_⟩
      simpa [start] using hb
    · obtain ⟨j, x, hx, hFrom, hTo⟩ := ih (show place - b.length < later.flatten.length by omega)
      have hstart : start (b :: later) (j + 1) = b.length + start later j := by simp [start]
      exact ⟨j + 1, x, hx, by omega, by omega⟩

/-- A chunk that is lent takes no bytes from any other buffer. -/
theorem LentFrom.eq_of_takesFrom {bytes : Bytes} {j k : Nat} (hj : LentFrom buffers place bytes j)
    (hk : TakesFrom buffers place bytes.length k) : k = j := by
  obtain ⟨front, back, hb, rfl⟩ := hj
  obtain ⟨p, hFrom, hTo, hp⟩ := hk
  refine hp.unique ⟨_, hb, by omega, ?_⟩
  rw [List.length_append, List.length_append]
  omega

/-! ## What the calls leave -/

/-- What remains of the buffers behind a place: the rest of one buffer and all buffers behind it, or
nothing if the place is behind the last byte. -/
inductive Remains (buffers : List Bytes) (place : Nat) : List Bytes → Prop
  | within (earlier : List Bytes) (front : Bytes) {back : Bytes} {later : List Bytes}
      (split : buffers = earlier ++ (front ++ back) :: later)
      (before : place = earlier.flatten.length + front.length) :
      Remains buffers place (back :: later)
  | nothing (all : buffers.flatten.length ≤ place) : Remains buffers place []

namespace Remains

theorem whole (buffers : List Bytes) : Remains buffers 0 buffers := by
  cases buffers with
  | nil => exact nothing (Nat.le_refl 0)
  | cons b later => exact within [] [] rfl rfl

theorem flatten_eq (h : Remains buffers place left) :
    left.flatten = buffers.flatten.drop place := by
  cases h with
  | within earlier front split before =>
    rw [split, before, List.flatten_append, List.drop_length_add_append, List.flatten_cons,
      List.flatten_cons, List.append_assoc, List.drop_left]
  | nothing all => rw [List.drop_eq_nil_of_le all, List.flatten_nil]

/-- A part of the first buffer is taken. -/
theorem inside {b : Bytes} {later : List Bytes} {n : Nat} (h : Remains buffers place (b :: later))
    (le : n ≤ b.length) : Remains buffers (place + n) (b.drop n :: later) := by
  cases h with
  | within earlier front split before =>
    refine within earlier (front ++ b.take n) ?_ ?_
    · rw [split, List.append_assoc, List.take_append_drop]
    · rw [before, List.length_append, List.length_take]
      omega

/-- All of the first buffer is taken. -/
theorem behind {b : Bytes} {later : List Bytes} (h : Remains buffers place (b :: later)) :
    Remains buffers (place + b.length) later := by
  cases h with
  | within earlier front split before =>
    cases later with
    | nil =>
      apply nothing
      rw [split, before]
      simp [Nat.add_assoc]
    | cons next later =>
      refine within (earlier ++ [front ++ b]) [] ?_ ?_
      · rw [split, List.append_assoc]
        rfl
      · rw [before]
        simp [Nat.add_assoc]

/-- Buffers without a byte do not count. -/
theorem skip (h : Remains buffers place left) :
    Remains buffers place (left.dropWhile List.isEmpty) := by
  induction left with
  | nil => exact h
  | cons b later ih =>
    cases b with
    | nil => exact ih h.behind
    | cons byte b => exact h

theorem draw (h : Remains buffers place left) (n : Nat) :
    Remains buffers (place + n) (Chunk.draw n left).2 := by
  induction left generalizing place n with
  | nil =>
    cases h with
    | nothing all => exact nothing (by omega)
  | cons b later ih =>
    unfold Chunk.draw
    split
    · rename_i hle
      exact h.inside hle
    · have hlater := ih h.behind (n - b.length)
      rwa [show place + b.length + (n - b.length) = place + n by omega] at hlater

end Remains

/-- A call takes as many bytes as a chunk can hold. -/
theorem Remains.next (h : Remains buffers place left) (hnext : next? size left = some (c, rest)) :
    Remains buffers (place + size) rest := by
  have hskip := h.skip
  obtain ⟨b, later, hb, -, ⟨hle, -, rfl⟩ | ⟨hlt, hlater, -, rfl⟩ | ⟨hlt, -, -, rfl⟩⟩ :=
    next?_cases hnext
  all_goals rw [hb] at hskip
  · exact hskip.inside hle
  · -- Only the last chunk can be shorter, and behind it there is nothing.
    have hlength := congrArg List.length hskip.flatten_eq
    rw [List.flatten_cons, hlater, List.append_nil, List.length_drop] at hlength
    exact .nothing (by omega)
  · have hdraw := hskip.behind.draw (size - b.length)
    rwa [show place + b.length + (size - b.length) = place + size by omega] at hdraw

/-- A chunk ends where the bytes end, or before. -/
theorem Remains.next_inside (h : Remains buffers place left)
    (hnext : next? size left = some (c, rest)) (hne : c.bytes ≠ []) :
    place + c.bytes.length ≤ buffers.flatten.length := by
  have hpos := List.length_pos_iff.mpr hne
  have hleft := congrArg List.length h.flatten_eq
  have htake := congrArg List.length (next?_bytes hnext)
  rw [List.length_drop] at hleft
  rw [List.length_take] at htake
  omega

/-- The first buffer that remains is the rest of one of all buffers: of the bytes from the place on,
those that are left in it stand in that one, and no others. -/
theorem Remains.exists_standsIn_iff {b : Bytes} {later : List Bytes}
    (h : Remains buffers place (b :: later)) :
    ∃ j, ∀ p, place ≤ p → (StandsIn buffers p j ↔ p < place + b.length) := by
  cases h with
  | within earlier front split before =>
    have hfirst : buffers[earlier.length]? = some (front ++ b) := by simp [split]
    have hstart : start buffers earlier.length = earlier.flatten.length := by
      rw [split, start_append]
    have hlength : (front ++ b).length = front.length + b.length := List.length_append
    refine ⟨earlier.length, fun p hp => ⟨?_, ?_⟩⟩
    · rintro ⟨other, hother, -, hTo⟩
      obtain rfl : front ++ b = other := Option.some.inj (hfirst.symm.trans hother)
      omega
    · intro hlt
      exact ⟨front ++ b, hfirst, by omega, by omega⟩

/-- Up to the last chunk, each call moves on by the size of a chunk. -/
theorem remains_left (pos : 0 < size) (buffers : List Bytes) {calls : Nat}
    (h : calls ≤ (chunks size pos buffers).length) :
    Remains buffers (size * calls) (Chunk.left size buffers calls) := by
  induction calls with
  | zero => exact .whole buffers
  | succ calls ih =>
    have hchunk := getElem?_chunks pos buffers calls
    rw [List.getElem?_eq_getElem h] at hchunk
    obtain ⟨⟨c, rest⟩, hnext, -⟩ := Option.map_eq_some_iff.mp hchunk.symm
    rw [left_succ_of_some hnext, Nat.mul_succ]
    exact (ih (by omega)).next hnext

/-! ## Copied or lent -/

/-- A copied chunk takes bytes from two buffers: the one that the call begins with, and the one that
holds the first byte behind it. -/
theorem Remains.exists_takesFrom (h : Remains buffers place left)
    (hnext : next? size left = some (c, rest)) (copied : c.copied = true) :
    ∃ j k, j ≠ k ∧ TakesFrom buffers place c.bytes.length j ∧
      TakesFrom buffers place c.bytes.length k := by
  obtain ⟨b, later, hb, hne, ⟨-, rfl, -⟩ | ⟨-, -, rfl, -⟩ | ⟨hlt, hlater, rfl, -⟩⟩ :=
    next?_cases hnext
  · cases copied
  · cases copied
  · have hskip := h.skip
    rw [hb] at hskip
    obtain ⟨j, hj⟩ := hskip.exists_standsIn_iff
    have hpos := List.length_pos_iff.mpr hne
    have hmore : 0 < (Chunk.draw (size - b.length) later).1.length := by
      rw [List.length_pos_iff, draw_bytes, ne_eq, List.take_eq_nil_iff, not_or]
      exact ⟨by omega, hlater⟩
    have hinside := h.next_inside hnext (by simp [hne])
    simp only [List.length_append] at hinside ⊢
    obtain ⟨k, hk⟩ := exists_standsIn (show place + b.length < buffers.flatten.length by omega)
    refine ⟨j, k, ?_, ⟨place, by omega, by omega, (hj place (by omega)).mpr (by omega)⟩,
      ⟨place + b.length, by omega, by omega, hk⟩⟩
    rintro rfl
    have := (hj _ (by omega)).mp hk
    omega

/-- Any other chunk is lent by the buffer that the call begins with. -/
theorem Remains.exists_lentFrom (h : Remains buffers place left)
    (hnext : next? size left = some (c, rest)) (lent : c.copied = false) :
    ∃ j, LentFrom buffers place c.bytes j := by
  obtain ⟨b, later, hb, -, hcases⟩ := next?_cases hnext
  have hfront : ∃ back, b = c.bytes ++ back := by
    rcases hcases with ⟨-, rfl, -⟩ | ⟨-, -, rfl, -⟩ | ⟨-, -, rfl, -⟩
    · exact ⟨b.drop size, (List.take_append_drop size b).symm⟩
    · exact ⟨[], (List.append_nil b).symm⟩
    · cases lent
  obtain ⟨back, rfl⟩ := hfront
  have hskip := h.skip
  rw [hb] at hskip
  cases hskip with
  | within earlier front split before =>
    refine ⟨earlier.length, front, back, ?_, ?_⟩
    · simp [split]
    · rw [split, start_append, before]

end Chunk

/-- **A chunk is copied exactly if it has to be.** Of all chunks that the calls give, the one with
number `i` holds the bytes from place `size * i` on. It is copied if these bytes stand in two buffers
or more; otherwise it is lent by the one buffer that they stand in. -/
theorem cut_copied_iff {size : Nat} (pos : 0 < size) (buffers : List Bytes) :
    ∃ cs, cut size buffers = .ok cs ∧ Chunk.Partition size buffers cs ∧ ∀ i c, cs[i]? = some c →
      c.bytes = (buffers.flatten.drop (size * i)).take size ∧
      (c.copied = true ↔ ∃ j k, j ≠ k ∧
        Chunk.TakesFrom buffers (size * i) c.bytes.length j ∧
        Chunk.TakesFrom buffers (size * i) c.bytes.length k) ∧
      (c.copied = false → ∃ j, Chunk.LentFrom buffers (size * i) c.bytes j ∧
        ∀ k, Chunk.TakesFrom buffers (size * i) c.bytes.length k → k = j) := by
  refine ⟨chunks size pos buffers, dif_pos pos, Chunk.partition_chunks pos buffers, ?_⟩
  intro i c hc
  obtain ⟨hi, -⟩ := List.getElem?_eq_some_iff.mp hc
  have hremains := Chunk.remains_left pos buffers (Nat.le_of_lt hi)
  rw [getElem?_chunks] at hc
  obtain ⟨⟨found, rest⟩, hnext, rfl⟩ := Option.map_eq_some_iff.mp hc
  refine ⟨?_, ⟨hremains.exists_takesFrom hnext, ?_⟩, ?_⟩
  · rw [Chunk.next?_bytes hnext, hremains.flatten_eq]
  · rintro ⟨j, k, hne, hj, hk⟩
    by_contra hlent
    obtain ⟨l, hl⟩ := hremains.exists_lentFrom hnext (Bool.eq_false_iff.mpr hlent)
    exact hne ((hl.eq_of_takesFrom hj).trans (hl.eq_of_takesFrom hk).symm)
  · intro hlent
    obtain ⟨l, hl⟩ := hremains.exists_lentFrom hnext hlent
    exact ⟨l, hl, fun k hk => hl.eq_of_takesFrom hk⟩

/-- The first chunk takes bytes from two buffers, with an empty one between them; the last one is
lent, although it is short and another empty buffer stands behind it. -/
theorem cut_copied_iff_of_four_buffers :
    0 < 3 ∧ cut 3 [[1, 2], [], [3, 4, 5], []] = .ok [⟨[1, 2, 3], true⟩, ⟨[4, 5], false⟩] ∧
      (∃ j k, j ≠ k ∧ Chunk.TakesFrom [[1, 2], [], [3, 4, 5], []] 0 3 j ∧
        Chunk.TakesFrom [[1, 2], [], [3, 4, 5], []] 0 3 k) ∧
      ∃ j, Chunk.LentFrom [[1, 2], [], [3, 4, 5], []] 3 [4, 5] j := by
  obtain ⟨cs, hcut, -, hcs⟩ := cut_copied_iff (by decide : 0 < 3) [[1, 2], [], [3, 4, 5], []]
  have hchunks : cut 3 [[1, 2], [], [3, 4, 5], []]
      = .ok [⟨[1, 2, 3], true⟩, ⟨[4, 5], false⟩] := by decide +kernel
  obtain rfl : cs = [⟨[1, 2, 3], true⟩, ⟨[4, 5], false⟩] :=
    Except.ok.inj (hcut.symm.trans hchunks)
  obtain ⟨-, hcopied, -⟩ := hcs 0 _ rfl
  obtain ⟨-, -, hlent⟩ := hcs 1 _ rfl
  obtain ⟨j, hj, -⟩ := hlent rfl
  exact ⟨by decide, hchunks, hcopied.mp rfl, j, hj⟩

end CanTransfer
