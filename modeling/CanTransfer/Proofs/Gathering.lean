import Mathlib.Data.List.Basic
import Mathlib.Data.List.Induction
import CanTransfer.Proofs.Runs
import CanTransfer.Reception.Basic

/-!
# Frames that a reception gathers

Which frames make up a transfer, said of the frames alone, and what a reception does with them.

* `openTrailer_eq_ok_iff` — the bytes that pass the check of the CRC are those that end with it.
* `TrailerFault`, `openTrailer_eq_error_iff` — what is wrong with bytes that do not pass.
* `Frame.Follows`, `Frame.Open`, `Frame.Completes` — a frame that fits behind others, the frames of
  a transfer that has begun and not ended, and those of a whole one.
* `Reception.gathering` — the reception after an open transfer.
* `Reception.feed_follows`, `Reception.feed_misfit` — a frame that follows is gathered, any other
  that does not begin a transfer ends the reception.
* `Reception.feedAll_open`, `Reception.feedAll_completes` — from any state, the frames of a transfer
  are accepted up to the last, and that one has the outcome that the CRC decides.
-/

set_option autoImplicit false

namespace CanTransfer

/-! ## The CRC behind the bytes -/

namespace Crc

theorem ofDigest_digest (r : Crc) :
    ofDigest (UInt8.ofBitVec (r.extractLsb' 8 8)) (UInt8.ofBitVec (r.extractLsb' 0 8)) = r := by
  apply BitVec.eq_of_getLsbD_eq
  intro i hi
  simp only [ofDigest, BitVec.getLsbD_append, BitVec.getLsbD_extractLsb']
  split
  · simp [*]
  · rw [Nat.add_comm 8, Nat.sub_add_cancel (by omega)]
    simp
    omega

theorem digest_ofDigest (high low : UInt8) : (ofDigest high low).digest = [high, low] := by
  have hbit : ∀ i, (ofDigest high low).getLsbD i
      = if i < 8 then low.toBitVec.getLsbD i else high.toBitVec.getLsbD (i - 8) :=
    fun i => BitVec.getLsbD_append
  have hhigh : (ofDigest high low).extractLsb' 8 8 = high.toBitVec := by
    apply BitVec.eq_of_getLsbD_eq
    intro i hi
    rw [BitVec.getLsbD_extractLsb', hbit, if_neg (by omega), Nat.add_sub_cancel_left]
    simp [hi]
  have hlow : (ofDigest high low).extractLsb' 0 8 = low.toBitVec := by
    apply BitVec.eq_of_getLsbD_eq
    intro i hi
    rw [BitVec.getLsbD_extractLsb', hbit, Nat.zero_add, if_pos hi]
    simp [hi]
  simp [digest, hhigh, hlow]

/-- Two bytes are the digest of a register exactly if they stand for it. -/
theorem ofDigest_eq_iff {high low : UInt8} {r : Crc} :
    ofDigest high low = r ↔ [high, low] = r.digest := by
  constructor
  · rintro rfl
    exact (digest_ofDigest high low).symm
  · intro h
    simp only [digest, List.cons.injEq, and_true] at h
    rw [h.1, h.2]
    exact ofDigest_digest r

@[simp] theorem length_digest (r : Crc) : r.digest.length = length := rfl

end Crc

/-- The check passes bytes exactly if the CRC of those in front stands at their end. -/
theorem openTrailer_eq_ok_iff {bytes body : Bytes} :
    openTrailer bytes = .ok body ↔ bytes = body ++ (Crc.ofBytes body).digest := by
  unfold openTrailer
  constructor
  · intro h
    simp only at h
    split at h
    · rename_i high low hdrop
      split at h
      · rename_i hcrc
        cases h
        rw [← Crc.ofDigest_eq_iff.mp hcrc, ← hdrop, List.take_append_drop]
      · cases h
    · cases h
  · rintro rfl
    have hlen : (body ++ (Crc.ofBytes body).digest).length - Crc.length = body.length := by
      simp
    rw [hlen, List.take_left, List.drop_left]
    simp only [Crc.digest]
    rw [if_pos (Crc.ofDigest_digest _)]

/-- What is wrong with bytes that do not end with their CRC, and how it is reported. -/
inductive TrailerFault : Bytes → ReceptionFault → Prop
  /-- A CRC does not fit in. -/
  | short {bytes : Bytes} (few : bytes.length < Crc.length) :
      TrailerFault bytes (.checksum 0 (Crc.ofBytes bytes))
  /-- Other bytes stand where the CRC should. -/
  | mismatch {body : Bytes} {high low : UInt8} (other : [high, low] ≠ (Crc.ofBytes body).digest) :
      TrailerFault (body ++ [high, low])
        (.checksum (Crc.ofDigest high low) (Crc.ofBytes body))

theorem openTrailer_of_short {bytes : Bytes} (h : bytes.length < Crc.length) :
    openTrailer bytes = .error (.checksum 0 (Crc.ofBytes bytes)) := by
  have hcrc : Crc.length = 2 := rfl
  unfold openTrailer
  rw [Nat.sub_eq_zero_of_le (by omega), List.drop_zero]
  simp only
  split
  · simp only [List.length_cons, List.length_nil] at h
    omega
  · rfl

theorem openTrailer_append_pair (body : Bytes) (high low : UInt8) :
    openTrailer (body ++ [high, low]) =
      if Crc.ofDigest high low = Crc.ofBytes body then .ok body
      else .error (.checksum (Crc.ofDigest high low) (Crc.ofBytes body)) := by
  have hlength : (body ++ [high, low]).length - Crc.length = body.length := by simp [Crc.length]
  unfold openTrailer
  rw [hlength, List.take_left, List.drop_left]

/-- Bytes that hold a CRC are a body and two more. -/
theorem Bytes.exists_eq_append_pair {bytes : Bytes} (h : Crc.length ≤ bytes.length) :
    ∃ body high low, bytes = body ++ [high, low] := by
  have hrest : (bytes.drop (bytes.length - Crc.length)).length = Crc.length := by
    rw [List.length_drop]
    omega
  obtain ⟨high, low, hlast⟩ := List.length_eq_two.mp hrest
  exact ⟨bytes.take (bytes.length - Crc.length), high, low, by rw [← hlast, List.take_append_drop]⟩

theorem openTrailer_eq_error_iff {bytes : Bytes} {fault : ReceptionFault} :
    openTrailer bytes = .error fault ↔ TrailerFault bytes fault := by
  constructor
  · intro h
    by_cases hshort : bytes.length < Crc.length
    · rw [openTrailer_of_short hshort] at h
      cases h
      exact .short hshort
    · obtain ⟨body, high, low, rfl⟩ := Bytes.exists_eq_append_pair (Nat.le_of_not_lt hshort)
      rw [openTrailer_append_pair] at h
      split at h
      · cases h
      · rename_i hcrc
        cases h
        exact .mismatch fun heq => hcrc (Crc.ofDigest_eq_iff.mpr heq)
  · intro h
    cases h with
    | short few => exact openTrailer_of_short few
    | mismatch other =>
      rw [openTrailer_append_pair, if_neg fun heq => other (Crc.ofDigest_eq_iff.mp heq)]

/-! ## Frames that belong together -/

namespace Tail

/-- A toggle after `n` changes. -/
def flipped (toggle : Bool) (n : Nat) : Bool := if n % 2 = 0 then toggle else !toggle

@[simp] theorem flipped_zero (toggle : Bool) : flipped toggle 0 = toggle := rfl

theorem flipped_succ (toggle : Bool) (n : Nat) : flipped toggle (n + 1) = !flipped toggle n := by
  unfold flipped
  by_cases h : n % 2 = 0
  · rw [if_neg (by omega), if_pos h]
  · rw [if_pos (by omega), if_neg h, Bool.not_not]

/-- The toggle tells apart numbers of changes by their parity, and by nothing else. -/
theorem flipped_eq_iff {toggle : Bool} {n k : Nat} :
    flipped toggle n = flipped toggle k ↔ n % 2 = k % 2 := by
  unfold flipped
  by_cases hn : n % 2 = 0 <;> by_cases hk : k % 2 = 0 <;> simp [hn, hk] <;> omega

/-- A sender with the other first toggle has the other toggle throughout. -/
theorem flipped_xor (toggle other : Bool) (n : Nat) :
    flipped (toggle ^^ other) n = (flipped toggle n ^^ other) := by
  unfold flipped
  split
  · rfl
  · rw [Bool.not_xor]

theorem toggleAt_eq_flipped (index : Nat) : toggleAt index = flipped firstToggle index := by
  by_cases h : index % 2 = 0 <;> simp [toggleAt, flipped, firstToggle, h]

end Tail

namespace Frame

/-- The bytes in front of the tails of several frames, in order. -/
def bytes (frames : List Frame) : Bytes := frames.flatMap payload

theorem bytes_concat (frames : List Frame) (f : Frame) :
    bytes (frames ++ [f]) = bytes frames ++ f.payload := by
  simp [bytes]

/-- `f` fits behind the frame `m` that begins a transfer, as the `n`-th after it. -/
structure Follows (m : Frame) (n : Nat) (f : Frame) : Prop where
  notFirst : f.tail.first = false
  transferId : f.tail.transferId = m.tail.transferId
  toggle : f.tail.toggle = Tail.flipped m.tail.toggle n

/-- `m` begins a transfer, the frames of `middle` follow it, and none of all these ends it. -/
structure Open (m : Frame) (middle : List Frame) : Prop where
  first : m.tail.first = true
  notLast : m.tail.last = false
  follows : ∀ (i : Nat) (g : Frame), middle[i]? = some g → m.Follows (i + 1) g
  middleNotLast : ∀ g ∈ middle, g.tail.last = false

/-- `m`, `middle` and `f` are the frames of a whole transfer, with tails as they should be. -/
structure Completes (m : Frame) (middle : List Frame) (f : Frame) : Prop where
  begun : m.Open middle
  follows : m.Follows (middle.length + 1) f
  last : f.tail.last = true

variable {m f : Frame} {middle : List Frame}

theorem Open.nil (first : m.tail.first = true) (notLast : m.tail.last = false) :
    m.Open [] :=
  ⟨first, notLast, by simp, by simp⟩

/-- An open transfer stays open with a frame that follows and is not the last. -/
theorem Open.concat (h : m.Open middle) (follows : m.Follows (middle.length + 1) f)
    (notLast : f.tail.last = false) : m.Open (middle ++ [f]) := by
  refine ⟨h.first, h.notLast, ?_, ?_⟩
  · intro i g hg
    rw [List.getElem?_append] at hg
    split at hg
    · exact h.follows i g hg
    · rename_i hi
      obtain ⟨hi', rfl⟩ := List.getElem?_eq_some_iff.mp hg
      have heq : i = middle.length := by
        simp only [List.length_singleton] at hi'
        omega
      simpa [heq] using follows
  · intro g hg
    rcases List.mem_append.mp hg with hg | hg
    · exact h.middleNotLast g hg
    · rw [List.mem_singleton.mp hg]
      exact notLast

theorem Open.of_concat (h : m.Open (middle ++ [f])) :
    m.Open middle ∧ m.Follows (middle.length + 1) f ∧ f.tail.last = false := by
  refine ⟨⟨h.first, h.notLast, ?_, ?_⟩, ?_, ?_⟩
  · intro i g hg
    have hi := (List.getElem?_eq_some_iff.mp hg).1
    exact h.follows i g (by rw [List.getElem?_append_left hi, hg])
  · intro g hg
    exact h.middleNotLast g (List.mem_append_left _ hg)
  · exact h.follows middle.length f (by simp)
  · exact h.middleNotLast f (by simp)

end Frame

/-! ## What a reception does with them -/

namespace Reception

/-- The reception after the frames of an open transfer. -/
def gathering (m : Frame) (middle : List Frame) : Reception :=
  .receiving m.tail.transferId (Tail.flipped m.tail.toggle (middle.length + 1))
    (Frame.bytes (m :: middle))

variable {m f : Frame} {middle : List Frame} {r : Reception}

theorem feed_first (h : f.tail.first = true) (r : Reception) : r.feed f = start f := by
  cases r <;> simp [feed, h]

theorem feed_idle (h : f.tail.first = false) : idle.feed f = (.orphan, .idle) := by
  simp [feed, h]

theorem feed_open (h : m.Open []) (r : Reception) : r.feed m = (.accepted, gathering m []) := by
  rw [feed_first h.first]
  simp [start, h.notLast, gathering, Tail.flipped_succ, Frame.bytes]

theorem feed_follows (h : m.Follows (middle.length + 1) f) (notLast : f.tail.last = false) :
    (gathering m middle).feed f = (.accepted, gathering m (middle ++ [f])) := by
  have hbytes := Frame.bytes_concat (m :: middle) f
  simp only [feed, gathering, h.notFirst, h.transferId, h.toggle, notLast]
  simp [← Tail.flipped_succ, ← hbytes]

theorem feed_last (h : m.Follows (middle.length + 1) f) (last : f.tail.last = true) :
    (gathering m middle).feed f
      = (finish f m.tail.transferId (Frame.bytes (m :: middle ++ [f])), .idle) := by
  rw [Frame.bytes_concat]
  simp only [feed, gathering, h.notFirst, h.transferId, h.toggle, last]
  simp

theorem feed_of_transferId_ne (notFirst : f.tail.first = false)
    (h : f.tail.transferId ≠ m.tail.transferId) :
    (gathering m middle).feed f =
      (.failed (.transferId m.tail.transferId.toByte f.tail.transferId.toByte), .idle) := by
  simp [feed, gathering, notFirst, h]

theorem feed_of_toggle_ne (notFirst : f.tail.first = false)
    (htid : f.tail.transferId = m.tail.transferId)
    (h : f.tail.toggle ≠ Tail.flipped m.tail.toggle (middle.length + 1)) :
    (gathering m middle).feed f =
      (.failed (.toggle (Tail.flipped m.tail.toggle (middle.length + 1)) f.tail.toggle),
        .idle) := by
  simp [feed, gathering, notFirst, htid, h]

/-- A frame that neither begins a transfer nor follows those before ends the reception. -/
theorem feed_misfit (notFirst : f.tail.first = false) (h : ¬ m.Follows (middle.length + 1) f) :
    ∃ fault, (gathering m middle).feed f = (.failed fault, .idle) := by
  by_cases htid : f.tail.transferId = m.tail.transferId
  · exact ⟨_, feed_of_toggle_ne notFirst htid fun he => h ⟨notFirst, htid, he⟩⟩
  · exact ⟨_, feed_of_transferId_ne notFirst htid⟩

theorem start_eq_delivered_iff {d : Delivery} :
    (start f).1 = .delivered d ↔
      f.tail.last = true ∧ d = ⟨f.identifier, f.tail.transferId, f.payload, f.loopback⟩ := by
  unfold start
  split
  · rename_i h
    simp [h, eq_comm]
  · rename_i h
    simp [h]

/-- The last frame delivers exactly what the CRC in its bytes vouches for. -/
theorem finish_eq_delivered_iff {transferId : TransferId} {gathered : Bytes} {d : Delivery} :
    finish f transferId gathered = .delivered d ↔
      gathered = d.payload ++ (Crc.ofBytes d.payload).digest ∧ d.identifier = f.identifier ∧
        d.transferId = transferId ∧ d.loopback = f.loopback := by
  obtain ⟨identifier, id, payload, loopback⟩ := d
  rw [← openTrailer_eq_ok_iff]
  unfold finish
  split
  · rename_i h
    simp [h]
  · rename_i h
    simp only [h, Outcome.delivered.injEq, Delivery.mk.injEq, Except.ok.injEq]
    constructor
    · rintro ⟨rfl, rfl, rfl, rfl⟩
      exact ⟨rfl, rfl, rfl, rfl⟩
    · rintro ⟨rfl, rfl, rfl, rfl⟩
      exact ⟨rfl, rfl, rfl, rfl⟩

/-- Only a last frame delivers a transfer, and one of its own identifier. -/
theorem feed_eq_delivered {d : Delivery} (h : (r.feed f).1 = .delivered d) :
    f.tail.last = true ∧ d.identifier = f.identifier := by
  by_cases hfirst : f.tail.first = true
  · rw [feed_first hfirst, start_eq_delivered_iff] at h
    obtain ⟨hlast, rfl⟩ := h
    exact ⟨hlast, rfl⟩
  · cases r with
    | idle => simp [feed, hfirst] at h
    | receiving transferId toggle gathered =>
      simp only [feed, if_neg hfirst] at h
      split at h
      · cases h
      · split at h
        · cases h
        · split at h
          · rename_i hlast
            exact ⟨hlast, (finish_eq_delivered_iff.mp h).2.1⟩
          · cases h

/-! ## Many frames -/

theorem feedAll_eq_runOf (r : Reception) (frames : List Frame) :
    r.feedAll frames = runOf (fun r f => r.feed f) r frames := by
  induction frames generalizing r with
  | nil => rfl
  | cons f rest ih => simp only [feedAll, runOf, ih]

theorem feedAll_append (r : Reception) (front back : List Frame) :
    r.feedAll (front ++ back) =
      ((r.feedAll front).1 ++ ((r.feedAll front).2.feedAll back).1,
        ((r.feedAll front).2.feedAll back).2) := by
  simp only [feedAll_eq_runOf]
  exact runOf_append _ r front back

theorem feedAll_concat (r : Reception) (front : List Frame) (f : Frame) :
    r.feedAll (front ++ [f]) =
      ((r.feedAll front).1 ++ [((r.feedAll front).2.feed f).1],
        ((r.feedAll front).2.feed f).2) :=
  feedAll_append r front [f]

/-- The frames of an open transfer are accepted, whatever the reception was doing before. -/
theorem feedAll_open (h : m.Open middle) (r : Reception) :
    r.feedAll (m :: middle) =
      (List.replicate (middle.length + 1) .accepted, gathering m middle) := by
  induction middle using List.reverseRecOn with
  | nil => simp [feedAll, feed_open h]
  | append_singleton middle f ih =>
    obtain ⟨hopen, follows, notLast⟩ := h.of_concat
    rw [← List.cons_append, feedAll_concat, ih hopen, feed_follows follows notLast,
      List.length_append, List.length_singleton, ← List.replicate_succ']

/-- **The frames of a whole transfer are accepted up to the last one**, whatever the reception was
doing before; the CRC alone decides on the last. -/
theorem feedAll_completes (h : m.Completes middle f) (r : Reception) :
    r.feedAll (m :: (middle ++ [f])) =
      (List.replicate (middle.length + 1) .accepted ++
        [finish f m.tail.transferId (Frame.bytes (m :: middle ++ [f]))], .idle) := by
  rw [← List.cons_append, feedAll_concat, feedAll_open h.begun, feed_last h.follows h.last]

end Reception

end CanTransfer
