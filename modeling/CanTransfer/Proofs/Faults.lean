import CanTransfer.Proofs.Conservation
import CanTransfer.Proofs.History
import CanTransfer.Proofs.Residue

/-!
# Which frames end a reception with a fault

* `ReceptionFault.Genuine` — the two values that a fault reports are different ones.
* `Frame.Breaks`, `Reception.feed_gathering_eq_failed_iff` — what is wrong with a frame that ends the
  reception of an open transfer; of several faults the first is reported.
* `Reception.OpenSince`, `Reception.openSince_iff` — a transfer that was begun and not disturbed, read
  off the outcomes, is an open one, read off the tails.
* `Reception.fails_iff` — a frame fails exactly if it breaks the transfer that is open before it.
-/

set_option autoImplicit false

namespace CanTransfer

/-! ## Reports -/

/-- The fault reports two different values. -/
def ReceptionFault.Genuine : ReceptionFault → Prop
  | .toggle expected received => expected ≠ received
  | .transferId expected received => expected ≠ received
  | .checksum transmitted computed => transmitted ≠ computed

theorem TrailerFault.genuine {bytes : Bytes} {fault : ReceptionFault} (h : TrailerFault bytes fault) :
    fault.Genuine := by
  cases h with
  | short few => exact (Crc.ofBytes_ne_zero few).symm
  | mismatch other => exact fun heq => other (Crc.ofDigest_eq_iff.mp heq)

theorem TransferId.toByte_inj {i j : TransferId} : i.toByte = j.toByte ↔ i = j := by
  constructor
  · intro h
    have hval := congrArg UInt8.toNat h
    simp only [toByte, UInt8.toNat_ofNat'] at hval
    apply Fin.ext
    omega
  · rintro rfl
    rfl

/-! ## A frame behind an open transfer -/

/-- What is wrong with a frame behind the frames `m` and `middle` of an open transfer, and how it is
reported: another transfer id, or else a toggle out of turn, or else, in a last frame, the CRC. -/
inductive Frame.Breaks (m : Frame) (middle : List Frame) (f : Frame) : ReceptionFault → Prop
  | transferId (other : f.tail.transferId ≠ m.tail.transferId) :
      Breaks m middle f (.transferId m.tail.transferId.toByte f.tail.transferId.toByte)
  | toggle (same : f.tail.transferId = m.tail.transferId)
      (other : f.tail.toggle ≠ Tail.flipped m.tail.toggle (middle.length + 1)) :
      Breaks m middle f
        (.toggle (Tail.flipped m.tail.toggle (middle.length + 1)) f.tail.toggle)
  | checksum {fault : ReceptionFault} (same : f.tail.transferId = m.tail.transferId)
      (inTurn : f.tail.toggle = Tail.flipped m.tail.toggle (middle.length + 1))
      (last : f.tail.last = true) (refused : TrailerFault (Frame.bytes (m :: middle ++ [f])) fault) :
      Breaks m middle f fault

variable {m f : Frame} {middle : List Frame} {fault : ReceptionFault}

theorem Frame.Breaks.genuine (h : m.Breaks middle f fault) : fault.Genuine := by
  cases h with
  | transferId other => exact fun heq => other (TransferId.toByte_inj.mp heq).symm
  | toggle _ other => exact other.symm
  | checksum _ _ _ refused => exact refused.genuine

theorem Outcome.result_eq_error_iff {o : Outcome} : o.result = .error fault ↔ o = .failed fault := by
  cases o <;> simp [result]

namespace Reception

theorem finish_eq_failed_iff {transferId : TransferId} {gathered : Bytes} :
    finish f transferId gathered = .failed fault ↔ TrailerFault gathered fault := by
  rw [← openTrailer_eq_error_iff]
  unfold finish
  split
  · rename_i h
    simp [h]
  · rename_i h
    simp [h]

/-- A last frame is either delivered or refused. -/
theorem result_finish_ne (f : Frame) (transferId : TransferId) (gathered : Bytes) :
    (finish f transferId gathered).result ≠ .ok none := by
  unfold finish
  split <;> simp [Outcome.result]

theorem feed_gathering_eq_failed_iff (notFirst : f.tail.first = false) :
    ((gathering m middle).feed f).1 = .failed fault ↔ m.Breaks middle f fault := by
  by_cases htid : f.tail.transferId = m.tail.transferId
  · by_cases htoggle : f.tail.toggle = Tail.flipped m.tail.toggle (middle.length + 1)
    · by_cases hlast : f.tail.last = true
      · rw [feed_last ⟨notFirst, htid, htoggle⟩ hlast, finish_eq_failed_iff]
        constructor
        · exact .checksum htid htoggle hlast
        · intro h
          cases h with
          | transferId other => exact absurd htid other
          | toggle _ other => exact absurd htoggle other
          | checksum _ _ _ refused => exact refused
      · rw [feed_follows ⟨notFirst, htid, htoggle⟩ (by simpa using hlast)]
        constructor
        · intro h
          cases h
        · intro h
          cases h with
          | transferId other => exact absurd htid other
          | toggle _ other => exact absurd htoggle other
          | checksum _ _ last => exact absurd last hlast
    · rw [feed_of_toggle_ne notFirst htid htoggle]
      constructor
      · intro h
        cases h
        exact .toggle htid htoggle
      · intro h
        cases h with
        | transferId other => exact absurd htid other
        | toggle => rfl
        | checksum _ inTurn => exact absurd inTurn htoggle
  · rw [feed_of_transferId_ne notFirst htid]
    constructor
    · intro h
      cases h
      exact .transferId htid
    · intro h
      cases h with
      | transferId => rfl
      | toggle same => exact absurd same htid
      | checksum same => exact absurd same htid

/-- A first frame never fails. -/
theorem start_ne_failed (f : Frame) (fault : ReceptionFault) : (start f).1 ≠ .failed fault := by
  unfold start
  split <;> simp

/-- After a fault the reception is idle. -/
theorem idle_of_failed {r : Reception} (h : (r.feed f).1 = .failed fault) : (r.feed f).2 = idle := by
  by_cases hfirst : f.tail.first = true
  · rw [feed_first hfirst] at h
    exact absurd h (start_ne_failed f fault)
  · cases r with
    | idle =>
      simp only [feed, if_neg hfirst] at h
      cases h
    | receiving transferId toggle gathered =>
      rw [Bool.not_eq_true] at hfirst
      rcases feed_receiving hfirst transferId toggle gathered with ⟨-, hnext⟩ | ⟨haccepted, -⟩
      · exact hnext
      · rw [haccepted] at h
        cases h

/-! ## The transfer that is open -/

/-- `m` was fed after `earlier` and is a first frame, but not a last one. Since then only the frames
of `middle` were fed, none of them a first one, and none of them delivered a transfer or failed. -/
structure OpenSince (earlier : List Op) (m : Frame) (middle : List Frame) : Prop where
  first : m.tail.first = true
  notLast : m.tail.last = false
  latest : ∀ g ∈ middle, g.tail.first = false
  undisturbed : ∀ o ∈ ((idle.run (earlier ++ [.feed m])).2.feedAll middle).1, o.result = .ok none

variable {earlier : List Op}

theorem run_feedAll (earlier : List Op) (m : Frame) (middle : List Frame) :
    (idle.run (earlier ++ (m :: middle).map .feed)).2 =
      ((idle.run (earlier ++ [.feed m])).2.feedAll middle).2 := by
  rw [List.map_cons, ← List.singleton_append, ← List.append_assoc, run_append, run_feeds]

/-- What came of the frames says that they fit together. -/
theorem OpenSince.isOpen (h : OpenSince earlier m middle) : m.Open middle := by
  induction middle using List.reverseRecOn with
  | nil => exact .nil h.first h.notLast
  | append_singleton middle g ih =>
    have hundisturbed := h.undisturbed
    rw [feedAll_concat] at hundisturbed
    have hopen : m.Open middle :=
      ih ⟨h.first, h.notLast, fun f hf => h.latest f (List.mem_append_left _ hf),
        fun o ho => hundisturbed o (List.mem_append_left _ ho)⟩
    have hg : ((gathering m middle).feed g).1.result = .ok none := by
      rw [← run_of_openAfter ⟨hopen, earlier, rfl⟩ idle, run_feedAll]
      exact hundisturbed _ (by simp)
    have hfollows : m.Follows (middle.length + 1) g := by
      refine Classical.byContradiction fun hnot => ?_
      obtain ⟨fault, hfault⟩ := feed_misfit (h.latest g (by simp)) hnot
      rw [hfault] at hg
      cases hg
    refine hopen.concat hfollows ?_
    rw [← Bool.not_eq_true]
    intro hlast
    rw [feed_last hfollows hlast] at hg
    exact result_finish_ne _ _ _ hg

theorem openSince_iff : OpenSince earlier m middle ↔ m.Open middle := by
  refine ⟨OpenSince.isOpen, fun h => ⟨h.first, h.notLast, ?_, ?_⟩⟩
  · intro g hg
    obtain ⟨i, hi⟩ := List.mem_iff_getElem?.mp hg
    exact (h.follows i g hi).notFirst
  · intro o ho
    have hall := congrArg Prod.fst (feedAll_open h (idle.run earlier).2)
    rw [run_append] at ho
    have hmem : o ∈ ((idle.run earlier).2.feedAll (m :: middle)).1 := List.mem_cons_of_mem _ ho
    rw [hall] at hmem
    rw [List.eq_of_mem_replicate hmem]
    rfl

/-- The frame breaks the transfer that is open after the history. -/
def BreaksAfter (history : List Op) (f : Frame) (fault : ReceptionFault) : Prop :=
  f.tail.first = false ∧ ∃ earlier m middle, history = earlier ++ (m :: middle).map .feed ∧
    OpenSince earlier m middle ∧ m.Breaks middle f fault

theorem feed_eq_failed_iff {history : List Op} :
    ((idle.run history).2.feed f).1 = .failed fault ↔ BreaksAfter history f fault := by
  constructor
  · intro h
    by_cases hfirst : f.tail.first = true
    · rw [feed_first hfirst] at h
      exact absurd h (start_ne_failed f fault)
    · rw [Bool.not_eq_true] at hfirst
      rcases run_idle_or_openAfter history with hidle | ⟨m, middle, hopen⟩
      · rw [hidle, feed_idle hfirst] at h
        cases h
      · rw [run_of_openAfter hopen, feed_gathering_eq_failed_iff hfirst] at h
        obtain ⟨hm, earlier, hhistory⟩ := hopen
        exact ⟨hfirst, earlier, m, middle, hhistory, openSince_iff.mpr hm, h⟩
  · rintro ⟨notFirst, earlier, m, middle, hhistory, hopen, hbreaks⟩
    rw [run_of_openAfter ⟨openSince_iff.mp hopen, earlier, hhistory⟩]
    exact (feed_gathering_eq_failed_iff notFirst).mpr hbreaks

/-- **Faults are complete and genuine.** Of a reception that was idle at first, a frame fails if and
only if it is not a first frame and breaks the transfer that is open before it, and what it breaks
first is reported: the transfer id, the toggle, which changes with each frame, or the CRC. The two
values of a report are never the same, and the reception is idle afterwards. Every other frame that
delivers nothing is answered with nothing. -/
theorem fails_iff (before after : List Op) (f : Frame) :
    ∃ outcome, (idle.run (before ++ .feed f :: after)).1[before.length]? = some (some outcome) ∧
      (∀ fault, outcome.result = .error fault ↔ BreaksAfter before f fault) ∧
      (∀ fault, BreaksAfter before f fault →
        fault.Genuine ∧ (idle.run (before ++ [.feed f])).2 = idle) ∧
      ((∀ fault, ¬ BreaksAfter before f fault) → (∀ d, outcome.result ≠ .ok (some d)) →
        outcome.result = .ok none) := by
  refine ⟨_, run_getElem? idle before after f, ?_, ?_, ?_⟩
  · intro fault
    rw [Outcome.result_eq_error_iff, feed_eq_failed_iff]
  · intro fault h
    have hidle := idle_of_failed (feed_eq_failed_iff.mpr h)
    obtain ⟨-, _, _, _, -, -, hbreaks⟩ := h
    refine ⟨hbreaks.genuine, ?_⟩
    rw [run_append]
    exact hidle
  · intro unbroken undelivered
    cases hout : ((idle.run before).2.feed f).1 with
    | orphan => rfl
    | accepted => rfl
    | delivered d => exact absurd (by rw [hout]; rfl) (undelivered d)
    | failed fault => exact absurd (feed_eq_failed_iff.mp hout) (unbroken fault)

/-- A frame with another transfer id and a toggle out of turn is reported for its transfer id, and is
compared with the transfer begun after the reset; and where a single byte is too few for a CRC, the
zero that is reported is not the CRC of this byte. -/
theorem fails_iff_behind_reset_and_short :
    (∃ outcome, (idle.run [.feed ⟨9, [1], ⟨true, false, true, 7⟩, false⟩, .reset,
        .feed ⟨9, [1], ⟨true, false, false, 4⟩, false⟩,
        .feed ⟨9, [2], ⟨false, false, true, 4⟩, false⟩,
        .feed ⟨9, [3], ⟨false, true, true, 7⟩, false⟩]).1[4]? = some (some outcome) ∧
      outcome.result = .error (.transferId 4 7)) ∧
    ∃ outcome, (idle.run [.feed ⟨9, [1], ⟨true, false, true, 4⟩, false⟩,
        .feed ⟨9, [], ⟨false, true, false, 4⟩, false⟩]).1[1]? = some (some outcome) ∧
      outcome.result = .error (.checksum 0 (Crc.ofBytes [1])) ∧ 0 ≠ Crc.ofBytes [1] := by
  have hreset : BreaksAfter [.feed ⟨9, [1], ⟨true, false, true, 7⟩, false⟩, .reset,
      .feed ⟨9, [1], ⟨true, false, false, 4⟩, false⟩,
      .feed ⟨9, [2], ⟨false, false, true, 4⟩, false⟩]
      ⟨9, [3], ⟨false, true, true, 7⟩, false⟩ (.transferId 4 7) :=
    ⟨rfl, [.feed ⟨9, [1], ⟨true, false, true, 7⟩, false⟩, .reset], _, [_], rfl,
      openSince_iff.mpr (Frame.Open.concat (.nil rfl rfl) ⟨rfl, rfl, rfl⟩ rfl),
      .transferId (by decide)⟩
  have hshort : BreaksAfter [.feed ⟨9, [1], ⟨true, false, true, 4⟩, false⟩]
      ⟨9, [], ⟨false, true, false, 4⟩, false⟩ (.checksum 0 (Crc.ofBytes [1])) :=
    ⟨rfl, [], _, [], rfl, openSince_iff.mpr (.nil rfl rfl),
      .checksum rfl rfl rfl (.short (by decide))⟩
  obtain ⟨outcome, hanswer, hfails, -⟩ := fails_iff
    [.feed ⟨9, [1], ⟨true, false, true, 7⟩, false⟩, .reset,
      .feed ⟨9, [1], ⟨true, false, false, 4⟩, false⟩,
      .feed ⟨9, [2], ⟨false, false, true, 4⟩, false⟩] [] ⟨9, [3], ⟨false, true, true, 7⟩, false⟩
  obtain ⟨outcome', hanswer', hfails', hgenuine, -⟩ := fails_iff
    [.feed ⟨9, [1], ⟨true, false, true, 4⟩, false⟩] [] ⟨9, [], ⟨false, true, false, 4⟩, false⟩
  exact ⟨⟨outcome, hanswer, (hfails _).mpr hreset⟩,
    outcome', hanswer', (hfails' _).mpr hshort, (hgenuine _ hshort).1⟩

end Reception

end CanTransfer
