import Mathlib.Data.Finset.Card
import CanTransfer.Proofs.Isolation

/-!
# Conservation of receptions

A first frame starts a reception. The reception is over when it delivers a transfer or fails, when
another first frame supersedes it, or when it is reset or erased; until then it is in progress.

* `Reception.inProgress`, `ReceptionTable.inProgress` — the receptions that were started and are not
  over.
* `Reception.feed_conserves`, `Reception.run_conserves` — what a frame starts and ends, and what the
  operations on a lone reception do.
* `ReceptionTable.supersedes`, `ReceptionTable.abandons` — the receptions that an operation ends
  without an outcome.
* `ReceptionTable.step_conserves`, `ReceptionTable.conservation` — each reception that a table starts
  is accounted for, and no transfer or fault is counted without one.
-/

set_option autoImplicit false

namespace CanTransfer

/-- A reception is over with this outcome. -/
def Outcome.ends : Outcome → Bool
  | .delivered _ => true
  | .failed _ => true
  | .orphan => false
  | .accepted => false

namespace Statistics

/-- Receptions that delivered a transfer or failed. -/
def ended (s : Statistics) : Nat := s.transfers + s.faults

theorem ended_record (s : Statistics) (o : Outcome) :
    (s.record o).ended = s.ended + if o.ends then 1 else 0 := by
  cases o with
  | orphan => rfl
  | accepted => rfl
  | delivered d =>
    show s.transfers + 1 + s.faults = s.transfers + s.faults + 1
    omega
  | failed fault =>
    have hfaults : (s.record (.failed fault)).faults = s.faults + 1 := by
      cases fault <;> simp only [record, recordFault, faults] <;> omega
    rw [ended, hfaults]
    cases fault <;> rfl

end Statistics

/-! ## A lone reception -/

namespace Reception

/-- The receptions that were started and are not over: none or one. -/
def inProgress : Reception → Nat
  | .idle => 0
  | .receiving .. => 1

/-- The receptions that an operation starts: a first frame does so. -/
def begins (_ : Reception) : Op → Nat
  | .feed f => if f.tail.first then 1 else 0
  | .reset => 0

/-- The receptions that an operation brings to an outcome. -/
def ends (r : Reception) : Op → Nat
  | .feed f => if (r.feed f).1.ends then 1 else 0
  | .reset => 0

/-- The receptions that an operation supersedes: a first frame does so with one in progress. -/
def supersedes (r : Reception) : Op → Nat
  | .feed f => if f.tail.first then r.inProgress else 0
  | .reset => 0

/-- The receptions that an operation abandons: a reset does so with one in progress. -/
def abandons (r : Reception) : Op → Nat
  | .feed _ => 0
  | .reset => r.inProgress

theorem ends_finish (f : Frame) (transferId : TransferId) (gathered : Bytes) :
    (finish f transferId gathered).ends = true := by
  unfold finish
  split <;> rfl

/-- A reception in progress is over with the next frame that is not a first one, or takes it. -/
theorem feed_receiving {f : Frame} (notFirst : f.tail.first = false) (transferId : TransferId)
    (toggle : Bool) (gathered : Bytes) :
    ((feed f (receiving transferId toggle gathered)).1.ends = true ∧
        (feed f (receiving transferId toggle gathered)).2 = idle) ∨
      ((feed f (receiving transferId toggle gathered)).1 = .accepted ∧
        (feed f (receiving transferId toggle gathered)).2.inProgress = 1) := by
  simp only [feed]
  rw [if_neg (by simp [notFirst])]
  split
  · exact .inl ⟨rfl, rfl⟩
  split
  · exact .inl ⟨rfl, rfl⟩
  split
  · exact .inl ⟨ends_finish _ _ _, rfl⟩
  · exact .inr ⟨rfl, rfl⟩

/-- A first frame starts one reception, whatever was there before. -/
theorem start_conserves (f : Frame) :
    1 = (if (start f).1.ends then 1 else 0) + (start f).2.inProgress := by
  unfold start
  split <;> rfl

/-- What a frame starts and what was in progress is over, superseded or in progress afterwards. -/
theorem feed_conserves (r : Reception) (f : Frame) :
    (if f.tail.first then 1 else 0) + r.inProgress =
      (if (r.feed f).1.ends then 1 else 0) + (if f.tail.first then r.inProgress else 0) +
        (r.feed f).2.inProgress := by
  by_cases hfirst : f.tail.first = true
  · have hstart := start_conserves f
    rw [feed_first hfirst, if_pos hfirst, if_pos hfirst]
    omega
  · rw [if_neg hfirst, if_neg hfirst]
    rw [Bool.not_eq_true] at hfirst
    cases r with
    | idle =>
      rw [feed_idle hfirst]
      rfl
    | receiving transferId toggle gathered =>
      rcases feed_receiving hfirst transferId toggle gathered with ⟨hout, hnext⟩ | ⟨hout, hnext⟩
      · rw [hout, hnext]
        rfl
      · rw [hout, hnext]
        rfl

theorem step_conserves (r : Reception) (op : Op) :
    r.begins op + r.inProgress =
      r.ends op + r.supersedes op + r.abandons op + (r.step op).2.inProgress := by
  cases op with
  | feed f => exact feed_conserves r f
  | reset => simp [begins, ends, supersedes, abandons, step, inProgress]

theorem tallyOf_ends (r : Reception) (ops : List Op) :
    tallyOf step ends r ops = ((r.run ops).1.filterMap id).countP Outcome.ends := by
  induction ops generalizing r with
  | nil => rfl
  | cons op rest ih =>
    cases op with
    | feed f =>
      show ends r (.feed f) + tallyOf step ends (r.feed f).2 rest =
        ((r.feed f).1 :: ((r.feed f).2.run rest).1.filterMap id).countP Outcome.ends
      rw [ih, List.countP_cons, Nat.add_comm]
      rfl
    | reset =>
      show 0 + tallyOf step ends idle rest = _
      rw [ih, Nat.zero_add]
      rfl

/-- Every reception that a lone receiver starts is accounted for. -/
theorem run_conserves (r : Reception) (ops : List Op) :
    tallyOf step begins r ops + r.inProgress =
      ((r.run ops).1.filterMap id).countP Outcome.ends + tallyOf step supersedes r ops +
        tallyOf step abandons r ops + (r.run ops).2.inProgress := by
  rw [tallyOf_balance step step_conserves, tallyOf_add, tallyOf_add, tallyOf_ends, run_eq_runOf]

end Reception

/-! ## A table of receptions -/

namespace ReceptionTable

/-- The identifiers whose receptions were started and are not over. -/
def inProgress (t : ReceptionTable) : Finset UInt32 :=
  t.receptions.keys.toFinset.filter fun key => (t.reception key).isIdle = false

/-- Counts something about frames where they are fed. -/
def perFrame (count : ReceptionTable → Frame → Nat) (t : ReceptionTable) : Op → Nat
  | .feed f => count t f
  | .reset _ => 0
  | .resetAll => 0
  | .erase _ => 0
  | .contains _ => 0

/-- The receptions that an operation starts: a first frame does so. -/
def begins : ReceptionTable → Op → Nat := perFrame fun _ f => if f.tail.first then 1 else 0

/-- The receptions that an operation supersedes: a first frame does so with the one that is in
progress under its identifier. -/
def supersedes : ReceptionTable → Op → Nat :=
  perFrame fun t f => if f.tail.first ∧ f.identifier ∈ t.inProgress then 1 else 0

/-- The receptions that an operation abandons: a reset or an erasure does so with those in progress
that it reaches. -/
def abandons (t : ReceptionTable) : Op → Nat
  | .feed _ => 0
  | .reset identifier => if identifier ∈ t.inProgress then 1 else 0
  | .resetAll => t.inProgress.card
  | .erase identifier => if identifier ∈ t.inProgress then 1 else 0
  | .contains _ => 0

theorem mem_inProgress {t : ReceptionTable} {key : UInt32} :
    key ∈ t.inProgress ↔ (t.reception key).isIdle = false := by
  rw [inProgress, Finset.mem_filter, List.mem_toFinset, Directory.mem_keys]
  refine ⟨fun h => h.2, fun h => ⟨?_, h⟩⟩
  -- without an entry the reception would be idle
  by_contra hnone
  rw [Option.not_isSome_iff_eq_none] at hnone
  rw [reception, hnone] at h
  cases h

theorem inProgress_reception (t : ReceptionTable) (key : UInt32) :
    (t.reception key).inProgress = if key ∈ t.inProgress then 1 else 0 := by
  simp only [mem_inProgress]
  cases t.reception key <;> rfl

/-- If only one reception is touched, only that one makes a difference. -/
theorem card_inProgress (t u : ReceptionTable) (key : UInt32)
    (others : ∀ k, k ≠ key → u.reception k = t.reception k) :
    u.inProgress.card + (t.reception key).inProgress =
      t.inProgress.card + (u.reception key).inProgress := by
  have hothers : u.inProgress.erase key = t.inProgress.erase key := by
    ext k
    simp only [Finset.mem_erase, mem_inProgress]
    refine and_congr_right fun hk => ?_
    rw [others k hk]
  have hsplit : ∀ s : Finset UInt32, s.card = (s.erase key).card + if key ∈ s then 1 else 0 := by
    intro s
    split
    · rename_i hmem
      exact (Finset.card_erase_add_one hmem).symm
    · rename_i hmem
      rw [Finset.erase_eq_of_notMem hmem, Nat.add_zero]
  rw [inProgress_reception, inProgress_reception, hsplit u.inProgress, hsplit t.inProgress, hothers]
  omega

theorem feed_conserves (t : ReceptionTable) (f : Frame) :
    begins t (.feed f) + (t.statistics.ended + t.inProgress.card) =
      supersedes t (.feed f) + ((t.feed f).2.statistics.ended + (t.feed f).2.inProgress.card) := by
  have hcard : (t.feed f).2.inProgress.card + (t.reception f.identifier).inProgress =
      t.inProgress.card + ((t.reception f.identifier).feed f).2.inProgress := by
    have h := card_inProgress t (t.feed f).2 f.identifier fun k hk => by
      rw [reception_feed, if_neg hk]
    rwa [reception_feed, if_pos rfl] at h
  have hfeed := Reception.feed_conserves (t.reception f.identifier) f
  have hended : (t.feed f).2.statistics.ended =
      t.statistics.ended + if ((t.reception f.identifier).feed f).1.ends then 1 else 0 :=
    Statistics.ended_record _ _
  have hsupersedes : supersedes t (.feed f) =
      if f.tail.first then (t.reception f.identifier).inProgress else 0 := by
    rw [inProgress_reception, ← ite_and]
    rfl
  rw [hsupersedes, hended]
  show (if f.tail.first then 1 else 0) + _ = _
  omega

/-- An operation that makes one reception idle, and counts nothing, abandons it if it was in
progress. -/
theorem idle_conserves {t u : ReceptionTable} {key : UInt32}
    (receptions : ∀ k, u.reception k = if k = key then .idle else t.reception k)
    (statistics : u.statistics = t.statistics) :
    t.statistics.ended + t.inProgress.card =
      (if key ∈ t.inProgress then 1 else 0) + (u.statistics.ended + u.inProgress.card) := by
  have hcard := card_inProgress t u key fun k hk => by
    rw [receptions k, if_neg hk]
  rw [receptions key, if_pos rfl, inProgress_reception] at hcard
  rw [statistics]
  simp only [Reception.inProgress] at hcard
  omega

theorem inProgress_resetAll (t : ReceptionTable) : t.resetAll.inProgress = ∅ := by
  ext key
  simp [mem_inProgress, Reception.isIdle]

/-- What an operation starts and what was in progress is over, with or without an outcome, or in
progress afterwards. -/
theorem step_conserves (t : ReceptionTable) (op : Op) :
    begins t op + (t.statistics.ended + t.inProgress.card) =
      supersedes t op + abandons t op +
        ((t.step op).2.statistics.ended + (t.step op).2.inProgress.card) := by
  cases op with
  | feed f => exact feed_conserves t f
  | reset identifier =>
    have h := idle_conserves (t := t) (u := t.reset identifier) (reception_reset t identifier) rfl
    simpa [begins, supersedes, perFrame, abandons, step] using h
  | resetAll =>
    show 0 + (t.statistics.ended + t.inProgress.card) =
      0 + t.inProgress.card + (t.statistics.ended + t.resetAll.inProgress.card)
    rw [inProgress_resetAll, Finset.card_empty]
    omega
  | erase identifier =>
    have h := idle_conserves (t := t) (u := t.erase identifier) (reception_erase t identifier) rfl
    simpa [begins, supersedes, perFrame, abandons, step] using h
  | contains identifier => simp [begins, supersedes, perFrame, abandons, step]

theorem run_conserves (t : ReceptionTable) (ops : List Op) :
    tallyOf step begins t ops + (t.statistics.ended + t.inProgress.card) =
      tallyOf step supersedes t ops + tallyOf step abandons t ops +
        ((t.run ops).2.statistics.ended + (t.run ops).2.inProgress.card) := by
  rw [tallyOf_balance step step_conserves, tallyOf_add, run_eq_runOf]

/-- **Each reception that was started is accounted for.** In every run of a new table, the first
frames are as many as the transfers, the faults, the receptions that were superseded, those that were
abandoned and those that are still in progress. The same holds for each identifier: no reception of
it is counted twice, and no transfer or fault without one. -/
theorem conservation (ops : List Op) :
    tallyOf step begins empty ops =
      (empty.run ops).2.statistics.transfers + (empty.run ops).2.statistics.faults +
        tallyOf step supersedes empty ops + tallyOf step abandons empty ops +
        (empty.run ops).2.inProgress.card ∧
    ∀ key, tallyOf Reception.step Reception.begins .idle (ops.filterMap (Op.alone key)) =
      (outcomes key empty ops).countP Outcome.ends +
        tallyOf Reception.step Reception.supersedes .idle (ops.filterMap (Op.alone key)) +
        tallyOf Reception.step Reception.abandons .idle (ops.filterMap (Op.alone key)) +
        if key ∈ (empty.run ops).2.inProgress then 1 else 0 := by
  constructor
  · have hrun := run_conserves empty ops
    have hstart : empty.statistics.ended + empty.inProgress.card = 0 := rfl
    rw [hstart] at hrun
    simp only [Statistics.ended] at hrun
    omega
  · intro key
    have hrun := Reception.run_conserves .idle (ops.filterMap (Op.alone key))
    rw [outcomes_run, ← inProgress_reception, reception_run]
    exact hrun

end ReceptionTable

end CanTransfer
