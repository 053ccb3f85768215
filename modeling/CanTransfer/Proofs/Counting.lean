import Mathlib.Algebra.BigOperators.Group.Finset.Basic
import Mathlib.Data.FinEnum
import CanTransfer.Proofs.Conservation

/-!
# What the counters count

The receptions of all identifiers share their counters. What is counted for a frame depends on its
outcome only, and its outcome on the operations that concern its identifier; so the counters are sums
over the identifiers, in whichever order the frames of different identifiers arrive.

* `Statistics.counters`, `Statistics.counter_record` — the six counters; each outcome adds its own
  share.
* `ReceptionTable.counter_run` — a run adds the shares of its answers.
* `ReceptionTable.sum_answers` — each answer concerns one identifier, or counts nothing.
* `ReceptionTable.Op.Apart`, `ReceptionTable.run_exchange` — operations that do not concern the same
  identifier can be exchanged.
* `Reception.feed_settles`, `ReceptionTable.frames_eq_add` — a frame that is not counted by its
  outcome opens a transfer or continues one.
* `ReceptionTable.statistics_exact` — each counter is the sum over the identifiers, whatever the order
  of arrival, and counts no frame twice.
-/

set_option autoImplicit false

namespace CanTransfer

/-! ## Shares -/

namespace Statistics

/-- The counters. -/
def counters : List (Statistics → Nat) := [frames, transfers, orphans, toggle, transferId, checksum]

/-- A counter goes up by what the outcome alone makes of it. -/
theorem counter_record {counter : Statistics → Nat} (h : counter ∈ counters) (s : Statistics)
    (o : Outcome) : counter (s.record o) = counter s + counter (record {} o) := by
  simp only [counters, List.mem_cons, List.not_mem_nil, or_false] at h
  rcases h with rfl | rfl | rfl | rfl | rfl | rfl <;> rcases o with _ | _ | _ | (_ | _ | _) <;> rfl

theorem frames_record (s : Statistics) (o : Outcome) : (s.record o).frames = s.frames + 1 := by
  rcases o with _ | _ | _ | (_ | _ | _) <;> rfl

/-- Nothing but the counters is counted. -/
theorem eq_of_counters {s t : Statistics} (h : ∀ counter ∈ counters, counter s = counter t) :
    s = t := by
  cases s
  cases t
  simpa [counters] using h

end Statistics

namespace ReceptionTable

/-- What an answer adds to a counter: nothing, unless it is the outcome of a frame. -/
def Answer.share (counter : Statistics → Nat) : Answer → Nat
  | .outcome o => counter (Statistics.record {} o)
  | .done => 0
  | .present _ => 0

section Shares

variable {counter : Statistics → Nat}

theorem counter_step (h : counter ∈ Statistics.counters) (t : ReceptionTable) (op : Op) :
    counter (t.step op).2.statistics = counter t.statistics + (t.step op).1.share counter := by
  cases op with
  | feed f => exact Statistics.counter_record h _ _
  | reset identifier => rfl
  | resetAll => rfl
  | erase identifier => rfl
  | contains identifier => rfl

/-- A counter goes up by the shares of the answers. -/
theorem counter_run (h : counter ∈ Statistics.counters) (t : ReceptionTable) (ops : List Op) :
    counter (t.run ops).2.statistics =
      counter t.statistics + ((t.run ops).1.map (Answer.share counter)).sum := by
  induction ops generalizing t with
  | nil => rfl
  | cons op rest ih =>
    show counter ((t.step op).2.run rest).2.statistics = counter t.statistics +
      ((t.step op).1.share counter + (((t.step op).2.run rest).1.map (Answer.share counter)).sum)
    rw [ih, counter_step h, Nat.add_assoc]

theorem counter_empty (h : counter ∈ Statistics.counters) : counter empty.statistics = 0 := by
  simp only [Statistics.counters, List.mem_cons, List.not_mem_nil, or_false] at h
  rcases h with rfl | rfl | rfl | rfl | rfl | rfl <;> rfl

theorem answers_cons (key : UInt32) (t : ReceptionTable) (op : Op) (rest : List Op) :
    answers key t (op :: rest) =
      (if op.concerns key then [(t.step op).1] else []) ++ answers key (t.step op).2 rest := by
  simp only [answers, run, List.zip_cons_cons, List.filter_cons]
  split <;> rfl

/-- What an operation counts is counted for the one identifier that it concerns. -/
theorem sum_concerns (counter : Statistics → Nat) (t : ReceptionTable) (op : Op) :
    ∑ key, (if op.concerns key then (t.step op).1.share counter else 0) =
      (t.step op).1.share counter := by
  cases op with
  | feed f => simp [Op.concerns]
  | reset identifier => simp [step, Answer.share]
  | resetAll => simp [step, Answer.share]
  | erase identifier => simp [step, Answer.share]
  | contains identifier => simp [step, Answer.share]

theorem sum_answers (counter : Statistics → Nat) (t : ReceptionTable) (ops : List Op) :
    ∑ key, ((answers key t ops).map (Answer.share counter)).sum =
      ((t.run ops).1.map (Answer.share counter)).sum := by
  induction ops generalizing t with
  | nil => simp [answers, run]
  | cons op rest ih =>
    have hhead : ∀ key, ((answers key t (op :: rest)).map (Answer.share counter)).sum =
        (if op.concerns key then (t.step op).1.share counter else 0) +
          ((answers key (t.step op).2 rest).map (Answer.share counter)).sum := by
      intro key
      rw [answers_cons, List.map_append, List.sum_append]
      split <;> simp
    simp only [hhead, Finset.sum_add_distrib, sum_concerns, ih]
    rfl

/-- A counter is the sum of what it is for each identifier alone. -/
theorem counter_eq_sum (h : counter ∈ Statistics.counters) (ops : List Op) :
    counter (empty.run ops).2.statistics =
      ∑ key, counter (empty.run (ops.filter (Op.concerns key))).2.statistics := by
  simp only [counter_run h, counter_empty h, Nat.zero_add, ← answers_run (t := empty) rfl,
    sum_answers]

end Shares

/-! ## Exchanging operations -/

/-- Two tables that hold the same under every identifier. -/
def Alike (t u : ReceptionTable) : Prop := ∀ key, Agree key t u

/-- Two operations that do not concern the same identifier. -/
def Op.Apart (op other : Op) : Prop := ∀ key, op.concerns key = false ∨ other.concerns key = false

theorem exists_concerns (op : Op) : ∃ key, op.concerns key = true := by
  cases op with
  | feed f => exact ⟨f.identifier, by simp [Op.concerns]⟩
  | reset identifier => exact ⟨identifier, by simp [Op.concerns]⟩
  | resetAll => exact ⟨0, rfl⟩
  | erase identifier => exact ⟨identifier, by simp [Op.concerns]⟩
  | contains identifier => exact ⟨identifier, by simp [Op.concerns]⟩

theorem apart_feed {f g : Frame} (h : f.identifier ≠ g.identifier) :
    Op.Apart (.feed f) (.feed g) := by
  intro key
  by_cases hf : f.identifier = key
  · exact .inr (by simpa [Op.concerns, ← hf] using h.symm)
  · exact .inl (by simpa [Op.concerns] using hf)

/-- An operation leaves alike tables alike, whether it concerns an identifier or not. -/
theorem Agree.step_all {key : UInt32} {t u : ReceptionTable} (h : Agree key t u) (op : Op) :
    Agree key (t.step op).2 (u.step op).2 := by
  by_cases hop : op.concerns key = true
  · exact (h.step hop).2
  · rw [Bool.not_eq_true] at hop
    exact (agree_step_of_not_concerns t hop).trans
      (h.trans (agree_step_of_not_concerns u hop).symm)

theorem Alike.answer_eq {t u : ReceptionTable} (h : Alike t u) (op : Op) :
    (t.step op).1 = (u.step op).1 := by
  obtain ⟨key, hkey⟩ := exists_concerns op
  exact ((h key).step hkey).1

/-- Alike tables answer alike. -/
theorem Alike.run_eq {t u : ReceptionTable} (h : Alike t u) (ops : List Op) :
    (t.run ops).1 = (u.run ops).1 := by
  induction ops generalizing t u with
  | nil => rfl
  | cons op rest ih =>
    have hnext : Alike (t.step op).2 (u.step op).2 := fun key => (h key).step_all op
    simp only [run, h.answer_eq op, ih hnext]

/-- An operation is answered in the same way before and after one that is apart from it. -/
theorem answer_step_of_apart {op other : Op} (h : op.Apart other) (t : ReceptionTable) :
    ((t.step op).2.step other).1 = (t.step other).1 := by
  obtain ⟨key, hkey⟩ := exists_concerns other
  have hop : op.concerns key = false := (h key).resolve_right (by simp [hkey])
  exact ((agree_step_of_not_concerns t hop).step hkey).1

/-- Operations that are apart can be done in either order. -/
theorem alike_step_of_apart {op other : Op} (h : op.Apart other) (t : ReceptionTable) :
    Alike ((t.step op).2.step other).2 ((t.step other).2.step op).2 := by
  intro key
  rcases h key with hop | hother
  · exact ((agree_step_of_not_concerns t hop).step_all other).trans
      (agree_step_of_not_concerns _ hop).symm
  · exact (agree_step_of_not_concerns _ hother).trans
      ((agree_step_of_not_concerns t hother).step_all op).symm

theorem Op.Apart.symm {op other : Op} (h : op.Apart other) : other.Apart op := fun key => (h key).symm

/-- Exchanging two neighbours that are apart exchanges their answers, and changes no others. -/
theorem run_exchange {op other : Op} (h : op.Apart other) (t : ReceptionTable)
    (before after : List Op) :
    ∃ earlier later a b, earlier.length = before.length ∧
      (t.run (before ++ op :: other :: after)).1 = earlier ++ a :: b :: later ∧
      (t.run (before ++ other :: op :: after)).1 = earlier ++ b :: a :: later := by
  have hlater := (alike_step_of_apart h (t.run before).2).run_eq after
  refine ⟨(t.run before).1, _, _, _, by rw [run_eq_runOf, length_runOf],
    congrArg Prod.fst (run_append t before _), ?_⟩
  rw [run_append]
  simp only [run, ← hlater, answer_step_of_apart h, answer_step_of_apart h.symm]

/-- Exchanged answers leave the same counters. -/
theorem statistics_exchange (t : ReceptionTable) {ops others : List Op} {earlier later : List Answer}
    {a b : Answer} (h : (t.run ops).1 = earlier ++ a :: b :: later)
    (hothers : (t.run others).1 = earlier ++ b :: a :: later) :
    (t.run ops).2.statistics = (t.run others).2.statistics := by
  apply Statistics.eq_of_counters
  intro counter hcounter
  rw [counter_run hcounter, counter_run hcounter, h, hothers]
  simp only [List.map_append, List.map_cons, List.sum_append, List.sum_cons]
  omega

end ReceptionTable

/-! ## What becomes of a frame -/

namespace Reception

/-- A frame is an orphan, ends its reception, opens one or continues one. -/
theorem feed_settles (r : Reception) (f : Frame) :
    (if (r.feed f).1 = .orphan then 1 else 0) + (if (r.feed f).1.ends then 1 else 0) +
      (if f.tail.first = true ∧ f.tail.last = false then 1 else 0) +
      (if f.tail.first = false ∧ r.isIdle = false ∧ (r.feed f).1.result = .ok none then 1 else 0)
        = 1 := by
  by_cases hfirst : f.tail.first = true
  · rw [feed_first hfirst, start]
    by_cases hlast : f.tail.last = true
    · simp [hfirst, hlast, Outcome.ends]
    · simp [hfirst, hlast, Outcome.ends]
  · rw [Bool.not_eq_true] at hfirst
    cases r with
    | idle => simp [feed_idle hfirst, hfirst, isIdle, Outcome.ends]
    | receiving transferId toggle gathered =>
      rcases feed_receiving hfirst transferId toggle gathered with ⟨hout, -⟩ | ⟨hout, -⟩
      · -- an outcome that ends a reception is a transfer or a fault, and so it is no continuation
        cases h : (feed f (receiving transferId toggle gathered)).1 with
        | orphan => rw [h] at hout; cases hout
        | accepted => rw [h] at hout; cases hout
        | delivered d => simp [hfirst, Outcome.ends, Outcome.result]
        | failed fault => simp [hfirst, Outcome.ends, Outcome.result]
      · simp [hout, hfirst, isIdle, Outcome.ends, Outcome.result]

end Reception

namespace Statistics

/-- Frames that were counted by their outcome. -/
def settled (s : Statistics) : Nat := s.orphans + s.ended

theorem settled_record (s : Statistics) (o : Outcome) :
    (s.record o).settled =
      s.settled + (if o = .orphan then 1 else 0) + if o.ends then 1 else 0 := by
  have horphans : (s.record o).orphans = s.orphans + if o = .orphan then 1 else 0 := by
    rcases o with _ | _ | _ | (_ | _ | _) <;> rfl
  rw [settled, settled, ended_record, horphans]
  omega

end Statistics

namespace ReceptionTable

/-- The transfers that a frame opens: a first frame does so, unless it is the last one too. -/
def opens : ReceptionTable → Op → Nat :=
  perFrame fun _ f => if f.tail.first = true ∧ f.tail.last = false then 1 else 0

/-- The transfers that a frame continues: one that is not a first frame, for which a reception is in
progress, and which is answered with neither a fault nor a transfer. -/
def continues : ReceptionTable → Op → Nat :=
  perFrame fun t f =>
    if f.tail.first = false ∧ f.identifier ∈ t.inProgress ∧ (t.feed f).1.result = .ok none then 1
    else 0

/-- The frames that an operation feeds. -/
def feeds : ReceptionTable → Op → Nat := perFrame fun _ _ => 1

theorem step_settles (t : ReceptionTable) (op : Op) :
    feeds t op + t.statistics.settled =
      opens t op + continues t op + (t.step op).2.statistics.settled := by
  cases op with
  | feed f =>
    have hfeed := Reception.feed_settles (t.reception f.identifier) f
    have hsettled : (t.feed f).2.statistics.settled = t.statistics.settled +
        (if ((t.reception f.identifier).feed f).1 = .orphan then 1 else 0) +
          if ((t.reception f.identifier).feed f).1.ends then 1 else 0 :=
      Statistics.settled_record _ _
    simp only [feeds, perFrame, opens, continues, mem_inProgress, step, feed] at hsettled ⊢
    omega
  | reset identifier => simp [feeds, perFrame, opens, continues, step, reset]
  | resetAll => simp [feeds, perFrame, opens, continues, step, resetAll]
  | erase identifier => simp [feeds, perFrame, opens, continues, step, erase]
  | contains identifier => simp [feeds, perFrame, opens, continues, step]

/-- All frames are counted as frames. -/
theorem frames_run (t : ReceptionTable) (ops : List Op) :
    (t.run ops).2.statistics.frames =
      t.statistics.frames + tallyOf step feeds t ops := by
  induction ops generalizing t with
  | nil => rfl
  | cons op rest ih =>
    have hstep : (t.step op).2.statistics.frames =
        t.statistics.frames + feeds t op := by
      cases op with
      | feed f => exact Statistics.frames_record _ _
      | reset identifier => rfl
      | resetAll => rfl
      | erase identifier => rfl
      | contains identifier => rfl
    show ((t.step op).2.run rest).2.statistics.frames = _
    rw [ih, hstep, tallyOf, Nat.add_assoc]

/-- The frames are those that were counted by their outcome, and those that opened or continued a
transfer. -/
theorem frames_eq_add (ops : List Op) :
    (empty.run ops).2.statistics.frames =
      (empty.run ops).2.statistics.settled + tallyOf step opens empty ops +
        tallyOf step continues empty ops := by
  have hbalance := tallyOf_balance step step_settles empty ops
  have hframes := frames_run empty ops
  have hsettled : empty.statistics.settled = 0 := rfl
  have hzero : empty.statistics.frames = 0 := rfl
  rw [tallyOf_add, hsettled, ← run_eq_runOf] at hbalance
  omega

/-- **The counters are exact, and the order of arrival does not matter.** In every run of a new table
each counter is the sum, over all identifiers, of what it is if only the operations that concern the
identifier are done. Two frames of different identifiers that follow each other can be exchanged: all
counters stay the same, and so does the answer to each of the two and to every other operation. And
each frame is counted once: with the transfers, the orphans or the faults, or else as a first frame of
more, or as one that continues a transfer. -/
theorem statistics_exact (ops : List Op) :
    (∀ counter ∈ Statistics.counters,
      counter (empty.run ops).2.statistics =
        ∑ key, counter (empty.run (ops.filter (Op.concerns key))).2.statistics) ∧
    (∀ (before after : List Op) (f g : Frame), f.identifier ≠ g.identifier →
      (empty.run (before ++ .feed f :: .feed g :: after)).2.statistics =
        (empty.run (before ++ .feed g :: .feed f :: after)).2.statistics ∧
      ∃ earlier later a b, earlier.length = before.length ∧
        (empty.run (before ++ .feed f :: .feed g :: after)).1 = earlier ++ a :: b :: later ∧
        (empty.run (before ++ .feed g :: .feed f :: after)).1 = earlier ++ b :: a :: later) ∧
    (empty.run ops).2.statistics.frames =
      (empty.run ops).2.statistics.transfers + (empty.run ops).2.statistics.orphans +
        (empty.run ops).2.statistics.faults + tallyOf step opens empty ops +
        tallyOf step continues empty ops := by
  refine ⟨fun counter h => counter_eq_sum h ops, ?_, ?_⟩
  · intro before after f g h
    obtain ⟨earlier, later, a, b, hlength, hrun, hexchanged⟩ :=
      run_exchange (apart_feed h) empty before after
    exact ⟨statistics_exchange empty hrun hexchanged, earlier, later, a, b, hlength, hrun,
      hexchanged⟩
  · have hframes := frames_eq_add ops
    simp only [Statistics.settled, Statistics.ended] at hframes
    omega

/-- While a transfer of one identifier is in progress, a frame that breaks its toggle and an orphan of
another identifier arrive in either order. -/
theorem statistics_exact_fault_and_orphan :
    let m : Frame := ⟨0x100, [1, 2, 3], ⟨true, false, true, 3⟩, false⟩
    let f : Frame := ⟨0x100, [4], ⟨false, true, true, 3⟩, false⟩
    let g : Frame := ⟨0x200, [5], ⟨false, false, false, 9⟩, true⟩
    let ops := [Op.feed m, .feed f, .feed g, .reset 0x100]
    Statistics.orphans ∈ Statistics.counters ∧ f.identifier ≠ g.identifier ∧
      (empty.run ops).2.statistics = { frames := 3, orphans := 1, toggle := 1 } ∧
      (empty.run ops).2.statistics.orphans =
        ∑ key, (empty.run (ops.filter (Op.concerns key))).2.statistics.orphans ∧
      (empty.run ops).2.statistics =
        (empty.run [.feed m, .feed g, .feed f, .reset 0x100]).2.statistics := by
  intro m f g ops
  have member : Statistics.orphans ∈ Statistics.counters := by simp [Statistics.counters]
  have other : f.identifier ≠ g.identifier := by decide
  exact ⟨member, other, by decide, (statistics_exact ops).1 Statistics.orphans member,
    ((statistics_exact ops).2.1 [.feed m] [.reset 0x100] f g other).1⟩

end ReceptionTable

end CanTransfer
