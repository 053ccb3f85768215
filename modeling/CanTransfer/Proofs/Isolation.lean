import Mathlib.Data.Set.Card
import CanTransfer.Proofs.History
import CanTransfer.Reception.Table

/-!
# Receptions that do not touch each other

A table of receptions is as good as a lone reception for each identifier.

* `ReceptionTable.Op.alone` — what an operation on a table is for the lone reception of an
  identifier.
* `ReceptionTable.Op.concerns` — the operations that reach the entry of an identifier.
* `ReceptionTable.Entered` — a frame of the identifier was fed, and its entry not erased since.
* `ReceptionTable.outcomes_run` — the frames of an identifier do what they do to the lone reception.
* `ReceptionTable.contains_run`, `ReceptionTable.size_run` — which identifiers have entries.
* `ReceptionTable.answers_run` — without the operations that do not concern an identifier, those
  that do are answered in the same way.
-/

set_option autoImplicit false

namespace CanTransfer

namespace ReceptionTable

/-- What an operation is for the lone reception of an identifier: an erased entry is a reset one. -/
def Op.alone (key : UInt32) : Op → Option Reception.Op
  | .feed f => if f.identifier = key then some (.feed f) else none
  | .reset identifier => if identifier = key then some .reset else none
  | .resetAll => some .reset
  | .erase identifier => if identifier = key then some .reset else none
  | .contains _ => none

/-- The operation is about an identifier, or about all. -/
def Op.concerns (key : UInt32) : Op → Bool
  | .feed f => f.identifier == key
  | .reset identifier => identifier == key
  | .resetAll => true
  | .erase identifier => identifier == key
  | .contains identifier => identifier == key

/-- The outcome that an operation is answered with, if it feeds a frame of the identifier. -/
def outcomeAt (key : UInt32) : Op × Answer → Option Outcome
  | (.feed f, .outcome o) => if f.identifier = key then some o else none
  | _ => none

/-- The outcomes of the frames of an identifier in a run. -/
def outcomes (key : UInt32) (t : ReceptionTable) (ops : List Op) : List Outcome :=
  (ops.zip (t.run ops).1).filterMap (outcomeAt key)

/-- The answers to the operations of a run that concern an identifier. -/
def answers (key : UInt32) (t : ReceptionTable) (ops : List Op) : List Answer :=
  ((ops.zip (t.run ops).1).filter fun p => p.1.concerns key).map Prod.snd

/-- A frame of the identifier was fed, and its entry was not erased since. -/
def Entered (key : UInt32) (history : List Op) : Prop :=
  ∃ earlier f later, history = earlier ++ .feed f :: later ∧ f.identifier = key ∧
    .erase key ∉ later

/-! ## Runs -/

theorem run_eq_runOf (t : ReceptionTable) (ops : List Op) : t.run ops = runOf step t ops := by
  induction ops generalizing t with
  | nil => rfl
  | cons op rest ih => simp only [run, runOf, ih]

theorem run_append (t : ReceptionTable) (front back : List Op) :
    t.run (front ++ back) =
      ((t.run front).1 ++ ((t.run front).2.run back).1, ((t.run front).2.run back).2) := by
  simp only [run_eq_runOf]
  exact runOf_append step t front back

theorem run_getElem? (t : ReceptionTable) (before after : List Op) (op : Op) :
    (t.run (before ++ op :: after)).1[before.length]? = some ((t.run before).2.step op).1 := by
  simp only [run_eq_runOf]
  exact runOf_getElem? step t before after op

/-! ## The lone reception of an identifier -/

/-- A step of the table is a step of the lone reception, or leaves it alone. -/
theorem reception_step (t : ReceptionTable) (op : Op) (key : UInt32) :
    (t.step op).2.reception key =
      (op.alone key).elim (t.reception key) fun o => ((t.reception key).step o).2 := by
  cases op with
  | feed f =>
    simp only [step, Op.alone, reception_feed, eq_comm]
    split <;> rfl
  | reset identifier =>
    simp only [step, Op.alone, reception_reset, eq_comm]
    split <;> rfl
  | resetAll => exact reception_resetAll t key
  | erase identifier =>
    simp only [step, Op.alone, reception_erase, eq_comm]
    split <;> rfl
  | contains identifier => rfl

/-- A run of the table is a run of the lone reception of each identifier. -/
theorem reception_run (t : ReceptionTable) (ops : List Op) (key : UInt32) :
    (t.run ops).2.reception key =
      ((t.reception key).run (ops.filterMap (Op.alone key))).2 := by
  induction ops generalizing t with
  | nil => rfl
  | cons op rest ih =>
    show (((t.step op).2.run rest).2).reception key = _
    rw [ih, reception_step, List.filterMap_cons]
    cases op.alone key <;> rfl

theorem outcomeAt_step (t : ReceptionTable) (op : Op) (key : UInt32) :
    outcomeAt key (op, (t.step op).1) =
      (op.alone key).bind fun o => ((t.reception key).step o).1 := by
  cases op with
  | feed f =>
    simp only [step, Op.alone, outcomeAt]
    split
    · rename_i h
      subst h
      rfl
    · rfl
  | reset identifier =>
    simp only [Op.alone, outcomeAt]
    split <;> rfl
  | resetAll => rfl
  | erase identifier =>
    simp only [Op.alone, outcomeAt]
    split <;> rfl
  | contains identifier => rfl

theorem outcomes_cons (key : UInt32) (t : ReceptionTable) (op : Op) (rest : List Op) :
    outcomes key t (op :: rest) =
      (outcomeAt key (op, (t.step op).1)).toList ++ outcomes key (t.step op).2 rest := by
  simp only [outcomes, run_eq_runOf]
  exact filterMap_zip_runOf_cons step (outcomeAt key) t op rest

/-- The frames of an identifier do what they do to a lone reception. -/
theorem outcomes_run (t : ReceptionTable) (ops : List Op) (key : UInt32) :
    outcomes key t ops =
      ((t.reception key).run (ops.filterMap (Op.alone key))).1.filterMap id := by
  induction ops generalizing t with
  | nil => rfl
  | cons op rest ih =>
    rw [outcomes_cons, outcomeAt_step, ih, reception_step, List.filterMap_cons]
    cases op.alone key with
    | none => rfl
    | some o =>
      simp only [Option.bind_some, Option.elim_some, Reception.run, List.filterMap_cons, id]
      cases ((t.reception key).step o).1 <;> rfl

/-! ## Which identifiers have entries -/

theorem contains_reset (t : ReceptionTable) (identifier key : UInt32) :
    (t.reset identifier).contains key = t.contains key := by
  simp only [reset, contains, Directory.contains, Directory.find?_adjust]
  split <;> simp

theorem contains_step (t : ReceptionTable) (op : Op) (key : UInt32) :
    (t.step op).2.contains key = true ↔
      (∃ f, op = .feed f ∧ f.identifier = key) ∨ (op ≠ .erase key ∧ t.contains key = true) := by
  cases op with
  | feed f =>
    simp only [step, contains_feed]
    simp [eq_comm (a := key)]
  | reset identifier =>
    simp only [step, contains_reset]
    simp
  | resetAll =>
    simp only [step, resetAll, contains, Directory.contains, Directory.find?_map]
    simp
  | erase identifier =>
    simp only [step, contains_erase]
    simp [eq_comm (a := key)]
  | contains identifier => simp [step]

theorem entered_concat {key : UInt32} {history : List Op} {op : Op} :
    Entered key (history ++ [op]) ↔
      (∃ f, op = .feed f ∧ f.identifier = key) ∨ (op ≠ .erase key ∧ Entered key history) := by
  constructor
  · rintro ⟨earlier, f, later, heq, hf, hlater⟩
    rcases List.eq_nil_or_concat' later with rfl | ⟨later, last, rfl⟩
    · obtain ⟨-, hop⟩ := List.append_inj' heq rfl
      exact .inl ⟨f, by simpa using hop, hf⟩
    · rw [← List.cons_append, ← List.append_assoc] at heq
      obtain ⟨hhistory, hop⟩ := List.append_inj' heq rfl
      obtain rfl : op = last := by simpa using hop
      refine .inr ⟨?_, earlier, f, later, hhistory, hf, fun h => hlater (by simp [h])⟩
      rintro rfl
      exact hlater (by simp)
  · rintro (⟨f, rfl, hf⟩ | ⟨hop, earlier, f, later, rfl, hf, hlater⟩)
    · exact ⟨history, f, [], rfl, hf, by simp⟩
    · refine ⟨earlier, f, later ++ [op], by simp, hf, ?_⟩
      rw [List.mem_append, not_or]
      exact ⟨hlater, by simpa [eq_comm] using hop⟩

/-- An identifier has an entry exactly if one of its frames was fed since it was last erased. -/
theorem contains_run (history : List Op) (key : UInt32) :
    (empty.run history).2.contains key = true ↔ Entered key history := by
  induction history using List.reverseRecOn with
  | nil =>
    constructor
    · intro h
      cases h
    · rintro ⟨earlier, f, later, heq, -⟩
      simp at heq
  | append_singleton history op ih =>
    rw [run_append, entered_concat, ← ih]
    show ((empty.run history).2.step op).2.contains key = true ↔ _
    exact contains_step _ op key

/-- The table is as large as there are such identifiers. -/
theorem size_run (history : List Op) :
    (empty.run history).2.size = {key | Entered key history}.ncard := by
  have hkeys : {key | Entered key history}
      = ((empty.run history).2.receptions.keys.toFinset : Set UInt32) := by
    ext key
    rw [Set.mem_ofPred_eq, ← contains_run, List.coe_toFinset, Set.mem_ofPred_eq, Directory.mem_keys]
    rfl
  rw [hkeys, Set.ncard_coe_finset,
    List.toFinset_card_of_nodup (empty.run history).2.receptions.nodup_keys]
  exact Directory.size_eq_length_keys _

/-! ## Operations on other identifiers -/

/-- Two tables that hold the same under an identifier. -/
def Agree (key : UInt32) (t u : ReceptionTable) : Prop :=
  t.receptions.find? key = u.receptions.find? key

theorem Agree.step {key : UInt32} {t u : ReceptionTable} {op : Op} (h : Agree key t u)
    (hop : op.concerns key = true) :
    (t.step op).1 = (u.step op).1 ∧ Agree key (t.step op).2 (u.step op).2 := by
  unfold Agree at *
  cases op with
  | feed f =>
    obtain rfl : f.identifier = key := by simpa [Op.concerns] using hop
    simp [ReceptionTable.step, feed, reception, h]
  | reset identifier =>
    obtain rfl : identifier = key := by simpa [Op.concerns] using hop
    simp [ReceptionTable.step, reset, Directory.find?_adjust, h]
  | resetAll => simp [ReceptionTable.step, resetAll, h]
  | erase identifier =>
    obtain rfl : identifier = key := by simpa [Op.concerns] using hop
    simp [ReceptionTable.step, erase, contains, Directory.contains, h]
  | contains identifier =>
    obtain rfl : identifier = key := by simpa [Op.concerns] using hop
    simp [ReceptionTable.step, contains, Directory.contains, h]

theorem agree_step_of_not_concerns {key : UInt32} {op : Op} (t : ReceptionTable)
    (hop : op.concerns key = false) : Agree key (t.step op).2 t := by
  unfold Agree
  cases op with
  | feed f =>
    have hne : f.identifier ≠ key := by simpa [Op.concerns] using hop
    simp [step, feed, hne.symm]
  | reset identifier =>
    have hne : identifier ≠ key := by simpa [Op.concerns] using hop
    simp [step, reset, Directory.find?_adjust, hne.symm]
  | resetAll => cases hop
  | erase identifier =>
    have hne : identifier ≠ key := by simpa [Op.concerns] using hop
    simp [step, erase, hne.symm]
  | contains identifier => rfl

/-- The operations that concern an identifier are answered as if there were no others. -/
theorem answers_run {key : UInt32} {t u : ReceptionTable} (h : Agree key t u) (ops : List Op) :
    answers key t ops = (u.run (ops.filter (Op.concerns key))).1 := by
  unfold answers
  induction ops generalizing t u with
  | nil => rfl
  | cons op rest ih =>
    by_cases hop : op.concerns key = true
    · obtain ⟨hanswer, hnext⟩ := h.step hop
      simp only [run, List.zip_cons_cons, List.filter_cons, hop, if_true, List.map_cons, hanswer,
        ih hnext]
    · rw [Bool.not_eq_true] at hop
      have hnext : Agree key (t.step op).2 u := (agree_step_of_not_concerns t hop).trans h
      simp only [run, List.zip_cons_cons, List.filter_cons, hop]
      simpa using ih hnext

/-- **A table refines a family of lone receptions.** In every run of a new table and for every
identifier: the frames of the identifier do what they do to a lone reception that is reset where the
table resets or erases the identifier; its entry is found, and erased, exactly if one of its frames
was fed since it was last erased; the size counts such identifiers; and all operations that concern
the identifier are answered as if there were no others. -/
theorem isolation (ops : List Op) (key : UInt32) :
    outcomes key empty ops =
      (Reception.idle.run (ops.filterMap (Op.alone key))).1.filterMap id ∧
    (∀ before after : List Op, ∃ entry,
      (empty.run (before ++ .contains key :: after)).1[before.length]? = some (.present entry) ∧
        (entry = true ↔ Entered key before)) ∧
    (∀ before after : List Op, ∃ entry,
      (empty.run (before ++ .erase key :: after)).1[before.length]? = some (.present entry) ∧
        (entry = true ↔ Entered key before)) ∧
    (empty.run ops).2.size = {k | Entered k ops}.ncard ∧
    answers key empty ops = (empty.run (ops.filter (Op.concerns key))).1 := by
  refine ⟨outcomes_run empty ops key, ?_, ?_, size_run ops, answers_run rfl ops⟩
  · intro before after
    exact ⟨_, run_getElem? empty before after _, contains_run before key⟩
  · intro before after
    exact ⟨_, run_getElem? empty before after _, contains_run before key⟩

end ReceptionTable

end CanTransfer
