/-!
# Runs of a state machine

Receptions, tables of receptions and transports are run in the same way, operation by operation and
with an answer to each. What holds of any such run is stated here once.

* `runOf` — operations in order: the answers, and the last state.
* `runOf_append`, `runOf_getElem?` — the later operations of a run see no more of the earlier ones
  than the state between them.
* `filterMap_zip_runOf_cons` — what is read off the answers one by one.
* `tallyOf`, `tallyOf_balance` — what is counted along a run, operation by operation, and an account
  that is balanced because every step of it is.
-/

set_option autoImplicit false

namespace CanTransfer

variable {σ ι ω β : Type}

/-- Operations in order: the answers, and the last state. -/
def runOf (step : σ → ι → ω × σ) : σ → List ι → List ω × σ
  | s, [] => ([], s)
  | s, op :: rest =>
    let next := step s op
    let later := runOf step next.2 rest
    (next.1 :: later.1, later.2)

/-- The sum of what each operation of a run counts in the state that it finds. -/
def tallyOf (step : σ → ι → ω × σ) (count : σ → ι → Nat) : σ → List ι → Nat
  | _, [] => 0
  | s, op :: rest => count s op + tallyOf step count (step s op).2 rest

variable (step : σ → ι → ω × σ)

theorem runOf_append (s : σ) (front back : List ι) :
    runOf step s (front ++ back) =
      ((runOf step s front).1 ++ (runOf step (runOf step s front).2 back).1,
        (runOf step (runOf step s front).2 back).2) := by
  induction front generalizing s with
  | nil => rfl
  | cons op rest ih => simp only [List.cons_append, runOf, ih]

theorem length_runOf (s : σ) (ops : List ι) : (runOf step s ops).1.length = ops.length := by
  induction ops generalizing s with
  | nil => rfl
  | cons op rest ih => simp only [runOf, List.length_cons, ih]

/-- The answer in the middle of a run is the one that the state after the history gives. -/
theorem runOf_getElem? (s : σ) (before after : List ι) (op : ι) :
    (runOf step s (before ++ op :: after)).1[before.length]? =
      some (step (runOf step s before).2 op).1 := by
  have hlen := length_runOf step s before
  rw [runOf_append, List.getElem?_append_right (by omega), hlen, Nat.sub_self]
  rfl

/-- What is read off the answers of a run comes from its first operation, or from the others. -/
theorem filterMap_zip_runOf_cons (look : ι × ω → Option β) (s : σ) (op : ι) (rest : List ι) :
    ((op :: rest).zip (runOf step s (op :: rest)).1).filterMap look =
      (look (op, (step s op).1)).toList ++
        (rest.zip (runOf step (step s op).2 rest).1).filterMap look := by
  simp only [runOf, List.zip_cons_cons, List.filterMap_cons]
  cases look (op, (step s op).1) <;> rfl

theorem tallyOf_add (count other : σ → ι → Nat) (s : σ) (ops : List ι) :
    tallyOf step (fun s op => count s op + other s op) s ops =
      tallyOf step count s ops + tallyOf step other s ops := by
  induction ops generalizing s with
  | nil => rfl
  | cons op rest ih =>
    simp only [tallyOf, ih]
    omega

/-- Where each step gains what it loses and what the level rises by, so does a run. -/
theorem tallyOf_balance {gain loss : σ → ι → Nat} {level : σ → Nat}
    (balanced : ∀ s op, gain s op + level s = loss s op + level (step s op).2) (s : σ)
    (ops : List ι) :
    tallyOf step gain s ops + level s =
      tallyOf step loss s ops + level (runOf step s ops).2 := by
  induction ops generalizing s with
  | nil => rfl
  | cons op rest ih =>
    have hstep := balanced s op
    have hrest := ih (step s op).2
    simp only [tallyOf, runOf]
    omega

end CanTransfer
