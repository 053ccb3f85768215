import CanTransfer.Proofs.Feeding

/-!
# Receiving is processing what waits

A transport takes frames in two ways: it reads them from its bus until a transfer is complete, and
passes over all that goes wrong on the way; or it is given them one by one, and answers to each.

* `Transport.processAll` — frames that are given one by one, whatever the answers.
* `FirstTransfer` — the first of many answers that brings a transfer.
* `Transport.receive_cases`, `Transport.receive_eq_processAll` — a receiver does what is done by
  giving it the frames that wait, up to the first transfer or to the last frame.
-/

set_option autoImplicit false

namespace CanTransfer

/-! ## The first answer with a transfer -/

/-- The answer at `place` is the first one that brings a transfer. -/
structure FirstTransfer (answers : List (Except Fault (Option Delivery))) (place : Nat)
    (d : Delivery) : Prop where
  here : answers[place]? = some (.ok (some d))
  first : ∀ i e, i < place → answers[i]? ≠ some (.ok (some e))

/-- None of the answers brings a transfer. -/
def NoTransfer (answers : List (Except Fault (Option Delivery))) : Prop :=
  ∀ (i : Nat) (d : Delivery), answers[i]? ≠ some (.ok (some d))

theorem NoTransfer.nil : NoTransfer [] := by
  intro i d
  simp

theorem NoTransfer.cons {answer : Except Fault (Option Delivery)}
    {answers : List (Except Fault (Option Delivery))} (h : NoTransfer answers)
    (none : ∀ d, answer ≠ .ok (some d)) : NoTransfer (answer :: answers) := by
  intro i d
  cases i with
  | zero => simpa using none d
  | succ i => exact h i d

namespace FirstTransfer

variable {answer : Except Fault (Option Delivery)} {answers : List (Except Fault (Option Delivery))}
  {place other : Nat} {d e : Delivery}

theorem head (d : Delivery) (answers : List (Except Fault (Option Delivery))) :
    FirstTransfer (.ok (some d) :: answers) 0 d :=
  ⟨rfl, fun _ _ hi => absurd hi (Nat.not_lt_zero _)⟩

theorem cons (h : FirstTransfer answers place d) (none : ∀ e, answer ≠ .ok (some e)) :
    FirstTransfer (answer :: answers) (place + 1) d := by
  refine ⟨h.here, ?_⟩
  intro i e hi
  cases i with
  | zero => simpa using none e
  | succ i => exact h.first i e (Nat.lt_of_succ_lt_succ hi)

/-- There is only one first transfer. -/
theorem unique (h : FirstTransfer answers place d) (h' : FirstTransfer answers other e) :
    place = other ∧ d = e := by
  have hplace : place = other := by
    rcases Nat.lt_trichotomy place other with hlt | heq | hgt
    · exact absurd h.here (h'.first place d hlt)
    · exact heq
    · exact absurd h'.here (h.first other e hgt)
  subst hplace
  have := h.here.symm.trans h'.here
  exact ⟨rfl, by simpa using this⟩

end FirstTransfer

namespace Transport

variable {t : Transport}

/-! ## Frames given one by one -/

/-- Gives frames to the transport one by one: the answers, and the last state. -/
def processAll (t : Transport) (frames : List CanFrame) :
    List (Except Fault (Option Delivery)) × Transport :=
  runOf process t frames

theorem processAll_cons (t : Transport) (c : CanFrame) (rest : List CanFrame) :
    t.processAll (c :: rest) =
      ((t.process c).1 :: ((t.process c).2.processAll rest).1,
        ((t.process c).2.processAll rest).2) := rfl

/-- Frames from elsewhere reach the table and nothing else. -/
theorem processAll_eq (t : Transport) (frames : List CanFrame) :
    t.processAll frames =
      ((runOf ReceptionTable.process t.table frames).1,
        { t with table := (runOf ReceptionTable.process t.table frames).2 }) := by
  induction frames generalizing t with
  | nil => rfl
  | cons c rest ih =>
    rw [processAll_cons, ih]
    rfl

/-- What a receiver gives and leaves behind if `queue` waits: the first transfer that the frames bring
when they are given one by one, or all of them taken for nothing. -/
def ReceivesFrom (t : Transport) (queue : List CanFrame) : Prop :=
  (∃ i d, FirstTransfer (t.processAll queue).1 i d ∧ t.receive =
    (.ok d, t.resumed (queue.drop (i + 1)) (t.processAll (queue.take (i + 1))).2.table)) ∨
  (NoTransfer (t.processAll queue).1 ∧ t.receive =
    (.error .timeout, t.resumed [] (t.processAll queue).2.table))

/-- A frame without a transfer is passed over. -/
theorem ReceivesFrom.pass {c : CanFrame} {rest : List CanFrame}
    (h : (t.resumed rest (t.process c).2.table).ReceivesFrom rest)
    (goesOn : t.receive = (t.resumed rest (t.process c).2.table).receive)
    (none : ∀ d, (t.process c).1 ≠ .ok (some d)) : t.ReceivesFrom (c :: rest) := by
  unfold ReceivesFrom at h ⊢
  simp only [processAll_eq] at h ⊢
  rw [goesOn]
  rcases h with ⟨i, d, hfirst, hreceive⟩ | ⟨hnone, hreceive⟩
  · exact .inl ⟨i + 1, d, hfirst.cons none, hreceive⟩
  · exact .inr ⟨hnone.cons none, hreceive⟩

theorem receive_cases (ready : (t.enabled && t.bus.enabled) = true)
    {queue : List CanFrame} (waiting : t.bus.queue = queue) : t.ReceivesFrom queue := by
  induction queue generalizing t with
  | nil =>
    refine .inr ⟨.nil, ?_⟩
    rw [receive_of_readFrame_error (readFrame_nil ready waiting)]
    show (_, t) = (_, t.resumed [] t.table)
    rw [resumed_self waiting]
  | cons c rest ih =>
    have hread := readFrame_cons ready waiting
    have hrest : ∀ table, (t.resumed rest table).ReceivesFrom rest := fun table => ih ready rfl
    cases hdecode : Frame.decode c with
    | error fault =>
      have hprocess := process_of_error (t := t) hdecode
      refine (hrest _).pass ?_ ?_
      · rw [receive_of_decode_error hread hdecode, hprocess]
        rfl
      · intro d
        rw [hprocess]
        exact nofun
    | ok f =>
      have hprocess := process_of_ok (t := t) hdecode
      by_cases hfeed : ∃ d, (t.table.feed f).1 = .delivered d
      · obtain ⟨d, hd⟩ := hfeed
        refine .inl ⟨0, d, ?_, ?_⟩
        · rw [processAll_cons, hprocess, hd]
          exact .head d _
        · rw [receive_of_delivered hread hdecode hd]
          show _ = (_, t.resumed rest (t.process c).2.table)
          rw [hprocess]
          rfl
      · refine (hrest _).pass ?_ ?_
        · rw [receive_of_not_delivered hread hdecode (not_exists.mp hfeed), hprocess]
          rfl
        · intro d hd
          rw [hprocess] at hd
          exact hfeed ⟨d, Outcome.eq_delivered_of_answer hd⟩

/-- **To receive is to process what waits.** Let the frames that wait be given to an open transport
one by one, over an open bus. If one of them is answered with a transfer, a receiver returns the
first such transfer, takes the frames up to this one, and leaves the table as it is then. Otherwise
it takes all frames and reports a timeout. In either case nothing else has changed, and a timeout is
the only fault that a receiver reports. -/
theorem receive_eq_processAll (enabled : t.enabled = true) (busEnabled : t.bus.enabled = true) :
    ((∃ i d, FirstTransfer (t.processAll t.bus.queue).1 i d) ∨
      NoTransfer (t.processAll t.bus.queue).1) ∧
    (∀ i d, FirstTransfer (t.processAll t.bus.queue).1 i d →
      t.receive = (.ok d, { t with
        bus := { t.bus with queue := t.bus.queue.drop (i + 1) }
        table := (t.processAll (t.bus.queue.take (i + 1))).2.table })) ∧
    (NoTransfer (t.processAll t.bus.queue).1 →
      t.receive = (.error .timeout, { t with
        bus := { t.bus with queue := [] }
        table := (t.processAll t.bus.queue).2.table })) ∧
    ∀ fault, t.receive.1 = .error fault → fault = .timeout := by
  have ready : (t.enabled && t.bus.enabled) = true := by
    rw [enabled, busEnabled]
    rfl
  rcases receive_cases ready rfl with ⟨i, d, hfirst, hreceive⟩ | ⟨hnone, hreceive⟩
  · refine ⟨.inl ⟨i, d, hfirst⟩, ?_, fun hnone => absurd hfirst.here (hnone i d), ?_⟩
    · intro j e hother
      obtain ⟨rfl, rfl⟩ := hfirst.unique hother
      exact hreceive
    · intro fault hfault
      rw [hreceive] at hfault
      cases hfault
  · refine ⟨.inr hnone, fun j e hother => absurd hother.here (hnone j e), fun _ => hreceive, ?_⟩
    intro fault hfault
    rw [hreceive] at hfault
    cases hfault
    rfl

/-- An open transport on whose bus wait a frame with an identifier of the wrong kind, a transfer that
goes wrong with its second frame, a whole transfer of another identifier, and one frame more. -/
def crowded : Transport where
  settings := defaultSettings
  bus :=
    { enabled := true
      queue :=
        [{ identifier := 0x100, data := [0xE0], extended := false },
          { identifier := 0x100, data := [1, 2, 0xA3] },
          { identifier := 0x100, data := [3, 0x23] },
          { identifier := 0x200, data := [9, 0xE5] },
          { identifier := 0x100, data := [4, 0xA4] }] }
  enabled := true

/-- A receiver gets the whole transfer and leaves the last frame; where that transfer is missing, it
gets nothing. -/
theorem receive_eq_processAll_crowded :
    crowded.enabled = true ∧ crowded.bus.enabled = true ∧
    crowded.receive.1 = .ok ⟨0x200, 5, [9], false⟩ ∧
    crowded.receive.2.bus.queue = [{ identifier := 0x100, data := [4, 0xA4] }] ∧
    (crowded.resumed (crowded.bus.queue.take 3) .empty).receive.1 = .error .timeout := by
  obtain ⟨-, hfound, -, -⟩ := receive_eq_processAll (t := crowded) rfl rfl
  obtain ⟨-, -, hmissing, -⟩ :=
    receive_eq_processAll (t := crowded.resumed (crowded.bus.queue.take 3) .empty) rfl rfl
  have hanswers : (crowded.processAll crowded.bus.queue).1 =
      [.error (.frame (.standardIdentifier 0x100)), .ok none,
        .error (.reception (.toggle false true)), .ok (some ⟨0x200, 5, [9], false⟩), .ok none] := by
    rfl
  have hfirst : FirstTransfer (crowded.processAll crowded.bus.queue).1 3
      ⟨0x200, 5, [9], false⟩ := by
    rw [hanswers]
    exact .cons (.cons (.cons (.head _ _) nofun) nofun) nofun
  have hnone : NoTransfer ((crowded.resumed (crowded.bus.queue.take 3) .empty).processAll
      (crowded.bus.queue.take 3)).1 := by
    show NoTransfer [.error (.frame (.standardIdentifier 0x100)), .ok none,
      .error (.reception (.toggle false true))]
    exact .cons (.cons (.cons .nil nofun) nofun) nofun
  have hreceive := hfound 3 _ hfirst
  have htimeout := hmissing hnone
  exact ⟨rfl, rfl, by rw [hreceive], by rw [hreceive]; rfl, by rw [htimeout]⟩

end Transport

end CanTransfer
