import Mathlib.Data.List.Forall2
import CanTransfer.Proofs.Search
import CanTransfer.Proofs.Sending
import CanTransfer.Transport.Run

/-!
# Exactly-once delivery in order

A transport over a bus that talks to itself gives back what was sent over it, transfer by transfer.

* `Transport.sent`, `Transport.received` — the transfers of a run that were sent and those that were
  received.
* `Transport.Carrying` — the invariant: the bus holds the frames of whole transfers, and of none of
  them a frame has been read.
* `Transport.Carrying.step` — the invariant holds after any operation on the transport.
* `Transport.Carrying.run` — what was sent is what was received, and behind it what the bus holds.
* `Transport.fifo_of_over` — so what was received is a prefix of what was sent.
-/

set_option autoImplicit false

namespace CanTransfer

namespace Transport

/-! ## What a run has sent and received -/

/-- The operation is one on the transport itself that neither takes frames from elsewhere nor
touches the bus. -/
def Op.ordinary : Op → Bool
  | .process _ => false
  | .bus _ => false
  | _ => true

/-- The transfer that an operation sent, if it was answered without a fault. -/
def sentAt : Op × Except Fault Reply → Option Transfer
  | (.send x, .ok _) => some x
  | _ => none

/-- The transfer that an operation received. -/
def receivedAt : Op × Except Fault Reply → Option Delivery
  | (.receive, .ok (.transfer d)) => some d
  | _ => none

/-- The transfers that a run sent successfully, in order. -/
def sent (t : Transport) (ops : List Op) : List Transfer :=
  (ops.zip (t.run ops).1).filterMap sentAt

/-- The transfers that a run received, in order. -/
def received (t : Transport) (ops : List Op) : List Delivery :=
  (ops.zip (t.run ops).1).filterMap receivedAt

/-- The bus holds the frames of the given transfers, nothing of a transfer has been gathered, and
nothing ever went wrong. -/
structure Carrying (t : Transport) (mtu : Mtu) (waiting : List Transfer) : Prop where
  kind : t.settings.mtu = mtu
  relay : t.bus.relay = none
  enabled : t.enabled = true → t.bus.enabled = true
  queue : t.bus.queue = waiting.flatMap (wires mtu)
  identifiers : ∀ x ∈ waiting, fitsIdentifier x.identifier
  quiet : t.table.Quiet

variable {t : Transport} {mtu : Mtu} {waiting : List Transfer}

/-! ## One operation -/

theorem Carrying.enable (h : t.Carrying mtu waiting) : t.enable.Carrying mtu waiting := by
  unfold Transport.enable
  split
  · exact h
  · exact ⟨h.kind, h.relay, fun _ => rfl, h.queue, h.identifiers, h.quiet⟩

theorem Carrying.disable (h : t.Carrying mtu waiting) : t.disable.Carrying mtu waiting := by
  unfold Transport.disable
  split
  · refine ⟨h.kind, h.relay, fun he => absurd he (by simp), h.queue, h.identifiers, ?_, ?_⟩
    · intro key
      show t.table.resetAll.reception key = .idle
      exact ReceptionTable.reception_resetAll t.table key
    · exact h.quiet.clean
  · exact h

theorem Carrying.resetReception (h : t.Carrying mtu waiting) (identifier : UInt32) :
    (t.resetReception identifier).Carrying mtu waiting := by
  refine ⟨h.kind, h.relay, h.enabled, h.queue, h.identifiers, ?_, h.quiet.clean⟩
  intro key
  show (t.table.reset identifier).reception key = .idle
  rw [ReceptionTable.reception_reset, h.quiet.idle]
  split <;> rfl

theorem Carrying.setTimeout (h : t.Carrying mtu waiting) (timeoutMs : UInt32) :
    (t.setTimeout timeoutMs).2.Carrying mtu waiting := by
  unfold Transport.setTimeout
  split
  · split
    · exact h
    · exact ⟨h.kind, h.relay, h.enabled, h.queue, h.identifiers, h.quiet⟩
  · exact h

/-- A transfer that is sent waits behind the others; one that is refused leaves all as it was. -/
theorem Carrying.send (h : t.Carrying mtu waiting) (x : Transfer) :
    ((t.send x).1 = .ok () ∧ (t.send x).2.Carrying mtu (waiting ++ [x])) ∨
    (∃ fault, (t.send x).1 = .error fault) ∧ (t.send x).2.Carrying mtu waiting := by
  by_cases hcan : t.CanSend x
  · left
    rw [send_of_canSend hcan, Bus.foldl_accept_of_relay_none h.relay]
    refine ⟨rfl, h.kind, h.relay, h.enabled, ?_, ?_, h.quiet⟩
    · simp [h.queue, h.kind]
    · intro y hy
      rcases List.mem_append.mp hy with hy | hy
      · exact h.identifiers y hy
      · rw [List.mem_singleton.mp hy]
        exact hcan.identifier
  · right
    obtain ⟨fault, hsend⟩ := send_of_not_canSend hcan
    rw [hsend]
    exact ⟨⟨fault, rfl⟩, h⟩

theorem receive_of_not_enabled (h : t.enabled = false) : t.receive = (.error .notReady, t) :=
  receive_of_not_ready (by simp [h])

theorem Carrying.ready (h : t.Carrying mtu waiting) (enabled : t.enabled = true) :
    (t.enabled && t.bus.enabled) = true := by
  rw [enabled, h.enabled enabled]
  rfl

/-- Where nothing waits, a receiver that is ready runs into its timeout. -/
theorem Carrying.receive_nil (h : t.Carrying mtu []) (enabled : t.enabled = true) :
    t.receive = (.error .timeout, t) :=
  receive_of_readFrame_error (readFrame_nil (h.ready enabled) h.queue)

/-- Otherwise it receives the transfer that has waited longest. -/
theorem Carrying.receive_cons {x : Transfer} (h : t.Carrying mtu (x :: waiting))
    (enabled : t.enabled = true) :
    t.receive.1 = .ok (x.delivery mtu.capacity) ∧ t.receive.2.Carrying mtu waiting := by
  have hid := h.identifiers x List.mem_cons_self
  have hqueue : t.bus.queue = wires mtu x ++ waiting.flatMap (wires mtu) := h.queue
  obtain ⟨u, hsearch, hquiet⟩ :=
    ReceptionTable.search_layout mtu.capacity_pos hid h.quiet (waiting.flatMap (wires mtu))
  rw [receive_of_ready (h.ready enabled), hqueue, wires, hsearch]
  refine ⟨rfl, h.kind, h.relay, h.enabled, rfl, ?_, hquiet⟩
  exact fun y hy => h.identifiers y (List.mem_cons_of_mem _ hy)

theorem Carrying.receive_eq_timeout_iff (h : t.Carrying mtu waiting) (enabled : t.enabled = true) :
    t.receive.1 = .error .timeout ↔ waiting = [] := by
  cases waiting with
  | nil => simp [h.receive_nil enabled]
  | cons x waiting => simp [(h.receive_cons enabled).1]

theorem Carrying.receive_eq_ok_iff (h : t.Carrying mtu waiting) (enabled : t.enabled = true) :
    (∃ d, t.receive.1 = .ok d) ↔ waiting ≠ [] := by
  cases waiting with
  | nil => simp [h.receive_nil enabled]
  | cons x waiting => simp [(h.receive_cons enabled).1]

/-- One operation: what waited and what was sent is what was received and what waits. -/
theorem Carrying.step (h : t.Carrying mtu waiting) {op : Op} (ordinary : op.ordinary = true) :
    ∃ taken rest, (t.step op).2.Carrying mtu rest ∧
      waiting ++ (sentAt (op, (t.step op).1)).toList = taken ++ rest ∧
      (receivedAt (op, (t.step op).1)).toList = taken.map (Transfer.delivery · mtu.capacity) := by
  cases op with
  | enable => exact ⟨[], waiting, h.enable, by simp [sentAt], rfl⟩
  | disable => exact ⟨[], waiting, h.disable, by simp [sentAt], rfl⟩
  | send x =>
    simp only [Transport.step]
    rcases h.send x with ⟨hok, hnext⟩ | ⟨⟨fault, herror⟩, hnext⟩
    · rw [hok]
      exact ⟨[], waiting ++ [x], hnext, rfl, rfl⟩
    · rw [herror]
      exact ⟨[], waiting, hnext, by simp [sentAt, Except.map], rfl⟩
  | receive =>
    simp only [Transport.step]
    by_cases henabled : t.enabled = true
    · cases waiting with
      | nil =>
        rw [h.receive_nil henabled]
        exact ⟨[], [], h, rfl, rfl⟩
      | cons x waiting =>
        obtain ⟨hok, hnext⟩ := h.receive_cons henabled
        rw [hok]
        exact ⟨[x], waiting, hnext, by simp [sentAt], rfl⟩
    · rw [receive_of_not_enabled (by simpa using henabled)]
      exact ⟨[], waiting, h, by simp [sentAt], rfl⟩
  | process c => cases ordinary
  | resetReception identifier =>
    exact ⟨[], waiting, h.resetReception identifier, by simp [sentAt], rfl⟩
  | setTimeout timeoutMs => exact ⟨[], waiting, h.setTimeout timeoutMs, by simp [sentAt], rfl⟩
  | bus op => cases ordinary

/-! ## Many operations -/

theorem run_eq_runOf (t : Transport) (ops : List Op) : t.run ops = runOf step t ops := by
  induction ops generalizing t with
  | nil => rfl
  | cons op rest ih => simp only [Transport.run, runOf, ih]

theorem sent_cons (t : Transport) (op : Op) (rest : List Op) :
    t.sent (op :: rest) = (sentAt (op, (t.step op).1)).toList ++ (t.step op).2.sent rest := by
  simp only [sent, run_eq_runOf]
  exact filterMap_zip_runOf_cons step sentAt t op rest

theorem received_cons (t : Transport) (op : Op) (rest : List Op) :
    t.received (op :: rest) =
      (receivedAt (op, (t.step op).1)).toList ++ (t.step op).2.received rest := by
  simp only [received, run_eq_runOf]
  exact filterMap_zip_runOf_cons step receivedAt t op rest

/-- Many operations: what waited and what was sent is what was received and what waits. -/
theorem Carrying.run (h : t.Carrying mtu waiting) (ops : List Op)
    (ordinary : ∀ op ∈ ops, op.ordinary = true) :
    ∃ taken rest, (t.run ops).2.Carrying mtu rest ∧ waiting ++ t.sent ops = taken ++ rest ∧
      t.received ops = taken.map (Transfer.delivery · mtu.capacity) := by
  induction ops generalizing t waiting with
  | nil => exact ⟨[], waiting, h, by simp [sent], rfl⟩
  | cons op ops ih =>
    obtain ⟨first, between, hstep, hsent, hreceived⟩ := h.step (ordinary op List.mem_cons_self)
    obtain ⟨more, rest, hrun, hsents, hreceiveds⟩ :=
      ih hstep fun o ho => ordinary o (List.mem_cons_of_mem _ ho)
    refine ⟨first ++ more, rest, hrun, ?_, ?_⟩
    · rw [sent_cons, ← List.append_assoc, hsent, List.append_assoc, hsents, List.append_assoc]
    · rw [received_cons, hreceived, hreceiveds, List.map_append]

/-- A run delivers each transfer once and in order: what it received is, one for one, a prefix of
what it sent; with the transport ready, a further receive times out exactly if nothing is
outstanding, and succeeds exactly if something is; and no reception ever went wrong. -/
structure Fifo (t : Transport) (ops : List Op) : Prop where
  delivered : List.Forall₂ (fun d x => ∃ padded ≤ 15, d.Carries x padded) (t.received ops)
    ((t.sent ops).take (t.received ops).length)
  timeout : (t.run ops).2.enabled = true →
    ((t.run ops).2.receive.1 = .error .timeout ↔ (t.received ops).length = (t.sent ops).length)
  success : (t.run ops).2.enabled = true →
    ((∃ d, (t.run ops).2.receive.1 = .ok d) ↔ (t.received ops).length < (t.sent ops).length)
  clean : (t.run ops).2.statistics.Clean

theorem carrying_of_over {settings media : Settings} {start : Transport}
    (made : Transport.over settings { settings := media } = .ok start) :
    start.Carrying settings.mtu [] := by
  unfold Transport.over at made
  cases hvalid : settings.validate with
  | error fault =>
    rw [hvalid] at made
    cases made
  | ok u =>
    rw [hvalid] at made
    cases made
    refine ⟨rfl, rfl, fun h => absurd h (by simp), rfl, by simp, fun key => rfl, ?_⟩
    exact ⟨rfl, rfl, rfl, rfl⟩

/-- **Exactly-once delivery in order.** Whatever a new transport over a new bus is asked to do, in
any order and with any failures, what it receives is what it has sent, up to padding: each transfer
once, none before another that was sent earlier, and none kept back. -/
theorem fifo_of_over {settings media : Settings} {start : Transport}
    (made : Transport.over settings { settings := media } = .ok start) (ops : List Op)
    (ordinary : ∀ op ∈ ops, op.ordinary = true) : start.Fifo ops := by
  obtain ⟨taken, rest, hrun, hsent, hreceived⟩ := (carrying_of_over made).run ops ordinary
  rw [List.nil_append] at hsent
  have hlength : (start.received ops).length = taken.length := by
    rw [hreceived, List.length_map]
  have hrest : (start.sent ops).length = taken.length + rest.length := by
    rw [hsent, List.length_append]
  refine ⟨?_, ?_, ?_, hrun.quiet.clean⟩
  · rw [hlength, hsent, List.take_left, hreceived, List.forall₂_map_left_iff, List.forall₂_same]
    intro x _
    exact ⟨_, fillCount_le_fifteen _ _, x.delivery_carries⟩
  · intro enabled
    rw [hrun.receive_eq_timeout_iff enabled, ← List.length_eq_zero_iff]
    omega
  · intro enabled
    rw [hrun.receive_eq_ok_iff enabled, ne_eq, ← List.length_eq_zero_iff]
    omega

/-- A run in which a send fails, a transfer is outstanding while the transport is disabled, and the
last receive finds nothing. -/
def Op.reopening : List Op :=
  [.enable, .send ⟨0x20000000, 1, [[1]], false⟩,
    .send ⟨0x123, 35, [[1, 2, 3, 4, 5, 6, 7, 8], [], [9, 10, 11, 12, 13]], true⟩, .receive,
    .send ⟨0x124, 4, [], false⟩, .disable, .receive, .enable, .resetReception 0x124, .receive,
    .setTimeout 0, .receive]

theorem fifo_of_over_reopening :
    Transport.over ⟨.classic, 500⟩ { settings := ⟨.fd, 1000⟩ } =
        .ok { settings := ⟨.classic, 500⟩, bus := { settings := ⟨.fd, 1000⟩ } } ∧
      (∀ op ∈ Op.reopening, op.ordinary = true) ∧
      Fifo { settings := ⟨.classic, 500⟩, bus := { settings := ⟨.fd, 1000⟩ } } Op.reopening :=
  ⟨rfl, by decide, @fifo_of_over ⟨.classic, 500⟩ ⟨.fd, 1000⟩ _ rfl _ (by decide)⟩

end Transport

end CanTransfer
