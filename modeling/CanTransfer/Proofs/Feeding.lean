import CanTransfer.Proofs.Isolation
import CanTransfer.Proofs.Noise
import CanTransfer.Transport.Run

/-!
# What a transport feeds to its receptions

Frames reach the receptions of a transport from its bus or from elsewhere, and what they make of
them may be dropped on the way. Here the operations of a transport are read as operations on its
table of receptions.

* `Delivery.MadeOf` — the payload of a transfer comes from the latest frames of its identifier.
* `ReceptionTable.HasHistory` — the receptions of a table, read off what was done to them.
* `ReceptionTable.HasHistory.madeOf` — a table makes transfers of the frames in its history.
* `ReceptionTable.search_spec` — a search feeds the frames it takes, and delivers with the last one.
* `Transport.tableOps`, `Transport.tableRun` — what an operation, or a run, does to the table.
* `Transport.table_run`, `Transport.madeOf_fed` — that is all it does, and so a transport makes
  transfers of what is fed.
-/

set_option autoImplicit false

namespace CanTransfer

/-- The payload of a transfer is found in the bytes of the latest frames of its identifier. -/
def Delivery.MadeOf (d : Delivery) (frames : List Frame) : Prop :=
  ∃ own, own <:+ frames.filter (fun f => f.identifier = d.identifier) ∧
    d.payload <+: Frame.bytes own

/-! ## Frames fed to receptions -/

namespace Reception

/-- The frame that an operation feeds. -/
def Op.fed? : Op → Option Frame
  | .feed f => some f
  | .reset => none

theorem filterMap_fed?_map_feed (frames : List Frame) :
    (frames.map Op.feed).filterMap Op.fed? = frames := by
  rw [List.filterMap_map]
  exact List.filterMap_some

/-- A reception that was idle at first delivers bytes of the latest frames it was fed. -/
theorem exists_suffix_of_delivered {history : List Op} {f : Frame} {d : Delivery}
    (h : ((idle.run history).2.feed f).1 = .delivered d) :
    ∃ own, own <:+ history.filterMap Op.fed? ++ [f] ∧ d.payload <+: Frame.bytes own := by
  by_cases hfirst : f.tail.first = true
  · rw [feed_first hfirst, start_eq_delivered_iff] at h
    obtain ⟨-, rfl⟩ := h
    refine ⟨[f], List.suffix_append _ _, ?_⟩
    simp [Frame.bytes]
  · rw [Bool.not_eq_true] at hfirst
    rcases run_idle_or_openAfter history with hidle | ⟨m, middle, hopen⟩
    · rw [hidle, feed_idle hfirst] at h
      cases h
    · rw [run_of_openAfter hopen, feed_gathering_eq_delivered_iff hopen.1 hfirst] at h
      obtain ⟨earlier, rfl⟩ := hopen.2
      refine ⟨m :: middle ++ [f], ?_, ?_⟩
      · rw [List.filterMap_append, filterMap_fed?_map_feed, List.append_assoc]
        exact List.suffix_append _ _
      · rw [h.2.1]
        exact List.prefix_append _ _

end Reception

namespace ReceptionTable

/-- The frame that an operation feeds. -/
def Op.fed? : Op → Option Frame
  | .feed f => some f
  | _ => none

theorem filterMap_fed?_map_feed (frames : List Frame) :
    (frames.map Op.feed).filterMap Op.fed? = frames := by
  rw [List.filterMap_map]
  exact List.filterMap_some

/-- The frames of an identifier are those that its lone reception is fed. -/
theorem filter_fed? (ops : List Op) (key : UInt32) :
    (ops.filterMap Op.fed?).filter (fun f => f.identifier = key) =
      (ops.filterMap (Op.alone key)).filterMap Reception.Op.fed? := by
  rw [List.filter_filterMap, List.filterMap_filterMap]
  congr 1
  funext op
  cases op with
  | feed f =>
    simp only [Op.fed?, Op.alone, Option.filter_some]
    by_cases h : f.identifier = key <;> simp [h, Reception.Op.fed?]
  | reset identifier =>
    simp only [Op.fed?, Op.alone]
    split <;> rfl
  | resetAll => rfl
  | erase identifier =>
    simp only [Op.fed?, Op.alone]
    split <;> rfl
  | contains identifier => rfl

/-- The receptions of the table are what the operations leave of idle ones. -/
def HasHistory (t : ReceptionTable) (past : List Op) : Prop :=
  ∀ key, t.reception key = (Reception.idle.run (past.filterMap (Op.alone key))).2

variable {t : ReceptionTable} {past : List Op}

theorem HasHistory.run (h : t.HasHistory past) (ops : List Op) :
    (t.run ops).2.HasHistory (past ++ ops) := by
  intro key
  rw [reception_run, h key, List.filterMap_append, Reception.run_append]

/-- A reception is idle unless a frame of its identifier was fed. -/
theorem HasHistory.exists_fed (h : t.HasHistory past) {key : UInt32}
    (notIdle : t.reception key ≠ .idle) :
    ∃ f ∈ past.filterMap Op.fed?, f.identifier = key := by
  rw [h key] at notIdle
  obtain ⟨m, middle, -, earlier, hpast⟩ :=
    (Reception.run_idle_or_openAfter _).resolve_left notIdle
  have hm : m ∈ (past.filterMap (Op.alone key)).filterMap Reception.Op.fed? := by
    rw [hpast, List.filterMap_append, Reception.filterMap_fed?_map_feed]
    simp
  rw [← filter_fed?, List.mem_filter] at hm
  exact ⟨m, hm.1, by simpa using hm.2⟩

/-- A table makes transfers of the frames in its history. -/
theorem HasHistory.madeOf (h : t.HasHistory past) {f : Frame} {d : Delivery}
    (hfeed : (t.feed f).1 = .delivered d) : d.MadeOf (past.filterMap Op.fed? ++ [f]) := by
  rw [outcome_feed, h] at hfeed
  obtain ⟨own, hsuffix, hbytes⟩ := Reception.exists_suffix_of_delivered hfeed
  have hid := (Reception.feed_eq_delivered hfeed).2
  refine ⟨own, ?_, hbytes⟩
  rw [List.filter_append, hid, filter_fed?]
  simpa using hsuffix

end ReceptionTable

/-! ## Frames taken from the bus -/

/-- The frames that can be read of those that arrived. -/
def CanFrame.readable (arrived : List CanFrame) : List Frame :=
  arrived.filterMap fun c => (Frame.decode c).toOption

namespace CanFrame

variable {c : CanFrame} {f : Frame}

theorem readable_cons_of_error {fault : FrameFault} (h : Frame.decode c = .error fault)
    (rest : List CanFrame) : readable (c :: rest) = readable rest := by
  simp [readable, h, Except.toOption]

theorem readable_cons_of_ok (h : Frame.decode c = .ok f) (rest : List CanFrame) :
    readable (c :: rest) = f :: readable rest := by
  simp [readable, h, Except.toOption]

end CanFrame

namespace ReceptionTable

variable {t : ReceptionTable} {c : CanFrame} {f : Frame}

/-- A search takes some of the frames, and feeds those of them that can be read. If it finds a
transfer, the last of these frames delivered it. -/
theorem search_spec (t : ReceptionTable) (queue : List CanFrame) :
    ∃ taken, queue = taken ++ (t.search queue).2.1 ∧
      (t.search queue).2.2 = (t.run ((CanFrame.readable taken).map .feed)).2 ∧
      ∀ d, (t.search queue).1 = some d → ∃ front f, CanFrame.readable taken = front ++ [f] ∧
        ((t.run (front.map .feed)).2.feed f).1 = .delivered d := by
  induction queue generalizing t with
  | nil => exact ⟨[], rfl, rfl, fun d hd => by cases hd⟩
  | cons c rest ih =>
    cases hdecode : Frame.decode c with
    | error fault =>
      obtain ⟨taken, hqueue, htable, hfound⟩ := ih t
      rw [search_cons_of_error hdecode]
      refine ⟨c :: taken, ?_, ?_, ?_⟩
      · rw [List.cons_append, ← hqueue]
      · rw [CanFrame.readable_cons_of_error hdecode, htable]
      · rw [CanFrame.readable_cons_of_error hdecode]
        exact hfound
    | ok f =>
      by_cases hfeed : ∃ d, (t.feed f).1 = .delivered d
      · -- The search ends with this frame.
        obtain ⟨d, hd⟩ := hfeed
        rw [search_cons_of_delivered hdecode hd]
        refine ⟨[c], rfl, ?_, ?_⟩
        · rw [CanFrame.readable_cons_of_ok hdecode]
          rfl
        · intro d' hd'
          obtain rfl := Option.some.inj hd'
          exact ⟨[], f, CanFrame.readable_cons_of_ok hdecode [], hd⟩
      · obtain ⟨taken, hqueue, htable, hfound⟩ := ih (t.feed f).2
        rw [search_cons_of_not_delivered hdecode (not_exists.mp hfeed)]
        refine ⟨c :: taken, ?_, ?_, ?_⟩
        · rw [List.cons_append, ← hqueue]
        · rw [CanFrame.readable_cons_of_ok hdecode, htable]
          rfl
        · intro d hd
          obtain ⟨front, g, hfront, hg⟩ := hfound d hd
          refine ⟨f :: front, g, ?_, hg⟩
          rw [CanFrame.readable_cons_of_ok hdecode, hfront, List.cons_append]

end ReceptionTable

/-! ## Operations of a transport on its table -/

namespace Transport

/-- The frames that a receiver takes from the bus. -/
def taken (t : Transport) : List CanFrame :=
  t.bus.queue.take (t.bus.queue.length - t.receive.2.bus.queue.length)

/-- What an operation does to the table. -/
def tableOps (t : Transport) : Op → List ReceptionTable.Op
  | .disable => if t.enabled then [.resetAll] else []
  | .receive => (CanFrame.readable t.taken).map .feed
  | .process c => (CanFrame.readable [c]).map .feed
  | .resetReception identifier => [.reset identifier]
  | _ => []

/-- What a run does to the table. -/
def tableRun (t : Transport) : List Op → List ReceptionTable.Op
  | [] => []
  | op :: rest => t.tableOps op ++ (t.step op).2.tableRun rest

/-- The frames that a run feeds to the receptions, in order. -/
def fed (t : Transport) (ops : List Op) : List Frame :=
  (t.tableRun ops).filterMap ReceptionTable.Op.fed?

variable {t : Transport} {op : Op}

/-- A receiver feeds what it takes. -/
theorem receive_spec (t : Transport) :
    t.receive.2.table = (t.table.run ((CanFrame.readable t.taken).map .feed)).2 ∧
      ∀ d, t.receive.1 = .ok d → ∃ front f, CanFrame.readable t.taken = front ++ [f] ∧
        ((t.table.run (front.map .feed)).2.feed f).1 = .delivered d := by
  by_cases hready : (t.enabled && t.bus.enabled) = true
  · obtain ⟨taken, hqueue, htable, hfound⟩ := t.table.search_spec t.bus.queue
    have htaken : t.taken = taken := by
      have hlength : t.bus.queue.length - (t.table.search t.bus.queue).2.1.length
          = taken.length := by
        have := congrArg List.length hqueue
        rw [List.length_append] at this
        omega
      rw [Transport.taken, receive_of_ready hready]
      show t.bus.queue.take (t.bus.queue.length - (t.table.search t.bus.queue).2.1.length) = taken
      rw [hlength, hqueue]
      exact List.take_left
    rw [htaken, receive_of_ready hready]
    refine ⟨htable, ?_⟩
    intro d hd
    apply hfound
    cases hsearch : (t.table.search t.bus.queue).1 with
    | none =>
      rw [hsearch] at hd
      cases hd
    | some e =>
      rw [hsearch] at hd
      cases hd
      rfl
  · have hreceive := receive_of_not_ready (by simpa using hready)
    have htaken : t.taken = [] := by
      simp [taken, hreceive]
    rw [htaken, hreceive]
    exact ⟨rfl, fun d hd => by cases hd⟩

theorem process_spec (t : Transport) (c : CanFrame) :
    (t.process c).2.table = (t.table.run ((CanFrame.readable [c]).map .feed)).2 ∧
      ∀ d, (t.process c).1 = .ok (some d) → ∃ f, CanFrame.readable [c] = [f] ∧
        (t.table.feed f).1 = .delivered d := by
  cases hdecode : Frame.decode c with
  | error fault =>
    simp only [process, ReceptionTable.process_of_error hdecode,
      CanFrame.readable_cons_of_error hdecode]
    exact ⟨rfl, fun d hd => by cases hd⟩
  | ok f =>
    simp only [process, ReceptionTable.process_of_ok hdecode, CanFrame.readable_cons_of_ok hdecode]
    exact ⟨rfl, fun d hd => ⟨f, rfl, Outcome.eq_delivered_of_answer hd⟩⟩

/-- To send touches the bus alone. -/
theorem send_snd (t : Transport) (x : Transfer) : ∃ bus, (t.send x).2 = { t with bus := bus } := by
  unfold send
  split
  · split
    · exact ⟨_, rfl⟩
    · exact ⟨_, rfl⟩
  · exact ⟨_, rfl⟩

theorem setTimeout_snd (t : Transport) (timeoutMs : UInt32) :
    ∃ settings bus, (t.setTimeout timeoutMs).2 = { t with settings := settings, bus := bus } := by
  unfold setTimeout
  split
  · split
    · exact ⟨_, _, rfl⟩
    · exact ⟨_, _, rfl⟩
  · exact ⟨_, _, rfl⟩

/-- An operation does no more to the table than is said of it. -/
theorem table_step (t : Transport) (op : Op) :
    (t.step op).2.table = (t.table.run (t.tableOps op)).2 := by
  cases op with
  | enable =>
    show t.enable.table = t.table
    unfold enable
    split <;> rfl
  | disable =>
    simp only [step, disable, tableOps]
    split <;> rfl
  | send x =>
    obtain ⟨bus, hsend⟩ := send_snd t x
    show (t.send x).2.table = t.table
    rw [hsend]
  | receive => exact (receive_spec t).1
  | process c => exact (process_spec t c).1
  | resetReception identifier => rfl
  | setTimeout timeoutMs =>
    obtain ⟨settings, bus, hset⟩ := setTimeout_snd t timeoutMs
    show (t.setTimeout timeoutMs).2.table = t.table
    rw [hset]
  | bus op => rfl

theorem exists_ok_of_map {ε α β : Type} {x : Except ε α} {g : α → β} {b : β}
    (h : x.map g = .ok b) : ∃ a, x = .ok a ∧ g a = b := by
  cases x with
  | error fault => cases h
  | ok a => exact ⟨a, rfl, Except.ok.inj h⟩

/-- Only a receiver, or a frame from elsewhere, is answered with a transfer. -/
theorem transfer_cases {d : Delivery} (h : (t.step op).1 = .ok (.transfer d)) :
    (op = .receive ∧ t.receive.1 = .ok d) ∨
      ∃ c, op = .process c ∧ (t.process c).1 = .ok (some d) := by
  cases op with
  | receive =>
    obtain ⟨e, hreceive, he⟩ := exists_ok_of_map h
    cases he
    exact .inl ⟨rfl, hreceive⟩
  | process c =>
    obtain ⟨found, hprocess, hfound⟩ := exists_ok_of_map h
    cases found with
    | none => cases hfound
    | some e =>
      cases hfound
      exact .inr ⟨c, rfl, hprocess⟩
  | send x =>
    obtain ⟨_, -, hdone⟩ := exists_ok_of_map h
    cases hdone
  | setTimeout timeoutMs =>
    obtain ⟨_, -, hdone⟩ := exists_ok_of_map h
    cases hdone
  | bus op =>
    obtain ⟨read, -, hread⟩ := exists_ok_of_map h
    cases read <;> cases hread
  | _ => cases h

/-- A transfer is delivered by the last frame that is fed. -/
theorem exists_feed_of_delivered {d : Delivery} (h : (t.step op).1 = .ok (.transfer d)) :
    ∃ front f, t.tableOps op = (front ++ [f]).map .feed ∧
      ((t.table.run (front.map .feed)).2.feed f).1 = .delivered d := by
  rcases transfer_cases h with ⟨rfl, hreceive⟩ | ⟨c, rfl, hprocess⟩
  · obtain ⟨front, f, hreadable, hfeed⟩ := (receive_spec t).2 d hreceive
    exact ⟨front, f, by rw [tableOps, hreadable], hfeed⟩
  · obtain ⟨f, hreadable, hfeed⟩ := (process_spec t c).2 d hprocess
    exact ⟨[], f, by rw [tableOps, hreadable, List.nil_append], hfeed⟩

theorem table_run (t : Transport) (ops : List Op) :
    (t.run ops).2.table = (t.table.run (t.tableRun ops)).2 := by
  induction ops generalizing t with
  | nil => rfl
  | cons op rest ih =>
    rw [tableRun, ReceptionTable.run_append, ← table_step, ← ih]
    rfl

theorem tableRun_concat (t : Transport) (ops : List Op) (op : Op) :
    t.tableRun (ops ++ [op]) = t.tableRun ops ++ (t.run ops).2.tableOps op := by
  induction ops generalizing t with
  | nil => simp [tableRun, run]
  | cons first rest ih =>
    rw [List.cons_append, tableRun, ih, tableRun, List.append_assoc]
    rfl

/-- A transport makes transfers of what its receptions were fed before and what it feeds them from
now on. -/
theorem madeOf_fed {past : List ReceptionTable.Op} (h : t.table.HasHistory past) {ops : List Op}
    {d : Delivery} (hreply : ((t.run ops).2.step op).1 = .ok (.transfer d)) :
    d.MadeOf (past.filterMap ReceptionTable.Op.fed? ++ t.fed (ops ++ [op])) := by
  obtain ⟨front, f, hops, hfeed⟩ := exists_feed_of_delivered hreply
  rw [table_run] at hfeed
  have hmade := ((h.run (t.tableRun ops)).run (front.map .feed)).madeOf hfeed
  rw [fed, tableRun_concat, hops, List.filterMap_append,
    ReceptionTable.filterMap_fed?_map_feed, ← List.append_assoc, ← List.append_assoc]
  rw [List.filterMap_append, List.filterMap_append, ReceptionTable.filterMap_fed?_map_feed] at hmade
  exact hmade

end Transport

end CanTransfer
