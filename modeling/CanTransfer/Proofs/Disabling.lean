import CanTransfer.Proofs.Feeding
import CanTransfer.Proofs.Fifo

/-!
# What a disabled transport forgets

A transport that is disabled drops what its receptions have gathered, if it was ready. A transport
that is not ready takes frames too, those that are processed, and what they have begun goes on when
it is disabled once more.

* `Transport.strays` — the frames processed since the transport was last ready.
* `Transport.Abandons` — of all that was fed before a transport is disabled, none but the given
  frames show afterwards.
* `Transport.exists_past_strays` — the receptions of a transport that is not ready go back to the
  strays.
* `Transport.disable_abandons` — so only strays are not forgotten when a transport is disabled.
* `Transport.delivered_across_disable` — and they may not be.
-/

set_option autoImplicit false

namespace CanTransfer

namespace Transport

/-- The frames that an operation processes. -/
def Op.processed : Op → List Frame
  | .process c => CanFrame.readable [c]
  | _ => []

/-- The given frames and those that a run processes, from the last time on that the transport was
ready. -/
def straysAfter (t : Transport) (before : List Frame) : List Op → List Frame
  | [] => before
  | op :: rest =>
    let next := (t.step op).2
    next.straysAfter (if next.enabled then [] else before ++ op.processed) rest

/-- The frames that a run has processed since the transport was last ready. -/
def strays (t : Transport) (ops : List Op) : List Frame := t.straysAfter [] ops

/-- Of all that was fed before the transport is disabled, only the given frames are not forgotten:
the receptions of other identifiers are idle then, and each transfer that is delivered later is made
of the given frames and of those fed since. -/
structure Abandons (t : Transport) (except : List Frame) : Prop where
  idle : ∀ key, (∀ f ∈ except, f.identifier ≠ key) → t.disable.table.reception key = .idle
  delivered : ∀ after op d, ((t.disable.run after).2.step op).1 = .ok (.transfer d) →
    d.MadeOf (except ++ t.disable.fed (after ++ [op]))

variable {start t : Transport} {op : Op}

/-! ## One operation -/

theorem enabled_enable (t : Transport) : t.enable.enabled = true := by
  unfold enable
  split
  · assumption
  · rfl

/-- Whether a transport is ready changes only where it is enabled or disabled. -/
theorem enabled_step (henable : op ≠ .enable) (hdisable : op ≠ .disable) :
    (t.step op).2.enabled = t.enabled := by
  cases op with
  | enable => exact absurd rfl henable
  | disable => exact absurd rfl hdisable
  | send x =>
    obtain ⟨bus, hsend⟩ := send_snd t x
    show (t.send x).2.enabled = t.enabled
    rw [hsend]
  | receive =>
    show t.receive.2.enabled = t.enabled
    by_cases hready : (t.enabled && t.bus.enabled) = true
    · rw [receive_of_ready hready]
      rfl
    · rw [receive_of_not_ready (by simpa using hready)]
  | process c => rfl
  | resetReception identifier => rfl
  | setTimeout timeoutMs =>
    obtain ⟨settings, bus, hset⟩ := setTimeout_snd t timeoutMs
    show (t.setTimeout timeoutMs).2.enabled = t.enabled
    rw [hset]
  | bus op => rfl

theorem disable_of_not_enabled (h : t.enabled = false) : t.disable = t := by
  simp [disable, h]

/-- A transport that is ready forgets everything when it is disabled. -/
theorem hasHistory_disable (enabled : t.enabled = true) : t.disable.table.HasHistory [] := by
  intro key
  rw [disable, if_pos enabled]
  exact ReceptionTable.reception_resetAll t.table key

/-- A transport that is not ready feeds its receptions only the frames that are processed. -/
theorem fed_tableOps (disabled : t.enabled = false) (op : Op) :
    (t.tableOps op).filterMap ReceptionTable.Op.fed? = op.processed := by
  cases op with
  | disable => simp [tableOps, disabled, Op.processed]
  | receive =>
    have htaken : t.taken = [] := by
      simp [taken, receive_of_not_enabled disabled]
    rw [tableOps, htaken]
    rfl
  | process c => exact ReceptionTable.filterMap_fed?_map_feed _
  | _ => rfl

/-! ## Many operations -/

theorem run_concat (t : Transport) (ops : List Op) (op : Op) :
    (t.run (ops ++ [op])).2 = ((t.run ops).2.step op).2 := by
  rw [run_eq_runOf, run_eq_runOf, runOf_append]
  rfl

theorem strays_concat (t : Transport) (ops : List Op) (op : Op) :
    t.strays (ops ++ [op]) =
      if (t.run (ops ++ [op])).2.enabled then [] else t.strays ops ++ op.processed := by
  have h : ∀ before, t.straysAfter before (ops ++ [op]) =
      if (t.run (ops ++ [op])).2.enabled then [] else t.straysAfter before ops ++ op.processed := by
    induction ops generalizing t with
    | nil => exact fun before => rfl
    | cons first rest ih => exact fun before => ih (t.step first).2 _
  exact h []

/-- A transport that is ready has no strays. -/
theorem strays_of_enabled {history : List Op} (enabled : (t.run history).2.enabled = true) :
    t.strays history = [] := by
  rcases List.eq_nil_or_concat' history with rfl | ⟨ops, op, rfl⟩
  · rfl
  · rw [strays_concat, if_pos enabled]

/-- While a transport is not ready, its receptions go back to the strays. -/
theorem exists_past_strays (idle : start.table.HasHistory []) (history : List Op)
    (disabled : (start.run history).2.enabled = false) :
    ∃ past, past.filterMap ReceptionTable.Op.fed? = start.strays history ∧
      (start.run history).2.table.HasHistory past := by
  induction history using List.reverseRecOn with
  | nil => exact ⟨[], rfl, idle⟩
  | append_singleton history op ih =>
    rw [strays_concat, if_neg (by simp [disabled])]
    rw [run_concat] at disabled ⊢
    by_cases hwas : (start.run history).2.enabled = true
    · -- The operation disabled the transport, and so made all receptions idle.
      have hop : op = .disable := by
        by_contra hdisable
        have henable : op ≠ .enable := by
          rintro rfl
          exact absurd disabled (by simp [step, enabled_enable])
        rw [enabled_step henable hdisable, hwas] at disabled
        cases disabled
      subst hop
      refine ⟨[], ?_, hasHistory_disable hwas⟩
      rw [strays_of_enabled hwas]
      rfl
    · rw [Bool.not_eq_true] at hwas
      obtain ⟨past, hfed, hpast⟩ := ih hwas
      refine ⟨past ++ (start.run history).2.tableOps op, ?_, ?_⟩
      · rw [List.filterMap_append, hfed, fed_tableOps hwas]
      · rw [table_step]
        exact hpast.run _

theorem hasHistory_of_over {settings : Settings} {bus : Bus}
    (made : Transport.over settings bus = .ok start) : start.table.HasHistory [] := by
  unfold Transport.over at made
  cases hvalid : settings.validate with
  | error fault =>
    rw [hvalid] at made
    cases made
  | ok u =>
    rw [hvalid] at made
    cases made
    exact fun key => rfl

/-- **A transport that is disabled forgets what it was fed while it was ready.** Whatever has been
done to a new transport: once it is disabled, only receptions of strays are not idle, and no
transfer that is delivered later holds a byte of another frame that was fed before. A transport that
is ready has no strays. -/
theorem disable_abandons {settings : Settings} {bus : Bus}
    (made : Transport.over settings bus = .ok start) (history : List Op) :
    (start.run history).2.Abandons (start.strays history) ∧
      ((start.run history).2.enabled = true → start.strays history = []) := by
  refine ⟨?_, strays_of_enabled⟩
  obtain ⟨past, hfed, hpast⟩ : ∃ past,
      past.filterMap ReceptionTable.Op.fed? = start.strays history ∧
        (start.run history).2.disable.table.HasHistory past := by
    by_cases henabled : (start.run history).2.enabled = true
    · exact ⟨[], (strays_of_enabled henabled).symm, hasHistory_disable henabled⟩
    · rw [Bool.not_eq_true] at henabled
      rw [disable_of_not_enabled henabled]
      exact exists_past_strays (hasHistory_of_over made) history henabled
  rw [← hfed]
  refine ⟨?_, fun after op d hreply => madeOf_fed hpast hreply⟩
  intro key hkey
  by_contra hidle
  obtain ⟨f, hf, hid⟩ := hpast.exists_fed hidle
  exact hkey f hf hid

end Transport

/-- The first of the two frames of a transfer. -/
def CanFrame.former : CanFrame := { identifier := 0x100, data := [1, 2, 3, 4, 5, 6, 7, 0xA3] }

/-- The other one. -/
def CanFrame.latter : CanFrame := { identifier := 0x100, data := [8, 9, 0x3B, 0x0A, 0x43] }

namespace Transport

/-- A new transport with default settings. -/
def unused : Transport where
  settings := defaultSettings
  bus := .loopback

/-- Disabled twice, with a stray in between: the transfers begun before are forgotten. -/
theorem disable_abandons_twice :
    Transport.over defaultSettings .loopback = .ok unused ∧
      (unused.run [.process .former, .enable, .process .former, .disable,
          .process { CanFrame.former with identifier := 0x200 }]).2.Abandons
        [⟨0x200, [1, 2, 3, 4, 5, 6, 7], ⟨true, false, true, 3⟩, false⟩] := by
  refine ⟨rfl, ?_⟩
  have hstrays : unused.strays [.process .former, .enable, .process .former, .disable,
      .process { CanFrame.former with identifier := 0x200 }] =
      [⟨0x200, [1, 2, 3, 4, 5, 6, 7], ⟨true, false, true, 3⟩, false⟩] := by decide +kernel
  rw [← hstrays]
  exact (@disable_abandons unused defaultSettings .loopback rfl _).1

/-- A transport that was never ready is disabled between the two frames of a transfer, and delivers
it all the same: the reception is not idle, and the transfer holds bytes of the frame before. -/
theorem delivered_across_disable :
    Transport.over defaultSettings .loopback = .ok unused ∧
      (unused.run [.process .former, .disable, .process .latter]).1 =
        [.ok .done, .ok .done, .ok (.transfer ⟨0x100, 3, [1, 2, 3, 4, 5, 6, 7, 8, 9], false⟩)] ∧
      (unused.run [.process .former]).2.disable.table.reception 0x100 =
        .receiving 3 false [1, 2, 3, 4, 5, 6, 7] ∧
      ¬ Delivery.MadeOf ⟨0x100, 3, [1, 2, 3, 4, 5, 6, 7, 8, 9], false⟩
        ((unused.run [.process .former]).2.disable.fed [.process .latter]) ∧
      ¬ (unused.run [.process .former]).2.Abandons [] := by
  refine ⟨rfl, by decide +kernel, by decide +kernel, ?_, ?_⟩
  · have hfed : (unused.run [.process .former]).2.disable.fed [.process .latter] =
        [⟨0x100, [8, 9, 0x3B, 0x0A], ⟨false, true, false, 3⟩, false⟩] := by decide +kernel
    rintro ⟨own, hown, hpayload⟩
    rw [hfed] at hown
    rcases List.suffix_cons_iff.mp hown with rfl | hnil
    · exact absurd hpayload (by decide)
    · rw [List.suffix_nil.mp hnil] at hpayload
      exact absurd hpayload (by decide)
  · intro h
    exact absurd (h.idle 0x100 (by simp)) (by decide +kernel)

end Transport

end CanTransfer
