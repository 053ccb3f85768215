import CanTransfer.Proofs.Wire
import CanTransfer.Transport.Basic

/-!
# Sending all of a transfer, or nothing

Frames are encoded and written one by one, and nothing is taken back when one of them fails. No
later frame can fail, though, once the first one was written.

* `Bus.accept`, `Bus.Takes` — what a bus does with a frame that it takes, and which frames it takes.
* `Bus.writeAll_of_takes`, `Bus.writeAll_of_refused` — all frames are written, or the first one is
  refused and the bus stays as it was.
* `Relay.passAll`, `Bus.passed`, `Bus.foldl_accept` — what a relay hands on of several frames, and
  the bus that has taken them.
* `Transport.CanSend`, `Transport.send_of_canSend`, `Transport.send_of_not_canSend` — so a transfer
  is sent completely or not at all.
* `Transport.canSend_iff`, `Transport.send_all_or_nothing` — which of the two it is hangs on the
  transport, the bus, the identifier and the first frame alone.
-/

set_option autoImplicit false

namespace CanTransfer

/-- Hands frames on in order: what the rule makes of each of them, and the relay after the last. -/
def Relay.passAll : Relay → List CanFrame → List CanFrame × Relay
  | r, [] => ([], r)
  | r, c :: rest =>
    let passed := r.pass c
    let later := passAll passed.2 rest
    (passed.1.toList ++ later.1, later.2)

namespace Bus

/-- What comes out of the relay for several frames; without a relay, the frames themselves. -/
def passed (b : Bus) (frames : List CanFrame) : List CanFrame :=
  b.relay.elim frames fun relay => (relay.passAll frames).1

/-- The bus after it has taken a frame. -/
def accept (b : Bus) (c : CanFrame) : Bus := carry { b with sent := b.sent ++ [c] } c

/-- The bus takes the frame: it is enabled, and the frame is not too long for it. -/
structure Takes (b : Bus) (f : Frame) : Prop where
  enabled : b.enabled = true
  short : f.data.length ≤ b.settings.mtu.frameLength

variable {b : Bus} {f : Frame}

theorem enabled_accept (b : Bus) (c : CanFrame) : (b.accept c).enabled = b.enabled := by
  unfold accept carry
  split <;> rfl

theorem settings_accept (b : Bus) (c : CanFrame) : (b.accept c).settings = b.settings := by
  unfold accept carry
  split <;> rfl

theorem Takes.accept (h : b.Takes f) (c : CanFrame) : (b.accept c).Takes f := by
  constructor
  · rw [enabled_accept]
    exact h.enabled
  · rw [settings_accept]
    exact h.short

theorem write_of_takes (h : b.Takes f) : b.write f.wire = (.ok (), b.accept f.wire) := by
  have hshort := h.short
  unfold write
  rw [if_neg (by simp [h.enabled]), if_neg (by simp only [Frame.wire]; omega)]
  rfl

theorem write_of_not_takes (h : ¬ b.Takes f) : ∃ fault, b.write f.wire = (.error fault, b) := by
  unfold write
  split
  · exact ⟨_, rfl⟩
  · rename_i henabled
    split
    · exact ⟨_, rfl⟩
    · rename_i hshort
      exact absurd ⟨by simpa using henabled, Nat.le_of_not_lt hshort⟩ h

/-- Frames that the bus takes are all written. -/
theorem writeAll_of_takes {frames : List Frame} (fits : ∀ f ∈ frames, f.Fits)
    (takes : ∀ f ∈ frames, b.Takes f) :
    b.writeAll frames = (.ok (), (frames.map Frame.wire).foldl accept b) := by
  induction frames generalizing b with
  | nil => rfl
  | cons f rest ih =>
    have hf : f ∈ f :: rest := List.mem_cons_self
    have hrest : ∀ g ∈ rest, (b.accept f.wire).Takes g :=
      fun g hg => (takes g (List.mem_cons_of_mem _ hg)).accept f.wire
    unfold writeAll
    rw [Frame.encode_of_fits (fits f hf)]
    simp only [write_of_takes (takes f hf)]
    exact ih (fun g hg => fits g (List.mem_cons_of_mem _ hg)) hrest

/-- If the first frame fails, nothing is written. -/
theorem writeAll_of_refused (h : ¬ (f.Fits ∧ b.Takes f)) (rest : List Frame) :
    ∃ fault, b.writeAll (f :: rest) = (.error fault, b) := by
  unfold writeAll
  by_cases hfits : f.Fits
  · obtain ⟨fault, hwrite⟩ := write_of_not_takes (b := b) fun ht => h ⟨hfits, ht⟩
    rw [Frame.encode_of_fits hfits]
    simp only [hwrite]
    exact ⟨fault, rfl⟩
  · obtain ⟨fault, hencode⟩ := Frame.encode_of_not_fits hfits
    rw [hencode]
    exact ⟨_, rfl⟩

/-- Without a relay, what the bus takes waits to be read. -/
theorem foldl_accept_of_relay_none (h : b.relay = none) (frames : List CanFrame) :
    frames.foldl accept b =
      { b with queue := b.queue ++ frames, sent := b.sent ++ frames } := by
  induction frames generalizing b with
  | nil => simp
  | cons c rest ih =>
    have haccept : b.accept c = { b with queue := b.queue ++ [c], sent := b.sent ++ [c] } := by
      simp [accept, carry, h, inject]
    have hrelay : (b.accept c).relay = none := by
      rw [haccept]
      exact h
    rw [List.foldl_cons, ih hrelay, haccept]
    simp

/-- With a relay, what the relay hands on waits to be read. -/
theorem foldl_accept_of_relay_some {relay : Relay} (h : b.relay = some relay)
    (frames : List CanFrame) :
    frames.foldl accept b =
      { b with
        relay := some (relay.passAll frames).2
        queue := b.queue ++ (relay.passAll frames).1
        sent := b.sent ++ frames } := by
  induction frames generalizing b relay with
  | nil => simp [Relay.passAll, ← h]
  | cons c rest ih =>
    have haccept : b.accept c =
        { b with
          relay := some (relay.pass c).2
          queue := b.queue ++ (relay.pass c).1.toList
          sent := b.sent ++ [c] } := by
      simp [accept, carry, h]
    have hrelay : (b.accept c).relay = some (relay.pass c).2 := by rw [haccept]
    rw [List.foldl_cons, ih hrelay, haccept]
    simp [Relay.passAll]

/-- What the bus takes is recorded as it is, and what comes out of the relay waits to be read. -/
theorem foldl_accept (b : Bus) (frames : List CanFrame) :
    frames.foldl accept b =
      { b with
        relay := b.relay.map fun relay => (relay.passAll frames).2
        queue := b.queue ++ b.passed frames
        sent := b.sent ++ frames } := by
  cases h : b.relay with
  | none =>
    rw [foldl_accept_of_relay_none h]
    simp [passed, h]
  | some relay =>
    rw [foldl_accept_of_relay_some h]
    simp [passed, h]

end Bus

namespace Transport

/-- The frames of a transfer over this transport, as they travel. -/
def wires (mtu : Mtu) (x : Transfer) : List CanFrame := (x.layout mtu.capacity).map Frame.wire

/-- The transfer can be sent: the transport is ready, its identifier fits, and the bus takes each of
its frames. -/
structure CanSend (t : Transport) (x : Transfer) : Prop where
  enabled : t.enabled = true
  identifier : fitsIdentifier x.identifier
  takes : ∀ f ∈ x.layout t.settings.mtu.capacity, t.bus.Takes f

variable {t : Transport} {x : Transfer}

theorem send_eq_writeAll (h : t.enabled = true) :
    t.send x = ((t.bus.writeAll (x.layout t.settings.mtu.capacity)).1,
      { t with bus := (t.bus.writeAll (x.layout t.settings.mtu.capacity)).2 }) := by
  unfold send
  rw [if_pos h, Transfer.frames_of_pos x (Mtu.capacity_pos _)]

theorem send_of_canSend (h : t.CanSend x) :
    t.send x =
      (.ok (), { t with bus := (wires t.settings.mtu x).foldl Bus.accept t.bus }) := by
  have hfits : ∀ f ∈ x.layout t.settings.mtu.capacity, f.Fits := fun f hf =>
    Transfer.layout_fits x (Mtu.capacity_pos _) (Mtu.capacity_legal _) h.identifier hf
  rw [send_eq_writeAll h.enabled, Bus.writeAll_of_takes hfits h.takes]
  rfl

/-- A transfer that cannot be sent completely is refused with its first frame. -/
theorem send_of_not_canSend (h : ¬ t.CanSend x) : ∃ fault, t.send x = (.error fault, t) := by
  by_cases henabled : t.enabled = true
  · obtain ⟨first, rest, hlayout, hlongest⟩ :=
      Transfer.exists_layout_eq x (Mtu.capacity_pos t.settings.mtu)
    have hrefused : ¬ (first.Fits ∧ t.bus.Takes first) := by
      rintro ⟨hfits, htakes⟩
      refine h ⟨henabled, ?_, ?_⟩
      · rw [← Transfer.identifier_of_mem_layout x (hlayout ▸ List.mem_cons_self)]
        exact hfits.identifier
      · intro f hf
        rw [hlayout] at hf
        rcases List.mem_cons.mp hf with rfl | hf
        · exact htakes
        · exact ⟨htakes.enabled, Nat.le_trans (hlongest f hf) htakes.short⟩
    obtain ⟨fault, hwrite⟩ := Bus.writeAll_of_refused hrefused rest
    rw [send_eq_writeAll henabled, hlayout, hwrite]
    exact ⟨fault, rfl⟩
  · unfold send
    rw [if_neg henabled]
    exact ⟨_, rfl⟩

theorem send_eq_ok_iff : (t.send x).1 = .ok () ↔ t.CanSend x := by
  by_cases hcan : t.CanSend x
  · rw [send_of_canSend hcan]
    exact ⟨fun _ => hcan, fun _ => rfl⟩
  · obtain ⟨fault, hsend⟩ := send_of_not_canSend hcan
    rw [hsend]
    exact ⟨fun h => absurd h (by simp), fun h => absurd h hcan⟩

/-- Whether a transfer can be sent hangs on its first frame: no other is longer. -/
theorem canSend_iff :
    t.CanSend x ↔ t.enabled = true ∧ t.bus.enabled = true ∧ fitsIdentifier x.identifier ∧
      ∃ first rest, x.frames t.settings.mtu.capacity = .ok (first :: rest) ∧
        first.data.length ≤ t.bus.settings.mtu.frameLength := by
  obtain ⟨first, rest, hlayout, hlongest⟩ :=
    Transfer.exists_layout_eq x (Mtu.capacity_pos t.settings.mtu)
  have hframes : x.frames t.settings.mtu.capacity = .ok (first :: rest) := by
    rw [Transfer.frames_of_pos x (Mtu.capacity_pos _), hlayout]
  constructor
  · intro h
    have hfirst := h.takes first (hlayout ▸ List.mem_cons_self)
    exact ⟨h.enabled, hfirst.enabled, h.identifier, first, rest, hframes, hfirst.short⟩
  · rintro ⟨henabled, hbus, hid, first', rest', hframes', hshort⟩
    obtain ⟨rfl, rfl⟩ : first = first' ∧ rest = rest' := by
      simpa using hframes.symm.trans hframes'
    refine ⟨henabled, hid, ?_⟩
    intro f hf
    rw [hlayout] at hf
    rcases List.mem_cons.mp hf with rfl | hf
    · exact ⟨hbus, hshort⟩
    · exact ⟨hbus, Nat.le_trans (hlongest f hf) hshort⟩

/-- **A transfer is sent completely or not at all.** In any state of transport, bus and relay: a
send that fails changes nothing; one that succeeds has written exactly the CAN frames of the whole
transfer, in order, and what the relay made of each of them waits to be read; and it succeeds
exactly if transport and bus are enabled, the identifier fits, and the first frame is not too long
for the bus. -/
theorem send_all_or_nothing (t : Transport) (x : Transfer) :
    (∀ fault, (t.send x).1 = .error fault → (t.send x).2 = t) ∧
    ((t.send x).1 = .ok () → ∃ cs, x.encoded t.settings.mtu.capacity = .ok cs ∧
      (t.send x).2 =
        { t with bus :=
          { t.bus with
            relay := t.bus.relay.map fun relay => (relay.passAll cs).2
            queue := t.bus.queue ++ t.bus.passed cs
            sent := t.bus.sent ++ cs } }) ∧
    ((t.send x).1 = .ok () ↔
      t.enabled = true ∧ t.bus.enabled = true ∧ fitsIdentifier x.identifier ∧
        ∃ first rest, x.frames t.settings.mtu.capacity = .ok (first :: rest) ∧
          first.data.length ≤ t.bus.settings.mtu.frameLength) := by
  refine ⟨?_, ?_, send_eq_ok_iff.trans canSend_iff⟩
  · intro fault hfault
    have hcan : ¬ t.CanSend x := by
      intro h
      rw [send_eq_ok_iff.mpr h] at hfault
      cases hfault
    obtain ⟨_, hsend⟩ := send_of_not_canSend hcan
    rw [hsend]
  · intro hok
    have hcan := send_eq_ok_iff.mp hok
    refine ⟨wires t.settings.mtu x, ?_, ?_⟩
    · exact Transfer.encoded_of_legal x (Mtu.capacity_pos _) (Mtu.capacity_legal _) hcan.identifier
    · rw [send_of_canSend hcan, Bus.foldl_accept]

end Transport

end CanTransfer
