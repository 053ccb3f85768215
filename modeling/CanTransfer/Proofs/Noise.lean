import Mathlib.Data.List.Nodup
import CanTransfer.Proofs.Search

/-!
# Delivery through noise

Frames of many transfers reach a transport in any order between each other, and with them frames
that cannot be read or that belong to nobody. A transfer whose own frames are complete and in order
is delivered with the last of them.

* `Parcel` — a transfer, and a size of frames in which all of it can travel.
* `Arrival` — a CAN frame as it arrives, and the parcel it is a part of, if any.
* `CanFrame.Foreign`, `Traffic` — frames that do not concern an identifier, and arrivals in which
  the frames of several parcels and foreign ones are mixed.
* `Transport.process_foreign`, `Transport.process_own` — a foreign frame leaves a reception alone, a
  frame of its own is fed to it.
* `Transport.answersTo_eq` — so the frames of a parcel are answered as if they came alone.
* `Transport.delivers_amid_noise` — and each parcel is delivered once, with its last frame.
-/

set_option autoImplicit false

namespace CanTransfer

/-- A transfer, and a size of frames in which all of it can travel. -/
structure Parcel where
  transfer : Transfer
  /-- Bytes in front of the tail of a full frame. -/
  capacity : Nat
  identifier_fits : fitsIdentifier transfer.identifier
  capacity_pos : 0 < capacity
  full_legal : capacity + tailLength ∈ DataLength.table
  deriving Repr

namespace Parcel

theorem eq_iff {p q : Parcel} :
    p = q ↔ p.transfer = q.transfer ∧ p.capacity = q.capacity := by
  obtain ⟨transfer, capacity, _, _, _⟩ := p
  obtain ⟨transfer', capacity', _, _, _⟩ := q
  simp

instance : DecidableEq Parcel :=
  fun _ _ => decidable_of_iff _ eq_iff.symm

/-- The identifier of all frames of the parcel. -/
def key (p : Parcel) : UInt32 := p.transfer.identifier

/-- The frames of the parcel as they travel. -/
def wires (p : Parcel) : List CanFrame := (p.transfer.layout p.capacity).map Frame.wire

/-- These are the CAN frames of the transfer. -/
theorem encoded_eq_wires (p : Parcel) : p.transfer.encoded p.capacity = .ok p.wires :=
  Transfer.encoded_of_legal _ p.capacity_pos p.full_legal p.identifier_fits

theorem identifier_of_mem_wires {p : Parcel} {c : CanFrame} (h : c ∈ p.wires) :
    c.identifier = p.key := by
  obtain ⟨f, hf, rfl⟩ := List.mem_map.mp h
  exact Transfer.identifier_of_mem_layout _ hf

end Parcel

/-- A CAN frame that arrives, and the parcel it is a part of, if any. -/
structure Arrival where
  frame : CanFrame
  parcel : Option Parcel
  deriving DecidableEq, Repr

/-- The frames of a parcel among those that arrive. -/
def framesOf (p : Parcel) (arrivals : List Arrival) : List CanFrame :=
  (arrivals.filter fun a => a.parcel = some p).map Arrival.frame

/-- The frame does not concern the receptions of an identifier: it cannot be read, or carries
another identifier. -/
def CanFrame.Foreign (key : UInt32) (c : CanFrame) : Prop :=
  (∃ fault, Frame.decode c = .error fault) ∨ c.identifier ≠ key

instance (key : UInt32) (c : CanFrame) : Decidable (c.Foreign key) :=
  match hdecode : Frame.decode c with
  | .error fault => isTrue (.inl ⟨fault, hdecode⟩)
  | .ok _ =>
    if hid : c.identifier = key then
      isFalse fun h => h.elim (fun ⟨_, hfault⟩ => by rw [hdecode] at hfault; cases hfault) (· hid)
    else isTrue (.inr hid)

/-- Parcels with identifiers of their own whose frames arrive in order, each parcel's complete, with
any frames between them that concern none of the parcels. -/
structure Traffic (parcels : List Parcel) (arrivals : List Arrival) : Prop where
  distinct : (parcels.map Parcel.key).Nodup
  inOrder : ∀ p ∈ parcels, framesOf p arrivals = p.wires
  known : ∀ a ∈ arrivals, ∀ p, a.parcel = some p → p ∈ parcels
  foreign : ∀ a ∈ arrivals, a.parcel = none → ∀ p ∈ parcels, a.frame.Foreign p.key

theorem Traffic.foreign_of_ne {parcels : List Parcel} {arrivals : List Arrival}
    (h : Traffic parcels arrivals) {p : Parcel} (hp : p ∈ parcels) {a : Arrival}
    (ha : a ∈ arrivals) (hne : a.parcel ≠ some p) : a.frame.Foreign p.key := by
  cases hq : a.parcel with
  | none => exact h.foreign a ha hq p hp
  | some q =>
    have hmem := h.known a ha q hq
    have hframe : a.frame ∈ q.wires := by
      rw [← h.inOrder q hmem]
      exact List.mem_map.mpr ⟨a, List.mem_filter.mpr ⟨ha, by simpa using hq⟩, rfl⟩
    right
    rw [Parcel.identifier_of_mem_wires hframe]
    intro hkey
    obtain rfl := List.inj_on_of_nodup_map h.distinct hmem hp hkey
    exact hne hq

/-! ## One frame -/

theorem Frame.identifier_of_decode {c : CanFrame} {f : Frame} (h : decode c = .ok f) :
    f.identifier = c.identifier := by
  unfold decode at h
  split at h
  · cases h
  · split at h
    · cases h
    · split at h
      · cases h
      · cases h
        rfl

/-- The outcome of a frame as a transport reports it. -/
def Outcome.answer (o : Outcome) : Except Fault (Option Delivery) :=
  o.result.mapError Fault.reception

theorem Outcome.eq_delivered_of_answer {o : Outcome} {d : Delivery}
    (h : o.answer = .ok (some d)) : o = .delivered d := by
  cases o <;> simp_all [answer, result, Except.mapError]

namespace ReceptionTable

variable {t : ReceptionTable} {c : CanFrame} {f : Frame}

theorem process_of_error {fault : FrameFault} (h : Frame.decode c = .error fault) :
    t.process c = (.error (.frame fault), t) := by
  rw [process, h]

theorem process_of_ok (h : Frame.decode c = .ok f) :
    t.process c = ((t.feed f).1.answer, (t.feed f).2) := by
  rw [process, h]
  rfl

end ReceptionTable

namespace Transport

variable {t : Transport} {key : UInt32} {c : CanFrame} {f : Frame}

theorem process_of_error {fault : FrameFault} (h : Frame.decode c = .error fault) :
    t.process c = (.error (.frame fault), t) := by
  rw [process, ReceptionTable.process_of_error h]

theorem process_of_ok (h : Frame.decode c = .ok f) :
    t.process c = ((t.table.feed f).1.answer, { t with table := (t.table.feed f).2 }) := by
  rw [process, ReceptionTable.process_of_ok h]

/-- A foreign frame neither touches the reception of the identifier nor delivers a transfer of
it. -/
theorem process_foreign (h : c.Foreign key) (t : Transport) :
    (t.process c).2.table.reception key = t.table.reception key ∧
      ∀ d, (t.process c).1 = .ok (some d) → d.identifier ≠ key := by
  cases hdecode : Frame.decode c with
  | error fault =>
    rw [process_of_error hdecode]
    exact ⟨rfl, fun d hd => by cases hd⟩
  | ok f =>
    have hid : f.identifier ≠ key := by
      rw [Frame.identifier_of_decode hdecode]
      rcases h with ⟨fault, hfault⟩ | h
      · rw [hdecode] at hfault
        cases hfault
      · exact h
    rw [process_of_ok hdecode]
    refine ⟨?_, ?_⟩
    · show (t.table.feed f).2.reception key = _
      rw [ReceptionTable.reception_feed, if_neg hid.symm]
    · intro d hd
      have hdelivered := Outcome.eq_delivered_of_answer hd
      rw [ReceptionTable.outcome_feed] at hdelivered
      rw [(Reception.feed_eq_delivered hdelivered).2]
      exact hid

/-- A frame of the identifier is fed to its reception. -/
theorem process_own {f : Frame} (hkey : fitsIdentifier key) (hid : f.identifier = key)
    (t : Transport) :
    (t.process f.wire).1 = ((t.table.reception key).feed f).1.answer ∧
      (t.process f.wire).2.table.reception key = ((t.table.reception key).feed f).2 := by
  subst hid
  rw [process_of_ok (Frame.decode_wire hkey)]
  refine ⟨rfl, ?_⟩
  show (t.table.feed f).2.reception f.identifier = _
  rw [ReceptionTable.reception_feed, if_pos rfl]

/-! ## Many frames -/

/-- What the frames are answered with if they are processed as they arrive, each beside its
answer. -/
def answers (t : Transport) (arrivals : List Arrival) :
    List (Arrival × Except Fault (Option Delivery)) :=
  arrivals.zip (runOf (fun t a => t.process a.frame) t arrivals).1

/-- The answers to the frames of a parcel. -/
def answersTo (t : Transport) (p : Parcel) (arrivals : List Arrival) :
    List (Except Fault (Option Delivery)) :=
  (t.answers arrivals).filterMap fun a => if a.1.parcel = some p then some a.2 else none

/-- The transfer of an identifier that is delivered with an answer. -/
def deliveryTo (key : UInt32) : Except Fault (Option Delivery) → Option Delivery
  | .ok (some d) => if d.identifier = key then some d else none
  | _ => none

/-- The transfers of an identifier that are delivered with any of the frames. -/
def deliveriesTo (t : Transport) (key : UInt32) (arrivals : List Arrival) : List Delivery :=
  (t.answers arrivals).filterMap fun a => deliveryTo key a.2

theorem answersTo_cons (t : Transport) (p : Parcel) (a : Arrival) (rest : List Arrival) :
    t.answersTo p (a :: rest) =
      (if a.parcel = some p then [(t.process a.frame).1] else []) ++
        (t.process a.frame).2.answersTo p rest := by
  unfold answersTo answers
  rw [filterMap_zip_runOf_cons]
  split <;> rfl

theorem deliveriesTo_cons (t : Transport) (key : UInt32) (a : Arrival) (rest : List Arrival) :
    t.deliveriesTo key (a :: rest) =
      (deliveryTo key (t.process a.frame).1).toList ++
        (t.process a.frame).2.deliveriesTo key rest := by
  unfold deliveriesTo answers
  exact filterMap_zip_runOf_cons _ (fun a => deliveryTo key a.2) t a rest

theorem deliveryTo_foreign {c : CanFrame} (h : c.Foreign key) (t : Transport) :
    deliveryTo key (t.process c).1 = none := by
  unfold deliveryTo
  split
  · rename_i d hd
    rw [if_neg ((process_foreign h t).2 d hd)]
  · rfl

variable {p : Parcel} {arrivals : List Arrival}

/-- The frames of a parcel are answered as a lone reception would answer them. -/
theorem answersTo_eq {frames : List Frame} (hid : ∀ f ∈ frames, f.identifier = p.key)
    (own : framesOf p arrivals = frames.map Frame.wire)
    (foreign : ∀ a ∈ arrivals, a.parcel ≠ some p → a.frame.Foreign p.key) (t : Transport) :
    t.answersTo p arrivals =
      ((t.table.reception p.key).feedAll frames).1.map Outcome.answer := by
  induction arrivals generalizing t frames with
  | nil =>
    obtain rfl : frames = [] := by simpa [framesOf] using own
    rfl
  | cons a rest ih =>
    have hforeign : ∀ b ∈ rest, b.parcel ≠ some p → b.frame.Foreign p.key :=
      fun b hb => foreign b (List.mem_cons_of_mem _ hb)
    rw [answersTo_cons]
    by_cases ha : a.parcel = some p
    · -- The frame is the parcel's next one.
      have hown : a.frame :: framesOf p rest = frames.map Frame.wire := by
        rw [← own]
        simp [framesOf, ha]
      cases frames with
      | nil => cases hown
      | cons f more =>
        obtain ⟨hf, hmore⟩ := List.cons.inj hown
        have hkey : fitsIdentifier p.key := p.identifier_fits
        obtain ⟨hanswer, hnext⟩ := process_own hkey (hid f List.mem_cons_self) t
        rw [if_pos ha, hf, hanswer,
          ih (fun g hg => hid g (List.mem_cons_of_mem _ hg)) hmore hforeign, hnext]
        rfl
    · have hown : framesOf p rest = frames.map Frame.wire := by
        rw [← own]
        simp [framesOf, ha]
      have hnext := (process_foreign (foreign a List.mem_cons_self ha) t).1
      rw [if_neg ha, List.nil_append, ih hid hown hforeign, hnext]

/-- All that is delivered of the identifier of a parcel is delivered with a frame of the parcel. -/
theorem deliveriesTo_eq
    (foreign : ∀ a ∈ arrivals, a.parcel ≠ some p → a.frame.Foreign p.key) (t : Transport) :
    t.deliveriesTo p.key arrivals = (t.answersTo p arrivals).filterMap (deliveryTo p.key) := by
  induction arrivals generalizing t with
  | nil => rfl
  | cons a rest ih =>
    have hrest := ih (fun b hb => foreign b (List.mem_cons_of_mem _ hb)) (t.process a.frame).2
    rw [deliveriesTo_cons, answersTo_cons, List.filterMap_append, hrest]
    by_cases ha : a.parcel = some p
    · rw [if_pos ha, List.filterMap_cons]
      cases deliveryTo p.key (t.process a.frame).1 <;> rfl
    · rw [if_neg ha, deliveryTo_foreign (foreign a List.mem_cons_self ha)]
      rfl

/-- **A transfer is delivered through any noise.** In whatever state a transport is, and however the
frames of parcels with identifiers of their own are mixed with each other and with frames that
concern none of them: the frames of each parcel are those into which its transfer is cut and
encoded; all of them but the last are answered with nothing, the last one with the transfer, padded
with at most 15 bytes; and no other frame delivers a transfer of this identifier. -/
theorem delivers_amid_noise {parcels : List Parcel} {arrivals : List Arrival}
    (traffic : Traffic parcels arrivals) (t : Transport) :
    ∀ p ∈ parcels, p.transfer.encoded p.capacity = .ok (framesOf p arrivals) ∧
      ∃ d padded,
        t.answersTo p arrivals =
          List.replicate ((framesOf p arrivals).length - 1) (.ok none) ++ [.ok (some d)] ∧
        t.deliveriesTo p.key arrivals = [d] ∧ d.Carries p.transfer padded ∧ padded ≤ 15 := by
  intro p hp
  have hforeign : ∀ a ∈ arrivals, a.parcel ≠ some p → a.frame.Foreign p.key :=
    fun a ha => traffic.foreign_of_ne hp ha
  have hanswers : t.answersTo p arrivals =
      List.replicate ((framesOf p arrivals).length - 1) (.ok none) ++
        [.ok (some (p.transfer.delivery p.capacity))] := by
    rw [answersTo_eq (fun f hf => Transfer.identifier_of_mem_layout _ hf) (traffic.inOrder p hp)
      hforeign, Transfer.feedAll_layout _ p.capacity_pos, traffic.inOrder p hp]
    simp [Parcel.wires, Outcome.answer, Outcome.result, Except.mapError]
  refine ⟨?_, _, _, hanswers, ?_, p.transfer.delivery_carries, fillCount_le_fifteen _ _⟩
  · rw [traffic.inOrder p hp, p.encoded_eq_wires]
  · have hkey : (p.transfer.delivery p.capacity).identifier = p.key := rfl
    rw [deliveriesTo_eq hforeign, hanswers, List.filterMap_append]
    simp [deliveryTo, hkey]

end Transport

/-- A transfer of two classic frames. -/
def Parcel.pair : Parcel :=
  ⟨⟨0x100, 35, [[1, 2, 3, 4, 5, 6, 7, 8], [9]], false⟩, 7, by decide, by decide, by decide⟩

/-- A transfer of one padded FD frame. -/
def Parcel.padded : Parcel :=
  ⟨⟨0x200, 3, [[10, 11, 12, 13, 14], [15, 16, 17]], true⟩, 11, by decide, by decide, by decide⟩

/-- Between the two frames of the first parcel: a frame without data and one with an identifier of
11 bits, both of which carry its identifier, the frame of the second parcel, and one that starts a
transfer of a third identifier. -/
def Arrival.mixed : List Arrival :=
  [⟨{ identifier := 0x100, data := [1, 2, 3, 4, 5, 6, 7, 0xA3] }, some .pair⟩,
    ⟨{ identifier := 0x100 }, none⟩,
    ⟨{ identifier := 0x200, data := [10, 11, 12, 13, 14, 15, 16, 17, 85, 85, 85, 0xE3], fd := true,
       loopback := true }, some .padded⟩,
    ⟨{ identifier := 0x100, data := [0xE0], extended := false }, none⟩,
    ⟨{ identifier := 0x300, data := [1, 0xA5] }, none⟩,
    ⟨{ identifier := 0x100, data := [8, 9, 0x3B, 0x0A, 0x43] }, some .pair⟩]

theorem Traffic.mixed : Traffic [.pair, .padded] Arrival.mixed :=
  ⟨by decide, by decide +kernel, by decide +kernel, by decide +kernel⟩

/-- A transport in the middle of another transfer of the first identifier. -/
def Transport.busy : Transport where
  settings := Transport.defaultSettings
  bus := .loopback
  table := (ReceptionTable.empty.feed
    ⟨0x100, [1], ⟨true, false, true, TransferId.truncate 3⟩, false⟩).2

theorem Transport.delivers_amid_noise_mixed :
    Traffic [.pair, .padded] Arrival.mixed ∧
      ∀ p ∈ [Parcel.pair, .padded],
        p.transfer.encoded p.capacity = .ok (framesOf p Arrival.mixed) ∧
        ∃ d padded,
          busy.answersTo p Arrival.mixed =
            List.replicate ((framesOf p Arrival.mixed).length - 1) (.ok none) ++ [.ok (some d)] ∧
          busy.deliveriesTo p.key Arrival.mixed = [d] ∧ d.Carries p.transfer padded ∧
          padded ≤ 15 :=
  ⟨Traffic.mixed, delivers_amid_noise Traffic.mixed _⟩

end CanTransfer
