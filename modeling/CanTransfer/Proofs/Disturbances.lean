import Mathlib.Data.Finset.Basic
import CanTransfer.Proofs.BitErrors
import CanTransfer.Proofs.Detection
import CanTransfer.Proofs.Loss
import CanTransfer.Proofs.Wire

/-!
# One disturbance of a transfer

The frames of a transfer of several frames are disturbed once on their way: a frame is lost, comes
twice, changes places with its neighbour, or arrives with another tail or another byte.

* `Disturbance.Noticeable` — the disturbances that a receiver can tell, whatever the transfer.
* `Disturbance.drop_apply`, `Disturbance.duplicate_apply`, `Disturbance.alter_apply` — what arrives
  is what arrives of a loss, a repetition or an alteration of the tails.
* `Transfer.rejectsLast_xor` — the CRC tells a byte that is changed.
* `Transfer.delivered_duplicate` — a copy is told exactly if it is of a frame inside the transfer.
* `Transfer.delivered_disturbed` — nothing is delivered if a disturbance is noticeable.
-/

set_option autoImplicit false

namespace CanTransfer

/-- A disturbance of `count` frames with the transfer id `own` that a receiver can tell. Copies of
the first and of the last frame are harmless, and of frames that are exchanged only neighbours are
sure to be out of step. -/
inductive Disturbance.Noticeable (count : Nat) (own : TransferId) : Disturbance → Prop
  | drop (place : Nat) : Noticeable count own (.drop place)
  | duplicate {place : Nat} (behindFirst : 0 < place % count)
      (beforeLast : place % count + 1 < count) : Noticeable count own (.duplicate place)
  | exchange {place other : Nat}
      (neighbours : place % count + 1 = other % count ∨ other % count + 1 = place % count) :
      Noticeable count own (.exchange place other)
  | invertFirst {place : Nat} (first : place % count = 0) :
      Noticeable count own (.alter place .invertFirst)
  | invertLast {place : Nat} (last : place % count + 1 = count) :
      Noticeable count own (.alter place .invertLast)
  | invertToggle (place : Nat) : Noticeable count own (.alter place .invertToggle)
  | transferId (place : Nat) {value : TransferId} (other : value ≠ own) :
      Noticeable count own (.alter place (.transferId value))
  | xor (place byte : Nat) {mask : UInt8} (nonzero : mask ≠ 0) :
      Noticeable count own (.alter place (.xor byte mask))

/-- The numbers of copies if the frame at a place comes twice. -/
def Frame.twiceAt (place i : Nat) : Nat := if i = place then 2 else 1

/-! ## The frames that arrive -/

/-- One lost frame leaves the others. -/
theorem Frame.arriving_singleton (frames : List Frame) (i : Nat) :
    arriving {i} frames = frames.eraseIdx i := by
  have hplaces : ∀ start, ((frames.zipIdx start).filter fun p =>
      p.2 ∉ ({start + i} : Finset Nat)).map Prod.fst = frames.eraseIdx i := by
    induction frames generalizing i with
    | nil => exact fun _ => rfl
    | cons f rest ih =>
      intro start
      cases i with
      | zero =>
        have hrest : ((rest.zipIdx (start + 1)).filter fun p => p.2 ∉ ({start + 0} : Finset Nat)) =
            rest.zipIdx (start + 1) := by
          refine List.filter_eq_self.mpr fun p hp => ?_
          have := List.le_snd_of_mem_zipIdx hp
          simp only [Finset.mem_singleton, decide_eq_true_iff]
          omega
        rw [List.zipIdx_cons, List.filter_cons, hrest]
        simp
      | succ i =>
        have hstart : start + (i + 1) = start + 1 + i := by omega
        rw [List.zipIdx_cons, List.filter_cons, hstart, if_pos (by simp; omega), List.map_cons, ih]
        rfl
  simpa [arriving, survivors] using hplaces 0

namespace Disturbance

variable {frames : List Frame} {place : Nat}

theorem drop_apply (frames : List Frame) (place : Nat) :
    (drop place).apply frames = Frame.arriving {place % frames.length} frames :=
  (Frame.arriving_singleton frames _).symm

theorem duplicate_apply (h : frames ≠ []) (place : Nat) :
    (duplicate place).apply frames =
      Frame.repeated (Frame.twiceAt (place % frames.length)) frames := by
  have hlt : place % frames.length < frames.length := Nat.mod_lt _ (List.length_pos_iff.mpr h)
  show frames.take (place % frames.length + 1) ++ frames.drop (place % frames.length) = _
  generalize place % frames.length = i at hlt ⊢
  have hlength : (frames.take i).length = i := by
    rw [List.length_take, Nat.min_eq_left (Nat.le_of_lt hlt)]
  have hfront : Frame.repeated (Frame.twiceAt i) (frames.take i) = frames.take i :=
    Frame.repeated_eq_self fun j hj => if_neg (by omega)
  have hback : Frame.repeated (fun j => Frame.twiceAt i (i + (j + 1))) (frames.drop (i + 1)) =
      frames.drop (i + 1) :=
    Frame.repeated_eq_self fun j _ => if_neg (by omega)
  have htwice : Frame.twiceAt i (i + 0) = 2 := if_pos rfl
  conv_rhs => rw [← List.take_append_drop i frames, Frame.repeated_append, hlength, hfront,
    List.drop_eq_getElem_cons hlt, Frame.repeated]
  rw [hback, htwice, List.take_succ_eq_append_getElem hlt, List.drop_eq_getElem_cons hlt,
    List.append_assoc]
  rfl

theorem exchange_apply_comm (frames : List Frame) (place other : Nat) :
    (exchange place other).apply frames = (exchange other place).apply frames := by
  simp only [apply]
  generalize place % frames.length = i
  generalize other % frames.length = j
  cases hi : frames[i]? with
  | none => cases frames[j]? <;> rfl
  | some f =>
    cases hj : frames[j]? with
    | none => rfl
    | some g =>
      by_cases heq : i = j
      · subst heq
        rw [hi] at hj
        cases hj
        rfl
      · exact List.set_comm _ _ heq

theorem exchange_apply_mod (frames : List Frame) (place other : Nat) :
    (exchange place other).apply frames =
      (exchange (place % frames.length) (other % frames.length)).apply frames := by
  simp only [apply, Nat.mod_mod]

/-- A change of one frame changes the frame at its place and no other. -/
theorem alter_apply {change : Frame.Change} {alter : Nat → Frame → Frame}
    (here : ∀ f, alter (place % frames.length) f = change.apply f)
    (elsewhere : ∀ (i : Nat) (f : Frame), frames[i]? = some f → i ≠ place % frames.length →
      alter i f = f) :
    (Disturbance.alter place change).apply frames = frames.mapIdx alter := by
  apply List.ext_getElem?
  intro i
  rw [apply, List.getElem?_modify, List.getElem?_mapIdx]
  cases hf : frames[i]? with
  | none => rfl
  | some f =>
    by_cases hi : i = place % frames.length
    · subst hi
      simp [here]
    · simp [Ne.symm hi, elsewhere i f hf hi]

theorem invertToggle_apply (frames : List Frame) (place : Nat) :
    (Disturbance.alter place .invertToggle).apply frames =
      Frame.retoggled {place % frames.length} frames := by
  refine alter_apply (fun f => ?_) fun i f _ hi => ?_
  · simp [Frame.retoggledAt]
  · simp [Frame.retoggledAt, hi]

theorem transferId_apply {transferId value : TransferId}
    (numbered : Frame.Numbered transferId frames) (place : Nat) :
    (Disturbance.alter place (.transferId value)).apply frames =
      Frame.renumbered (fun i => if i = place % frames.length then value else transferId)
        frames := by
  refine alter_apply (fun f => ?_) fun i f hf hi => ?_
  · simp
  · have hid : f.tail.transferId = transferId := by
      rw [numbered i f hf]
      rfl
    simp [hi, Frame.Change.apply, ← hid]

/-- The frames around the one that is changed. -/
theorem exists_alter_apply (h : frames ≠ []) (place : Nat) (change : Frame.Change) :
    ∃ front f back, frames = front ++ f :: back ∧ front.length = place % frames.length ∧
      (Disturbance.alter place change).apply frames = front ++ change.apply f :: back :=
  List.exists_of_modify _ (Nat.mod_lt _ (List.length_pos_iff.mpr h))

variable {d : Disturbance} {g : Frame}

/-- What arrives was sent, or is a frame that was altered. -/
theorem mem_apply (h : g ∈ d.apply frames) :
    g ∈ frames ∨ ∃ place change f, d = .alter place change ∧ f ∈ frames ∧ g = change.apply f := by
  cases d with
  | drop place => exact .inl (List.mem_of_mem_eraseIdx h)
  | duplicate place =>
    rcases List.mem_append.mp h with h | h
    · exact .inl (List.mem_of_mem_take h)
    · exact .inl (List.mem_of_mem_drop h)
  | exchange place other =>
    left
    simp only [apply] at h
    split at h
    · rename_i f f' hf hf'
      rcases List.mem_or_eq_of_mem_set h with h | rfl
      · rcases List.mem_or_eq_of_mem_set h with h | rfl
        · exact h
        · exact List.mem_of_getElem? hf'
      · exact List.mem_of_getElem? hf
    · exact h
  | alter place change =>
    obtain ⟨i, hi⟩ := List.mem_iff_getElem?.mp h
    rw [apply, List.getElem?_modify] at hi
    obtain ⟨f, hf, rfl⟩ := Option.map_eq_some_iff.mp hi
    split
    · exact .inr ⟨place, change, f, rfl, List.mem_of_getElem? hf, rfl⟩
    · exact .inl (List.mem_of_getElem? hf)

/-- No noticeable disturbance changes an identifier or a length. -/
theorem Noticeable.exists_of_mem {count : Nat} {own : TransferId}
    (noticeable : d.Noticeable count own) (h : g ∈ d.apply frames) :
    ∃ f ∈ frames, g.identifier = f.identifier ∧ g.data.length = f.data.length := by
  rcases mem_apply h with h | ⟨place, change, f, rfl, hf, rfl⟩
  · exact ⟨g, h, rfl, rfl⟩
  · refine ⟨f, hf, ?_⟩
    rw [Frame.length_data, Frame.length_data]
    cases noticeable with
    | xor place byte _ => exact ⟨rfl, by simp [Frame.Change.apply]⟩
    | _ => exact ⟨rfl, rfl⟩

end Disturbance

theorem exists_other_place {count : Nat} (several : 1 < count) (i : Nat) :
    ∃ j, j < count ∧ j ≠ i := by
  by_cases h : i = 0
  · exact ⟨1, several, by omega⟩
  · exact ⟨0, by omega, by omega⟩

/-! ## What a receiver makes of them -/

namespace Reception

variable {transferId : TransferId} {frames : List Frame} {place : Nat}

theorem delivered_drop (numbered : Frame.Numbered transferId frames) (several : 1 < frames.length)
    (place : Nat) : idle.delivered ((Disturbance.drop place).apply frames) = [] := by
  rw [Disturbance.drop_apply]
  have hlt := Nat.mod_lt place (Nat.zero_lt_of_lt several)
  generalize place % frames.length = i at hlt ⊢
  refine delivered_of_lost numbered ?_
  by_cases hfirst : i = 0
  · exact .inl (by simp [hfirst])
  · by_cases hlast : i = frames.length - 1
    · exact .inr (.inl (by simp [hlast]))
    · -- The lost frame is a gap by itself.
      have gap : Gap frames.length {i} i (i + 1) := by
        refine ⟨by omega, by omega, by omega, ?_, .inr ?_, .inr ?_⟩
        · intro j hj hlt
          rw [Finset.mem_singleton]
          omega
        · rw [Finset.mem_singleton]
          omega
        · rw [Finset.mem_singleton]
          omega
      exact .inr (.inr ⟨i, i + 1, gap, by omega⟩)

theorem delivered_exchange (numbered : Frame.Numbered transferId frames) {place other : Nat}
    (several : 1 < frames.length) (neighbours : place % frames.length + 1 = other % frames.length) :
    idle.delivered ((Disturbance.exchange place other).apply frames) = [] := by
  have hlt := Nat.mod_lt other (Nat.zero_lt_of_lt several)
  rw [Disturbance.exchange_apply_mod, ← neighbours]
  exact delivered_exchange_apply numbered (by omega)

theorem delivered_invertFirst (numbered : Frame.Numbered transferId frames) (nonempty : frames ≠ [])
    (first : place % frames.length = 0) :
    idle.delivered ((Disturbance.alter place .invertFirst).apply frames) = [] := by
  obtain ⟨front, f, back, hframes, hlength, happly⟩ :=
    Disturbance.exists_alter_apply nonempty place .invertFirst
  rw [first] at hlength
  obtain rfl := List.length_eq_zero_iff.mp hlength
  rw [hframes] at numbered
  rw [happly]
  refine delivered_of_orphans fun g hg => ?_
  rcases List.mem_cons.mp hg with rfl | hg
  · have hfirst : f.tail.first = true := numbered.first rfl
    simp [Frame.Change.apply, hfirst]
  · exact numbered.notFirst_of_mem hg

theorem delivered_invertLast (numbered : Frame.Numbered transferId frames)
    (last : place % frames.length + 1 = frames.length) :
    idle.delivered ((Disturbance.alter place .invertLast).apply frames) = [] := by
  have nonempty : frames ≠ [] := by
    rintro rfl
    cases last
  obtain ⟨front, f, back, hframes, hlength, happly⟩ :=
    Disturbance.exists_alter_apply nonempty place .invertLast
  have hcount := congrArg List.length hframes
  rw [List.length_append, List.length_cons] at hcount
  obtain rfl : back = [] := List.length_eq_zero_iff.mp (by omega)
  rw [happly]
  refine delivered_of_none_last (fun g hg => ?_) idle
  rcases List.mem_append.mp hg with hg | hg
  · obtain ⟨i, hi⟩ := List.mem_iff_getElem?.mp hg
    have hlt := (List.getElem?_eq_some_iff.mp hi).1
    refine numbered.notLast (i := i) ?_ (by omega)
    rw [hframes, List.getElem?_append_left hlt, hi]
  · have hf : f.tail.last = true := by
      rw [numbered front.length f (by simp [hframes])]
      simp [Tail.numbered, hcount]
    rw [List.mem_singleton.mp hg]
    simp [Frame.Change.apply, hf]

theorem delivered_invertToggle (numbered : Frame.Numbered transferId frames)
    (several : 1 < frames.length) (place : Nat) :
    idle.delivered ((Disturbance.alter place .invertToggle).apply frames) = [] := by
  rw [Disturbance.invertToggle_apply]
  have hlt := Nat.mod_lt place (Nat.zero_lt_of_lt several)
  generalize place % frames.length = i at hlt ⊢
  obtain ⟨j, hj, hne⟩ := exists_other_place several i
  have changed : ∃ k, k < frames.length ∧ k ∈ ({i} : Finset Nat) := ⟨i, hlt, by simp⟩
  obtain ⟨_, _, _, _, hfault⟩ :=
    exists_soleFault_retoggled numbered changed ⟨j, hj, by simpa using hne⟩ idle
  exact delivered_eq_nil_of_soleFault hfault

theorem delivered_transferId (numbered : Frame.Numbered transferId frames)
    (several : 1 < frames.length) (place : Nat) {value : TransferId} (other : value ≠ transferId) :
    idle.delivered ((Disturbance.alter place (.transferId value)).apply frames) = [] := by
  rw [Disturbance.transferId_apply numbered]
  have hlt := Nat.mod_lt place (Nat.zero_lt_of_lt several)
  generalize place % frames.length = i at hlt ⊢
  obtain ⟨j, hj, hne⟩ := exists_other_place several i
  obtain ⟨_, hplace⟩ := exists_firstOther (fun k => if k = i then value else transferId)
    ⟨i, j, hlt, hj, by simpa [hne] using other⟩
  exact delivered_eq_nil_of_soleFault (soleFault_renumbered numbered hplace idle)

theorem delivered_of_rejectsLast {r : Reception} (h : r.RejectsLast frames) :
    r.delivered frames = [] := by
  obtain ⟨transmitted, computed, hfeed⟩ := h
  have hsole : SoleFault (frames.length - 1) (.checksum transmitted computed) (r.results frames) :=
    ⟨0, by simp [results, hfeed, Outcome.result]⟩
  exact delivered_eq_nil_of_soleFault hsole

end Reception

namespace Transfer

variable (t : Transfer) {capacity : Nat}

theorem one_lt_length_layout (pos : 0 < capacity) (several : capacity < t.length) :
    1 < (t.layout capacity).length := by
  obtain ⟨m, middle, f, hlayout, -⟩ := exists_layout_completes t pos several
  simp [hlayout]

/-- **A byte of the payloads that is changed is noticed**, and the reception ends idle. -/
theorem rejectsLast_xor (pos : 0 < capacity) (several : capacity < t.length) (place byte : Nat)
    {mask : UInt8} (nonzero : mask ≠ 0) (r : Reception) :
    r.RejectsLast ((Disturbance.alter place (.xor byte mask)).apply (t.layout capacity)) := by
  obtain ⟨front, f, back, hlayout, -, happly⟩ :=
    Disturbance.exists_alter_apply (t.layout_ne_nil capacity) place (.xor byte mask)
  have hcontent : t.content capacity ≠ [] :=
    List.ne_nil_of_length_pos (Nat.zero_lt_of_lt (lt_length_content t several))
  have hmem : f ∈ t.layout capacity := by simp [hlayout]
  have hpayload : f.payload ≠ [] :=
    Bytes.ne_nil_of_mem_pieces pos hcontent (Frame.mem_sequence _ _ _ hmem).2
  obtain ⟨before, b, after, hbytes, -, hxor⟩ := List.exists_of_modify (· ^^^ mask)
    (Nat.mod_lt byte (List.length_pos_iff.mpr hpayload))
  have hresidue := ofBytes_content t several
  rw [← bytes_layout, hlayout] at hresidue
  have hsplit : ∀ g : Frame, Frame.bytes (front ++ g :: back) =
      Frame.bytes front ++ (g.payload ++ Frame.bytes back) := by
    intro g
    simp [Frame.bytes]
  refine rejectsLast_of_tails t pos several ?_ ?_ r
  · rw [happly, hlayout]
    simp [Frame.Change.apply]
  · have hne : b ^^^ mask ≠ b := fun h => nonzero ((UInt8.xor_right_inj b).mp (by simpa using h))
    have hregister := Crc.addAll_ne hne Crc.init (Frame.bytes front ++ before)
      (after ++ Frame.bytes back)
    rw [happly, ← hresidue, hsplit, hsplit, hbytes]
    show Crc.ofBytes (_ ++ (f.payload.xorAt byte mask ++ _)) ≠ _
    rw [Bytes.xorAt, hxor]
    simpa [Crc.ofBytes] using hregister

/-- A second copy of a frame is told exactly if the frame is neither the first nor the last one. -/
theorem delivered_duplicate (pos : 0 < capacity) (several : capacity < t.length) (place : Nat) :
    Reception.idle.delivered ((Disturbance.duplicate place).apply (t.layout capacity)) =
      if 0 < place % (t.layout capacity).length ∧
          place % (t.layout capacity).length + 1 < (t.layout capacity).length then []
      else [t.delivery capacity] := by
  have hcount := one_lt_length_layout t pos several
  have hlt := Nat.mod_lt place (Nat.zero_lt_of_lt hcount)
  rw [Disturbance.duplicate_apply (t.layout_ne_nil capacity)]
  generalize place % (t.layout capacity).length = i at hlt ⊢
  have each : ∀ j, j < (t.layout capacity).length → 1 ≤ Frame.twiceAt i j := by
    intro j _
    unfold Frame.twiceAt
    split <;> omega
  by_cases hinner : 0 < i ∧ i + 1 < (t.layout capacity).length
  · have again : ¬ ∀ j, 0 < j → j + 1 < (t.layout capacity).length → Frame.twiceAt i j = 1 := by
      intro honce
      simpa [Frame.twiceAt] using honce i hinner.1 hinner.2
    obtain ⟨_, _, hfault⟩ :=
      Reception.exists_soleFault_repeated (t.layout_numbered capacity) each again .idle
    rw [if_pos hinner, Reception.delivered_eq_nil_of_soleFault hfault]
  · have once : ∀ j, 0 < j → j + 1 < (t.layout capacity).length → Frame.twiceAt i j = 1 := by
      intro j hj hlast
      refine if_neg ?_
      rintro rfl
      exact hinner ⟨hj, hlast⟩
    have hsole := soleDelivery_repeated_layout t pos hcount each once .idle
    rw [if_neg hinner, Reception.delivered_of_soleDelivery hsole]

/-- **A noticeable disturbance is noticed.** Of a transfer of several frames, nothing is
delivered. -/
theorem delivered_disturbed (pos : 0 < capacity) (several : capacity < t.length) {d : Disturbance}
    (h : d.Noticeable (t.layout capacity).length (TransferId.truncate t.number)) :
    Reception.idle.delivered (d.apply (t.layout capacity)) = [] := by
  have numbered := t.layout_numbered capacity
  have hcount := one_lt_length_layout t pos several
  cases h with
  | drop place => exact Reception.delivered_drop numbered hcount place
  | @duplicate place behindFirst beforeLast =>
    rw [delivered_duplicate t pos several, if_pos ⟨behindFirst, beforeLast⟩]
  | exchange neighbours =>
    rcases neighbours with hnext | hnext
    · exact Reception.delivered_exchange numbered hcount hnext
    · rw [Disturbance.exchange_apply_comm]
      exact Reception.delivered_exchange numbered hcount hnext
  | invertFirst first =>
    exact Reception.delivered_invertFirst numbered (t.layout_ne_nil capacity) first
  | invertLast last => exact Reception.delivered_invertLast numbered last
  | invertToggle place => exact Reception.delivered_invertToggle numbered hcount place
  | transferId place other => exact Reception.delivered_transferId numbered hcount place other
  | xor place byte nonzero =>
    exact Reception.delivered_of_rejectsLast
      (rejectsLast_xor t pos several place byte nonzero .idle)

/-! Frames that are no neighbours may be alike, and then their exchange cannot be told. -/

example : Reception.idle.delivered ((Disturbance.exchange 1 3).apply
      (Transfer.layout ⟨0x123, 35, [List.replicate 40 0xA5], false⟩ 7)) =
    [⟨0x123, 3, List.replicate 40 0xA5, false⟩] := by decide +kernel

end Transfer

end CanTransfer
