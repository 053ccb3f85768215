import Mathlib.Data.Finset.Basic
import Mathlib.Data.Nat.Find
import CanTransfer.Proofs.Misfit

/-!
# Lost frames

Of the frames of a transfer some are lost. A receiver cannot number the others, it only sees their
toggles alternate or not; so it misses the frames of a gap exactly if their number is odd.

* `Frame.survivors`, `Frame.arriving` — the frames that arrive, with and without their places in the
  transfer.
* `Gap`, `FirstOddGap` — the longest runs of lost frames inside a transfer, and the first of them
  with an odd number of frames.
* `InStep` — the invariant: behind gaps of even length, each frame has the parity of its place among
  those that arrive.
* `Reception.feedAll_survivors` — so the first frame behind the first odd gap is the first that does
  not fit.
* `Transfer.loss_detected` — and the transfer is not delivered.
-/

set_option autoImplicit false

namespace CanTransfer

/-- The frames that arrive if those at some places are lost, each beside its place. -/
def Frame.survivors (lost : Finset Nat) (frames : List Frame) : List (Frame × Nat) :=
  frames.zipIdx.filter fun p => p.2 ∉ lost

/-- A longest run of lost frames between the first and the last of `count` frames: it begins at the
place `start` and ends before the place `stop`. -/
structure Gap (count : Nat) (lost : Finset Nat) (start stop : Nat) : Prop where
  start_pos : 0 < start
  nonempty : start < stop
  stop_lt : stop < count
  missing : ∀ i, start ≤ i → i < stop → i ∈ lost
  left : start = 1 ∨ start - 1 ∉ lost
  right : stop + 1 = count ∨ stop ∉ lost

/-- The first gap of an odd number of frames. -/
structure FirstOddGap (count : Nat) (lost : Finset Nat) (start stop : Nat) : Prop where
  gap : Gap count lost start stop
  odd : (stop - start) % 2 = 1
  first : ∀ start' stop', Gap count lost start' stop' → start' < start → (stop' - start') % 2 = 0

/-- The frames that arrive. -/
def Frame.arriving (lost : Finset Nat) (frames : List Frame) : List Frame :=
  (Frame.survivors lost frames).map Prod.fst

variable {count start stop : Nat} {lost : Finset Nat} {frames : List Frame} {f : Frame}

/-- If a frame arrives behind an odd gap, one arrives behind the first odd gap. -/
theorem exists_firstOddGap (h : ∃ start stop, Gap count lost start stop ∧
    (stop - start) % 2 = 1 ∧ stop ∉ lost) :
    ∃ start stop, FirstOddGap count lost start stop ∧ stop ∉ lost := by
  classical
  obtain ⟨stop, gap, odd, arrives⟩ := Nat.find_spec h
  refine ⟨Nat.find h, stop, ⟨gap, odd, ?_⟩, arrives⟩
  intro start' stop' gap' hlt
  by_contra heven
  refine Nat.find_min h hlt ⟨stop', gap', by omega, fun hstop' => ?_⟩
  -- An earlier gap cannot reach to the end: the frame in front of this one arrives.
  have hend := gap'.right.resolve_right fun hn => hn hstop'
  have hbefore := gap.left.resolve_left fun hone => by have := gap'.start_pos; omega
  have := gap.nonempty
  have := gap.stop_lt
  exact hbefore (gap'.missing _ (by omega) (by omega))

/-! ## The frames that arrive -/

namespace Frame

theorem getElem?_of_mem_survivors {p : Frame × Nat} (h : p ∈ survivors lost frames) :
    frames[p.2]? = some p.1 ∧ p.2 ∉ lost := by
  obtain ⟨hmem, hlost⟩ := List.mem_filter.mp h
  exact ⟨List.mem_zipIdx_iff_getElem?.mp hmem, by simpa using hlost⟩

theorem place_lt_of_mem_survivors_take {n : Nat} {p : Frame × Nat}
    (h : p ∈ survivors lost (frames.take n)) : p.2 < n := by
  have hlt := (List.getElem?_eq_some_iff.mp (getElem?_of_mem_survivors h).1).1
  rw [List.length_take] at hlt
  omega

theorem survivors_take_succ {i : Nat} (h : frames[i]? = some f) :
    survivors lost (frames.take (i + 1)) =
      survivors lost (frames.take i) ++ if i ∈ lost then [] else [(f, i)] := by
  have hi := (List.getElem?_eq_some_iff.mp h).1
  have hlength : (frames.take i).length = i := by
    rw [List.length_take]
    omega
  unfold survivors
  rw [List.take_add_one, h, Option.toList_some, List.zipIdx_append, List.filter_append, hlength]
  by_cases hlost : i ∈ lost <;> simp [hlost]

/-- A frame that arrives stands behind those that arrive of the frames before it. -/
theorem survivors_eq (h : frames[stop]? = some f) (arrives : stop ∉ lost) :
    ∃ later, survivors lost frames = survivors lost (frames.take stop) ++ (f, stop) :: later ∧
      ∀ p ∈ later, stop < p.2 := by
  have hstop := (List.getElem?_eq_some_iff.mp h).1
  have hlength : (frames.take (stop + 1)).length = stop + 1 := by
    rw [List.length_take]
    omega
  refine ⟨((frames.drop (stop + 1)).zipIdx (stop + 1)).filter fun p => p.2 ∉ lost, ?_, ?_⟩
  · have hsplit : survivors lost frames = survivors lost (frames.take (stop + 1)) ++
        ((frames.drop (stop + 1)).zipIdx (stop + 1)).filter fun p => p.2 ∉ lost := by
      conv_lhs => rw [← List.take_append_drop (stop + 1) frames]
      rw [survivors, List.zipIdx_append, List.filter_append, hlength, Nat.zero_add]
      rfl
    rw [hsplit, survivors_take_succ h, if_neg arrives, List.append_assoc]
    rfl
  · intro p hp
    have := List.le_snd_of_mem_zipIdx (List.mem_of_mem_filter hp)
    omega

end Frame

/-! ## Places and parities -/

/-- Of the first `i` frames those from the place `start` on are lost, and not the one in front of
them; and each of those that arrive has the parity of its place among them. -/
structure InStep (lost : Finset Nat) (i start : Nat) (arrived : List (Frame × Nat)) : Prop where
  le : start ≤ i
  missing : ∀ j, start ≤ j → j < i → j ∈ lost
  left : start = 0 ∨ start - 1 ∉ lost
  length : arrived.length % 2 = start % 2
  places : ∀ (j : Nat) (p : Frame × Nat), arrived[j]? = some p → p.2 % 2 = j % 2

/-- A frame that is lost leaves the others in step. -/
theorem InStep.of_lost {i : Nat} {arrived : List (Frame × Nat)} (h : InStep lost i start arrived)
    (hi : i ∈ lost) : InStep lost (i + 1) start arrived := by
  refine ⟨Nat.le_succ_of_le h.le, ?_, h.left, h.length, h.places⟩
  intro j hj hlt
  by_cases heq : j = i
  · rw [heq]
    exact hi
  · exact h.missing j hj (by omega)

/-- A frame that arrives is in step with the others if there is an even gap in front of it, or
none. -/
theorem InStep.of_arrives {i : Nat} {arrived : List (Frame × Nat)}
    (h : InStep lost i start arrived) (hi : i ∉ lost) (heven : i % 2 = start % 2) :
    InStep lost (i + 1) (i + 1) (arrived ++ [(f, i)]) := by
  have hlength := h.length
  refine ⟨Nat.le_refl _, fun j hj hlt => by omega, .inr (by simpa using hi), ?_, ?_⟩
  · rw [List.length_append, List.length_singleton]
    omega
  · intro j p hp
    rw [List.getElem?_append] at hp
    split at hp
    · exact h.places j p hp
    · rename_i hj
      obtain ⟨hj', rfl⟩ := List.getElem?_eq_some_iff.mp hp
      have : j = arrived.length := by
        simp only [List.length_singleton] at hj'
        omega
      simp only [List.getElem_singleton]
      omega

/-- Up to the end of the first odd gap, the frames are in step. -/
theorem FirstOddGap.exists_inStep (h : FirstOddGap frames.length lost start stop)
    (first : 0 ∉ lost) (i : Nat) (hi : i ≤ stop) :
    ∃ s, InStep lost i s (Frame.survivors lost (frames.take i)) := by
  have hstop := h.gap.stop_lt
  induction i with
  | zero =>
    exact ⟨0, Nat.le_refl _, fun j _ hj => by omega, .inl rfl, rfl, by simp [Frame.survivors]⟩
  | succ i ih =>
    obtain ⟨s, hstep⟩ := ih (by omega)
    have hlt : i < frames.length := by omega
    rw [Frame.survivors_take_succ (List.getElem?_eq_getElem hlt)]
    by_cases hlost : i ∈ lost
    · rw [if_pos hlost, List.append_nil]
      exact ⟨s, hstep.of_lost hlost⟩
    · rw [if_neg hlost]
      refine ⟨i + 1, hstep.of_arrives hlost ?_⟩
      by_cases heq : s = i
      · rw [heq]
      · have hle := hstep.le
        -- The frames from `s` on are a gap, and it stands in front of the first odd one.
        have hs : s ≠ 0 := by
          rintro rfl
          exact first (hstep.missing 0 (Nat.le_refl _) (by omega))
        have hgap : Gap frames.length lost s i :=
          ⟨by omega, by omega, hlt, hstep.missing, .inr (hstep.left.resolve_left hs), .inr hlost⟩
        have hbefore : i < start := by
          by_contra hge
          exact hlost (h.gap.missing i (by omega) (by omega))
        have := h.first s i hgap (by omega)
        omega

/-- Behind the first odd gap, the frames are out of step. -/
theorem FirstOddGap.length_survivors (h : FirstOddGap frames.length lost start stop)
    (first : 0 ∉ lost) :
    (Frame.survivors lost (frames.take stop)).length % 2 ≠ stop % 2 := by
  obtain ⟨s, hstep⟩ := h.exists_inStep first stop (Nat.le_refl _)
  have hodd := h.odd
  have hnonempty := h.gap.nonempty
  have hlength := hstep.length
  have hs : s ≠ 0 := by
    rintro rfl
    exact first (hstep.missing 0 (Nat.le_refl _) (by omega))
  have hle : s ≤ start := by
    by_contra hgt
    exact hstep.left.resolve_left hs (h.gap.missing (s - 1) (by omega) (by have := hstep.le; omega))
  have hge : start ≤ s := by
    by_contra hlt
    have hbefore : start - 1 ∉ lost := by
      rcases h.gap.left with hone | hleft
      · rw [hone]
        exact first
      · exact hleft
    exact hbefore (hstep.missing (start - 1) (by omega) (by omega))
  omega

/-- The frames that arrive: those in front of the first odd gap, in step; the one behind it, out of
step; and those behind that one. -/
theorem FirstOddGap.exists_survivors_eq (h : FirstOddGap frames.length lost start stop)
    (first : 0 ∉ lost) (arrives : stop ∉ lost) (hf : frames[stop]? = some f) :
    ∃ front later, Frame.survivors lost frames = front ++ (f, stop) :: later ∧
      front.length % 2 ≠ stop % 2 ∧
      (∀ (i : Nat) (p : Frame × Nat), front[i]? = some p → p.2 < stop ∧ p.2 % 2 = i % 2) ∧
      ∀ p ∈ later, stop < p.2 := by
  obtain ⟨later, hsplit, hlater⟩ := Frame.survivors_eq hf arrives
  obtain ⟨s, hstep⟩ := h.exists_inStep first stop (Nat.le_refl _)
  refine ⟨_, later, hsplit, h.length_survivors first, ?_, hlater⟩
  intro i p hp
  exact ⟨Frame.place_lt_of_mem_survivors_take (List.mem_of_getElem? hp), hstep.places i p hp⟩

/-! ## What a receiver makes of them -/

namespace Reception

variable {transferId : TransferId}

/-- Without the first frame, none of the others begins a transfer. -/
theorem first_of_first_lost (numbered : Frame.Numbered transferId frames) (first : 0 ∈ lost) :
    ∀ g ∈ Frame.arriving lost frames, g.tail.first = false := by
  intro g hg
  obtain ⟨p, hp, rfl⟩ := List.mem_map.mp hg
  obtain ⟨hplace, harrives⟩ := Frame.getElem?_of_mem_survivors hp
  refine numbered.notFirst hplace (Nat.pos_of_ne_zero fun hzero => ?_)
  rw [hzero] at harrives
  exact harrives first

/-- Without the last frame, none of the others ends it. -/
theorem last_of_last_lost (numbered : Frame.Numbered transferId frames)
    (last : frames.length - 1 ∈ lost) : ∀ g ∈ Frame.arriving lost frames, g.tail.last = false := by
  intro g hg
  obtain ⟨p, hp, rfl⟩ := List.mem_map.mp hg
  obtain ⟨hplace, harrives⟩ := Frame.getElem?_of_mem_survivors hp
  have hlt := (List.getElem?_eq_some_iff.mp hplace).1
  have hne : p.2 ≠ frames.length - 1 := by
    intro heq
    rw [heq] at harrives
    exact harrives last
  exact numbered.notLast hplace (by omega)

/-- With the first frame, it is the only one that begins a transfer. -/
theorem survivors_first (numbered : Frame.Numbered transferId frames) (first : 0 ∉ lost)
    (hm : frames[0]? = some f) :
    (Frame.arriving lost frames)[0]? = some f ∧
      ∀ (i : Nat) (g : Frame), 0 < i →
        (Frame.arriving lost frames)[i]? = some g → g.tail.first = false := by
  obtain ⟨others, hhead, hothers⟩ := Frame.survivors_eq hm first
  have hcons : Frame.survivors lost frames = (f, 0) :: others := hhead
  refine ⟨by rw [Frame.arriving, hcons]; rfl, ?_⟩
  intro i g hi hg
  rw [Frame.arriving, List.getElem?_map] at hg
  obtain ⟨p, hp, rfl⟩ := Option.map_eq_some_iff.mp hg
  have hplace := (Frame.getElem?_of_mem_survivors (List.mem_of_getElem? hp)).1
  rw [hcons, List.getElem?_cons, if_neg (by omega)] at hp
  exact numbered.notFirst hplace (hothers p (List.mem_of_getElem? hp))

/-- The outcome of a frame by its place, if the one at the place `stop` is the first that does not
fit. -/
def outcomeAround (stop : Nat) (fault : ReceptionFault) (place : Nat) : Outcome :=
  if place < stop then .accepted else if place = stop then .failed fault else .orphan

theorem map_outcomeAround {fault : ReceptionFault} {front later : List (Frame × Nat)}
    (before : ∀ p ∈ front, p.2 < stop) (behind : ∀ p ∈ later, stop < p.2) :
    (front ++ (f, stop) :: later).map (fun p => outcomeAround stop fault p.2) =
      List.replicate front.length .accepted ++
        .failed fault :: List.replicate later.length .orphan := by
  have haccepted : front.map (fun p => outcomeAround stop fault p.2) =
      List.replicate front.length .accepted :=
    List.map_eq_replicate_iff.mpr fun p hp => if_pos (before p hp)
  have horphan : later.map (fun p => outcomeAround stop fault p.2) =
      List.replicate later.length .orphan := by
    refine List.map_eq_replicate_iff.mpr fun p hp => ?_
    have := behind p hp
    rw [outcomeAround, if_neg (by omega), if_neg (by omega)]
  have hfailed : outcomeAround stop fault stop = .failed fault := by simp [outcomeAround]
  rw [List.map_append, List.map_cons, haccepted, horphan, hfailed]

/-- The frame behind the first odd gap ends the reception. -/
theorem feedAll_survivors (numbered : Frame.Numbered transferId frames)
    (h : FirstOddGap frames.length lost start stop) (first : 0 ∉ lost) (arrives : stop ∉ lost)
    (r : Reception) :
    r.feedAll (Frame.arriving lost frames) =
      ((Frame.survivors lost frames).map fun p =>
        outcomeAround stop (.toggle (!Tail.toggleAt stop) (Tail.toggleAt stop)) p.2, .idle) := by
  have hstop := h.gap.stop_lt
  have hpos : 0 < stop := by
    have := h.gap.nonempty
    omega
  have hm : frames[0]? = some frames[0] := List.getElem?_eq_getElem (by omega)
  have hf : frames[stop]? = some frames[stop] := List.getElem?_eq_getElem hstop
  obtain ⟨hhead, hnotFirst⟩ := survivors_first numbered first hm
  obtain ⟨front, later, hsplit, hparity, hfront, hlater⟩ := h.exists_survivors_eq first arrives hf
  have hcount : 0 < front.length := by
    rw [List.length_pos_iff]
    rintro rfl
    have heq : frames[stop] = frames[0] := by simpa [Frame.arriving, hsplit] using hhead
    have hfalse := numbered.notFirst hf hpos
    rw [heq, numbered.first hm] at hfalse
    cases hfalse
  have hearly : ∀ (i : Nat) (g : Frame), i < front.length →
      (Frame.arriving lost frames)[i]? = some g →
      ∃ place, frames[place]? = some g ∧ place < stop ∧ place % 2 = i % 2 := by
    intro i g hi hg
    rw [Frame.arriving, List.getElem?_map] at hg
    obtain ⟨p, hp, rfl⟩ := Option.map_eq_some_iff.mp hg
    have hplace := (Frame.getElem?_of_mem_survivors (List.mem_of_getElem? hp)).1
    rw [hsplit, List.getElem?_append_left hi] at hp
    exact ⟨p.2, hplace, hfront i p hp⟩
  have hmisfit : (Frame.arriving lost frames)[front.length]? = some frames[stop] := by
    simp [Frame.arriving, hsplit]
  rw [feedAll_misfit hhead hmisfit hcount (numbered.first hm) hnotFirst ?_ ?_
    (endedBy_numbered numbered hm hf hpos (Ne.symm hparity)) r, Frame.arriving, hsplit]
  · have hbefore : ∀ p ∈ front, p.2 < stop := by
      intro p hp
      obtain ⟨i, hi⟩ := List.mem_iff_getElem?.mp hp
      exact (hfront i p hi).1
    have hrest : ((front ++ (frames[stop], stop) :: later).map Prod.fst).length -
        (front.length + 1) = later.length := by
      simp only [List.length_map, List.length_append, List.length_cons]
      omega
    rw [map_outcomeAround hbefore hlater, hrest]
  · intro i g hi hg
    obtain ⟨place, hplace, hlt, -⟩ := hearly i g hi hg
    exact numbered.notLast hplace (by omega)
  · intro i g hi hlt hg
    obtain ⟨place, hplace, -, hstep⟩ := hearly i g hlt hg
    refine numbered.follows hm hplace (Nat.pos_of_ne_zero fun hzero => ?_) hstep
    have hfalse := hnotFirst i g hi hg
    rw [hzero] at hplace
    rw [numbered.first hplace] at hfalse
    cases hfalse

/-- So the receiver is told of a fault at this frame, and of nothing else. -/
theorem results_survivors (numbered : Frame.Numbered transferId frames)
    (h : FirstOddGap frames.length lost start stop) (first : 0 ∉ lost) (arrives : stop ∉ lost)
    (r : Reception) :
    r.results (Frame.arriving lost frames) =
      (Frame.survivors lost frames).map fun p =>
        if p.2 = stop then .error (.toggle (!Tail.toggleAt stop) (Tail.toggleAt stop))
        else .ok none := by
  rw [results, feedAll_survivors numbered h first arrives, List.map_map]
  refine List.map_congr_left fun p _ => ?_
  by_cases hlt : p.2 < stop
  · have hne : p.2 ≠ stop := by omega
    simp [outcomeAround, hlt, hne, Outcome.result]
  · by_cases heq : p.2 = stop <;> simp [outcomeAround, hlt, heq, Outcome.result]

/-- And nothing is delivered. -/
theorem delivered_survivors (numbered : Frame.Numbered transferId frames)
    (h : FirstOddGap frames.length lost start stop) (first : 0 ∉ lost) (arrives : stop ∉ lost)
    (r : Reception) : r.delivered (Frame.arriving lost frames) = [] := by
  rw [delivered, results_survivors numbered h first arrives, List.filterMap_eq_nil_iff]
  intro result hresult
  obtain ⟨p, -, rfl⟩ := List.mem_map.mp hresult
  split <;> rfl

/-- Without its first or its last frame, or with an odd gap, a transfer is not delivered. -/
theorem delivered_of_lost (numbered : Frame.Numbered transferId frames)
    (h : 0 ∈ lost ∨ frames.length - 1 ∈ lost ∨
      ∃ start stop, Gap frames.length lost start stop ∧ (stop - start) % 2 = 1) :
    idle.delivered (Frame.arriving lost frames) = [] := by
  by_cases first : 0 ∈ lost
  · exact delivered_of_orphans (first_of_first_lost numbered first)
  · by_cases last : frames.length - 1 ∈ lost
    · exact delivered_of_none_last (last_of_last_lost numbered last) .idle
    · obtain ⟨start, stop, gap, odd⟩ := (h.resolve_left first).resolve_left last
      have arrives : stop ∉ lost := by
        rcases gap.right with hend | arrives
        · rwa [← hend, Nat.add_sub_cancel] at last
        · exact arrives
      obtain ⟨start, stop, hgap, arrives⟩ := exists_firstOddGap ⟨start, stop, gap, odd, arrives⟩
      exact delivered_survivors numbered hgap first arrives .idle

end Reception

/-- **A transfer with a gap that the toggle shows is not delivered.** Of the frames of any transfer
any are lost, and the others reach an idle receiver in order.

If the first or the last frame is lost, or a gap between them has an odd number of frames, nothing
is delivered. If the first frame is lost, nothing comes of any other, and the receiver is idle all
the time. If it arrives, and a frame arrives behind an odd gap, the frame behind the first odd gap
is answered with a toggle fault and all others with nothing, and the receiver ends idle. -/
theorem Transfer.loss_detected (t : Transfer) {capacity : Nat} (pos : 0 < capacity) :
    ∃ frames, t.frames capacity = .ok frames ∧ ∀ lost : Finset Nat,
      ((0 ∈ lost ∨ frames.length - 1 ∈ lost ∨
          ∃ start stop, Gap frames.length lost start stop ∧ (stop - start) % 2 = 1) →
        Reception.idle.delivered (Frame.arriving lost frames) = []) ∧
      (0 ∈ lost →
        Reception.idle.results (Frame.arriving lost frames) =
          List.replicate (Frame.arriving lost frames).length (.ok none) ∧
        ∀ n, (Reception.idle.feedAll ((Frame.arriving lost frames).take n)).2 = .idle) ∧
      (0 ∉ lost →
        (∃ start stop, Gap frames.length lost start stop ∧ (stop - start) % 2 = 1 ∧
          stop ∉ lost) →
        ∃ start stop, FirstOddGap frames.length lost start stop ∧ stop ∉ lost ∧
          Reception.idle.results (Frame.arriving lost frames) =
            ((Frame.survivors lost frames).map fun p =>
              if p.2 = stop then .error (.toggle (!Tail.toggleAt stop) (Tail.toggleAt stop))
              else .ok none) ∧
          (Reception.idle.feedAll (Frame.arriving lost frames)).2 = .idle) := by
  have numbered := t.layout_numbered capacity
  refine ⟨t.layout capacity, frames_of_pos t pos, fun lost => ⟨?_, ?_, ?_⟩⟩
  · exact Reception.delivered_of_lost numbered
  · intro first
    have hnone := Reception.first_of_first_lost numbered first
    refine ⟨Reception.results_of_orphans hnone, fun n => ?_⟩
    rw [Reception.feedAll_orphans fun g hg => hnone g (List.mem_of_mem_take hg)]
  · intro first h
    obtain ⟨start, stop, hgap, arrives⟩ := exists_firstOddGap h
    refine ⟨start, stop, hgap, arrives, ?_, ?_⟩
    · exact Reception.results_survivors numbered hgap first arrives .idle
    · rw [Reception.feedAll_survivors numbered hgap first arrives]

/-- A transfer of six frames. -/
def Transfer.sixFrames : Transfer := ⟨0x123, 35, [List.replicate 40 0xA5], false⟩

/-- Of six frames, the second, third and fifth are lost: the first gap cannot be seen. -/
theorem Transfer.loss_detected_behind_even_gap :
    0 < 7 ∧ ∃ frames, sixFrames.frames 7 = .ok frames ∧ frames.length = 6 ∧
      Gap frames.length {1, 2, 4} 1 3 ∧ Gap frames.length {1, 2, 4} 4 5 ∧
      Reception.idle.delivered (Frame.arriving {1, 2, 4} frames) = [] ∧
      (Reception.idle.feedAll (Frame.arriving {1, 2, 4} frames)).2 = .idle := by
  obtain ⟨frames, cut, h⟩ := loss_detected sixFrames (show 0 < 7 by decide)
  obtain ⟨-, rfl⟩ := (frames_eq_ok_iff sixFrames).mp cut
  have hlength : (sixFrames.layout 7).length = 6 := by decide +kernel
  have heven : Gap (sixFrames.layout 7).length {1, 2, 4} 1 3 := by
    rw [hlength]
    exact ⟨by decide, by decide, by decide, by decide, by decide, by decide⟩
  have hodd : Gap (sixFrames.layout 7).length {1, 2, 4} 4 5 := by
    rw [hlength]
    exact ⟨by decide, by decide, by decide, by decide, by decide, by decide⟩
  obtain ⟨hnone, -, hfault⟩ := h {1, 2, 4}
  obtain ⟨-, -, -, -, -, hidle⟩ := hfault (by decide) ⟨4, 5, hodd, rfl, by decide⟩
  exact ⟨by decide, _, cut, hlength, heven, hodd, hnone (.inr (.inr ⟨4, 5, hodd, rfl⟩)), hidle⟩

end CanTransfer
