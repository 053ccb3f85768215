import CanTransfer.Proofs.RoundTrip

/-!
# Frames that do not fit

What a receiver is told when the frames of a transfer reach it damaged, and one of them is not the
next one.

* `Frame.open_of_places` — the frames in front of a place are an open transfer if each of them fits
  at its own.
* `Tail.numbered`, `Frame.Numbered`, `Transfer.layout_numbered` — the tails of a transfer's frames
  say no more than its transfer id, the place of each frame, and how many there are.
* `Reception.results`, `Reception.delivered` — what the receiver is told of frames, and the
  transfers among it.
* `SoleFault`, `SoleDelivery` — it is told of one fault, or of one transfer, and of nothing else.
* `Reception.feedAll_orphans` — an idle reception ignores frames that do not begin a transfer.
* `Reception.feedAll_misfit` — if the frames before a place fit together and the one at it does not,
  the reception ends there with a fault, and ignores the others.
-/

set_option autoImplicit false

namespace CanTransfer

/-! ## The frames in front of a place -/

/-- A frame behind the first, with the frames around it. -/
theorem Frame.exists_split {frames : List Frame} {i : Nat} (pos : 0 < i) (h : i < frames.length) :
    ∃ m middle f back, frames = m :: middle ++ f :: back ∧ middle.length + 1 = i := by
  obtain ⟨j, rfl⟩ : ∃ j, i = j + 1 := ⟨i - 1, by omega⟩
  cases frames with
  | nil => cases h
  | cons m rest =>
    have hj : j < rest.length := by simpa using h
    refine ⟨m, rest.take j, rest[j], rest.drop (j + 1), ?_, ?_⟩
    · rw [List.cons_append, ← List.drop_eq_getElem_cons, List.take_append_drop]
    · rw [List.length_take, Nat.min_eq_left (by omega)]

/-- The frames in front of a place are an open transfer if each of them fits at its own place. -/
theorem Frame.open_of_places {m : Frame} {middle rest : List Frame} (first : m.tail.first = true)
    (notLast : ∀ (i : Nat) (g : Frame), i < middle.length + 1 →
      (m :: middle ++ rest)[i]? = some g → g.tail.last = false)
    (follows : ∀ (i : Nat) (g : Frame), 0 < i → i < middle.length + 1 →
      (m :: middle ++ rest)[i]? = some g → m.Follows i g) : m.Open middle := by
  have hplace : ∀ (i : Nat) (g : Frame), middle[i]? = some g →
      i < middle.length ∧ (m :: middle ++ rest)[i + 1]? = some g := by
    intro i g hg
    have hi := (List.getElem?_eq_some_iff.mp hg).1
    exact ⟨hi, by rw [List.cons_append, List.getElem?_cons_succ, List.getElem?_append_left hi, hg]⟩
  refine ⟨first, notLast 0 m (Nat.succ_pos _) rfl, ?_, ?_⟩
  · intro i g hg
    obtain ⟨hi, hg⟩ := hplace i g hg
    exact follows (i + 1) g (Nat.succ_pos i) (Nat.succ_lt_succ hi) hg
  · intro g hg
    obtain ⟨i, hg⟩ := List.mem_iff_getElem?.mp hg
    obtain ⟨hi, hg⟩ := hplace i g hg
    exact notLast (i + 1) g (Nat.succ_lt_succ hi) hg

/-! ## The tails of a transfer's frames -/

/-- The tail of the frame at a place of a transfer of `count` frames. -/
def Tail.numbered (count : Nat) (transferId : TransferId) (place : Nat) : Tail where
  first := place == 0
  last := place + 1 == count
  toggle := Tail.toggleAt place
  transferId := transferId

/-- The frames have the tails of the frames of a transfer. -/
def Frame.Numbered (transferId : TransferId) (frames : List Frame) : Prop :=
  ∀ (i : Nat) (f : Frame), frames[i]? = some f → f.tail = Tail.numbered frames.length transferId i

theorem Transfer.layout_numbered (t : Transfer) (capacity : Nat) :
    Frame.Numbered (TransferId.truncate t.number) (t.layout capacity) := by
  intro i f hf
  unfold layout Frame.sequence at *
  rw [List.getElem?_mapIdx] at hf
  obtain ⟨payload, -, rfl⟩ := Option.map_eq_some_iff.mp hf
  simp [Frame.placed, Tail.numbered]

namespace Frame.Numbered

variable {transferId : TransferId} {frames : List Frame} {m f : Frame} {i k : Nat}

theorem first (h : Numbered transferId frames) (hm : frames[0]? = some m) :
    m.tail.first = true := by
  rw [h 0 m hm]
  rfl

theorem notFirst (h : Numbered transferId frames) (hf : frames[i]? = some f) (hi : 0 < i) :
    f.tail.first = false := by
  rw [h i f hf]
  simp only [Tail.numbered, beq_eq_false_iff_ne]
  omega

theorem notFirst_of_mem (h : Numbered transferId (m :: frames)) (hf : f ∈ frames) :
    f.tail.first = false := by
  obtain ⟨i, hi⟩ := List.mem_iff_getElem?.mp hf
  exact h.notFirst (i := i + 1) hi (Nat.succ_pos i)

theorem notLast (h : Numbered transferId frames) (hf : frames[i]? = some f)
    (hi : i + 1 < frames.length) : f.tail.last = false := by
  rw [h i f hf]
  simp only [Tail.numbered, beq_eq_false_iff_ne]
  omega

/-- Where a frame of the transfer would be the `k`-th after the first one, its toggle is right
exactly if `k` and its place have the same parity. -/
theorem toggle_eq_iff (h : Numbered transferId frames) (hm : frames[0]? = some m)
    (hf : frames[i]? = some f) : f.tail.toggle = Tail.flipped m.tail.toggle k ↔ i % 2 = k % 2 := by
  rw [h 0 m hm, h i f hf]
  simp only [Tail.numbered, Tail.toggleAt_eq_flipped, Tail.flipped_zero]
  exact Tail.flipped_eq_iff

theorem follows (h : Numbered transferId frames) (hm : frames[0]? = some m)
    (hf : frames[i]? = some f) (hi : 0 < i) (parity : i % 2 = k % 2) : m.Follows k f := by
  refine ⟨h.notFirst hf hi, ?_, (h.toggle_eq_iff hm hf).mpr parity⟩
  rw [h 0 m hm, h i f hf]
  rfl

/-- Some of the frames of a transfer, from the first on, are an open transfer. -/
theorem isOpen {middle rest : List Frame} (h : Numbered transferId (m :: middle ++ rest))
    (more : rest ≠ []) : m.Open middle := by
  have hlength : middle.length + 1 < (m :: middle ++ rest).length := by
    have := List.length_pos_iff.mpr more
    simp only [List.length_append, List.length_cons]
    omega
  refine open_of_places (h.first rfl) (fun i g hi hg => h.notLast hg (by omega)) ?_
  intro i g hi _ hg
  exact h.follows rfl hg hi rfl

theorem isOpen_nil {rest : List Frame} (h : Numbered transferId (m :: rest)) (more : rest ≠ []) :
    m.Open [] := by
  have hsplit : Numbered transferId (m :: [] ++ rest) := h
  exact hsplit.isOpen more

end Frame.Numbered

/-! ## What a receiver is told -/

/-- Of one frame the receiver is told of a fault, and of each other frame that nothing came of
it. -/
def SoleFault (place : Nat) (fault : ReceptionFault)
    (results : List (Except ReceptionFault (Option Delivery))) : Prop :=
  ∃ after, results =
    List.replicate place (.ok none) ++ .error fault :: List.replicate after (.ok none)

/-- Of one frame the receiver is told of a transfer, and of each other frame that nothing came of
it. -/
def SoleDelivery (d : Delivery) (results : List (Except ReceptionFault (Option Delivery))) : Prop :=
  ∃ before after, results =
    List.replicate before (.ok none) ++ .ok (some d) :: List.replicate after (.ok none)

/-- Frames of which nothing comes may stand in front. -/
theorem SoleFault.behind {place : Nat} {fault : ReceptionFault}
    {results : List (Except ReceptionFault (Option Delivery))} (h : SoleFault place fault results)
    (before : Nat) :
    SoleFault (before + place) fault (List.replicate before (.ok none) ++ results) := by
  obtain ⟨after, rfl⟩ := h
  exact ⟨after, by rw [← List.append_assoc, List.replicate_append_replicate]⟩

theorem SoleDelivery.between {d : Delivery}
    {results : List (Except ReceptionFault (Option Delivery))} (h : SoleDelivery d results)
    (front back : Nat) :
    SoleDelivery d (List.replicate front (.ok none) ++ results ++
      List.replicate back (.ok none)) := by
  obtain ⟨before, after, rfl⟩ := h
  refine ⟨front + before, after + back, ?_⟩
  simp only [← List.replicate_append_replicate, List.append_assoc, List.cons_append]

namespace Reception

/-- What the receiver is told of frames that are fed in order. -/
def results (r : Reception) (frames : List Frame) :
    List (Except ReceptionFault (Option Delivery)) :=
  (r.feedAll frames).1.map Outcome.result

/-- The transfers that it gets. -/
def delivered (r : Reception) (frames : List Frame) : List Delivery :=
  (r.results frames).filterMap fun result => result.toOption.join

theorem delivered_eq_nil_of_soleFault {r : Reception} {frames : List Frame} {place : Nat}
    {fault : ReceptionFault} (h : SoleFault place fault (r.results frames)) :
    r.delivered frames = [] := by
  obtain ⟨after, hresults⟩ := h
  rw [delivered, hresults, List.filterMap_append, List.filterMap_cons]
  simp [Except.toOption]

theorem delivered_of_soleDelivery {r : Reception} {frames : List Frame} {d : Delivery}
    (h : SoleDelivery d (r.results frames)) : r.delivered frames = [d] := by
  obtain ⟨before, after, hresults⟩ := h
  rw [delivered, hresults, List.filterMap_append, List.filterMap_cons]
  simp [Except.toOption]

theorem results_append (r : Reception) (front back : List Frame) :
    r.results (front ++ back) = r.results front ++ (r.feedAll front).2.results back := by
  simp only [results, feedAll_append, List.map_append]

/-- An idle reception ignores frames that do not begin a transfer. -/
theorem feedAll_orphans {frames : List Frame} (h : ∀ f ∈ frames, f.tail.first = false) :
    idle.feedAll frames = (List.replicate frames.length .orphan, .idle) := by
  induction frames with
  | nil => rfl
  | cons f rest ih =>
    rw [feedAll, feed_idle (h f List.mem_cons_self)]
    simp only
    rw [ih fun g hg => h g (List.mem_cons_of_mem _ hg)]
    rfl

theorem results_of_orphans {frames : List Frame} (h : ∀ f ∈ frames, f.tail.first = false) :
    idle.results frames = List.replicate frames.length (.ok none) := by
  simp [results, feedAll_orphans h, Outcome.result]

theorem delivered_orphan {f : Frame} (h : f.tail.first = false) (rest : List Frame) :
    idle.delivered (f :: rest) = idle.delivered rest := by
  rw [delivered, results, feedAll, feed_idle h]
  rfl

theorem delivered_of_orphans {frames : List Frame} (h : ∀ f ∈ frames, f.tail.first = false) :
    idle.delivered frames = [] := by
  simp [delivered, results_of_orphans h, Except.toOption]

/-- Frames of which none is a last one deliver nothing. -/
theorem delivered_of_none_last {frames : List Frame} (h : ∀ f ∈ frames, f.tail.last = false)
    (r : Reception) : r.delivered frames = [] := by
  induction frames generalizing r with
  | nil => rfl
  | cons f rest ih =>
    have hrest : (r.feed f).2.delivered rest = [] :=
      ih (fun g hg => h g (List.mem_cons_of_mem _ hg)) _
    have hf : (r.feed f).1.result.toOption.join = none := by
      cases hout : (r.feed f).1 with
      | delivered d =>
        have hlast := (feed_eq_delivered hout).1
        rw [h f List.mem_cons_self] at hlast
        cases hlast
      | _ => rfl
    rw [delivered, results, feedAll, List.map_cons, List.filterMap_cons, hf]
    exact hrest

/-! ## The first misfit -/

/-- The frame `f` ends, with a fault, a reception that has gathered `count` frames from `m` on. -/
def EndedBy (m : Frame) (count : Nat) (f : Frame) (fault : ReceptionFault) : Prop :=
  ∀ middle : List Frame, middle.length + 1 = count →
    (gathering m middle).feed f = (.failed fault, .idle)

variable {m f : Frame} {k : Nat}

theorem endedBy_toggle (notFirst : f.tail.first = false)
    (htid : f.tail.transferId = m.tail.transferId)
    (htoggle : f.tail.toggle ≠ Tail.flipped m.tail.toggle k) :
    EndedBy m k f (.toggle (!f.tail.toggle) f.tail.toggle) := by
  intro middle hlength
  rw [← hlength] at htoggle
  rw [feed_of_toggle_ne notFirst htid htoggle, ← Bool.eq_not.mpr htoggle.symm]

/-- A frame of the transfer ends the reception if its place has the wrong parity. -/
theorem endedBy_numbered {transferId : TransferId} {frames : List Frame} {i : Nat}
    (h : Frame.Numbered transferId frames) (hm : frames[0]? = some m) (hf : frames[i]? = some f)
    (hi : 0 < i) (parity : i % 2 ≠ k % 2) :
    EndedBy m k f (.toggle (!Tail.toggleAt i) (Tail.toggleAt i)) := by
  have hfollows := h.follows hm hf hi rfl
  have htoggle : f.tail.toggle = Tail.toggleAt i := by
    rw [h i f hf]
    rfl
  rw [← htoggle]
  refine endedBy_toggle hfollows.notFirst hfollows.transferId ?_
  rw [ne_eq, h.toggle_eq_iff hm hf]
  exact parity

theorem endedBy_transferId (notFirst : f.tail.first = false)
    (htid : f.tail.transferId ≠ m.tail.transferId) :
    EndedBy m k f (.transferId m.tail.transferId.toByte f.tail.transferId.toByte) :=
  fun _ _ => feed_of_transferId_ne notFirst htid

/-- Behind an open transfer, a frame that does not follow ends the reception, and the frames behind
it are ignored. -/
theorem feedAll_open_misfit {middle rest : List Frame} {fault : ReceptionFault}
    (hopen : m.Open middle) (ended : EndedBy m (middle.length + 1) f fault)
    (notFirst : ∀ g ∈ rest, g.tail.first = false) (r : Reception) :
    r.feedAll (m :: middle ++ f :: rest) =
      (List.replicate (middle.length + 1) .accepted ++
        .failed fault :: List.replicate rest.length .orphan, .idle) := by
  rw [feedAll_append, feedAll_open hopen, feedAll, ended middle rfl]
  simp only
  rw [feedAll_orphans notFirst]

/-- **The first frame that does not fit ends the reception**, wherever it started, and nothing comes
of the frames behind it. -/
theorem feedAll_misfit {frames : List Frame} {fault : ReceptionFault}
    (hm : frames[0]? = some m) (hf : frames[k]? = some f) (pos : 0 < k)
    (first : m.tail.first = true)
    (notFirst : ∀ (i : Nat) (g : Frame), 0 < i → frames[i]? = some g → g.tail.first = false)
    (notLast : ∀ (i : Nat) (g : Frame), i < k → frames[i]? = some g → g.tail.last = false)
    (follows : ∀ (i : Nat) (g : Frame), 0 < i → i < k → frames[i]? = some g → m.Follows i g)
    (ended : EndedBy m k f fault) (r : Reception) :
    r.feedAll frames =
      (List.replicate k .accepted ++
        .failed fault :: List.replicate (frames.length - (k + 1)) .orphan, .idle) := by
  have hk := (List.getElem?_eq_some_iff.mp hf).1
  obtain ⟨m', middle, f', back, rfl, rfl⟩ := Frame.exists_split pos hk
  obtain rfl : m' = m := by simpa using hm
  obtain rfl : f' = f := by simpa using hf
  have hopen : m'.Open middle := Frame.open_of_places first notLast follows
  have hback : ∀ g ∈ back, g.tail.first = false := by
    intro g hg
    obtain ⟨i, hg⟩ := List.mem_iff_getElem?.mp hg
    refine notFirst (middle.length + 1 + (i + 1)) g (by omega) ?_
    rw [← List.length_cons (a := m'), List.getElem?_append_right (by omega),
      Nat.add_sub_cancel_left, List.getElem?_cons_succ, hg]
  have hrest : (m' :: middle ++ f' :: back).length - (middle.length + 1 + 1) = back.length := by
    simp only [List.length_append, List.length_cons]
    omega
  rw [feedAll_open_misfit hopen ended hback, hrest]

/-- So the receiver is told of this fault alone. -/
theorem soleFault_of_feedAll {frames : List Frame} {fault : ReceptionFault} {r : Reception}
    {after : Nat}
    (h : r.feedAll frames =
      (List.replicate k .accepted ++ .failed fault :: List.replicate after .orphan, .idle)) :
    SoleFault k fault (r.results frames) := by
  refine ⟨after, ?_⟩
  simp [results, h, Outcome.result]

theorem soleFault_of_open_misfit {middle rest : List Frame} {fault : ReceptionFault}
    (hopen : m.Open middle) (ended : EndedBy m (middle.length + 1) f fault)
    (notFirst : ∀ g ∈ rest, g.tail.first = false) (r : Reception) :
    SoleFault (middle.length + 1) fault (r.results (m :: middle ++ f :: rest)) :=
  soleFault_of_feedAll (feedAll_open_misfit hopen ended notFirst r)

end Reception

end CanTransfer
