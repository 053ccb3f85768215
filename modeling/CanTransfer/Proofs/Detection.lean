import Mathlib.Data.Finset.Basic
import Mathlib.Data.Nat.Find
import CanTransfer.Link.Disturbance
import CanTransfer.Proofs.Misfit

/-!
# Repeated, exchanged and altered frames

Between sender and receiver the frames of a transfer of several frames are repeated in place, two
neighbours are exchanged, or the toggles or transfer ids of some of them change.

* `Frame.repeated`, `Frame.retoggled`, `Frame.renumbered` — the frames that arrive.
* `FirstRepeated`, `FirstOther` — the first place of a fault.
* `Reception.soleDelivery_repeated`, `Reception.soleFault_repeated` — copies of the first frame
  start the reception anew, copies of the last find it idle, and a copy of any other has the wrong
  toggle.
* `Reception.delivered_exchanged` — a frame that arrives before the one in front of it does not fit.
* `Reception.soleFault_altered` — if frames are altered but still begin and end a transfer where
  they did, the first that does not fit ends the reception.
* `Reception.feedAll_inverted` — only if all toggles are inverted, every frame still fits.
* `FaultsDetected`, `Transfer.faultsDetected_of_frames` — what a receiver makes of all this.
-/

set_option autoImplicit false

namespace CanTransfer

/-! ## The frames that arrive -/

namespace Frame

/-- The frames, each as often as `copies` says of its place. -/
def repeated (copies : Nat → Nat) : List Frame → List Frame
  | [] => []
  | f :: rest => List.replicate (copies 0) f ++ repeated (fun i => copies (i + 1)) rest

/-- A frame, with the other toggle at some places. -/
def retoggledAt (inverted : Finset Nat) (place : Nat) (f : Frame) : Frame :=
  if place ∈ inverted then Change.invertToggle.apply f else f

/-- The frames, with other toggles at some places. -/
def retoggled (inverted : Finset Nat) (frames : List Frame) : List Frame :=
  frames.mapIdx (retoggledAt inverted)

/-- The frames, each with the transfer id that `ids` says of its place. -/
def renumbered (ids : Nat → TransferId) (frames : List Frame) : List Frame :=
  frames.mapIdx fun i f => (Change.transferId (ids i)).apply f

@[simp] theorem retoggledAt_first (inverted : Finset Nat) (place : Nat) (f : Frame) :
    (f.retoggledAt inverted place).tail.first = f.tail.first := by
  unfold retoggledAt
  split <;> rfl

@[simp] theorem retoggledAt_last (inverted : Finset Nat) (place : Nat) (f : Frame) :
    (f.retoggledAt inverted place).tail.last = f.tail.last := by
  unfold retoggledAt
  split <;> rfl

@[simp] theorem retoggledAt_transferId (inverted : Finset Nat) (place : Nat) (f : Frame) :
    (f.retoggledAt inverted place).tail.transferId = f.tail.transferId := by
  unfold retoggledAt
  split <;> rfl

theorem retoggledAt_toggle (inverted : Finset Nat) (place : Nat) (f : Frame) :
    (f.retoggledAt inverted place).tail.toggle = (f.tail.toggle ^^ decide (place ∈ inverted)) := by
  unfold retoggledAt
  split
  · rename_i h
    simp [h, Change.apply]
  · rename_i h
    simp [h]

variable {copies : Nat → Nat} {frames : List Frame} {f : Frame}

theorem repeated_append (copies : Nat → Nat) (front back : List Frame) :
    repeated copies (front ++ back) =
      repeated copies front ++ repeated (fun i => copies (front.length + i)) back := by
  induction front generalizing copies with
  | nil => simp [repeated]
  | cons f rest ih =>
    simp only [List.cons_append, repeated, ih, List.append_assoc, List.length_cons]
    congr 3
    funext i
    rw [Nat.add_right_comm]

theorem repeated_eq_self (h : ∀ i, i < frames.length → copies i = 1) :
    repeated copies frames = frames := by
  induction frames generalizing copies with
  | nil => rfl
  | cons f rest ih =>
    have hrest : repeated (fun i => copies (i + 1)) rest = rest :=
      ih fun i hi => h (i + 1) (by simpa using hi)
    rw [repeated, h 0 (by simp), hrest]
    rfl

theorem mem_of_mem_repeated (h : f ∈ repeated copies frames) : f ∈ frames := by
  induction frames generalizing copies with
  | nil => cases h
  | cons g rest ih =>
    rcases List.mem_append.mp h with h | h
    · rw [List.eq_of_mem_replicate h]
      exact List.mem_cons_self
    · exact List.mem_cons_of_mem _ (ih h)

variable {m : Frame} {middle : List Frame}

theorem repeated_cons (rest : List Frame) (h : 1 ≤ copies 0) :
    repeated copies (f :: rest) =
      f :: (List.replicate (copies 0 - 1) f ++ repeated (fun i => copies (i + 1)) rest) := by
  obtain ⟨n, hn⟩ : ∃ n, copies 0 = n + 1 := ⟨copies 0 - 1, by omega⟩
  rw [repeated, hn, List.replicate_succ]
  rfl

/-- Up to a place where only the first frame is repeated, its copies stand in front. -/
theorem repeated_front (rest : List Frame) (first : 1 ≤ copies 0)
    (once : ∀ i, 0 < i → i ≤ middle.length → copies i = 1) :
    repeated copies (m :: middle ++ rest) =
      List.replicate (copies 0 - 1) m ++
        (m :: middle ++ repeated (fun i => copies (middle.length + i + 1)) rest) := by
  have hmiddle : repeated (fun i => copies (i + 1)) middle = middle :=
    repeated_eq_self fun i hi => once (i + 1) (Nat.succ_pos i) hi
  rw [List.cons_append, repeated_cons _ first, repeated_append, hmiddle, ← List.cons_append,
    ← List.replicate_succ, List.replicate_succ', List.append_assoc]
  rfl

/-- Behind the second copy of the frame at such a place, there are only frames from it on. -/
theorem repeated_again (back : List Frame) (first : 1 ≤ copies 0)
    (once : ∀ i, 0 < i → i ≤ middle.length → copies i = 1)
    (again : 1 < copies (middle.length + 1)) :
    ∃ rest, repeated copies (m :: middle ++ f :: back) =
        List.replicate (copies 0 - 1) m ++ (m :: (middle ++ [f]) ++ f :: rest) ∧
      ∀ g ∈ rest, g ∈ f :: back := by
  obtain ⟨n, hn⟩ : ∃ n, copies (middle.length + 1) = n + 2 :=
    ⟨copies (middle.length + 1) - 2, by omega⟩
  refine ⟨List.replicate n f ++ repeated (fun i => copies (middle.length + (i + 1) + 1)) back,
    ?_, ?_⟩
  · rw [repeated_front _ first once, repeated]
    simp [hn, List.replicate_succ]
  · intro g hg
    rcases List.mem_append.mp hg with hg | hg
    · rw [List.eq_of_mem_replicate hg]
      exact List.mem_cons_self
    · exact List.mem_cons_of_mem _ (mem_of_mem_repeated hg)

theorem retoggled_of_all {inverted : Finset Nat} (all : ∀ i, i < frames.length → i ∈ inverted) :
    retoggled inverted frames = frames.map fun f => Change.invertToggle.apply f := by
  apply List.ext_getElem?
  intro i
  rw [retoggled, List.getElem?_mapIdx, List.getElem?_map]
  cases hf : frames[i]? with
  | none => rfl
  | some f =>
    have hi := (List.getElem?_eq_some_iff.mp hf).1
    simp [retoggledAt, all i hi]

theorem Follows.inverted {n : Nat} (h : m.Follows n f) :
    (Change.invertToggle.apply m).Follows n (Change.invertToggle.apply f) := by
  refine ⟨h.notFirst, h.transferId, ?_⟩
  show (!f.tail.toggle) = Tail.flipped (!m.tail.toggle) n
  rw [← Bool.xor_true, ← Bool.xor_true, Tail.flipped_xor, h.toggle]

theorem Completes.inverted (h : m.Completes middle f) :
    (Change.invertToggle.apply m).Completes (middle.map fun g => Change.invertToggle.apply g)
      (Change.invertToggle.apply f) := by
  refine ⟨⟨h.begun.first, h.begun.notLast, ?_, ?_⟩, ?_, h.last⟩
  · intro i g hg
    rw [List.getElem?_map] at hg
    obtain ⟨g', hg', rfl⟩ := Option.map_eq_some_iff.mp hg
    exact (h.begun.follows i g' hg').inverted
  · intro g hg
    obtain ⟨g', hg', rfl⟩ := List.mem_map.mp hg
    exact h.begun.middleNotLast g' hg'
  · rw [List.length_map]
    exact h.follows.inverted

end Frame

/-- The exchange of two neighbours. -/
theorem Disturbance.exchange_apply (front back : List Frame) (f g : Frame) :
    (Disturbance.exchange front.length (front.length + 1)).apply (front ++ f :: g :: back) =
      front ++ g :: f :: back := by
  have hlength : (front ++ f :: g :: back).length = front.length + (back.length + 2) := by simp
  unfold Disturbance.apply
  simp only [hlength]
  rw [Nat.mod_eq_of_lt (by omega), Nat.mod_eq_of_lt (by omega)]
  simp

/-! ## Frames repeated in place -/

/-- The first frame that is repeated, the first and the last of `count` frames apart. -/
structure FirstRepeated (count : Nat) (copies : Nat → Nat) (place : Nat) : Prop where
  pos : 0 < place
  inside : place + 1 < count
  again : 1 < copies place
  before : ∀ i, 0 < i → i < place → copies i = 1

theorem exists_firstRepeated {count : Nat} {copies : Nat → Nat}
    (each : ∀ i, i < count → 1 ≤ copies i)
    (h : ¬ ∀ i, 0 < i → i + 1 < count → copies i = 1) :
    ∃ place, FirstRepeated count copies place := by
  classical
  have hex : ∃ i, 0 < i ∧ i + 1 < count ∧ copies i ≠ 1 := by
    by_contra hnone
    exact h fun i hi hlt => by_contra fun hne => hnone ⟨i, hi, hlt, hne⟩
  obtain ⟨pos, inside, hne⟩ := Nat.find_spec hex
  have := each _ (Nat.lt_of_succ_lt inside)
  refine ⟨Nat.find hex, pos, inside, by omega, fun i hi hlt => ?_⟩
  by_contra hne
  exact Nat.find_min hex hlt ⟨hi, by omega, hne⟩

/-- The first of `count` places that has another value than the very first. -/
structure FirstOther {α : Type} (count : Nat) (value : Nat → α) (place : Nat) : Prop where
  lt : place < count
  other : value place ≠ value 0
  same : ∀ i, i < place → value i = value 0

theorem FirstOther.pos {α : Type} {count place : Nat} {value : Nat → α}
    (h : FirstOther count value place) : 0 < place :=
  Nat.pos_of_ne_zero fun hzero => h.other (by rw [hzero])

theorem exists_firstOther {α : Type} {count : Nat} (value : Nat → α)
    (h : ∃ i j, i < count ∧ j < count ∧ value i ≠ value j) :
    ∃ place, FirstOther count value place := by
  classical
  have hex : ∃ i, i < count ∧ value i ≠ value 0 := by
    obtain ⟨i, j, hi, hj, hne⟩ := h
    by_cases hzero : value i = value 0
    · exact ⟨j, hj, fun hj => hne (by rw [hzero, hj])⟩
    · exact ⟨i, hi, hzero⟩
  obtain ⟨hlt, hne⟩ := Nat.find_spec hex
  refine ⟨Nat.find hex, hlt, hne, fun i hi => ?_⟩
  by_contra hi'
  exact Nat.find_min hex hi ⟨by omega, hi'⟩

namespace Reception

variable {transferId : TransferId} {frames middle : List Frame} {m f : Frame}
  {copies : Nat → Nat}

/-- Copies of a first frame only start the reception anew. -/
theorem results_copies (h : m.Open []) (count : Nat) (rest : List Frame) (r : Reception) :
    ∃ r' : Reception, r.results (List.replicate count m ++ rest) =
      List.replicate count (.ok none) ++ r'.results rest := by
  induction count generalizing r with
  | zero => exact ⟨r, rfl⟩
  | succ count ih =>
    obtain ⟨r', hr'⟩ := ih (gathering m [])
    refine ⟨r', ?_⟩
    rw [List.replicate_succ, List.cons_append, results, feedAll, feed_open h]
    exact congrArg (Except.ok none :: ·) hr'

/-- If only the first and the last frame are repeated, nothing comes of their copies. -/
theorem soleDelivery_repeated (numbered : Frame.Numbered transferId (m :: middle ++ [f]))
    {d : Delivery} (ends : ∀ r : Reception, (r.feedAll (m :: middle ++ [f])).2 = .idle)
    (delivers : ∀ r : Reception, SoleDelivery d (r.results (m :: middle ++ [f])))
    (first : 1 ≤ copies 0) (last : 1 ≤ copies (middle.length + 1))
    (once : ∀ i, 0 < i → i ≤ middle.length → copies i = 1) (r : Reception) :
    SoleDelivery d (r.results (Frame.repeated copies (m :: middle ++ [f]))) := by
  have hsplit : Frame.repeated copies (m :: middle ++ [f]) =
      List.replicate (copies 0 - 1) m ++
        (m :: middle ++ [f] ++ List.replicate (copies (middle.length + 1) - 1) f) := by
    rw [Frame.repeated_front [f] first once, Frame.repeated_cons [] last]
    simp [Frame.repeated]
  have hopen : m.Open [] := Frame.Numbered.isOpen_nil numbered (by simp)
  have horphans : ∀ g ∈ List.replicate (copies (middle.length + 1) - 1) f,
      g.tail.first = false := by
    intro g hg
    rw [List.eq_of_mem_replicate hg]
    exact numbered.notFirst (i := middle.length + 1) (by simp) (Nat.succ_pos _)
  obtain ⟨r', hr'⟩ := results_copies hopen (copies 0 - 1)
    (m :: middle ++ [f] ++ List.replicate (copies (middle.length + 1) - 1) f) r
  rw [hsplit, hr', results_append, ends, results_of_orphans horphans, ← List.append_assoc]
  exact (delivers r').between _ _

/-- The second copy of the first frame that is repeated, the first and the last one apart, ends the
reception. -/
theorem soleFault_repeated (numbered : Frame.Numbered transferId frames) {place : Nat}
    (h : FirstRepeated frames.length copies place) (first : 1 ≤ copies 0) (r : Reception) :
    SoleFault ((Frame.repeated copies (frames.take place)).length + 1)
      (.toggle (!Tail.toggleAt place) (Tail.toggleAt place))
      (r.results (Frame.repeated copies frames)) := by
  have hinside := h.inside
  obtain ⟨m, middle, f, back, rfl, rfl⟩ := Frame.exists_split h.pos (Nat.lt_of_succ_lt hinside)
  have once : ∀ i, 0 < i → i ≤ middle.length → copies i = 1 :=
    fun i hi hle => h.before i hi (by omega)
  have hback : back ≠ [] := by
    rintro rfl
    simp at hinside
  have hlength :
      (Frame.repeated copies ((m :: middle ++ f :: back).take (middle.length + 1))).length =
        copies 0 - 1 + (middle.length + 1) := by
    have hfront := Frame.repeated_front (m := m) [] first once
    rw [List.append_nil] at hfront
    rw [← List.length_cons (a := m), List.take_left, hfront]
    simp [Frame.repeated]
  obtain ⟨rest, hrest, hmem⟩ :=
    Frame.repeated_again (m := m) (f := f) back first once h.again
  have hnotFirst : ∀ g ∈ rest, g.tail.first = false := by
    intro g hg
    exact Frame.Numbered.notFirst_of_mem numbered (List.mem_append_right middle (hmem g hg))
  have hopen : m.Open (middle ++ [f]) :=
    Frame.Numbered.isOpen (by simpa using numbered) hback
  have hended : EndedBy m ((middle ++ [f]).length + 1) f
      (.toggle (!Tail.toggleAt (middle.length + 1)) (Tail.toggleAt (middle.length + 1))) := by
    refine endedBy_numbered numbered rfl ?_ (Nat.succ_pos _) ?_
    · simp
    · simp only [List.length_append, List.length_singleton]
      omega
  have hopen₀ : m.Open [] := Frame.Numbered.isOpen_nil numbered (by simp)
  obtain ⟨r', hr'⟩ := results_copies hopen₀ (copies 0 - 1) (m :: (middle ++ [f]) ++ f :: rest) r
  have hsole := soleFault_of_open_misfit hopen hended hnotFirst r'
  rw [hrest, hr', hlength]
  simpa [Nat.add_assoc] using hsole.behind (copies 0 - 1)

theorem exists_soleFault_repeated (numbered : Frame.Numbered transferId frames)
    (each : ∀ i, i < frames.length → 1 ≤ copies i)
    (again : ¬ ∀ i, 0 < i → i + 1 < frames.length → copies i = 1) (r : Reception) :
    ∃ place, FirstRepeated frames.length copies place ∧
      SoleFault ((Frame.repeated copies (frames.take place)).length + 1)
        (.toggle (!Tail.toggleAt place) (Tail.toggleAt place))
        (r.results (Frame.repeated copies frames)) := by
  obtain ⟨place, h⟩ := exists_firstRepeated each again
  have hinside := h.inside
  exact ⟨place, h, soleFault_repeated numbered h (each 0 (by omega)) r⟩

/-! ## Neighbours exchanged -/

/-- If a frame arrives before the one in front of it, nothing is delivered. -/
theorem delivered_exchanged {front back : List Frame} {f g : Frame}
    (numbered : Frame.Numbered transferId (front ++ f :: g :: back)) :
    idle.delivered (front ++ g :: f :: back) = [] := by
  cases front with
  | nil =>
    -- The second frame is ignored, and the first is not followed by the third.
    have hopen : f.Open [] := Frame.Numbered.isOpen_nil numbered (List.cons_ne_nil _ _)
    have hnotFirst : ∀ h ∈ g :: back, h.tail.first = false :=
      fun h => Frame.Numbered.notFirst_of_mem numbered
    rw [List.nil_append, delivered_orphan (hnotFirst g List.mem_cons_self)]
    cases back with
    | nil => exact delivered_of_none_last (by simpa using hopen.notLast) idle
    | cons h later =>
      have hended : EndedBy f 1 h (.toggle (!Tail.toggleAt 2) (Tail.toggleAt 2)) :=
        endedBy_numbered numbered rfl rfl (by omega) (by omega)
      have hlater : ∀ h ∈ later, h.tail.first = false := fun h' hh' =>
        hnotFirst h' (List.mem_cons_of_mem _ (List.mem_cons_of_mem _ hh'))
      exact delivered_eq_nil_of_soleFault (soleFault_of_open_misfit hopen hended hlater idle)
  | cons m middle =>
    have hopen : m.Open middle := Frame.Numbered.isOpen numbered (by simp)
    have hplace : (m :: middle ++ f :: g :: back)[middle.length + 2]? = some g := by
      simp
    have hended := endedBy_numbered (k := middle.length + 1) numbered rfl hplace
      (by omega) (by omega)
    have hrest : ∀ h ∈ f :: back, h.tail.first = false := by
      intro h hh
      refine Frame.Numbered.notFirst_of_mem numbered (List.mem_append_right middle ?_)
      rcases List.mem_cons.mp hh with rfl | hh
      · exact List.mem_cons_self
      · exact List.mem_cons_of_mem _ (List.mem_cons_of_mem _ hh)
    exact delivered_eq_nil_of_soleFault (soleFault_of_open_misfit hopen hended hrest idle)

theorem delivered_exchange_apply (numbered : Frame.Numbered transferId frames) {i : Nat}
    (hi : i + 1 < frames.length) :
    idle.delivered ((Disturbance.exchange i (i + 1)).apply frames) = [] := by
  have hsplit : frames = frames.take i ++ frames[i] :: frames[i + 1] :: frames.drop (i + 2) := by
    rw [← List.drop_eq_getElem_cons, ← List.drop_eq_getElem_cons, List.take_append_drop]
  have hlength : (frames.take i).length = i := by
    rw [List.length_take, Nat.min_eq_left (by omega)]
  have hexchange := Disturbance.exchange_apply (frames.take i) (frames.drop (i + 2)) frames[i]
    frames[i + 1]
  rw [hlength, ← hsplit] at hexchange
  rw [hexchange]
  rw [hsplit] at numbered
  exact delivered_exchanged numbered

/-! ## Frames altered -/

/-- If frames are altered but begin and end a transfer where they did, the first that does not fit
ends the reception. -/
theorem soleFault_altered (numbered : Frame.Numbered transferId frames)
    (alter : Nat → Frame → Frame) {k : Nat} {fault : ReceptionFault}
    (first : ∀ i g, (alter i g).tail.first = g.tail.first)
    (last : ∀ i g, (alter i g).tail.last = g.tail.last)
    (hm : frames[0]? = some m) (hf : frames[k]? = some f) (pos : 0 < k)
    (follows : ∀ (i : Nat) (g : Frame), 0 < i → i < k → frames[i]? = some g →
      (alter 0 m).Follows i (alter i g))
    (ended : EndedBy (alter 0 m) k (alter k f) fault) (r : Reception) :
    SoleFault k fault (r.results (frames.mapIdx alter)) := by
  have hlt : k < frames.length := (List.getElem?_eq_some_iff.mp hf).1
  have hplace : ∀ (i : Nat) (g : Frame), (frames.mapIdx alter)[i]? = some g →
      ∃ g', frames[i]? = some g' ∧ g = alter i g' := by
    intro i g hg
    rw [List.getElem?_mapIdx] at hg
    obtain ⟨g', hg', rfl⟩ := Option.map_eq_some_iff.mp hg
    exact ⟨g', hg', rfl⟩
  refine soleFault_of_feedAll
    (feedAll_misfit (m := alter 0 m) (f := alter k f) ?_ ?_ pos ?_ ?_ ?_ ?_ ended r)
  · rw [List.getElem?_mapIdx, hm]
    rfl
  · rw [List.getElem?_mapIdx, hf]
    rfl
  · rw [first, numbered.first hm]
  · intro i g hi hg
    obtain ⟨g', hg', rfl⟩ := hplace i g hg
    rw [first, numbered.notFirst hg' hi]
  · intro i g hi hg
    obtain ⟨g', hg', rfl⟩ := hplace i g hg
    rw [last, numbered.notLast hg' (by omega)]
  · intro i g hi hlt hg
    obtain ⟨g', hg', rfl⟩ := hplace i g hg
    exact follows i g' hi hlt hg'

/-- The first frame whose toggle is changed and that of the first frame not, or the other way
round, ends the reception. -/
theorem soleFault_retoggled (numbered : Frame.Numbered transferId frames) {inverted : Finset Nat}
    {place : Nat} (h : FirstOther frames.length (fun i => decide (i ∈ inverted)) place)
    (hf : (Frame.retoggled inverted frames)[place]? = some f) (r : Reception) :
    SoleFault place (.toggle (!f.tail.toggle) f.tail.toggle)
      (r.results (Frame.retoggled inverted frames)) := by
  have hpos := h.pos
  have hlt := h.lt
  have hm : frames[0]? = some frames[0] := List.getElem?_eq_getElem (by omega)
  have htoggle : ∀ (i : Nat) (g : Frame), frames[i]? = some g →
      ((g.retoggledAt inverted i).tail.toggle =
          Tail.flipped (frames[0].retoggledAt inverted 0).tail.toggle i ↔
        decide (i ∈ inverted) = decide (0 ∈ inverted)) := by
    intro i g hg
    rw [Frame.retoggledAt_toggle, Frame.retoggledAt_toggle, Tail.flipped_xor,
      (numbered.toggle_eq_iff hm hg).mpr rfl]
    exact Bool.xor_right_inj
  rw [Frame.retoggled, List.getElem?_mapIdx] at hf
  obtain ⟨g, hg, rfl⟩ := Option.map_eq_some_iff.mp hf
  have hfollows := numbered.follows hm hg hpos rfl
  refine soleFault_altered numbered (Frame.retoggledAt inverted) ?_ ?_ hm hg hpos ?_
    (endedBy_toggle ?_ ?_ ?_) r
  · simp
  · simp
  · intro i g hi hlt hg
    have hfollows := numbered.follows hm hg hi rfl
    exact ⟨by simpa using hfollows.notFirst, by simpa using hfollows.transferId,
      (htoggle i g hg).mpr (h.same i hlt)⟩
  · simpa using hfollows.notFirst
  · simpa using hfollows.transferId
  · rw [ne_eq, htoggle place g hg]
    exact h.other

theorem exists_soleFault_retoggled (numbered : Frame.Numbered transferId frames)
    {inverted : Finset Nat} (changed : ∃ i, i < frames.length ∧ i ∈ inverted)
    (kept : ∃ i, i < frames.length ∧ i ∉ inverted) (r : Reception) :
    ∃ place f, FirstOther frames.length (fun i => decide (i ∈ inverted)) place ∧
      (Frame.retoggled inverted frames)[place]? = some f ∧
      SoleFault place (.toggle (!f.tail.toggle) f.tail.toggle)
        (r.results (Frame.retoggled inverted frames)) := by
  obtain ⟨i, hi, hmem⟩ := changed
  obtain ⟨j, hj, hnot⟩ := kept
  obtain ⟨place, h⟩ := exists_firstOther (fun i => decide (i ∈ inverted))
    ⟨i, j, hi, hj, by simp [hmem, hnot]⟩
  have hlt : place < (Frame.retoggled inverted frames).length := by
    rw [Frame.retoggled, List.length_mapIdx]
    exact h.lt
  have hf := List.getElem?_eq_getElem hlt
  exact ⟨place, _, h, hf, soleFault_retoggled numbered h hf r⟩

/-- If all toggles of a whole transfer are inverted, nobody can tell. -/
theorem feedAll_inverted (h : m.Completes middle f) (r : Reception) :
    r.feedAll ((m :: (middle ++ [f])).map fun g => Frame.Change.invertToggle.apply g) =
      r.feedAll (m :: (middle ++ [f])) := by
  have hbytes : ∀ frames : List Frame,
      Frame.bytes (frames.map fun g => Frame.Change.invertToggle.apply g) = Frame.bytes frames := by
    intro frames
    rw [Frame.bytes, List.flatMap_map]
    rfl
  have hframes := hbytes (m :: (middle ++ [f]))
  simp only [List.map_cons, List.map_append, List.map_nil] at hframes ⊢
  rw [feedAll_completes h.inverted, feedAll_completes h, List.length_map, List.cons_append, hframes]
  rfl

/-- The first frame whose transfer id is not that of the first frame ends the reception. -/
theorem soleFault_renumbered (numbered : Frame.Numbered transferId frames)
    {ids : Nat → TransferId} {place : Nat} (h : FirstOther frames.length ids place)
    (r : Reception) :
    SoleFault place (.transferId (ids 0).toByte (ids place).toByte)
      (r.results (Frame.renumbered ids frames)) := by
  have hpos := h.pos
  have hlt := h.lt
  have hm : frames[0]? = some frames[0] := List.getElem?_eq_getElem (by omega)
  have hf : frames[place]? = some frames[place] := List.getElem?_eq_getElem hlt
  have hnotFirst : frames[place].tail.first = false := numbered.notFirst hf hpos
  refine soleFault_altered numbered (fun i g => (Frame.Change.transferId (ids i)).apply g)
    (fun _ _ => rfl) (fun _ _ => rfl) hm hf hpos ?_ (endedBy_transferId hnotFirst h.other) r
  intro i g hi hlt hg
  have hfollows := numbered.follows hm hg hi rfl
  exact ⟨hfollows.notFirst, h.same i hlt, hfollows.toggle⟩

end Reception

/-! ## What a receiver makes of it -/

/-- What an idle receiver makes of the frames of a transfer if they are disturbed. -/
structure FaultsDetected (frames : List Frame) : Prop where
  /-- If frames are repeated in place, the transfer is delivered at most once. -/
  repeated_once : ∀ copies : Nat → Nat, (∀ i, i < frames.length → 1 ≤ copies i) →
    (Reception.idle.delivered (Frame.repeated copies frames)).length ≤ 1
  /-- It is delivered exactly if no frame but the first and the last is repeated. -/
  repeated_iff : ∀ copies : Nat → Nat, (∀ i, i < frames.length → 1 ≤ copies i) →
    (Reception.idle.delivered (Frame.repeated copies frames) ≠ [] ↔
      ∀ i, 0 < i → i + 1 < frames.length → copies i = 1)
  /-- Then it is what is delivered without repetition, and the receiver is told of nothing else. -/
  repeated_same : ∀ copies : Nat → Nat, (∀ i, i < frames.length → 1 ≤ copies i) →
    (∀ i, 0 < i → i + 1 < frames.length → copies i = 1) →
    Reception.idle.delivered (Frame.repeated copies frames) = Reception.idle.delivered frames ∧
      ∃ d, SoleDelivery d (Reception.idle.results (Frame.repeated copies frames))
  /-- Otherwise there is one fault, at the second copy of the first other frame that is repeated. -/
  repeated_fault : ∀ copies : Nat → Nat, (∀ i, i < frames.length → 1 ≤ copies i) →
    (¬ ∀ i, 0 < i → i + 1 < frames.length → copies i = 1) →
    ∃ place, FirstRepeated frames.length copies place ∧
      SoleFault ((Frame.repeated copies (frames.take place)).length + 1)
        (.toggle (!Tail.toggleAt place) (Tail.toggleAt place))
        (Reception.idle.results (Frame.repeated copies frames))
  /-- If two neighbours are exchanged, nothing is delivered. -/
  exchanged : ∀ i, i + 1 < frames.length →
    Reception.idle.delivered ((Disturbance.exchange i (i + 1)).apply frames) = []
  /-- If the toggles of some frames are inverted, but not of all, nothing is delivered, and there is
  one fault, at the first frame that is treated otherwise than the very first. -/
  retoggled : ∀ inverted : Finset Nat, (∃ i, i < frames.length ∧ i ∈ inverted) →
    (∃ i, i < frames.length ∧ i ∉ inverted) →
    Reception.idle.delivered (Frame.retoggled inverted frames) = [] ∧
      ∃ place f, FirstOther frames.length (fun i => decide (i ∈ inverted)) place ∧
        (Frame.retoggled inverted frames)[place]? = some f ∧
        SoleFault place (.toggle (!f.tail.toggle) f.tail.toggle)
          (Reception.idle.results (Frame.retoggled inverted frames))
  /-- If the toggles of all frames are inverted, this cannot be noticed. -/
  retoggled_all : ∀ inverted : Finset Nat, (∀ i, i < frames.length → i ∈ inverted) →
    Reception.idle.results (Frame.retoggled inverted frames) = Reception.idle.results frames
  /-- If transfer ids are changed, and not all are equal, nothing is delivered, and there is one
  fault, at the first frame with another id than the very first. -/
  renumbered : ∀ ids : Nat → TransferId,
    (∃ i j, i < frames.length ∧ j < frames.length ∧ ids i ≠ ids j) →
    Reception.idle.delivered (Frame.renumbered ids frames) = [] ∧
      ∃ place, FirstOther frames.length ids place ∧
        SoleFault place (.transferId (ids 0).toByte (ids place).toByte)
          (Reception.idle.results (Frame.renumbered ids frames))

namespace Transfer

variable (t : Transfer) {capacity : Nat} {copies : Nat → Nat}

theorem soleDelivery_layout (pos : 0 < capacity) (r : Reception) :
    SoleDelivery (t.delivery capacity) (r.results (t.layout capacity)) :=
  ⟨(t.layout capacity).length - 1, 0, by
    simp [Reception.results, feedAll_layout t pos r, Outcome.result]⟩

/-- If only the first and the last frame are repeated, the transfer is delivered all the same. -/
theorem soleDelivery_repeated_layout (pos : 0 < capacity)
    (several : 1 < (t.layout capacity).length)
    (each : ∀ i, i < (t.layout capacity).length → 1 ≤ copies i)
    (once : ∀ i, 0 < i → i + 1 < (t.layout capacity).length → copies i = 1) (r : Reception) :
    SoleDelivery (t.delivery capacity)
      (r.results (Frame.repeated copies (t.layout capacity))) := by
  obtain ⟨m, middle, f, back, hlayout, hplace⟩ := Frame.exists_split
    (Nat.sub_pos_of_lt several) (Nat.sub_lt (Nat.zero_lt_of_lt several) Nat.one_pos)
  obtain rfl : back = [] := by
    rw [hlayout] at hplace
    simp only [List.length_append, List.length_cons] at hplace
    exact List.length_eq_zero_iff.mp (by omega)
  have hlength : (t.layout capacity).length = middle.length + 2 := by simp [hlayout]
  have hends : ∀ r : Reception, (r.feedAll (t.layout capacity)).2 = .idle :=
    fun r => by rw [feedAll_layout t pos]
  have hdelivers := soleDelivery_layout t pos
  have hnumbered := t.layout_numbered capacity
  have hfirst := each 0 (by omega)
  have hlast := each (middle.length + 1) (by omega)
  rw [hlayout] at hends hdelivers hnumbered ⊢
  exact Reception.soleDelivery_repeated hnumbered hends hdelivers hfirst hlast
    (fun i hi hle => once i hi (by omega)) r

theorem results_retoggled_layout (pos : 0 < capacity) (several : 1 < (t.layout capacity).length)
    {inverted : Finset Nat} (all : ∀ i, i < (t.layout capacity).length → i ∈ inverted)
    (r : Reception) :
    r.results (Frame.retoggled inverted (t.layout capacity)) = r.results (t.layout capacity) := by
  have hlt : capacity < t.length := by
    by_contra hle
    rw [layout_of_le t (Nat.le_of_not_lt hle)] at several
    exact Nat.lt_irrefl 1 several
  obtain ⟨m, middle, f, hlayout, hcompletes, -⟩ := exists_layout_completes t pos hlt
  rw [Frame.retoggled_of_all all, hlayout, Reception.results, Reception.results,
    Reception.feedAll_inverted hcompletes]

/-- **Frames of a transfer that are repeated, exchanged or altered are noticed**, unless only the
first and the last of them are repeated, or all toggles inverted. -/
theorem faultsDetected_of_frames {frames : List Frame} (cut : t.frames capacity = .ok frames)
    (several : 1 < frames.length) : FaultsDetected frames := by
  obtain ⟨pos, rfl⟩ := (frames_eq_ok_iff t).mp cut
  have numbered := t.layout_numbered capacity
  refine ⟨?_, ?_, ?_, ?_, ?_, ?_, ?_, ?_⟩
  · intro copies each
    by_cases once : ∀ i, 0 < i → i + 1 < (t.layout capacity).length → copies i = 1
    · have hsole := soleDelivery_repeated_layout t pos several each once .idle
      rw [Reception.delivered_of_soleDelivery hsole]
      exact Nat.le_refl 1
    · obtain ⟨_, _, hfault⟩ := Reception.exists_soleFault_repeated numbered each once .idle
      rw [Reception.delivered_eq_nil_of_soleFault hfault]
      exact Nat.zero_le 1
  · intro copies each
    constructor
    · intro hdelivered
      by_contra again
      obtain ⟨_, _, hfault⟩ := Reception.exists_soleFault_repeated numbered each again .idle
      exact hdelivered (Reception.delivered_eq_nil_of_soleFault hfault)
    · intro once
      have hsole := soleDelivery_repeated_layout t pos several each once .idle
      rw [Reception.delivered_of_soleDelivery hsole]
      exact List.cons_ne_nil _ _
  · intro copies each once
    have hsole := soleDelivery_repeated_layout t pos several each once .idle
    have hplain := soleDelivery_layout t pos .idle
    rw [Reception.delivered_of_soleDelivery hsole, Reception.delivered_of_soleDelivery hplain]
    exact ⟨rfl, _, hsole⟩
  · intro copies each again
    exact Reception.exists_soleFault_repeated numbered each again .idle
  · intro i hi
    exact Reception.delivered_exchange_apply numbered hi
  · intro inverted changed kept
    obtain ⟨place, f, h, hf, hfault⟩ :=
      Reception.exists_soleFault_retoggled numbered changed kept .idle
    exact ⟨Reception.delivered_eq_nil_of_soleFault hfault, place, f, h, hf, hfault⟩
  · intro inverted all
    exact results_retoggled_layout t pos several all .idle
  · intro ids differ
    obtain ⟨place, h⟩ := exists_firstOther ids differ
    have hfault := Reception.soleFault_renumbered numbered h .idle
    exact ⟨Reception.delivered_eq_nil_of_soleFault hfault, place, h, hfault⟩

/-- The last of four frames holds half of the CRC only. -/
theorem faultsDetected_of_frames_digest_cut :
    ∃ frames, Transfer.frames ⟨0x123, 35, [List.replicate 20 0xA5], true⟩ 7 = .ok frames ∧
      frames.length = 4 ∧ FaultsDetected frames :=
  ⟨_, frames_of_pos _ (by decide), by decide +kernel,
    faultsDetected_of_frames _ (frames_of_pos _ (by decide)) (by decide +kernel)⟩

end Transfer

end CanTransfer
