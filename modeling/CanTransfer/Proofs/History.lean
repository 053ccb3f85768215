import CanTransfer.Proofs.Gathering

/-!
# What a reception owes to its history

The state of a reception, and what its next frame does, read off the operations so far.

* `Reception.OpenAfter` — a history that ends with the frames of an open transfer.
* `Reception.run_of_openAfter`, `Reception.run_idle_or_openAfter` — a reception that was idle at
  first is gathering exactly after such histories, and idle after all others.
* `Reception.delivered_iff` — a frame delivers a transfer exactly if it is one by itself, or ends
  the frames of one.
-/

set_option autoImplicit false

namespace CanTransfer

namespace Reception

/-! ## Runs -/

theorem run_eq_runOf (r : Reception) (ops : List Op) : r.run ops = runOf step r ops := by
  induction ops generalizing r with
  | nil => rfl
  | cons op rest ih => simp only [run, runOf, ih]

theorem run_append (r : Reception) (front back : List Op) :
    r.run (front ++ back) =
      ((r.run front).1 ++ ((r.run front).2.run back).1, ((r.run front).2.run back).2) := by
  simp only [run_eq_runOf]
  exact runOf_append step r front back

theorem run_feeds (r : Reception) (frames : List Frame) :
    r.run (frames.map .feed) = ((r.feedAll frames).1.map some, (r.feedAll frames).2) := by
  induction frames generalizing r with
  | nil => rfl
  | cons f rest ih => simp only [List.map_cons, run, step, feedAll, ih]

theorem run_getElem? (r : Reception) (before after : List Op) (f : Frame) :
    (r.run (before ++ .feed f :: after)).1[before.length]? =
      some (some ((r.run before).2.feed f).1) := by
  simp only [run_eq_runOf]
  exact runOf_getElem? step r before after (.feed f)

/-! ## Open transfers -/

/-- The history ends with the frames of an open transfer, fed without a reset among them. -/
def OpenAfter (history : List Op) (m : Frame) (middle : List Frame) : Prop :=
  m.Open middle ∧ ∃ earlier, history = earlier ++ (m :: middle).map .feed

variable {history : List Op} {m f : Frame} {middle : List Frame}

theorem OpenAfter.begin (h : m.Open []) (history : List Op) :
    OpenAfter (history ++ [.feed m]) m [] :=
  ⟨h, history, rfl⟩

theorem OpenAfter.concat (h : OpenAfter history m middle)
    (follows : m.Follows (middle.length + 1) f) (notLast : f.tail.last = false) :
    OpenAfter (history ++ [.feed f]) m (middle ++ [f]) := by
  obtain ⟨hopen, earlier, rfl⟩ := h
  exact ⟨hopen.concat follows notLast, earlier, by simp⟩

/-- After the frames of an open transfer a reception is gathering it, wherever it started. -/
theorem run_of_openAfter (h : OpenAfter history m middle) (r : Reception) :
    (r.run history).2 = gathering m middle := by
  obtain ⟨hopen, earlier, rfl⟩ := h
  rw [run_append, run_feeds, feedAll_open hopen]

/-- A frame leaves a reception idle, or with an open transfer that the history ends with. -/
theorem feed_idle_or_openAfter {r : Reception} (f : Frame)
    (h : r = .idle ∨ ∃ m middle, OpenAfter history m middle ∧ r = gathering m middle) :
    (r.feed f).2 = .idle ∨ ∃ m middle, OpenAfter (history ++ [.feed f]) m middle := by
  by_cases hfirst : f.tail.first = true
  · rw [feed_first hfirst]
    by_cases hlast : f.tail.last = true
    · exact .inl (by simp [start, hlast])
    · exact .inr ⟨f, [], .begin (.nil hfirst (by simpa using hlast)) history⟩
  · rw [Bool.not_eq_true] at hfirst
    rcases h with rfl | ⟨m, middle, hopen, rfl⟩
    · rw [feed_idle hfirst]
      exact .inl rfl
    · by_cases hfollows : m.Follows (middle.length + 1) f
      · by_cases hlast : f.tail.last = true
        · rw [feed_last hfollows hlast]
          exact .inl rfl
        · exact .inr ⟨m, middle ++ [f], hopen.concat hfollows (by simpa using hlast)⟩
      · obtain ⟨fault, hfault⟩ := feed_misfit hfirst hfollows
        rw [hfault]
        exact .inl rfl

/-- A reception that was idle at first is idle, unless its history ends with an open transfer. -/
theorem run_idle_or_openAfter (history : List Op) :
    (idle.run history).2 = .idle ∨ ∃ m middle, OpenAfter history m middle := by
  induction history using List.reverseRecOn with
  | nil => exact .inl rfl
  | append_singleton history op ih =>
    rw [run_append]
    cases op with
    | reset => exact .inl rfl
    | feed f =>
      show ((idle.run history).2.feed f).2 = .idle ∨ _
      refine feed_idle_or_openAfter f (ih.imp_right ?_)
      rintro ⟨m, middle, h⟩
      exact ⟨m, middle, h, run_of_openAfter h idle⟩

/-! ## Deliveries -/

theorem feed_gathering_eq_delivered_iff (hopen : m.Open middle) (notFirst : f.tail.first = false)
    {d : Delivery} :
    ((gathering m middle).feed f).1 = .delivered d ↔
      m.Completes middle f ∧
        Frame.bytes (m :: middle ++ [f]) = d.payload ++ (Crc.ofBytes d.payload).digest ∧
        d.identifier = f.identifier ∧ d.transferId = m.tail.transferId ∧
        d.loopback = f.loopback := by
  constructor
  · intro h
    by_cases hfollows : m.Follows (middle.length + 1) f
    · by_cases hlast : f.tail.last = true
      · rw [feed_last hfollows hlast] at h
        exact ⟨⟨hopen, hfollows, hlast⟩, finish_eq_delivered_iff.mp h⟩
      · rw [feed_follows hfollows (by simpa using hlast)] at h
        cases h
    · obtain ⟨fault, hfault⟩ := feed_misfit notFirst hfollows
      rw [hfault] at h
      cases h
  · rintro ⟨⟨-, hfollows, hlast⟩, h⟩
    rw [feed_last hfollows hlast]
    exact finish_eq_delivered_iff.mpr h

/-- **Exactly the well-formed runs of frames are delivered.** Of a reception that was idle at first,
a frame delivers a transfer if and only if it is the first and the last frame at once, or, of the
frames fed before, the latest first frame and all that came after it, without a reset, make up a
whole transfer with it, and their bytes end with the CRC of those in front. -/
theorem delivered_iff (before after : List Op) (f : Frame) (d : Delivery) :
    (idle.run (before ++ .feed f :: after)).1[before.length]? = some (some (.delivered d)) ↔
      (f.tail.first = true ∧ f.tail.last = true ∧
        d = ⟨f.identifier, f.tail.transferId, f.payload, f.loopback⟩) ∨
      ∃ earlier m middle, before = earlier ++ (m :: middle).map .feed ∧ m.Completes middle f ∧
        Frame.bytes (m :: middle ++ [f]) = d.payload ++ (Crc.ofBytes d.payload).digest ∧
        d.identifier = f.identifier ∧ d.transferId = m.tail.transferId ∧
        d.loopback = f.loopback := by
  rw [run_getElem?]
  simp only [Option.some.injEq]
  constructor
  · intro h
    by_cases hfirst : f.tail.first = true
    · rw [feed_first hfirst, start_eq_delivered_iff] at h
      exact .inl ⟨hfirst, h⟩
    · rw [Bool.not_eq_true] at hfirst
      rcases run_idle_or_openAfter before with hidle | ⟨m, middle, hopen⟩
      · rw [hidle, feed_idle hfirst] at h
        cases h
      · rw [run_of_openAfter hopen, feed_gathering_eq_delivered_iff hopen.1 hfirst] at h
        obtain ⟨earlier, hbefore⟩ := hopen.2
        exact .inr ⟨earlier, m, middle, hbefore, h⟩
  · rintro (⟨hfirst, h⟩ | ⟨earlier, m, middle, hbefore, hcompletes, h⟩)
    · rw [feed_first hfirst]
      exact start_eq_delivered_iff.mpr h
    · rw [run_of_openAfter ⟨hcompletes.begun, earlier, hbefore⟩]
      exact (feed_gathering_eq_delivered_iff hcompletes.begun hcompletes.follows.notFirst).mpr
        ⟨hcompletes, h⟩

end Reception

end CanTransfer
