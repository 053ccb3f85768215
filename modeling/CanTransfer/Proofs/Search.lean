import Mathlib.Data.List.Basic
import CanTransfer.Proofs.RoundTrip
import CanTransfer.Proofs.Wire
import CanTransfer.Transport.Basic

/-!
# Searching the wire for a transfer

What a receiver finds among frames that wait to be read, and that it finds it if they belong
together.

* `ReceptionTable.search` — the loop of a receiver over a list of frames in place of a bus.
* `Transport.receive_of_ready` — a receiver that is ready searches the frames that wait.
* `Statistics.Clean`, `ReceptionTable.Quiet` — nothing ever went wrong, and nothing is gathered.
* `ReceptionTable.search_accepted` — a search goes on over frames of one identifier that are all
  accepted.
* `ReceptionTable.search_frames` — and stops behind the one that delivers.
* `ReceptionTable.search_layout` — so it finds the transfer whose frames come first, and leaves the
  frames behind it.
-/

set_option autoImplicit false

namespace CanTransfer

/-! ## The loop of a receiver -/

namespace ReceptionTable

/-- Feeds frames up to the first that completes a transfer; frames that cannot be decoded and
receptions that fail are passed over. Gives the transfer, the frames behind it and the table. -/
def search : ReceptionTable → List CanFrame → Option Delivery × List CanFrame × ReceptionTable
  | t, [] => (none, [], t)
  | t, c :: rest =>
    match Frame.decode c with
    | .error _ => search t rest
    | .ok f =>
      match t.feed f with
      | (.delivered d, t) => (some d, rest, t)
      | (_, t) => search t rest

variable {t : ReceptionTable} {c : CanFrame} {f : Frame}

theorem search_cons_of_error {fault : FrameFault} (h : Frame.decode c = .error fault)
    (rest : List CanFrame) : t.search (c :: rest) = t.search rest := by
  rw [search, h]

theorem search_cons_of_delivered {d : Delivery} (h : Frame.decode c = .ok f)
    (hfeed : (t.feed f).1 = .delivered d) (rest : List CanFrame) :
    t.search (c :: rest) = (some d, rest, (t.feed f).2) := by
  cases hnext : t.feed f with
  | mk outcome table =>
    obtain rfl : outcome = .delivered d := by simpa [hnext] using hfeed
    simp only [search, h, hnext]

theorem search_cons_of_not_delivered (h : Frame.decode c = .ok f)
    (hfeed : ∀ d, (t.feed f).1 ≠ .delivered d) (rest : List CanFrame) :
    t.search (c :: rest) = (t.feed f).2.search rest := by
  cases hnext : t.feed f with
  | mk outcome table =>
    rw [hnext] at hfeed
    cases outcome with
    | delivered d => exact absurd rfl (hfeed d)
    | _ => simp only [search, h, hnext]

end ReceptionTable

namespace Transport

variable {t : Transport}

/-- The transport after frames have been read and fed. -/
def resumed (t : Transport) (queue : List CanFrame) (table : ReceptionTable) : Transport :=
  { t with bus := { t.bus with queue := queue }, table := table }

theorem resumed_self {queue : List CanFrame} (waiting : t.bus.queue = queue) :
    t.resumed queue t.table = t := by
  rw [← waiting]
  rfl

theorem receive_of_not_ready (h : (t.enabled && t.bus.enabled) = false) :
    t.receive = (.error .notReady, t) :=
  receive_of_readFrame_error (readFrame_of_not_ready h)

/-- A receiver that is ready searches the frames that wait. -/
theorem receive_of_ready (ready : (t.enabled && t.bus.enabled) = true) :
    t.receive = ((t.table.search t.bus.queue).1.elim (.error .timeout) .ok,
      t.resumed (t.table.search t.bus.queue).2.1 (t.table.search t.bus.queue).2.2) := by
  generalize hqueue : t.bus.queue = queue
  induction queue generalizing t with
  | nil =>
    rw [receive_of_readFrame_error (readFrame_nil ready hqueue)]
    show (_, t) = (_, t.resumed [] t.table)
    rw [resumed_self hqueue]
    rfl
  | cons c rest ih =>
    have hread := readFrame_cons ready hqueue
    cases hdecode : Frame.decode c with
    | error fault =>
      rw [receive_of_decode_error hread hdecode, ReceptionTable.search_cons_of_error hdecode]
      exact ih (t := t.resumed rest t.table) ready rfl
    | ok f =>
      by_cases hfeed : ∃ d, (t.table.feed f).1 = .delivered d
      · obtain ⟨d, hd⟩ := hfeed
        rw [receive_of_delivered hread hdecode hd,
          ReceptionTable.search_cons_of_delivered hdecode hd]
        rfl
      · rw [not_exists] at hfeed
        rw [receive_of_not_delivered hread hdecode hfeed,
          ReceptionTable.search_cons_of_not_delivered hdecode hfeed]
        exact ih (t := t.resumed rest (t.table.feed f).2) ready rfl

end Transport

/-! ## Searching from quiet receptions -/

/-- None of the receptions ever went wrong. -/
structure Statistics.Clean (s : Statistics) : Prop where
  orphans : s.orphans = 0
  toggle : s.toggle = 0
  transferId : s.transferId = 0
  checksum : s.checksum = 0

namespace Statistics

theorem Clean.accepted {s : Statistics} (h : s.Clean) : (s.record .accepted).Clean :=
  ⟨h.orphans, h.toggle, h.transferId, h.checksum⟩

theorem Clean.delivered {s : Statistics} (h : s.Clean) (d : Delivery) :
    (s.record (.delivered d)).Clean :=
  ⟨h.orphans, h.toggle, h.transferId, h.checksum⟩

end Statistics

namespace ReceptionTable

/-- All receptions are idle, and none ever went wrong. -/
structure Quiet (t : ReceptionTable) : Prop where
  idle : ∀ key, t.reception key = .idle
  clean : t.statistics.Clean

variable {t : ReceptionTable} {f : Frame}

theorem outcome_feed (t : ReceptionTable) (f : Frame) :
    (t.feed f).1 = ((t.reception f.identifier).feed f).1 := rfl

theorem statistics_feed (t : ReceptionTable) (f : Frame) :
    (t.feed f).2.statistics = t.statistics.record (t.feed f).1 := rfl

/-- A search passes over frames of one identifier that are all accepted. -/
theorem search_accepted {key : UInt32} (hkey : fitsIdentifier key) (frames : List Frame)
    (hframes : ∀ f ∈ frames, f.identifier = key) (rest : List CanFrame) (t : ReceptionTable)
    (clean : t.statistics.Clean)
    (accepted : ∀ o ∈ ((t.reception key).feedAll frames).1, o = .accepted) :
    ∃ u : ReceptionTable, t.search (frames.map Frame.wire ++ rest) = u.search rest ∧
      (∀ k, u.reception k =
        if k = key then ((t.reception key).feedAll frames).2 else t.reception k) ∧
      u.statistics.Clean := by
  induction frames generalizing t with
  | nil =>
    refine ⟨t, rfl, ?_, clean⟩
    intro k
    split
    · rename_i h
      rw [h]
      rfl
    · rfl
  | cons f more ih =>
    have hid := hframes f List.mem_cons_self
    have hfeed : (t.feed f).1 = .accepted := by
      rw [outcome_feed, hid]
      exact accepted _ List.mem_cons_self
    have hclean : (t.feed f).2.statistics.Clean := by
      rw [statistics_feed, hfeed]
      exact clean.accepted
    have hnext : (t.feed f).2.reception key = ((t.reception key).feed f).2 := by
      rw [reception_feed, hid, if_pos rfl]
    have hmore : ∀ o ∈ (((t.feed f).2.reception key).feedAll more).1, o = .accepted := by
      intro o ho
      rw [hnext] at ho
      exact accepted o (List.mem_cons_of_mem _ ho)
    have hkeys : ∀ g ∈ more, g.identifier = key := by
      intro g hg
      exact hframes g (List.mem_cons_of_mem _ hg)
    obtain ⟨u, hsearch, hu, hcleans⟩ := ih hkeys _ hclean hmore
    refine ⟨u, ?_, ?_, hcleans⟩
    · rw [List.map_cons, List.cons_append,
        search_cons_of_not_delivered (Frame.decode_wire (hid ▸ hkey)) (by simp [hfeed]), hsearch]
    · intro k
      rw [hu, hnext, reception_feed, hid]
      split <;> rfl

/-- A search through frames of one identifier stops behind the one that delivers. -/
theorem search_frames {key : UInt32} {d : Delivery} {r : Reception} {n : Nat}
    (hkey : fitsIdentifier key) {frames : List Frame} (hframes : ∀ f ∈ frames, f.identifier = key)
    (rest : List CanFrame) (clean : t.statistics.Clean)
    (hfeed : (t.reception key).feedAll frames = (List.replicate n .accepted ++ [.delivered d], r)) :
    ∃ u : ReceptionTable, t.search (frames.map Frame.wire ++ rest) = (some d, rest, u) ∧
      (∀ k, u.reception k = if k = key then r else t.reception k) ∧ u.statistics.Clean := by
  rcases List.eq_nil_or_concat' frames with rfl | ⟨front, f, rfl⟩
  · simp [Reception.feedAll] at hfeed
  · rw [Reception.feedAll_concat, Prod.mk.injEq] at hfeed
    obtain ⟨houtcomes, hlast⟩ := hfeed
    obtain ⟨hfront, hdelivered⟩ := List.append_inj' houtcomes rfl
    have hid : f.identifier = key := hframes f (by simp)
    have hkeys : ∀ g ∈ front, g.identifier = key := by
      intro g hg
      exact hframes g (List.mem_append_left _ hg)
    have haccepted : ∀ o ∈ ((t.reception key).feedAll front).1, o = .accepted := by
      intro o ho
      rw [hfront] at ho
      exact List.eq_of_mem_replicate ho
    obtain ⟨u, hsearch, hu, hclean⟩ :=
      search_accepted hkey front hkeys (f.wire :: rest) t clean haccepted
    have hkeyed : u.reception key = ((t.reception key).feedAll front).2 := by rw [hu, if_pos rfl]
    have hf : (u.feed f).1 = .delivered d := by
      rw [outcome_feed, hid, hkeyed]
      exact List.singleton_inj.mp hdelivered
    refine ⟨(u.feed f).2, ?_, ?_, ?_⟩
    · rw [List.map_append, List.append_assoc, List.map_singleton, List.singleton_append, hsearch,
        search_cons_of_delivered (Frame.decode_wire (hid ▸ hkey)) hf]
    · intro k
      rw [reception_feed, hid]
      split
      · rename_i hk
        rw [hk, hkeyed, hlast]
      · rename_i hk
        rw [hu, if_neg hk]
    · rw [statistics_feed, hf]
      exact hclean.delivered d

/-- From quiet receptions, a search finds the transfer whose frames come first. -/
theorem search_layout {x : Transfer} {capacity : Nat} (pos : 0 < capacity)
    (hid : fitsIdentifier x.identifier) (quiet : t.Quiet) (rest : List CanFrame) :
    ∃ u : ReceptionTable, t.search ((x.layout capacity).map Frame.wire ++ rest) =
        (some (x.delivery capacity), rest, u) ∧ u.Quiet := by
  obtain ⟨u, hsearch, hu, hclean⟩ := search_frames hid
    (fun f hf => x.identifier_of_mem_layout hf) rest quiet.clean (x.feedAll_layout pos _)
  refine ⟨u, hsearch, ?_, hclean⟩
  intro key
  rw [hu, quiet.idle]
  split <;> rfl

end ReceptionTable

end CanTransfer
