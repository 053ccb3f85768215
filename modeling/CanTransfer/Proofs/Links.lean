import Mathlib.Data.List.Perm.Basic
import CanTransfer.Link.Basic
import CanTransfer.Proofs.Disturbances
import CanTransfer.Proofs.Search

/-!
# What comes through a link

A link carries the frames of several transfers, one behind the other or in turns, and what is left
of them reaches a receiver that has received nothing before.

* `Link.delivered` — the transfers that the receiver gets.
* `Link.filter_delivered` — whatever arrives, those of an identifier are what its frames bring a
  lone reception.
* `Link.delivered_undisturbed` — without a disturbance, each transfer is delivered once.
* `Link.delivered_of_noticeable` — with a noticeable one, a transfer is not delivered.
-/

set_option autoImplicit false

namespace CanTransfer

/-- What can be encoded arrives as it was sent. -/
theorem Frame.travel_of_fits {f : Frame} (h : f.Fits) : f.travel = .ok f := by
  unfold travel
  rw [encode_of_fits h]
  exact decode_wire h.identifier

/-! ## Frames that take turns -/

theorem flatMap_getElem?_range {α : Type} (l : List α) (n : Nat) :
    ((List.range n).flatMap fun i => l[i]?.toList) = l.take n := by
  induction n with
  | zero => rfl
  | succ n ih => rw [List.range_succ, List.flatMap_append, ih, List.take_add_one]; simp

theorem mem_interleave {sequences : List (List Frame)} {f : Frame} (h : f ∈ interleave sequences) :
    ∃ s ∈ sequences, f ∈ s := by
  obtain ⟨i, -, hi⟩ := List.mem_flatMap.mp h
  obtain ⟨s, hs, hf⟩ := List.mem_filterMap.mp hi
  exact ⟨s, hs, List.mem_of_getElem? hf⟩

variable {own : List Frame} {before after : List (List Frame)} {p : Frame → Bool}

/-- One of several sequences keeps its order if they take turns. -/
theorem filter_interleave (inside : ∀ f ∈ own, p f = true)
    (outside : ∀ s ∈ before ++ after, ∀ f ∈ s, p f = false) :
    (interleave (before ++ own :: after)).filter p = own := by
  have hothers : ∀ (sequences : List (List Frame)) (i : Nat),
      (∀ s ∈ sequences, ∀ f ∈ s, p f = false) →
        (sequences.filterMap fun s => s[i]?).filter p = [] := by
    intro sequences i hnone
    refine List.filter_eq_nil_iff.mpr fun f hf => ?_
    obtain ⟨s, hs, hf⟩ := List.mem_filterMap.mp hf
    simp [hnone s hs f (List.mem_of_getElem? hf)]
  have hturn : ∀ i : Nat, ((before ++ own :: after).filterMap fun s => s[i]?).filter p =
      own[i]?.toList := by
    intro i
    have hbefore := hothers before i fun s hs => outside s (List.mem_append_left _ hs)
    have hafter := hothers after i fun s hs => outside s (List.mem_append_right _ hs)
    rw [List.filterMap_append, List.filter_append, hbefore, List.filterMap_cons]
    cases hf : own[i]? with
    | none => simpa using hafter
    | some f => simp [inside f (List.mem_of_getElem? hf), hafter]
  unfold interleave
  rw [List.filter_flatMap]
  simp only [hturn]
  rw [flatMap_getElem?_range, List.take_of_length_le]
  rw [List.foldl_max]
  exact le_max_of_le_right (List.le_max?_getD_of_mem (by simp))

theorem interleave_singleton (own : List Frame) : interleave [own] = own := by
  have hfilter : (interleave ([] ++ [own])).filter (fun _ => true) = own :=
    filter_interleave (fun _ _ => rfl) (by simp)
  simpa using hfilter

theorem filter_flatten (inside : ∀ f ∈ own, p f = true)
    (outside : ∀ s ∈ before ++ after, ∀ f ∈ s, p f = false) :
    (before ++ own :: after).flatten.filter p = own := by
  have hothers : ∀ sequences : List (List Frame), (∀ s ∈ sequences, ∀ f ∈ s, p f = false) →
      sequences.flatten.filter p = [] := by
    intro sequences hnone
    refine List.filter_eq_nil_iff.mpr fun f hf => ?_
    obtain ⟨s, hs, hf⟩ := List.mem_flatten.mp hf
    simp [hnone s hs f hf]
  rw [List.flatten_append, List.flatten_cons, List.filter_append, List.filter_append,
    hothers before fun s hs => outside s (List.mem_append_left _ hs),
    hothers after fun s hs => outside s (List.mem_append_right _ hs),
    List.filter_eq_self.mpr inside, List.nil_append, List.append_nil]

namespace Link

variable {l : Link} {t : Transfer} {d : Disturbance}

/-- The transfer that a frame completes at the receiver. -/
def deliveryOf : Except FrameFault Outcome → Option Delivery
  | .ok (.delivered d) => some d
  | _ => none

/-- The transfers that the receiver gets, in order. -/
def delivered (l : Link) : Except SettingsFault (List Delivery) :=
  l.run.map fun answers => answers.1.filterMap deliveryOf

/-- The frames before they are disturbed. -/
def joined (l : Link) : List Frame :=
  if l.interleaved then interleave (l.transfers.map (Transfer.layout · l.capacity))
  else (l.transfers.map (Transfer.layout · l.capacity)).flatten

/-- All frames of the transfers can travel. -/
def Travels (l : Link) : Prop :=
  l.encoded = true → l.capacity + tailLength ∈ DataLength.table ∧
    ∀ t ∈ l.transfers, fitsIdentifier t.identifier

/-! ## The receiver -/

theorem feedAll_cons {encoded : Bool} {f : Frame} (travels : encoded = true → f.Fits)
    (t : ReceptionTable) (rest : List Frame) :
    feedAll encoded t (f :: rest) =
      (.ok (t.feed f).1 :: (feedAll encoded (t.feed f).2 rest).1,
        (feedAll encoded (t.feed f).2 rest).2) := by
  have harrives : (if encoded = true then f.travel else .ok f) = .ok f := by
    split
    · rename_i h
      exact Frame.travel_of_fits (travels h)
    · rfl
  rw [feedAll, harrives]

/-- A frame completes a transfer of its own identifier, and the one that it completes for a lone
reception. -/
theorem filter_deliveryOf (t : ReceptionTable) (f : Frame) (key : UInt32) :
    (deliveryOf (.ok (t.feed f).1)).toList.filter (fun d => d.identifier = key) =
      if f.identifier = key then
        (deliveryOf (.ok ((t.reception key).feed f).1)).toList
      else [] := by
  rw [ReceptionTable.outcome_feed]
  cases ho : ((t.reception f.identifier).feed f).1 with
  | delivered d =>
    have hid : d.identifier = f.identifier := (Reception.feed_eq_delivered ho).2
    split
    · rename_i hkey
      rw [← hkey, ho]
      simp [deliveryOf, hid]
    · rename_i hkey
      simp [deliveryOf, hid, hkey]
  | _ =>
    split
    · rename_i hkey
      rw [← hkey, ho]
      rfl
    · rfl

theorem reception_delivered_cons (r : Reception) (f : Frame) (rest : List Frame) :
    r.delivered (f :: rest) =
      (deliveryOf (.ok (r.feed f).1)).toList ++ (r.feed f).2.delivered rest := by
  rw [Reception.delivered, Reception.results, Reception.feedAll, List.map_cons,
    List.filterMap_cons]
  cases (r.feed f).1 <;> rfl

/-- The transfers of an identifier are what its frames bring a lone reception. -/
theorem filter_feedAll {encoded : Bool} {frames : List Frame}
    (travels : ∀ f ∈ frames, encoded = true → f.Fits) (t : ReceptionTable) (key : UInt32) :
    ((feedAll encoded t frames).1.filterMap deliveryOf).filter (fun d => d.identifier = key) =
      (t.reception key).delivered (frames.filter fun f => f.identifier = key) := by
  induction frames generalizing t with
  | nil => rfl
  | cons f rest ih =>
    have hrest := ih (fun g hg => travels g (List.mem_cons_of_mem _ hg)) (t.feed f).2
    have hcons : (feedAll encoded t (f :: rest)).1.filterMap deliveryOf =
        (deliveryOf (.ok (t.feed f).1)).toList ++
          (feedAll encoded (t.feed f).2 rest).1.filterMap deliveryOf := by
      rw [feedAll_cons (travels f List.mem_cons_self), List.filterMap_cons]
      cases deliveryOf (.ok (t.feed f).1) <;> rfl
    rw [hcons, List.filter_append, filter_deliveryOf, hrest, ReceptionTable.reception_feed]
    by_cases hkey : f.identifier = key
    · rw [if_pos hkey, if_pos hkey.symm, List.filter_cons_of_pos (by simpa using hkey),
        reception_delivered_cons]
    · rw [if_neg hkey, if_neg (Ne.symm hkey), List.filter_cons_of_neg (by simpa using hkey)]
      rfl

/-- Whatever arrives, the transfers of an identifier are what its frames bring a lone reception. -/
theorem filter_delivered {frames : List Frame} (arrives : l.arriving = .ok frames)
    (travels : ∀ f ∈ frames, l.encoded = true → f.Fits) :
    ∃ ds, l.delivered = .ok ds ∧ ∀ key, ds.filter (fun d => d.identifier = key) =
      Reception.idle.delivered (frames.filter fun f => f.identifier = key) := by
  refine ⟨_, by rw [delivered, run, arrives]; rfl, fun key => ?_⟩
  exact filter_feedAll travels .empty key

/-! ## The sender -/

theorem arriving_of_pos (pos : 0 < l.capacity) :
    l.arriving = .ok (l.disturbances.foldl Disturbance.apply l.joined) := by
  have hframes : ∀ transfers : List Transfer, transfers.mapM (Transfer.frames · l.capacity) =
      Except.ok (transfers.map (Transfer.layout · l.capacity)) := by
    intro transfers
    induction transfers with
    | nil => rfl
    | cons t rest ih =>
      rw [List.mapM_cons, Transfer.frames_of_pos t pos, ih]
      rfl
  rw [arriving, hframes]
  rfl

theorem exists_of_mem_joined {f : Frame} (h : f ∈ l.joined) :
    ∃ t ∈ l.transfers, f ∈ t.layout l.capacity := by
  have hsequence : ∃ s ∈ l.transfers.map (Transfer.layout · l.capacity), f ∈ s := by
    unfold joined at h
    split at h
    · exact mem_interleave h
    · exact List.mem_flatten.mp h
  obtain ⟨s, hs, hf⟩ := hsequence
  obtain ⟨t, ht, rfl⟩ := List.mem_map.mp hs
  exact ⟨t, ht, hf⟩

theorem fits_of_mem_joined (pos : 0 < l.capacity) (travels : l.Travels) {f : Frame}
    (h : f ∈ l.joined) (encoded : l.encoded = true) : f.Fits := by
  obtain ⟨t, ht, hf⟩ := exists_of_mem_joined h
  exact t.layout_fits pos (travels encoded).1 ((travels encoded).2 t ht) hf

/-- Transfers around one of them, if all identifiers are different. -/
theorem exists_split_of_distinct {transfers : List Transfer}
    (distinct : (transfers.map Transfer.identifier).Nodup) (ht : t ∈ transfers) :
    ∃ before after, transfers = before ++ t :: after ∧
      ∀ u ∈ before ++ after, u.identifier ≠ t.identifier := by
  obtain ⟨before, after, rfl⟩ := List.append_of_mem ht
  rw [List.map_append, List.map_cons, List.nodup_middle, List.nodup_cons, ← List.map_append]
    at distinct
  exact ⟨before, after, rfl, fun u hu heq => distinct.1 (List.mem_map.mpr ⟨u, hu, heq⟩)⟩

theorem filter_of_distinct {transfers : List Transfer}
    (distinct : (transfers.map Transfer.identifier).Nodup) (ht : t ∈ transfers) :
    transfers.filter (fun u => u.identifier = t.identifier) = [t] := by
  obtain ⟨before, after, rfl, hothers⟩ := exists_split_of_distinct distinct ht
  have hbefore := List.filter_eq_nil_iff.mpr fun u hu =>
    decide_eq_true_iff.not.mpr (hothers u (List.mem_append_left _ hu))
  have hafter := List.filter_eq_nil_iff.mpr fun u hu =>
    decide_eq_true_iff.not.mpr (hothers u (List.mem_append_right _ hu))
  rw [List.filter_append, hbefore, List.filter_cons_of_pos (by simp), hafter]
  rfl

/-- The frames of a transfer come in order, if no other transfer has its identifier. -/
theorem filter_joined (distinct : (l.transfers.map Transfer.identifier).Nodup)
    (ht : t ∈ l.transfers) :
    l.joined.filter (fun f => f.identifier = t.identifier) = t.layout l.capacity := by
  obtain ⟨before, after, htransfers, hothers⟩ := exists_split_of_distinct distinct ht
  have inside : ∀ f ∈ t.layout l.capacity, decide (f.identifier = t.identifier) = true := by
    intro f hf
    simpa using t.identifier_of_mem_layout hf
  have outside : ∀ s ∈ before.map (Transfer.layout · l.capacity) ++
      after.map (Transfer.layout · l.capacity), ∀ f ∈ s,
        decide (f.identifier = t.identifier) = false := by
    intro s hs f hf
    rw [← List.map_append] at hs
    obtain ⟨u, hu, rfl⟩ := List.mem_map.mp hs
    rw [u.identifier_of_mem_layout hf]
    exact decide_eq_false (hothers u hu)
  unfold joined
  rw [htransfers, List.map_append, List.map_cons]
  split
  · exact filter_interleave inside outside
  · exact filter_flatten inside outside

theorem filter_joined_of_none {key : UInt32} (none : ∀ t ∈ l.transfers, t.identifier ≠ key) :
    l.joined.filter (fun f => f.identifier = key) = [] := by
  refine List.filter_eq_nil_iff.mpr fun f hf => ?_
  obtain ⟨t, ht, hmem⟩ := exists_of_mem_joined hf
  simpa [t.identifier_of_mem_layout hmem] using none t ht

/-! ## What comes through -/

theorem perm_of_filter {ds es : List Delivery}
    (h : ∀ key, ds.filter (fun d => d.identifier = key) = es.filter fun d => d.identifier = key) :
    ds.Perm es := by
  refine List.perm_iff_count.mpr fun d => ?_
  have hcount : ∀ xs : List Delivery,
      (xs.filter fun x => x.identifier = d.identifier).count d = xs.count d :=
    fun xs => List.count_filter (by simp)
  rw [← hcount ds, ← hcount es, h]

/-- **An undisturbed link delivers each transfer once**, be it that they take turns or not, if their
identifiers are different and all frames can travel. -/
theorem delivered_undisturbed (pos : 0 < l.capacity) (travels : l.Travels)
    (undisturbed : l.disturbances = [])
    (distinct : (l.transfers.map Transfer.identifier).Nodup) :
    ∃ ds, l.delivered = .ok ds ∧ ds.Perm (l.transfers.map (Transfer.delivery · l.capacity)) := by
  have harrives : l.arriving = .ok l.joined := by rw [arriving_of_pos pos, undisturbed]; rfl
  obtain ⟨ds, hds, hfilter⟩ :=
    filter_delivered harrives fun f hf => fits_of_mem_joined pos travels hf
  refine ⟨ds, hds, perm_of_filter fun key => ?_⟩
  rw [hfilter]
  by_cases hkey : ∃ t ∈ l.transfers, t.identifier = key
  · obtain ⟨t, ht, rfl⟩ := hkey
    rw [filter_joined distinct ht, List.filter_map,
      Reception.delivered_of_soleDelivery (t.soleDelivery_layout pos .idle)]
    show _ = (l.transfers.filter fun u => u.identifier = t.identifier).map _
    rw [filter_of_distinct distinct ht]
    rfl
  · have hnone : ∀ t ∈ l.transfers, t.identifier ≠ key := fun t ht heq => hkey ⟨t, ht, heq⟩
    rw [filter_joined_of_none hnone]
    refine (List.filter_eq_nil_iff.mpr fun d hd => ?_).symm
    obtain ⟨t, ht, rfl⟩ := List.mem_map.mp hd
    exact decide_eq_true_iff.not.mpr (hnone t ht)

/-- **A link with a noticeable disturbance delivers nothing** of a transfer of several frames. -/
theorem delivered_of_noticeable (pos : 0 < l.capacity) (travels : l.Travels)
    (transfers : l.transfers = [t]) (several : l.capacity < t.length)
    (disturbances : l.disturbances = [d])
    (h : d.Noticeable (t.layout l.capacity).length (TransferId.truncate t.number)) :
    l.delivered = .ok [] := by
  have hjoined : l.joined = t.layout l.capacity := by
    unfold joined
    rw [transfers, List.map_singleton, interleave_singleton, List.flatten_singleton, ite_self]
  have harrives : l.arriving = .ok (d.apply (t.layout l.capacity)) := by
    rw [arriving_of_pos pos, disturbances, hjoined]
    rfl
  have hframe : ∀ f ∈ d.apply (t.layout l.capacity),
      f.identifier = t.identifier ∧ (l.encoded = true → f.Fits) := by
    intro f hf
    obtain ⟨g, hg, hid, hlength⟩ := h.exists_of_mem hf
    have hmem : g ∈ l.joined := hjoined ▸ hg
    refine ⟨by rw [hid, t.identifier_of_mem_layout hg], fun encoded => ?_⟩
    have hfits := fits_of_mem_joined pos travels hmem encoded
    exact ⟨hid ▸ hfits.identifier, hlength ▸ hfits.legal⟩
  obtain ⟨ds, hds, hfilter⟩ := filter_delivered harrives fun f hf => (hframe f hf).2
  have hnone : ∀ key, ds.filter (fun d => d.identifier = key) = [] := by
    intro key
    rw [hfilter]
    by_cases hkey : t.identifier = key
    · rw [List.filter_eq_self.mpr fun f hf => decide_eq_true ((hframe f hf).1.trans hkey)]
      exact t.delivered_disturbed pos several h
    · rw [List.filter_eq_nil_iff.mpr fun f hf => ?_]
      · rfl
      · rw [(hframe f hf).1]
        exact decide_eq_true_iff.not.mpr hkey
  have hperm : ds.Perm [] := perm_of_filter hnone
  rw [hds, hperm.eq_nil]

end Link

end CanTransfer
