import Mathlib.Data.List.DropRight
import CanTransfer.Proofs.Layout
import CanTransfer.Proofs.Runs

/-!
# Frames on demand

A stream gives its frames one at a time, and can be begun again at any time. Whatever is asked of it
in between, it gives the frames of the list in order.

* `FrameStream.step_next` — a call gives the first frame of those to come, and leaves the others.
* `FrameStream.asked` — how many frames have been asked for since the last restart.
* `FrameStream.run_stream` — after any operations, the frames to come are all but those.
* `Transfer.run_frames` — each call gives the frame of the list at the number of calls before it;
  behind the end of the list it gives nothing.
-/

set_option autoImplicit false

namespace CanTransfer

namespace FrameStream

variable {s s' : FrameStream} {f : Frame}

/-! ## One call -/

theorem plan_of_next? (h : s.next? = some (f, s')) : s'.plan = s.plan := by
  unfold next? at h
  split at h
  · cases h
  · split at h
    all_goals
      cases h
      rfl

/-- A call gives the first frame of those to come and leaves the others; if there are none, it gives
nothing, and there are none afterwards. -/
theorem step_next (s : FrameStream) :
    (s.step .next).1 = s.toList.head? ∧ (s.step .next).2.toList = s.toList.tail ∧
      (s.step .next).2.plan = s.plan := by
  unfold step
  cases h : s.next? with
  | none =>
    have hnil := toList_of_next?_none h
    refine ⟨?_, ?_, rfl⟩
    · rw [hnil]
      rfl
    · show s.toList = s.toList.tail
      rw [hnil]
      rfl
  | some found =>
    obtain ⟨f, s'⟩ := found
    rw [toList_of_next? h]
    exact ⟨rfl, rfl, plan_of_next? h⟩

/-! ## Many operations -/

/-- How many frames have been asked for since the last restart, or from the beginning on if there
was none. -/
def asked (ops : List Op) : Nat := (ops.rtakeWhile (· == .next)).length

theorem asked_concat_next (ops : List Op) : asked (ops ++ [.next]) = asked ops + 1 := by
  rw [asked, List.rtakeWhile_concat_pos _ _ _ rfl, List.length_append]
  rfl

theorem asked_concat_restart (ops : List Op) : asked (ops ++ [.restart]) = 0 := by
  rw [asked, List.rtakeWhile_concat_neg _ _ _ (by decide)]
  rfl

theorem run_eq_runOf (s : FrameStream) (ops : List Op) : s.run ops = runOf step s ops := by
  induction ops generalizing s with
  | nil => rfl
  | cons op rest ih => simp only [run, runOf, ih]

/-- After any operations, the frames to come are those of the plan without as many as were asked for
since the last restart. -/
theorem run_stream (p : Plan) (ops : List Op) :
    (p.stream.run ops).2.plan = p ∧
      (p.stream.run ops).2.toList = p.stream.toList.drop (asked ops) := by
  induction ops using List.reverseRecOn with
  | nil => exact ⟨rfl, rfl⟩
  | append_singleton ops op ih =>
    obtain ⟨hplan, hlist⟩ := ih
    have hlast : (p.stream.run (ops ++ [op])).2 = ((p.stream.run ops).2.step op).2 := by
      rw [run_eq_runOf, run_eq_runOf, runOf_append]
      rfl
    rw [hlast]
    cases op with
    | next =>
      obtain ⟨-, htail, hsame⟩ := step_next (p.stream.run ops).2
      refine ⟨hsame.trans hplan, ?_⟩
      rw [htail, hlist, List.tail_drop, asked_concat_next]
    | restart =>
      have hrestart : ((p.stream.run ops).2.step .restart).2 = p.stream :=
        congrArg Plan.stream hplan
      rw [hrestart, asked_concat_restart]
      exact ⟨rfl, rfl⟩

/-- What a call gives, whatever was done before it and will be done behind it. -/
theorem run_getElem? (p : Plan) (before after : List Op) :
    (p.stream.run (before ++ .next :: after)).1[before.length]? =
      some p.stream.toList[asked before]? := by
  obtain ⟨hhead, -⟩ := step_next (p.stream.run before).2
  rw [run_eq_runOf, runOf_getElem?, ← run_eq_runOf, hhead, (run_stream p before).2,
    List.head?_drop]

end FrameStream

namespace Transfer

/-- **The frames can be taken one at a time and begun again.** There is at least one frame. Of any
operations on a stream, each call gives the frame of the list whose number is that of the calls
between it and the last restart; a call behind the last frame gives nothing. -/
theorem run_frames (t : Transfer) {capacity : Nat} (pos : 0 < capacity) :
    ∃ p frames, t.plan capacity = .ok p ∧ t.frames capacity = .ok frames ∧ frames ≠ [] ∧
      ∀ ops : List FrameStream.Op, (p.stream.run ops).1.length = ops.length ∧
        ∀ i, ops[i]? = some .next →
          (p.stream.run ops).1[i]? = some frames[FrameStream.asked (ops.take i)]? := by
  obtain ⟨p, hplan⟩ : ∃ p, t.plan capacity = .ok p := ⟨_, dif_pos pos⟩
  have hframes : t.frames capacity = .ok p.stream.toList := by
    rw [frames, hplan]
    rfl
  have hne : p.stream.toList ≠ [] := by
    obtain ⟨-, hlayout⟩ := (frames_eq_ok_iff t).mp hframes
    rw [hlayout]
    exact layout_ne_nil t capacity
  refine ⟨p, p.stream.toList, hplan, hframes, hne, ?_⟩
  intro ops
  refine ⟨by rw [FrameStream.run_eq_runOf, length_runOf], ?_⟩
  intro i hi
  obtain ⟨hlt, hop⟩ := List.getElem?_eq_some_iff.mp hi
  have hsplit : ops = ops.take i ++ .next :: ops.drop (i + 1) := by
    rw [← hop, List.getElem_cons_drop, List.take_append_drop]
  have hlength : (ops.take i).length = i := List.length_take_of_le (Nat.le_of_lt hlt)
  have hanswer := FrameStream.run_getElem? p (ops.take i) (ops.drop (i + 1))
  rwa [← hsplit, hlength] at hanswer

/-- A transfer of two frames, begun again after the first one and then taken to its end and beyond. -/
theorem run_frames_restarted :
    0 < 7 ∧ ∃ p frames,
      Transfer.plan ⟨0x123, 35, [[1, 2, 3], [], [4, 5, 6, 7, 8]], false⟩ 7 = .ok p ∧
      Transfer.frames ⟨0x123, 35, [[1, 2, 3], [], [4, 5, 6, 7, 8]], false⟩ 7 = .ok frames ∧
      frames ≠ [] ∧
      (p.stream.run [.next, .restart, .next, .next, .next]).1.length = 5 ∧
      (p.stream.run [.next, .restart, .next, .next, .next]).1[0]? = some frames[0]? ∧
      (p.stream.run [.next, .restart, .next, .next, .next]).1[2]? = some frames[0]? ∧
      (p.stream.run [.next, .restart, .next, .next, .next]).1[3]? = some frames[1]? ∧
      (p.stream.run [.next, .restart, .next, .next, .next]).1[4]? = some none := by
  obtain ⟨p, frames, hplan, hframes, hne, hrun⟩ := run_frames
    ⟨0x123, 35, [[1, 2, 3], [], [4, 5, 6, 7, 8]], false⟩ (by decide : 0 < 7)
  obtain ⟨hlength, hcalls⟩ := hrun [.next, .restart, .next, .next, .next]
  have hend : frames[2]? = none := by
    obtain ⟨-, rfl⟩ := (frames_eq_ok_iff _).mp hframes
    decide +kernel
  exact ⟨by decide, p, frames, hplan, hframes, hne, hlength, hcalls 0 rfl, hcalls 2 rfl,
    hcalls 3 rfl, (hcalls 4 rfl).trans (congrArg some hend)⟩

end Transfer

end CanTransfer
