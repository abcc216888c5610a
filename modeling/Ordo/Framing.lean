import Mathlib.Data.List.Basic
import Mathlib.Data.List.Infix
import Mathlib.Tactic.Common

/-!
# Frames with their length in front

A stream of frames, each behind a header of fixed size that says how long it is.  `frames`
takes them off the front and stops at the first that is empty or not there in full.

* `frames_flatMap` — frames that are written so are read back;
* `frames_prefix` — of the front of a stream, whatever its headers say, the first frames
  are read.
-/

namespace Ordo

namespace Framing

variable {α : Type*} (k : Nat) (size : List α → Nat)

/-- A frame is there in full at the front of a stream whose headers have `k` symbols. -/
def Full (stream : List α) : Prop :=
  k ≤ stream.length ∧ 0 < size (stream.take k) ∧ size (stream.take k) ≤ (stream.drop k).length

instance (stream : List α) : Decidable (Full k size stream) :=
  inferInstanceAs (Decidable (_ ∧ _ ∧ _))

/-- The frames at the front of a stream. -/
def frames (stream : List α) : List (List α) :=
  if _hfull : Full k size stream then
    (stream.drop k).take (size (stream.take k)) ::
      frames ((stream.drop k).drop (size (stream.take k)))
  else []
termination_by stream.length
decreasing_by
  obtain ⟨hroom, hsome, hfits⟩ := _hfull
  simp only [List.length_drop] at *
  omega

variable {k size} {stream stream' header frame rest : List α}

theorem frames_of_full (h : Full k size stream) :
    frames k size stream =
      (stream.drop k).take (size (stream.take k)) ::
        frames k size ((stream.drop k).drop (size (stream.take k))) := by
  rw [Framing.frames, dif_pos h]

theorem frames_of_not_full (h : ¬ Full k size stream) : frames k size stream = [] := by
  rw [Framing.frames, dif_neg h]

theorem not_full_of_short (h : stream.length < k) : ¬ Full k size stream :=
  fun hfull => absurd hfull.1 (not_le.mpr h)

/-- A frame that is there in full. -/
theorem frames_cons (hheader : header.length = k) (hsize : size header = frame.length)
    (hframe : frame ≠ []) :
    frames k size (header ++ (frame ++ rest)) = frame :: frames k size rest := by
  have htake : (header ++ (frame ++ rest)).take k = header := List.take_left' hheader
  have hdrop : (header ++ (frame ++ rest)).drop k = frame ++ rest := List.drop_left' hheader
  have hfull : Full k size (header ++ (frame ++ rest)) := by
    rw [Full, htake, hdrop, hsize, List.length_append, hheader, List.length_append]
    exact ⟨Nat.le_add_right _ _, List.length_pos_iff.mpr hframe, Nat.le_add_right _ _⟩
  rw [frames_of_full hfull, htake, hdrop, hsize, List.take_left' rfl, List.drop_left' rfl]

/-- **What is written is read back.** -/
theorem frames_flatMap {head : List α → List α} {fs : List (List α)}
    (hhead : ∀ f ∈ fs, (head f).length = k ∧ size (head f) = f.length)
    (hframes : ∀ f ∈ fs, f ≠ []) (hk : 0 < k) :
    frames k size (fs.flatMap fun f => head f ++ f) = fs := by
  induction fs with
  | nil => exact frames_of_not_full (not_full_of_short hk)
  | cons f fs ih =>
      obtain ⟨hlength, hsize⟩ := hhead f List.mem_cons_self
      rw [List.flatMap_cons, List.append_assoc,
        frames_cons hlength hsize (hframes f List.mem_cons_self),
        ih (fun g hg => hhead g (List.mem_cons_of_mem _ hg))
          (fun g hg => hframes g (List.mem_cons_of_mem _ hg))]

/-- What is in full at the front of a stream is so in one that goes on. -/
theorem Full.append (h : Full k size stream) (more : List α) :
    Full k size (stream ++ more) ∧ (stream ++ more).take k = stream.take k ∧
      (stream ++ more).drop k = stream.drop k ++ more := by
  obtain ⟨hroom, hsome, hfits⟩ := h
  have htake : (stream ++ more).take k = stream.take k := List.take_append_of_le_length hroom
  have hdrop : (stream ++ more).drop k = stream.drop k ++ more :=
    List.drop_append_of_le_length hroom
  refine ⟨?_, htake, hdrop⟩
  rw [Full, htake, hdrop, List.length_append, List.length_append]
  exact ⟨hroom.trans (Nat.le_add_right _ _), hsome, hfits.trans (Nat.le_add_right _ _)⟩

/-- **The front of a stream.** -/
theorem frames_prefix (h : stream <+: stream') :
    frames k size stream <+: frames k size stream' := by
  obtain ⟨more, rfl⟩ := h
  fun_induction frames k size stream with
  | case1 stream hfull ih =>
      obtain ⟨hfull', htake, hdrop⟩ := hfull.append more
      rw [frames_of_full hfull', htake, hdrop, List.take_append_of_le_length hfull.2.2,
        List.drop_append_of_le_length hfull.2.2]
      exact (List.prefix_cons_inj _).mpr ih
  | case2 stream hnot => exact List.nil_prefix

end Framing

end Ordo
