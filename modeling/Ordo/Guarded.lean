import Mathlib.Tactic.Common

/-!
# Runs whose steps are guarded

A run folds a step function over a list of events.  `Along` says of a run that something
holds at each of its steps, in the state before the step and of its event.

* `invariant_along` — an invariant that every guarded step keeps holds all along a run
  whose steps are guarded;
* `along_of_invariant`, `along_iff` — so what the invariant and the guard give at one step
  holds at every step;
* `throughout_iff` — what holds in every state is what holds at the start and after each
  step.
-/

namespace Ordo

namespace Guarded

variable {State Event : Type*} (step : State → Event → State)

/-- At each step of the run, `P` holds of the state before it and its event. -/
def Along (P : State → Event → Prop) (s : State) (es : List Event) : Prop :=
  ∀ pre e post, es = pre ++ e :: post → P (pre.foldl step s) e

variable {step} {P Q : State → Event → Prop} {Inv : State → Prop} {s : State} {e : Event}
  {es : List Event}

theorem along_nil : Along step P s [] := by
  intro pre e post hsplit
  simp at hsplit

theorem along_cons : Along step P s (e :: es) ↔ P s e ∧ Along step P (step s e) es := by
  constructor
  · intro h
    exact ⟨h [] e es rfl, fun pre e' post hsplit => h (e :: pre) e' post (by rw [hsplit]; rfl)⟩
  · rintro ⟨hfirst, hrest⟩ (_ | ⟨e', pre⟩) e'' post hsplit
    · obtain ⟨rfl, -⟩ := List.cons_eq_cons.mp hsplit
      exact hfirst
    · obtain ⟨rfl, hsplit'⟩ := List.cons_eq_cons.mp hsplit
      exact hrest pre e'' post hsplit'

theorem along_and :
    Along step (fun s e => P s e ∧ Q s e) s es ↔ Along step P s es ∧ Along step Q s es :=
  ⟨fun h => ⟨fun pre e post hsplit => (h pre e post hsplit).1,
    fun pre e post hsplit => (h pre e post hsplit).2⟩,
    fun h pre e post hsplit => ⟨h.1 pre e post hsplit, h.2 pre e post hsplit⟩⟩

/-- What holds at the start and after each step holds in every state. -/
theorem throughout_iff {R : State → Prop} :
    (∀ pre post, es = pre ++ post → R (pre.foldl step s)) ↔
      R s ∧ Along step (fun s e => R (step s e)) s es := by
  constructor
  · intro h
    refine ⟨h [] es rfl, fun pre e post hsplit => ?_⟩
    have hafter := h (pre ++ [e]) post (by rw [hsplit, List.append_assoc]; rfl)
    rwa [List.foldl_append] at hafter
  · rintro ⟨hstart, hsteps⟩ pre post hsplit
    rcases List.eq_nil_or_concat pre with rfl | ⟨before, e, rfl⟩
    · exact hstart
    · rw [List.concat_eq_append, List.foldl_append]
      exact hsteps before e post (by rw [hsplit, List.concat_eq_append, List.append_assoc]; rfl)

/-- An invariant that every guarded step keeps. -/
theorem invariant_along (hkeeps : ∀ s e, Inv s → P s e → Inv (step s e)) (hstart : Inv s)
    (hguard : Along step P s es) {pre post : List Event} (hsplit : es = pre ++ post) :
    Inv (pre.foldl step s) := by
  induction pre generalizing s es with
  | nil => exact hstart
  | cons e pre ih =>
      subst hsplit
      obtain ⟨hfirst, hrest⟩ := along_cons.mp hguard
      exact ih (hkeeps s e hstart hfirst) hrest rfl

/-- What the invariant and the guard give at one step, at every step. -/
theorem along_of_invariant (hkeeps : ∀ s e, Inv s → P s e → Inv (step s e))
    (hgives : ∀ s e, Inv s → P s e → Q s e) (hstart : Inv s) (hguard : Along step P s es) :
    Along step Q s es := fun pre e post hsplit =>
  hgives _ e (invariant_along hkeeps hstart hguard hsplit) (hguard pre e post hsplit)

/-- Where under the invariant two conditions say the same of a step at which a third holds,
they say the same of a run along which it holds. -/
theorem along_iff_of {F : State → Event → Prop} (hfact : Along step F s es)
    (hkeeps : ∀ s e, Inv s → F s e → P s e → Inv (step s e))
    (hsame : ∀ s e, Inv s → F s e → (Q s e ↔ P s e)) (hstart : Inv s) :
    Along step Q s es ↔ Along step P s es := by
  induction es generalizing s with
  | nil => exact iff_of_true along_nil along_nil
  | cons e es ih =>
      obtain ⟨hnow, hlater⟩ := along_cons.mp hfact
      rw [along_cons, along_cons]
      constructor
      · rintro ⟨hfirst, hrest⟩
        have hguard := (hsame s e hstart hnow).mp hfirst
        exact ⟨hguard, (ih hlater (hkeeps s e hstart hnow hguard)).mp hrest⟩
      · rintro ⟨hguard, hrest⟩
        exact ⟨(hsame s e hstart hnow).mpr hguard,
          (ih hlater (hkeeps s e hstart hnow hguard)).mpr hrest⟩

theorem along_iff (hkeeps : ∀ s e, Inv s → P s e → Inv (step s e))
    (hsame : ∀ s e, Inv s → (Q s e ↔ P s e)) (hstart : Inv s) :
    Along step Q s es ↔ Along step P s es := by
  have hfact : Along step (fun _ _ => True) s es := fun _ _ _ _ => trivial
  exact along_iff_of hfact (fun s e hinv _ => hkeeps s e hinv) (fun s e hinv _ => hsame s e hinv)
    hstart

end Guarded

end Ordo
