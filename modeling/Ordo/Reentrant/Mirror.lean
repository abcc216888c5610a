import Ordo.Reentrant.Zoom

/-!
# Two runs side by side

When two programs run under the same deterministic outside, from states that
differ in something the outside does not look at, one often does whatever the
other does.  `Mirrors O R c d` says so: every successful run of `d` is one of
`c`, with the same result, and it ends in states that `R` relates.  Reverts are
not mirrored.

The rules follow the parts of a program, as those of `Sat` do.  At the end, the
same for one run and how it can fail: `Reverts O F c`.
-/

namespace Reentrant

variable {σ τ Q A ε ε' α β : Type}

/-- Whatever `d` does successfully, `c` does too. -/
def Mirrors (O : σ → Q → σ × A) (R : σ → σ → Prop) (c d : Code σ Q A ε α) : Prop :=
  ∀ t a, d.eval O = .ok (t, a) → ∃ s, c.eval O = .ok (s, a) ∧ R s t

/-- What holds of every run under a deterministic outside holds of what
evaluation finds. -/
theorem Sat.eval {O : σ → Q → σ × A} {c : Code σ Q A ε α} {post : σ → α → Prop}
    (h : Sat (fun s q t a => O s q = (t, a)) c post) {t : σ} {a : α}
    (heval : c.eval O = .ok (t, a)) : post t a :=
  h t a (runs_graph_iff.mpr heval)

/-- What holds of every run under a relation holds of what evaluation finds under
a function of that relation. -/
theorem Sat.eval_of {O : σ → Q → σ × A} {E : σ → Q → σ → A → Prop}
    {c : Code σ Q A ε α} {post : σ → α → Prop} (h : Sat E c post)
    (hO : ∀ s q, E s q (O s q).1 (O s q).2) {t : σ} {a : α} (heval : c.eval O = .ok (t, a)) :
    post t a := by
  refine h t a ((runs_graph_iff.mpr heval).mono ?_)
  intro s q u b hcall
  have hanswer := hO s q
  rw [hcall] at hanswer
  exact hanswer

/-- The same for every run under the function. -/
theorem Sat.graph {O : σ → Q → σ × A} {E : σ → Q → σ → A → Prop} {c : Code σ Q A ε α}
    {post : σ → α → Prop} (h : Sat E c post) (hO : ∀ s q, E s q (O s q).1 (O s q).2) :
    Sat (fun s q t a => O s q = (t, a)) c post :=
  fun _ _ hrun => h.eval_of hO (runs_graph_iff.mp hrun)

/-- A run that is known to end is what evaluation finds. -/
theorem sat_eval (O : σ → Q → σ × A) (c : Code σ Q A ε α) :
    Sat (fun s q t a => O s q = (t, a)) c fun t a => c.eval O = .ok (t, a) :=
  fun _ _ hrun => runs_graph_iff.mp hrun

/-- Part of what an evaluation finds is enough to know that it ends. -/
theorem map_eq_ok {x : Except ε α} {f : α → β} {b : β} :
    x.map f = .ok b ↔ ∃ a, x = .ok a ∧ f a = b := by
  cases x <;> simp [Except.map]

theorem map_eq_error {x : Except ε α} {f : α → β} {e : ε} (h : x.map f = .error e) :
    x = .error e := by
  cases x with
  | error e' => exact congrArg Except.error (Except.error.inj h)
  | ok a => cases h

/-- A check that is passed holds, and changes nothing. -/
theorem eval_require_eq_ok {O : σ → Q → σ × A} {p : Prop} [Decidable p] {e : ε} {s t : σ}
    {a : Unit} :
    ((Prog.require p e : Prog σ Q A ε Unit) s).eval O = .ok (t, a) ↔ p ∧ t = s := by
  by_cases hp : p <;> simp [hp, eq_comm]

/-- A partial computation that is passed had a value, and changes nothing. -/
theorem eval_orRevert_eq_ok {O : σ → Q → σ × A} {o : Option α} {e : ε} {s t : σ} {a : α} :
    ((Prog.orRevert o e : Prog σ Q A ε α) s).eval O = .ok (t, a) ↔ o = some a ∧ t = s := by
  cases o <;> simp [eq_comm, and_comm]

section Rules

variable {O : σ → Q → σ × A} {R R' : σ → σ → Prop} {s t : σ}

theorem mirrors_done (a : α) (h : R s t) :
    Mirrors O R (.done s a : Code σ Q A ε α) (.done t a) := by
  intro u b heval
  cases heval
  exact ⟨s, rfl, h⟩

theorem mirrors_revert (c : Code σ Q A ε α) (e : ε) : Mirrors O R c (.revert e) :=
  fun _ _ heval => by cases heval

/-- A call answered the same way on both sides. -/
theorem mirrors_call {q : Q} {k k' : σ → A → Code σ Q A ε α}
    (hanswer : (O s q).2 = (O t q).2)
    (h : Mirrors O R (k (O s q).1 (O t q).2) (k' (O t q).1 (O t q).2)) :
    Mirrors O R (.call s q k) (.call t q k') := by
  intro u a heval
  rw [Code.eval_call, hanswer]
  exact h u a heval

/-- The sequence rule. -/
theorem Mirrors.bind {c d : Code σ Q A ε α} {f g : σ → α → Code σ Q A ε β}
    (h : Mirrors O R c d) (hf : ∀ s t a, R s t → Mirrors O R' (f s a) (g t a)) :
    Mirrors O R' (c.bind f) (d.bind g) := by
  intro u b heval
  rw [Code.eval_bind] at heval
  cases hd : d.eval O with
  | error e =>
      rw [hd] at heval
      cases heval
  | ok r =>
      rw [hd] at heval
      obtain ⟨s, hc, hR⟩ := h r.1 r.2 hd
      obtain ⟨s', hs', hR'⟩ := hf s r.1 r.2 hR u b heval
      refine ⟨s', ?_, hR'⟩
      rw [Code.eval_bind, hc]
      exact hs'

theorem mirrors_ask {q : Q} (hanswer : (O s q).2 = (O t q).2) (h : R (O s q).1 (O t q).1) :
    Mirrors O R ((Prog.ask q : Prog σ Q A ε A) s) (Prog.ask q t) :=
  mirrors_call hanswer (mirrors_done _ h)

/-- A check that holds here if it holds there. -/
theorem mirrors_require {p p' : Prop} [Decidable p] [Decidable p'] {e e' : ε} (h : R s t)
    (himp : p' → p) :
    Mirrors O R ((Prog.require p e : Prog σ Q A ε Unit) s) (Prog.require p' e' t) := by
  by_cases hp : p'
  · rw [Prog.require_of _ _ _ hp, Prog.require_of _ _ _ (himp hp)]
    exact mirrors_done _ h
  · rw [Prog.require_of_not _ _ _ hp]
    exact mirrors_revert _ _

theorem mirrors_orRevert {o : Option α} {e : ε} (h : R s t) :
    Mirrors O R ((Prog.orRevert o e : Prog σ Q A ε α) s) (Prog.orRevert o e t) := by
  cases o with
  | none => exact mirrors_revert _ _
  | some a => exact mirrors_done a h

theorem mirrors_ofExcept {x : Except ε α} (h : R s t) :
    Mirrors O R ((Prog.ofExcept x : Prog σ Q A ε α) s) (Prog.ofExcept x t) := by
  cases x with
  | error e => exact mirrors_revert _ _
  | ok a => exact mirrors_done a h

end Rules

/-! ## One program from related states -/

/-- From related states the program does the same, and leaves them related. -/
def Steady (O : σ → Q → σ × A) (R : σ → σ → Prop) (p : Prog σ Q A ε α) : Prop :=
  ∀ s t, R s t → Mirrors O R (p s) (p t)

section Steady

variable {O : σ → Q → σ × A} {R : σ → σ → Prop}

theorem steady_pure (a : α) : Steady O R (pure a : Prog σ Q A ε α) :=
  fun _ _ h => mirrors_done a h

theorem steady_revert (e : ε) : Steady O R (Prog.revert e : Prog σ Q A ε α) :=
  fun _ _ _ => mirrors_revert _ _

theorem Steady.bind {p : Prog σ Q A ε α} {f : α → Prog σ Q A ε β} (hp : Steady O R p)
    (hf : ∀ a, Steady O R (f a)) : Steady O R (p >>= f) :=
  fun s t h => (hp s t h).bind fun s' t' a h' => hf a s' t' h'

theorem steady_require (c : Prop) [Decidable c] (e : ε) :
    Steady O R (Prog.require c e : Prog σ Q A ε Unit) :=
  fun _ _ h => mirrors_require h id

theorem steady_orRevert (o : Option α) (e : ε) :
    Steady O R (Prog.orRevert o e : Prog σ Q A ε α) :=
  fun _ _ h => mirrors_orRevert h

theorem steady_ofExcept (x : Except ε α) :
    Steady O R (Prog.ofExcept x : Prog σ Q A ε α) :=
  fun _ _ h => mirrors_ofExcept h

/-- A write that keeps the relation, behind a check on the state. -/
theorem steady_guarded {check : σ → Prop} [DecidablePred check] {e : ε} {f : σ → σ}
    (h : ∀ s t, R s t → check t → check s ∧ R (f s) (f t)) :
    Steady O R (Prog.read >>= fun s => Prog.require (check s) e >>= fun _ =>
      (Prog.write f : Prog σ Q A ε Unit)) := by
  intro s t hR u a heval
  by_cases hcheck : check t
  · have hboth := h s t hR hcheck
    simp only [Prog.bind_apply, Prog.read_apply, Code.bind_done, Prog.require_of _ _ _ hcheck,
      Prog.write_apply, Code.eval_done, Except.ok.injEq, Prod.mk.injEq] at heval
    obtain ⟨rfl, -⟩ := heval
    refine ⟨f s, ?_, hboth.2⟩
    simp [Prog.require_of _ _ _ hboth.1]
  · simp [Prog.require_of_not _ _ _ hcheck] at heval

/-- A check on the state before anything else. -/
theorem steady_checked {check : σ → Prop} [DecidablePred check] {e : ε}
    {p : Prog σ Q A ε α} (h : ∀ s t, R s t → check t → check s) (hp : Steady O R p) :
    Steady O R (Prog.read >>= fun s => Prog.require (check s) e >>= fun _ => p) := by
  intro s t hR
  have hcheck : Mirrors O R ((Prog.require (check s) e : Prog σ Q A ε Unit) s)
      (Prog.require (check t) e t) := mirrors_require hR (h s t hR)
  exact hcheck.bind fun s' t' _ hR' => hp s' t' hR'

end Steady

/-- Two states whose parts are related and which are otherwise the same. -/
def Part.Related (L : Part τ σ) (R : σ → σ → Prop) (s t : τ) : Prop :=
  R (L.get s) (L.get t) ∧ L.set s (L.get t) = t

/-- Code over a part mirrors other code inside the whole as it does on the
part. -/
theorem Mirrors.zoom {L : Part τ σ} {f : ε → ε'} {O : σ → Q → σ × A} {R : σ → σ → Prop}
    {c d : Code σ Q A ε α} (h : Mirrors O R c d) {s t : τ} (hrest : L.set s (L.get t) = t) :
    Mirrors (L.lift O) (L.Related R) (c.zoom L f s) (d.zoom L f t) := by
  intro u a heval
  rw [Code.eval_zoom] at heval
  cases hd : d.eval O with
  | error e =>
      rw [hd] at heval
      cases heval
  | ok r =>
      rw [hd] at heval
      cases heval
      obtain ⟨v, hc, hR⟩ := h r.1 r.2 hd
      refine ⟨L.set s v, ?_, ?_⟩
      · rw [Code.eval_zoom, hc]
      · refine ⟨by simpa using hR, ?_⟩
        rw [L.get_set, L.set_set]
        calc L.set s r.1 = L.set (L.set s (L.get t)) r.1 := (L.set_set _ _ _).symm
          _ = L.set t r.1 := by rw [hrest]

/-- Code over a part does the same inside any two wholes that have that part. -/
theorem steady_zoom_same {L : Part τ σ} {f : ε → ε'} {O : σ → Q → σ × A} {R : τ → τ → Prop}
    {p : Prog σ Q A ε α} (hget : ∀ s t, R s t → L.get s = L.get t)
    (hset : ∀ s t v, R s t → R (L.set s v) (L.set t v)) :
    Steady (L.lift O) R (Prog.zoom L f p) := by
  intro s t hR u a heval
  rw [Prog.zoom_apply, Code.eval_zoom] at heval ⊢
  rw [hget s t hR]
  cases hp : (p (L.get t)).eval O with
  | error e =>
      rw [hp] at heval
      cases heval
  | ok r =>
      rw [hp] at heval
      cases heval
      exact ⟨L.set s r.1, rfl, hset _ _ _ hR⟩

theorem Steady.zoom {L : Part τ σ} {f : ε → ε'} {O : σ → Q → σ × A} {R : σ → σ → Prop}
    {p : Prog σ Q A ε α} (h : Steady O R p) :
    Steady (L.lift O) (L.Related R) (Prog.zoom L f p) :=
  fun s t hrel => (h (L.get s) (L.get t) hrel.1).zoom hrel.2

/-! ## Reverts -/

/-- Every revert the program can end in under `O` is one of `F`. -/
def Reverts (O : σ → Q → σ × A) (F : ε → Prop) (c : Code σ Q A ε α) : Prop :=
  ∀ e, c.eval O = .error e → F e

section Reverts

variable {O : σ → Q → σ × A} {F : ε → Prop}

theorem reverts_done (s : σ) (a : α) : Reverts O F (.done s a : Code σ Q A ε α) :=
  fun _ h => by cases h

theorem reverts_revert {e : ε} (h : F e) : Reverts O F (.revert e : Code σ Q A ε α) := by
  intro e' heval
  cases heval
  exact h

/-- The sequence rule: the rest may assume how the first part ended. -/
theorem Reverts.bind {c : Code σ Q A ε α} {f : σ → α → Code σ Q A ε β}
    (h : Reverts O F c) (hf : ∀ t a, c.eval O = .ok (t, a) → Reverts O F (f t a)) :
    Reverts O F (c.bind f) := by
  intro e heval
  rw [Code.eval_bind] at heval
  cases hc : c.eval O with
  | error e' =>
      rw [hc] at heval
      cases heval
      exact h e hc
  | ok r =>
      rw [hc] at heval
      exact hf r.1 r.2 hc e heval

theorem reverts_require {p : Prop} [Decidable p] {e : ε} (s : σ) (h : ¬ p → F e) :
    Reverts O F ((Prog.require p e : Prog σ Q A ε Unit) s) := by
  by_cases hp : p
  · rw [Prog.require_of _ _ _ hp]
    exact reverts_done _ _
  · rw [Prog.require_of_not _ _ _ hp]
    exact reverts_revert (h hp)

theorem reverts_orRevert {o : Option α} {e : ε} (s : σ) (h : o = none → F e) :
    Reverts O F ((Prog.orRevert o e : Prog σ Q A ε α) s) := by
  cases o with
  | none => exact reverts_revert (h rfl)
  | some a => exact reverts_done _ _

theorem reverts_ofExcept {x : Except ε α} (s : σ) (h : ∀ e, x = .error e → F e) :
    Reverts O F ((Prog.ofExcept x : Prog σ Q A ε α) s) := by
  cases x with
  | error e => exact reverts_revert (h e rfl)
  | ok a => exact reverts_done _ _

theorem Reverts.mono {F' : ε → Prop} {c : Code σ Q A ε α} (h : Reverts O F c)
    (hF : ∀ e, F e → F' e) : Reverts O F' c :=
  fun e heval => hF e (h e heval)

/-- Code over a part reverts with a translated error. -/
theorem reverts_zoom {L : Part τ σ} {f : ε → ε'} {F : ε' → Prop} {p : Prog σ Q A ε α}
    (h : ∀ e, F (f e)) (t : τ) : Reverts (L.lift O) F (Prog.zoom L f p t) := by
  intro e heval
  rw [Prog.zoom_apply, Code.eval_zoom] at heval
  cases hp : (p (L.get t)).eval O with
  | error e' =>
      rw [hp] at heval
      cases heval
      exact h e'
  | ok r =>
      rw [hp] at heval
      cases heval

end Reverts

end Reentrant
