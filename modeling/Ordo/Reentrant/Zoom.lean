import Ordo.Reentrant.Code

/-!
# A program over a part of the state

Code that several contracts share looks only at what it needs: the ledger, not
the storage of the contract it runs in.  A `Part` says how such a part sits in
a state, and `zoom` runs a program over the part inside the whole, where the
rest of the state may change under it whenever it calls out.

`Sat.zoom` proves a program once over its part and keeps, for the rest, any
preorder the surroundings keep; `eval_zoom` says that under an outside that
leaves the rest alone the program computes what it computes on the part.
-/

namespace Reentrant

variable {σ τ Q A ε ε' α β : Type}

/-- A part `σ` of a state `τ`. -/
structure Part (τ σ : Type) where
  get : τ → σ
  set : τ → σ → τ
  get_set : ∀ t s, get (set t s) = s
  set_get : ∀ t, set t (get t) = t
  set_set : ∀ t s s', set (set t s) s' = set t s'

attribute [simp] Part.get_set Part.set_get Part.set_set

/-- Run a program over a part inside the whole state `t`. -/
def Code.zoom (L : Part τ σ) (f : ε → ε') (t : τ) : Code σ Q A ε α → Code τ Q A ε' α
  | done s a => done (L.set t s) a
  | revert e => revert (f e)
  | call s q k => call (L.set t s) q fun u a => (k (L.get u) a).zoom L f u

/-- `Code.zoom` for programs. -/
def Prog.zoom (L : Part τ σ) (f : ε → ε') (p : Prog σ Q A ε α) : Prog τ Q A ε' α :=
  fun t => (p (L.get t)).zoom L f t

theorem Prog.zoom_apply (L : Part τ σ) (f : ε → ε') (p : Prog σ Q A ε α) (t : τ) :
    Prog.zoom L f p t = (p (L.get t)).zoom L f t := rfl

/-- The whole the outside answers in, when all it does is act on the part. -/
def Part.lift (L : Part τ σ) (O : σ → Q → σ × A) (t : τ) (q : Q) : τ × A :=
  (L.set t (O (L.get t) q).1, (O (L.get t) q).2)

section Equations

variable (L : Part τ σ) (f : ε → ε')

@[simp] theorem Code.zoom_done (s : σ) (a : α) (t : τ) :
    (Code.done s a : Code σ Q A ε α).zoom L f t = .done (L.set t s) a := rfl

@[simp] theorem Code.zoom_revert (e : ε) (t : τ) :
    (Code.revert e : Code σ Q A ε α).zoom L f t = .revert (f e) := rfl

@[simp] theorem Code.zoom_call (s : σ) (q : Q) (k : σ → A → Code σ Q A ε α) (t : τ) :
    (Code.call s q k).zoom L f t =
      .call (L.set t s) q fun u a => (k (L.get u) a).zoom L f u := rfl

/-- Where in the whole a program starts matters only for what is not the part. -/
theorem Code.zoom_set (c : Code σ Q A ε α) (t : τ) (s : σ) :
    c.zoom L f (L.set t s) = c.zoom L f t := by
  cases c <;> simp

theorem Code.zoom_bind (c : Code σ Q A ε α) (g : σ → α → Code σ Q A ε β) (t : τ) :
    (c.bind g).zoom L f t =
      (c.zoom L f t).bind fun u a => (g (L.get u) a).zoom L f u := by
  induction c generalizing t with
  | done s a => simp [Code.zoom_set]
  | revert e => rfl
  | call s q k ih => simp [ih]

variable (t : τ)

@[simp] theorem Prog.zoom_bind (p : Prog σ Q A ε α) (g : α → Prog σ Q A ε β) :
    Prog.zoom L f (p >>= g) t = (Prog.zoom L f p t).bind fun u a => Prog.zoom L f (g a) u :=
  Code.zoom_bind L f (p (L.get t)) (fun s a => g a s) t

@[simp] theorem Prog.zoom_pure (a : α) :
    Prog.zoom L f (pure a : Prog σ Q A ε α) t = .done t a := by
  simp [Prog.zoom]

@[simp] theorem Prog.zoom_read :
    Prog.zoom L f (Prog.read : Prog σ Q A ε σ) t = .done t (L.get t) := by
  simp [Prog.zoom]

@[simp] theorem Prog.zoom_write (g : σ → σ) :
    Prog.zoom L f (Prog.write g : Prog σ Q A ε Unit) t = .done (L.set t (g (L.get t))) () := by
  simp [Prog.zoom]

@[simp] theorem Prog.zoom_revert (e : ε) :
    Prog.zoom L f (Prog.revert e : Prog σ Q A ε α) t = .revert (f e) := rfl

@[simp] theorem Prog.zoom_require (c : Prop) [Decidable c] (e : ε) :
    Prog.zoom L f (Prog.require c e : Prog σ Q A ε Unit) t = Prog.require c (f e) t := by
  by_cases h : c <;> simp [Prog.zoom, h]

@[simp] theorem Prog.zoom_ofExcept (x : Except ε α) :
    Prog.zoom L f (Prog.ofExcept x : Prog σ Q A ε α) t = Prog.ofExcept (x.mapError f) t := by
  cases x <;> simp [Prog.zoom, Except.mapError]

@[simp] theorem Prog.zoom_ask (q : Q) :
    Prog.zoom L f (Prog.ask q : Prog σ Q A ε A) t = .call t q fun u a => .done u a := by
  simp [Prog.zoom]

@[simp] theorem Prog.zoom_ite (c : Prop) [Decidable c] (p q : Prog σ Q A ε α) :
    Prog.zoom L f (if c then p else q) t =
      if c then Prog.zoom L f p t else Prog.zoom L f q t := by
  split <;> rfl

end Equations

/-- Translating an error leaves success as it is. -/
@[simp] theorem mapError_eq_ok (x : Except ε α) (f : ε → ε') (a : α) :
    x.mapError f = .ok a ↔ x = .ok a := by
  cases x <;> simp [Except.mapError]

section Zoom

variable {L : Part τ σ} {f : ε → ε'} {E : τ → Q → τ → A → Prop}
  {F : σ → Q → σ → A → Prop} {K : τ → τ → Prop}

/-- **Zooming in.**  What holds of the program over its part holds inside the
whole, with any preorder `K` that writes to the part and calls both keep. -/
theorem Sat.zoom {c : Code σ Q A ε α} {post : σ → α → Prop} (h : Sat F c post)
    (hset : ∀ t s, K t (L.set t s)) (htrans : ∀ t u v, K t u → K u v → K t v)
    (hcall : ∀ t q u a, E t q u a → K t u ∧ F (L.get t) q (L.get u) a) (t : τ) :
    Sat E (c.zoom L f t) fun u a => K t u ∧ post (L.get u) a := by
  induction c generalizing t with
  | done s a =>
      have hpost := (sat_done s a post).mp h
      refine (sat_done _ _ _).mpr ⟨hset t s, ?_⟩
      simpa using hpost
  | revert e => exact (sat_revert _ _).mpr trivial
  | call s q k ih =>
      refine (sat_call _ _ _ _).mpr fun u a hE => ?_
      obtain ⟨hK, hF⟩ := hcall _ _ _ _ hE
      rw [L.get_set] at hF
      have hrest := ih _ _ ((sat_call _ _ _ _).mp h _ a hF) u
      refine hrest.mono fun v b hv => ⟨?_, hv.2⟩
      exact htrans _ _ _ (htrans _ _ _ (hset t s) hK) hv.1

/-- Zooming in without looking at the part. -/
theorem sat_zoom_keep (c : Code σ Q A ε α) (hset : ∀ t s, K t (L.set t s))
    (htrans : ∀ t u v, K t u → K u v → K t v)
    (hcall : ∀ t q u a, E t q u a → K t u) (t : τ) :
    Sat E (c.zoom L f t) fun u _ => K t u := by
  have htrue : Sat (fun _ _ _ _ => True) c fun _ _ => True := (sat_true c).mpr trivial
  refine (htrue.zoom hset htrans (fun t q u a h => ⟨hcall t q u a h, trivial⟩) t).mono ?_
  intro u a h
  exact h.1

theorem Code.eval_zoom (O : σ → Q → σ × A) (c : Code σ Q A ε α) (t : τ) :
    (c.zoom L f t).eval (L.lift O) = match c.eval O with
      | .ok (s, a) => .ok (L.set t s, a)
      | .error e => .error (f e) := by
  induction c generalizing t with
  | done s a => rfl
  | revert e => rfl
  | call s q k ih =>
      have h := ih (O s q).1 (O s q).2 (L.set t (O s q).1)
      simp only [Code.zoom_call, Code.eval_call, Part.lift, Part.get_set, Part.set_set] at h ⊢
      exact h

end Zoom

end Reentrant
