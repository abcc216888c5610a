import Mathlib.Logic.Relation
import Mathlib.Tactic.Common

/-!
# Programs that call out to code they do not know

A contract runs until it calls somebody else, and what happens during that
call is not its own to decide: the callee may come back in through any door
that is open.  `Code` is a program cut at exactly those points.  It ends,
reverts, or stops at a call with the state everybody can now see and a
continuation that takes whatever state and answer come back.

Nothing here says what a call may do.  `Runs E` reads the program under a
relation `E` between the state at a call and the state and answer after it,
and `eval O` under a function; the rules below reduce both to the parts the
program is built from.
-/

namespace Reentrant

/-- What a program does from here on. -/
inductive Code (σ Q A ε α : Type) : Type
  /-- It ends in state `s` with result `a`. -/
  | done (s : σ) (a : α)
  /-- It reverts: every effect since it was entered is undone. -/
  | revert (e : ε)
  /-- It asks `q` of the outside in state `s`. -/
  | call (s : σ) (q : Q) (k : σ → A → Code σ Q A ε α)

variable {σ Q A ε α β : Type}

namespace Code

/-- Run `c`, then go on with `f` from where it ended. -/
def bind : Code σ Q A ε α → (σ → α → Code σ Q A ε β) → Code σ Q A ε β
  | done s a, f => f s a
  | revert e, _ => revert e
  | call s q k, f => call s q fun t a => (k t a).bind f

/-- Run `c`, but answer a revert with its error from the state `s₀`, as a
`try` around a call does. -/
def attempt (s₀ : σ) : Code σ Q A ε α → Code σ Q A ε (Except ε α)
  | done s a => done s (.ok a)
  | revert e => done s₀ (.error e)
  | call s q k => call s q fun t a => (k t a).attempt s₀

/-- The program under a deterministic outside. -/
def eval (O : σ → Q → σ × A) : Code σ Q A ε α → Except ε (σ × α)
  | done s a => .ok (s, a)
  | revert e => .error e
  | call s q k => (k (O s q).1 (O s q).2).eval O

@[simp] theorem bind_done (s : σ) (a : α) (f : σ → α → Code σ Q A ε β) :
    (done s a).bind f = f s a := rfl

@[simp] theorem bind_revert (e : ε) (f : σ → α → Code σ Q A ε β) :
    (revert e).bind f = revert e := rfl

@[simp] theorem bind_call (s : σ) (q : Q) (k : σ → A → Code σ Q A ε α)
    (f : σ → α → Code σ Q A ε β) :
    (call s q k).bind f = call s q fun t a => (k t a).bind f := rfl

@[simp] theorem eval_done (O : σ → Q → σ × A) (s : σ) (a : α) :
    (done s a : Code σ Q A ε α).eval O = .ok (s, a) := rfl

@[simp] theorem eval_revert (O : σ → Q → σ × A) (e : ε) :
    (revert e : Code σ Q A ε α).eval O = .error e := rfl

@[simp] theorem eval_call (O : σ → Q → σ × A) (s : σ) (q : Q)
    (k : σ → A → Code σ Q A ε α) :
    (call s q k).eval O = (k (O s q).1 (O s q).2).eval O := rfl

/-- Evaluation goes through sequencing. -/
theorem eval_bind (O : σ → Q → σ × A) (c : Code σ Q A ε α)
    (f : σ → α → Code σ Q A ε β) :
    (c.bind f).eval O = (c.eval O).bind fun r => (f r.1 r.2).eval O := by
  induction c with
  | done s a => rfl
  | revert e => rfl
  | call s q k ih => exact ih _ _

/-- A `try` always comes to an end where the program under it does. -/
theorem eval_attempt (O : σ → Q → σ × A) (s₀ : σ) (c : Code σ Q A ε α) :
    (c.attempt s₀).eval O = match c.eval O with
      | .ok (t, a) => .ok (t, .ok a)
      | .error e => .ok (s₀, .error e) := by
  induction c with
  | done s a => rfl
  | revert e => rfl
  | call s q k ih => exact ih _ _

end Code

/-! ## Successful runs -/

/-- `Runs E c t a`: the program can end in `t` with `a` when every call does
something `E` allows. -/
inductive Runs (E : σ → Q → σ → A → Prop) : Code σ Q A ε α → σ → α → Prop
  | done (s : σ) (a : α) : Runs E (.done s a) s a
  | call {s : σ} {q : Q} {k : σ → A → Code σ Q A ε α} {t u : σ} {a : A} {b : α}
      (hcall : E s q t a) (hrest : Runs E (k t a) u b) : Runs E (.call s q k) u b

/-- Every successful run ends in `post`. -/
def Sat (E : σ → Q → σ → A → Prop) (c : Code σ Q A ε α) (post : σ → α → Prop) :
    Prop :=
  ∀ t a, Runs E c t a → post t a

/-- A run of a sequence is a run of its first part and one of the rest. -/
theorem runs_bind {E : σ → Q → σ → A → Prop} {c : Code σ Q A ε α}
    {f : σ → α → Code σ Q A ε β} {u : σ} {b : β} :
    Runs E (c.bind f) u b ↔ ∃ t a, Runs E c t a ∧ Runs E (f t a) u b := by
  constructor
  · intro h
    induction c with
    | done s a => exact ⟨s, a, .done s a, h⟩
    | revert e => cases h
    | call s q k ih =>
        cases h with
        | call hcall hrest =>
            obtain ⟨t, a, hc, hf⟩ := ih _ _ hrest
            exact ⟨t, a, .call hcall hc, hf⟩
  · rintro ⟨t, a, hc, hf⟩
    induction hc with
    | done s a => exact hf
    | call hcall _ ih => exact .call hcall (ih hf)

/-- More permissive surroundings allow more runs. -/
theorem Runs.mono {E F : σ → Q → σ → A → Prop} {c : Code σ Q A ε α} {t : σ} {a : α}
    (h : Runs E c t a) (hEF : ∀ s q t a, E s q t a → F s q t a) : Runs F c t a := by
  induction h with
  | done s a => exact .done s a
  | call hcall _ ih => exact .call (hEF _ _ _ _ hcall) ih

/-- The runs under a function are what evaluation finds. -/
theorem runs_graph_iff {O : σ → Q → σ × A} {c : Code σ Q A ε α} {t : σ} {a : α} :
    Runs (fun s q t a => O s q = (t, a)) c t a ↔ c.eval O = .ok (t, a) := by
  constructor
  · intro h
    induction h with
    | done s a => rfl
    | call hcall _ ih => rw [Code.eval_call, hcall]; exact ih
  · intro h
    induction c with
    | done s b =>
        cases h
        exact .done _ _
    | revert e => cases h
    | call s q k ih => exact .call rfl (ih _ _ h)

section Sat

variable {E : σ → Q → σ → A → Prop}

@[simp] theorem sat_done (s : σ) (a : α) (post : σ → α → Prop) :
    Sat E (.done s a : Code σ Q A ε α) post ↔ post s a := by
  constructor
  · intro h
    exact h s a (.done s a)
  · intro h t b hr
    cases hr
    exact h

@[simp] theorem sat_revert (e : ε) (post : σ → α → Prop) :
    Sat E (.revert e : Code σ Q A ε α) post ↔ True :=
  ⟨fun _ => trivial, fun _ t a h => by cases h⟩

@[simp] theorem sat_call (s : σ) (q : Q) (k : σ → A → Code σ Q A ε α)
    (post : σ → α → Prop) :
    Sat E (.call s q k) post ↔ ∀ t a, E s q t a → Sat E (k t a) post := by
  constructor
  · intro h t a hcall u b hr
    exact h u b (.call hcall hr)
  · intro h u b hr
    cases hr with
    | call hcall hrest => exact h _ _ hcall _ _ hrest

@[simp] theorem sat_bind (c : Code σ Q A ε α) (f : σ → α → Code σ Q A ε β)
    (post : σ → β → Prop) :
    Sat E (c.bind f) post ↔ Sat E c fun t a => Sat E (f t a) post := by
  constructor
  · intro h t a hc u b hf
    exact h u b (runs_bind.mpr ⟨t, a, hc, hf⟩)
  · intro h u b hr
    obtain ⟨t, a, hc, hf⟩ := runs_bind.mp hr
    exact h t a hc u b hf

@[simp] theorem sat_true (c : Code σ Q A ε α) : Sat E c (fun _ _ => True) ↔ True :=
  ⟨fun _ => trivial, fun _ _ _ _ => trivial⟩

/-- A weaker postcondition holds too. -/
theorem Sat.mono {c : Code σ Q A ε α} {post post' : σ → α → Prop}
    (h : Sat E c post) (hpost : ∀ t a, post t a → post' t a) : Sat E c post' :=
  fun t a hr => hpost t a (h t a hr)

/-- Two postconditions hold together. -/
theorem Sat.and {c : Code σ Q A ε α} {post post' : σ → α → Prop}
    (h : Sat E c post) (h' : Sat E c post') :
    Sat E c fun t a => post t a ∧ post' t a :=
  fun t a hr => ⟨h t a hr, h' t a hr⟩

/-- The sequence rule: what the first part establishes is what the rest may
assume. -/
theorem Sat.seq {c : Code σ Q A ε α} {f : σ → α → Code σ Q A ε β}
    {mid : σ → α → Prop} {post : σ → β → Prop}
    (h : Sat E c mid) (hf : ∀ t a, mid t a → Sat E (f t a) post) :
    Sat E (c.bind f) post :=
  (sat_bind c f post).mpr (h.mono hf)

/-- A `try` ends where its body ends, or back where it began. -/
theorem Sat.attempt {c : Code σ Q A ε α} {s₀ : σ} {post : σ → Except ε α → Prop}
    (hok : Sat E c fun t a => post t (.ok a)) (herr : ∀ e, post s₀ (.error e)) :
    Sat E (c.attempt s₀) post := by
  induction c with
  | done s a =>
      have hpost : post s (.ok a) := (sat_done s a fun t b => post t (.ok b)).mp hok
      exact (sat_done s (Except.ok a) post).mpr hpost
  | revert e => exact (sat_done _ _ _).mpr (herr e)
  | call s q k ih =>
      refine (sat_call _ _ _ _).mpr fun t a hcall => ih t a ?_
      exact (sat_call _ _ _ _).mp hok t a hcall

end Sat

/-! ## States seen from inside a call -/

/-- `Pending E c s q`: the program can get to the point where it has asked `q`
in state `s` and not been answered. -/
inductive Pending (E : σ → Q → σ → A → Prop) : Code σ Q A ε α → σ → Q → Prop
  | here (s : σ) (q : Q) (k : σ → A → Code σ Q A ε α) : Pending E (.call s q k) s q
  | later {s : σ} {q : Q} {k : σ → A → Code σ Q A ε α} {t : σ} {a : A} {u : σ} {r : Q}
      (hcall : E s q t a) (hrest : Pending E (k t a) u r) : Pending E (.call s q k) u r

/-- Every state in which the program waits for an answer satisfies `G`. -/
def Guarded (E : σ → Q → σ → A → Prop) (G : σ → Prop) (c : Code σ Q A ε α) : Prop :=
  ∀ s q, Pending E c s q → G s

section Guarded

variable {E : σ → Q → σ → A → Prop} {G : σ → Prop}

@[simp] theorem guarded_done (s : σ) (a : α) :
    Guarded E G (.done s a : Code σ Q A ε α) ↔ True :=
  ⟨fun _ => trivial, fun _ s q h => by cases h⟩

@[simp] theorem guarded_revert (e : ε) :
    Guarded E G (.revert e : Code σ Q A ε α) ↔ True :=
  ⟨fun _ => trivial, fun _ s q h => by cases h⟩

@[simp] theorem guarded_call (s : σ) (q : Q) (k : σ → A → Code σ Q A ε α) :
    Guarded E G (.call s q k) ↔ G s ∧ ∀ t a, E s q t a → Guarded E G (k t a) := by
  constructor
  · intro h
    exact ⟨h s q (.here s q k), fun t a hcall u r hp => h u r (.later hcall hp)⟩
  · rintro ⟨hs, hk⟩ u r hp
    cases hp with
    | here => exact hs
    | later hcall hrest => exact hk _ _ hcall _ _ hrest

/-- A sequence waits where its first part waits, or where the rest does after
the first part has ended. -/
@[simp] theorem guarded_bind (c : Code σ Q A ε α) (f : σ → α → Code σ Q A ε β) :
    Guarded E G (c.bind f) ↔
      Guarded E G c ∧ Sat E c fun t a => Guarded E G (f t a) := by
  induction c with
  | done s a => simp
  | revert e => simp
  | call s q k ih =>
      simp only [Code.bind_call, guarded_call, sat_call, ih]
      grind

end Guarded

/-! ## The monad programs are written in -/

/-- A program as a function of the state it starts in. -/
def Prog (σ Q A ε α : Type) : Type := σ → Code σ Q A ε α

namespace Prog

instance : Monad (Prog σ Q A ε) where
  pure a := fun s => .done s a
  bind p f := fun s => (p s).bind fun t a => f a t

/-- The state as it is now. -/
def read : Prog σ Q A ε σ := fun s => .done s s

/-- Change the state. -/
def write (f : σ → σ) : Prog σ Q A ε Unit := fun s => .done (f s) ()

/-- Give up. -/
def revert (e : ε) : Prog σ Q A ε α := fun _ => .revert e

/-- Go on only if `c` holds. -/
def require (c : Prop) [Decidable c] (e : ε) : Prog σ Q A ε Unit :=
  fun s => if c then .done s () else .revert e

/-- The value of a computation that has one. -/
def orRevert (o : Option α) (e : ε) : Prog σ Q A ε α :=
  fun s => match o with
    | some a => .done s a
    | none => .revert e

/-- The result of a computation that may fail. -/
def ofExcept (x : Except ε α) : Prog σ Q A ε α :=
  fun s => match x with
    | .ok a => .done s a
    | .error e => .revert e

/-- Call the outside. -/
def ask (q : Q) : Prog σ Q A ε A := fun s => .call s q fun t a => .done t a

/-- `try p`, undoing what `p` did if it reverts. -/
def attempt (p : Prog σ Q A ε α) : Prog σ Q A ε (Except ε α) :=
  fun s => (p s).attempt s

@[simp] theorem pure_apply (a : α) (s : σ) :
    (pure a : Prog σ Q A ε α) s = .done s a := rfl

@[simp] theorem bind_apply (p : Prog σ Q A ε α) (f : α → Prog σ Q A ε β) (s : σ) :
    (p >>= f) s = (p s).bind fun t a => f a t := rfl

@[simp] theorem read_apply (s : σ) : (read : Prog σ Q A ε σ) s = .done s s := rfl

@[simp] theorem write_apply (f : σ → σ) (s : σ) :
    (write f : Prog σ Q A ε Unit) s = .done (f s) () := rfl

@[simp] theorem revert_apply (e : ε) (s : σ) :
    (revert e : Prog σ Q A ε α) s = .revert e := rfl

@[simp] theorem ask_apply (q : Q) (s : σ) :
    (ask q : Prog σ Q A ε A) s = .call s q fun t a => .done t a := rfl

@[simp] theorem attempt_apply (p : Prog σ Q A ε α) (s : σ) :
    attempt p s = (p s).attempt s := rfl

theorem require_apply (c : Prop) [Decidable c] (e : ε) (s : σ) :
    (require c e : Prog σ Q A ε Unit) s = if c then .done s () else .revert e := rfl

@[simp] theorem require_of (c : Prop) [Decidable c] (e : ε) (s : σ) (h : c) :
    (require c e : Prog σ Q A ε Unit) s = .done s () := if_pos h

@[simp] theorem require_of_not (c : Prop) [Decidable c] (e : ε) (s : σ) (h : ¬ c) :
    (require c e : Prog σ Q A ε Unit) s = .revert e := if_neg h

@[simp] theorem orRevert_some (a : α) (e : ε) (s : σ) :
    (orRevert (some a) e : Prog σ Q A ε α) s = .done s a := rfl

@[simp] theorem orRevert_none (e : ε) (s : σ) :
    (orRevert none e : Prog σ Q A ε α) s = .revert e := rfl

@[simp] theorem ofExcept_ok (a : α) (s : σ) :
    (ofExcept (.ok a) : Prog σ Q A ε α) s = .done s a := rfl

@[simp] theorem ofExcept_error (e : ε) (s : σ) :
    (ofExcept (.error e) : Prog σ Q A ε α) s = .revert e := rfl

/-- Past a check, the check holds. -/
@[simp] theorem sat_require {E : σ → Q → σ → A → Prop} (c : Prop) [Decidable c]
    (e : ε) (s : σ) (post : σ → Unit → Prop) :
    Sat E ((require c e : Prog σ Q A ε Unit) s) post ↔ (c → post s ()) := by
  by_cases h : c <;> simp [h]

/-- Past a partial computation, it had a value. -/
@[simp] theorem sat_orRevert {E : σ → Q → σ → A → Prop} (o : Option α)
    (e : ε) (s : σ) (post : σ → α → Prop) :
    Sat E ((orRevert o e : Prog σ Q A ε α) s) post ↔ ∀ a, o = some a → post s a := by
  cases o <;> simp

/-- Past a computation that may fail, it succeeded. -/
@[simp] theorem sat_ofExcept {E : σ → Q → σ → A → Prop} (x : Except ε α) (s : σ)
    (post : σ → α → Prop) :
    Sat E ((ofExcept x : Prog σ Q A ε α) s) post ↔ ∀ a, x = .ok a → post s a := by
  cases x <;> simp

/-- A check makes no call. -/
@[simp] theorem guarded_require {E : σ → Q → σ → A → Prop} {G : σ → Prop}
    (c : Prop) [Decidable c] (e : ε) (s : σ) :
    Guarded E G ((require c e : Prog σ Q A ε Unit) s) ↔ True := by
  by_cases h : c <;> simp [h]

/-- A partial computation makes no call. -/
@[simp] theorem guarded_orRevert {E : σ → Q → σ → A → Prop} {G : σ → Prop}
    (o : Option α) (e : ε) (s : σ) :
    Guarded E G ((orRevert o e : Prog σ Q A ε α) s) ↔ True := by
  cases o <;> simp

/-- A branch of a program is the program of the branch. -/
@[simp] theorem ite_apply (c : Prop) [Decidable c] (p q : Prog σ Q A ε α) (s : σ) :
    (if c then p else q) s = if c then p s else q s := by
  split <;> rfl

end Prog

end Reentrant
