import Ordo.Reentrant.Code

/-!
# A contract among callers that come back

A `System` is a contract's entry points together with what outsiders can do
without them (`outside`) and what a called party does at once (`reply`).  While
a call is pending everybody else runs too: they act on their own and call back
in, nested as deep as they like.  `Act n` is one such action of nesting at most
`n`; a reverted call leaves no trace and so is no action at all.

Two rules carry every proof about a system.  `act_rel` is rely-guarantee: a
preorder that outsiders respect, and that every entry point respects when the
calls it makes do, is respected by every action.  `visible_invariant` is its
form for a property of states that must hold wherever anybody can look,
pending calls included.
-/

namespace Reentrant

open Relation

variable {σ Q A ε M : Type}

/-- A contract and its surroundings. -/
structure System (σ Q A ε M : Type) where
  /-- The code a message runs. -/
  entry : M → Prog σ Q A ε Unit
  /-- What others can do to the state without calling the contract. -/
  outside : σ → σ → Prop
  /-- What the callee of a query does to the state itself, and its answer. -/
  reply : σ → Q → σ → A → Prop

namespace System

variable (S : System σ Q A ε M)

/-- A call with others active (as `W` allows) before and after the callee's own
effect. -/
def around (W : σ → σ → Prop) (s : σ) (q : Q) (t : σ) (a : A) : Prop :=
  ∃ s₁ s₂, W s s₁ ∧ S.reply s₁ q s₂ a ∧ W s₂ t

/-- One action of somebody outside: a move of their own, or a call of the
contract that succeeds, during which others act nested one level less. -/
def Act : Nat → σ → σ → Prop
  | 0 => S.outside
  | n + 1 => fun s t => S.outside s t ∨
      ∃ m, Runs (S.around (ReflTransGen (Act n))) (S.entry m s) t ()

/-- One action, nested to any depth. -/
def Step (s t : σ) : Prop := ∃ n, S.Act n s t

/-- A run: actions one after the other. -/
def Reaches : σ → σ → Prop := ReflTransGen S.Step

/-- The states somebody outside the contract can look at: those between
actions, and those in which an entry point waits for an answer, however deep
the nesting and whether or not the call succeeds in the end. -/
inductive Visible (init : σ → Prop) : σ → Prop
  | start {s : σ} (h : init s) : Visible init s
  | act {s t : σ} (h : Visible init s) (hstep : S.Step s t) : Visible init t
  | inside {s t : σ} {q : Q} (h : Visible init s) (n : Nat) (m : M)
      (hpend : Pending (S.around (ReflTransGen (S.Act n))) (S.entry m s) t q) :
      Visible init t

variable {S}

/-- A run stays among the states anybody can look at. -/
theorem visible_of_reaches {init : σ → Prop} {s t : σ} (hs : init s)
    (h : S.Reaches s t) : S.Visible init t := by
  induction h with
  | refl => exact .start hs
  | tail _ hstep ih => exact .act ih hstep

theorem around_mono {W W' : σ → σ → Prop} (hW : ∀ s t, W s t → W' s t)
    {s t : σ} {q : Q} {a : A} (h : S.around W s q t a) : S.around W' s q t a := by
  obtain ⟨s₁, s₂, h₁, hr, h₂⟩ := h
  exact ⟨s₁, s₂, hW _ _ h₁, hr, hW _ _ h₂⟩

/-- The state after a message, when callees behave as `O` says and nobody else
acts; a reverted message changes nothing. -/
def exec (S : System σ Q A ε M) (O : σ → Q → σ × A) (m : M) (s : σ) : σ :=
  match (S.entry m s).eval O with
  | .ok (t, _) => t
  | .error _ => s

/-- What `exec` computes, the system can do. -/
theorem reaches_exec {O : σ → Q → σ × A}
    (hO : ∀ s q, S.reply s q (O s q).1 (O s q).2) (m : M) (s : σ) :
    S.Reaches s (S.exec O m s) := by
  unfold exec
  split
  · next t _ heval =>
      refine .single ⟨1, Or.inr ⟨m, ?_⟩⟩
      refine (runs_graph_iff.mpr heval).mono fun u q v a hcall => ?_
      have hreply := hO u q
      rw [hcall] at hreply
      exact ⟨u, v, .refl, hreply, .refl⟩
  · exact .refl

/-- The closure of a relation stays within a preorder that contains it. -/
theorem closure_rel {W R : σ → σ → Prop} (hrefl : ∀ s, R s s)
    (htrans : ∀ s t u, R s t → R t u → R s u) (hW : ∀ s t, W s t → R s t)
    {s t : σ} (h : ReflTransGen W s t) : R s t := by
  induction h with
  | refl => exact hrefl s
  | tail _ hstep ih => exact htrans _ _ _ ih (hW _ _ hstep)

section Rel

variable {R : σ → σ → Prop} (hrefl : ∀ s, R s s)
  (htrans : ∀ s t u, R s t → R t u → R s u)
  (hout : ∀ s t, S.outside s t → R s t)
  (hentry : ∀ m s, Sat (S.around R) (S.entry m s) fun t _ => R s t)

include hrefl htrans hout hentry

/-- **Rely-guarantee.**  If outsiders respect the preorder `R`, and every entry
point does when its calls do, then so does every action of any depth. -/
theorem act_rel (n : Nat) {s t : σ} (h : S.Act n s t) : R s t := by
  induction n generalizing s t with
  | zero => exact hout s t h
  | succ n ih =>
      rcases h with h | ⟨m, hrun⟩
      · exact hout s t h
      · refine hentry m s t () (hrun.mono fun u q v a hcall => ?_)
        exact around_mono (fun _ _ => closure_rel hrefl htrans fun _ _ => ih) hcall

theorem step_rel {s t : σ} (h : S.Step s t) : R s t := by
  obtain ⟨n, hn⟩ := h
  exact act_rel hrefl htrans hout hentry n hn

theorem reaches_rel {s t : σ} (h : S.Reaches s t) : R s t :=
  closure_rel hrefl htrans (fun _ _ => step_rel hrefl htrans hout hentry) h

end Rel

section Invariant

variable {I : σ → Prop} (hout : ∀ s t, S.outside s t → I s → I t)
  (hentry : ∀ m s, I s →
    Sat (S.around fun s t => I s → I t) (S.entry m s) fun t _ => I t)

include hout hentry

/-- A property every entry point keeps, given that calls keep it, holds after
every run. -/
theorem reaches_invariant {s t : σ} (h : S.Reaches s t) (hs : I s) : I t := by
  refine reaches_rel (R := fun s t => I s → I t) (fun _ h => h)
    (fun _ _ _ h₁ h₂ h => h₂ (h₁ h)) hout ?_ h hs
  intro m u v a hrun hu
  exact hentry m u hu v a hrun

/-- A property that also holds whenever an entry point waits for an answer
holds in every state anybody can look at. -/
theorem visible_invariant {init : σ → Prop} (hinit : ∀ s, init s → I s)
    (hguard : ∀ m s, I s → Guarded (S.around fun s t => I s → I t) I (S.entry m s))
    {s : σ} (h : S.Visible init s) : I s := by
  have hact : ∀ n s t, S.Act n s t → I s → I t := fun n s t h => by
    refine act_rel (R := fun s t => I s → I t) (fun _ h => h)
      (fun _ _ _ h₁ h₂ h => h₂ (h₁ h)) hout ?_ n h
    intro m u v a hrun hu
    exact hentry m u hu v a hrun
  induction h with
  | start h => exact hinit _ h
  | act _ hstep ih =>
      obtain ⟨n, hn⟩ := hstep
      exact hact n _ _ hn ih
  | @inside u v q _ n m hpend ih =>
      have hpend' : Pending (S.around fun s t => I s → I t) (S.entry m u) v q := by
        clear ih
        generalize S.entry m u = c at hpend
        induction hpend with
        | here s q k => exact .here s q k
        | later hcall _ ih =>
            refine .later (around_mono (fun _ _ => ?_) hcall) ih
            exact closure_rel (fun _ h => h) (fun _ _ _ h₁ h₂ h => h₂ (h₁ h))
              (hact n)
      exact hguard m _ ih _ _ hpend'

end Invariant

end System

end Reentrant
