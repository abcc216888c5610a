import Mathlib.Data.List.Basic

/-!
# Answers handled in the order of the requests

Requests are made one after another, and each is answered at some time of its own.  An
answer is handled when the answers to all earlier requests have been.

* `issue`, `settle` and `ready` are the operations on the requests that are not handled.
* `requests_ready`: nothing is lost and nothing is handled out of order.
* `answeredBy_ready`: right answers are handled as right answers.
-/

namespace PromiseChain

variable {ι α : Type*}

/-- A request, and its answer once there is one. -/
structure Link (ι α : Type*) where
  request : ι
  answer : Option α := none

/-- The requests whose answers have not been handled, oldest first. -/
abbrev Chain (ι α : Type*) := List (Link ι α)

def requests (q : Chain ι α) : List ι := q.map (·.request)

def issue (q : Chain ι α) (request : ι) : Chain ι α := q ++ [⟨request, none⟩]

/-- A promise settles once. -/
def Link.settle (l : Link ι α) (a : α) : Link ι α := { l with answer := l.answer.or (some a) }

/-- The request at a position is answered. -/
def settle : Chain ι α → Nat → α → Chain ι α
  | [], _, _ => []
  | l :: q, 0, a => l.settle a :: q
  | l :: q, i + 1, a => l :: settle q i a

/-- What can be handled now, and what has to wait. -/
def ready : Chain ι α → List (ι × α) × Chain ι α
  | [] => ([], [])
  | l :: q =>
      match l.answer with
      | none => ([], l :: q)
      | some a => ((l.request, a) :: (ready q).1, (ready q).2)

/-- Every answer that has come is the right one. -/
def AnsweredBy (f : ι → α) (q : Chain ι α) : Prop :=
  ∀ l ∈ q, ∀ a, l.answer = some a → a = f l.request

section

variable {q : Chain ι α} {f : ι → α}

@[simp] theorem requests_nil : requests ([] : Chain ι α) = [] := rfl

@[simp] theorem requests_issue (q : Chain ι α) (request : ι) :
    requests (issue q request) = requests q ++ [request] := by
  simp [requests, issue]

@[simp] theorem requests_settle (q : Chain ι α) (i : Nat) (a : α) :
    requests (settle q i a) = requests q := by
  induction q generalizing i with
  | nil => rfl
  | cons l q ih =>
      cases i with
      | zero => rfl
      | succ i => exact congrArg (l.request :: ·) (ih i)

/-- **In order, and nothing lost**: what is handled and what waits are together what was
requested. -/
theorem requests_ready (q : Chain ι α) :
    (ready q).1.map Prod.fst ++ requests (ready q).2 = requests q := by
  induction q with
  | nil => rfl
  | cons l q ih =>
      unfold ready
      cases l.answer with
      | none => rfl
      | some a => exact congrArg (l.request :: ·) ih

theorem answeredBy_issue (h : AnsweredBy f q) (request : ι) :
    AnsweredBy f (issue q request) := by
  intro l hl a ha
  rcases List.mem_append.mp hl with hold | hnew
  · exact h l hold a ha
  · rw [List.mem_singleton.mp hnew] at ha
    cases ha

/-- A right answer keeps the answers right. -/
theorem answeredBy_settle (h : AnsweredBy f q) {i : Nat} {l : Link ι α} (hl : q[i]? = some l) :
    AnsweredBy f (settle q i (f l.request)) := by
  induction q generalizing i with
  | nil => nofun
  | cons l' q ih =>
      have htail : AnsweredBy f q := fun k hk => h k (List.mem_cons_of_mem _ hk)
      cases i with
      | zero =>
          obtain rfl : l' = l := by simpa using hl
          intro k hk a ha
          rcases List.mem_cons.mp hk with rfl | hk
          · cases hold : l'.answer with
            | none =>
                simp only [Link.settle, hold, Option.none_or, Option.some.injEq] at ha
                exact ha.symm
            | some b =>
                simp only [Link.settle, hold, Option.some_or, Option.some.injEq] at ha
                rw [← ha]
                exact h l' List.mem_cons_self b hold
          · exact htail k hk a ha
      | succ i =>
          have hl' : q[i]? = some l := by simpa using hl
          intro k hk a ha
          rcases List.mem_cons.mp hk with rfl | hk
          · exact h k List.mem_cons_self a ha
          · exact ih htail hl' k hk a ha

/-- What is handled has been answered rightly, and so has what waits. -/
theorem answeredBy_ready (h : AnsweredBy f q) :
    (∀ x ∈ (ready q).1, x.2 = f x.1) ∧ AnsweredBy f (ready q).2 := by
  induction q with
  | nil => exact ⟨nofun, nofun⟩
  | cons l q ih =>
      have htail : AnsweredBy f q := fun k hk => h k (List.mem_cons_of_mem _ hk)
      unfold ready
      cases ha : l.answer with
      | none => exact ⟨nofun, h⟩
      | some a =>
          refine ⟨fun x hx => ?_, (ih htail).2⟩
          rcases List.mem_cons.mp hx with rfl | hx
          · exact h l List.mem_cons_self a ha
          · exact (ih htail).1 x hx

end

end PromiseChain
