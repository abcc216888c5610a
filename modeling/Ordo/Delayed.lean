import Mathlib.Algebra.GroupWithZero.Nat
import Mathlib.Algebra.Ring.Int.Defs
import Mathlib.Tactic.Common

/-!
# An account that can be charged now and emptied later

An account holds an amount that somebody may charge at any time and that its
owner may take back only after asking and waiting.  One slot remembers the
latest request: what was asked for, and when it may be paid.  A new request
replaces the old one, paying empties the slot, and charges come out of what is
held without looking at the slot.

Two facts are proved about every history of such an account: what is held is
what came in less what was charged and paid out (`run_balance`), and what was
free at one time cannot leave within the delay except through charges
(`free_stays`).
-/

namespace Delayed

/-- An account with one pending request. -/
structure Account where
  /-- What may be charged. -/
  held : Nat
  /-- What was last asked back. -/
  leaving : Nat
  /-- When that may be paid. -/
  readyAt : Nat
  deriving DecidableEq, Repr

/-- What happens to an account. -/
inductive Move where
  | deposit (amount : Nat)
  | charge (amount : Nat)
  | request (amount : Nat) (time : Nat)
  | cancel
  | pay (amount : Nat) (time : Nat)
  deriving DecidableEq, Repr

/-- What nobody has asked back. -/
def Account.free (a : Account) : Nat := a.held - a.leaving

/-- What a payment of the pending request takes out: the request, or what is
left of what it was for. -/
def Account.due (a : Account) : Nat := min a.leaving a.held

/-- The free part and the part on its way out are all there is. -/
theorem Account.free_add_due (a : Account) : a.free + a.due = a.held := by
  unfold Account.free Account.due
  omega

/-- One move, if the account allows it. -/
def apply (delay : Nat) (a : Account) : Move → Option Account
  | .deposit v => some { a with held := a.held + v }
  | .charge v => if v ≤ a.held then some { a with held := a.held - v } else none
  | .request v time =>
      if v ≤ a.held then some { a with leaving := v, readyAt := time + delay } else none
  | .cancel => some { a with leaving := 0, readyAt := 0 }
  | .pay v time =>
      if v = a.due ∧ a.readyAt ≤ time then
        some { held := a.held - v, leaving := 0, readyAt := 0 }
      else none

/-- A history of moves, if the account allows them all. -/
def run (delay : Nat) : Account → List Move → Option Account
  | a, [] => some a
  | a, m :: ms => (apply delay a m).bind fun b => run delay b ms

@[simp] theorem run_nil (delay : Nat) (a : Account) : run delay a [] = some a := rfl

theorem run_cons {delay : Nat} {a c : Account} {m : Move} {ms : List Move} :
    run delay a (m :: ms) = some c ↔
      ∃ b, apply delay a m = some b ∧ run delay b ms = some c :=
  Option.bind_eq_some_iff

/-- Histories compose. -/
theorem run_append {delay : Nat} {a b c : Account} {ms ns : List Move}
    (h₁ : run delay a ms = some b) (h₂ : run delay b ns = some c) :
    run delay a (ms ++ ns) = some c := by
  induction ms generalizing a with
  | nil =>
      cases h₁
      exact h₂
  | cons m ms ih =>
      obtain ⟨d, hd, hrest⟩ := run_cons.mp h₁
      exact run_cons.mpr ⟨d, hd, ih hrest⟩

/-- What a move pays in. -/
def Move.deposited : Move → Nat
  | .deposit v => v
  | _ => 0

/-- What a move charges. -/
def Move.charged : Move → Nat
  | .charge v => v
  | _ => 0

/-- What a move pays back to the owner. -/
def Move.paid : Move → Nat
  | .pay v _ => v
  | _ => 0

/-- What a history paid in. -/
def deposited (ms : List Move) : Nat := (ms.map Move.deposited).sum

/-- What a history charged. -/
def charged (ms : List Move) : Nat := (ms.map Move.charged).sum

/-- What a history paid back to the owner. -/
def paid (ms : List Move) : Nat := (ms.map Move.paid).sum

@[simp] theorem charged_nil : charged [] = 0 := rfl

@[simp] theorem charged_cons (m : Move) (ms : List Move) :
    charged (m :: ms) = m.charged + charged ms := rfl

/-- What one move does to what is held. -/
theorem apply_balance {delay : Nat} {a b : Account} {m : Move}
    (h : apply delay a m = some b) :
    b.held + m.charged + m.paid = a.held + m.deposited := by
  cases m with
  | deposit v =>
      cases h
      simp [Move.charged, Move.paid, Move.deposited]
  | charge v =>
      obtain ⟨hv, hb⟩ := Option.ite_none_right_eq_some.mp h
      cases hb
      simp only [Move.charged, Move.paid, Move.deposited]
      omega
  | request v time =>
      obtain ⟨-, hb⟩ := Option.ite_none_right_eq_some.mp h
      cases hb
      simp [Move.charged, Move.paid, Move.deposited]
  | cancel =>
      cases h
      simp [Move.charged, Move.paid, Move.deposited]
  | pay v time =>
      obtain ⟨⟨hv, -⟩, hb⟩ := Option.ite_none_right_eq_some.mp h
      cases hb
      have hle : v ≤ a.held := hv ▸ Nat.min_le_right _ _
      simp only [Move.charged, Move.paid, Move.deposited]
      omega

/-- **Accounting.**  An account is what came in less what was charged and paid
out: nothing else lowers it. -/
theorem run_balance {delay : Nat} {a b : Account} {ms : List Move}
    (h : run delay a ms = some b) :
    b.held + charged ms + paid ms = a.held + deposited ms := by
  induction ms generalizing a with
  | nil =>
      cases h
      simp [charged, paid, deposited]
  | cons m ms ih =>
      obtain ⟨c, hc, hrest⟩ := run_cons.mp h
      have hfirst := apply_balance hc
      have hlater := ih hrest
      simp only [charged, paid, deposited, List.map_cons, List.sum_cons] at hlater ⊢
      omega

/-- A move's time stamps, where it has any, lie between `lo` and `hi`. -/
def Within (lo hi : Nat) : Move → Prop
  | .request _ time => lo ≤ time ∧ time ≤ hi
  | .pay _ time => lo ≤ time ∧ time ≤ hi
  | _ => True

/-- The invariant behind `free_stays`: either the slot is as it was and nothing
has been paid, or one payment of the old slot is behind us and the slot is
empty or not ready before `ready`. -/
private def Kept (a b : Account) (spent ready : Nat) : Prop :=
  (b.leaving = a.leaving ∧ b.readyAt = a.readyAt ∧ a.held ≤ b.held + spent) ∨
    ((b.leaving = 0 ∨ ready ≤ b.readyAt) ∧ a.free ≤ b.held + spent)

private theorem apply_kept {delay t t' spent : Nat} {a b c : Account} {m : Move}
    (hkept : Kept a b spent (t + delay)) (hstamp : Within t t' m)
    (hlt : t' < t + delay) (happly : apply delay b m = some c) :
    Kept a c (spent + m.charged) (t + delay) := by
  have hfree : a.free ≤ a.held := Nat.sub_le _ _
  cases m with
  | deposit v =>
      cases happly
      simp only [Kept, Move.charged] at hkept ⊢
      omega
  | charge v =>
      obtain ⟨hv, hc⟩ := Option.ite_none_right_eq_some.mp happly
      cases hc
      simp only [Kept, Move.charged] at hkept ⊢
      omega
  | request v time =>
      obtain ⟨-, hc⟩ := Option.ite_none_right_eq_some.mp happly
      cases hc
      -- whatever the slot was, the new request cannot be paid before `t + delay`
      simp only [Kept, Move.charged, Within] at hkept hstamp ⊢
      omega
  | cancel =>
      cases happly
      refine Or.inr ⟨Or.inl rfl, ?_⟩
      simp only [Kept, Move.charged] at hkept ⊢
      omega
  | pay v time =>
      obtain ⟨⟨hv, hready⟩, hc⟩ := Option.ite_none_right_eq_some.mp happly
      cases hc
      -- the old slot is paid, or one that is not ready: impossible unless empty
      refine Or.inr ⟨Or.inl rfl, ?_⟩
      simp only [Kept, Move.charged, Within, Account.free, Account.due]
        at hkept hstamp hv ⊢
      omega

/-- **What is free stays for the delay.**  Over any history between `t` and
`t'`, less than the delay apart, what was free at first is still held or has
been charged. -/
theorem free_stays {delay t t' : Nat} {a b : Account} {ms : List Move}
    (hrun : run delay a ms = some b) (hstamps : ∀ m ∈ ms, Within t t' m)
    (hlt : t' < t + delay) : a.free ≤ b.held + charged ms := by
  have hkept : ∀ (ms : List Move) (c : Account) (spent : Nat),
      Kept a c spent (t + delay) → (∀ m ∈ ms, Within t t' m) →
      run delay c ms = some b → Kept a b (spent + charged ms) (t + delay) := by
    intro ms
    induction ms with
    | nil =>
        intro c spent hc _ hr
        cases hr
        simpa using hc
    | cons m ms ih =>
        intro c spent hc hs hr
        obtain ⟨d, hd, hrest⟩ := run_cons.mp hr
        have hnext := apply_kept hc (hs m List.mem_cons_self) hlt hd
        have hend := ih d _ hnext (fun n hn => hs n (List.mem_cons_of_mem _ hn)) hrest
        simpa [Nat.add_assoc] using hend
  have hend := hkept ms a 0 (Or.inl ⟨rfl, rfl, by omega⟩) hstamps hrun
  have hfree : a.free ≤ a.held := Nat.sub_le _ _
  rcases hend with ⟨-, -, h⟩ | ⟨-, h⟩ <;> omega

end Delayed
