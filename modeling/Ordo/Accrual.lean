import Mathlib.Algebra.BigOperators.Group.Finset.Piecewise
import Mathlib.Algebra.Order.BigOperators.Group.Finset
import Mathlib.Algebra.Order.BigOperators.Ring.Finset
import Mathlib.Tactic.Linarith

/-!
# Accounts paid from one index

A pool pays many accounts in proportion to their weights without touching them:
an index grows by what comes in for one unit of weight, and an account is brought
up to date, by the growth since it was last paid, only when it is used.  The
index is kept in units of `1 / scale`, and every division rounds down.

What the pool owes is bounded by the `debt`, an amount in units of `1 / scale`
that no rounding can raise: bringing an account up to date never adds to it, and
what comes in adds at most itself.
-/

namespace Accrual

variable {α : Type*}

/-- What a pool keeps: the index, the weight it is shared over, and for each
account its weight, the index it is paid up to and what it has been credited. -/
structure Pool (α : Type*) where
  index : Nat
  total : Nat
  weight : α → Nat
  paid : α → Nat
  owed : α → Nat

namespace Pool

/-- What the account's weight has made of the index since it was last paid. -/
def growth (p : Pool α) (a : α) : Nat := p.weight a * (p.index - p.paid a)

/-- What the account would be credited in all, if it were brought up to date. -/
def pending (scale : Nat) (p : Pool α) (a : α) : Nat := p.growth a / scale + p.owed a

/-- `amount` comes in for everybody. -/
def accrue (scale : Nat) (p : Pool α) (amount : Nat) : Pool α :=
  { p with index := p.index + amount * scale / p.total }

/-- What is owed to the accounts of `tracked`, in units of `1 / scale`. -/
def debt (scale : Nat) (tracked : Finset α) (p : Pool α) : Nat :=
  ∑ a ∈ tracked, (p.growth a + scale * p.owed a)

/-- No account is paid further than the index, and no more weight is tracked than
the index is shared over. -/
structure Sound (tracked : Finset α) (p : Pool α) : Prop where
  paid_le : ∀ a ∈ tracked, p.paid a ≤ p.index
  weight_le : ∑ a ∈ tracked, p.weight a ≤ p.total

variable {scale : Nat} {tracked : Finset α} {p : Pool α}

/-- The debt covers what every tracked account can be credited. -/
theorem scale_mul_sum_pending_le :
    scale * ∑ a ∈ tracked, p.pending scale a ≤ p.debt scale tracked := by
  rw [Finset.mul_sum]
  apply Finset.sum_le_sum
  intro a _
  have hdiv : scale * (p.growth a / scale) ≤ p.growth a := Nat.mul_div_le _ _
  rw [pending, Nat.mul_add]
  omega

/-- What comes in raises the debt by no more than itself. -/
theorem debt_accrue_le (h : p.Sound tracked) (amount : Nat) :
    (p.accrue scale amount).debt scale tracked ≤ p.debt scale tracked + scale * amount := by
  let delta := amount * scale / p.total
  have hgrow : ∀ a ∈ tracked, (p.accrue scale amount).growth a + scale * p.owed a
      = (p.growth a + scale * p.owed a) + p.weight a * delta := by
    intro a ha
    have hsub : p.index + delta - p.paid a = (p.index - p.paid a) + delta :=
      Nat.sub_add_comm (h.paid_le a ha)
    show p.weight a * (p.index + delta - p.paid a) + _ = _
    rw [hsub, Nat.mul_add, growth]
    omega
  have hshare : (∑ a ∈ tracked, p.weight a) * delta ≤ scale * amount := by
    calc (∑ a ∈ tracked, p.weight a) * delta
        ≤ p.total * delta := Nat.mul_le_mul_right _ h.weight_le
      _ ≤ amount * scale := Nat.mul_div_le _ _
      _ = scale * amount := Nat.mul_comm _ _
  have hsum : (p.accrue scale amount).debt scale tracked
      = p.debt scale tracked + (∑ a ∈ tracked, p.weight a) * delta := by
    rw [debt, debt, Finset.sum_mul, ← Finset.sum_add_distrib]
    exact Finset.sum_congr rfl hgrow
  omega

theorem Sound.accrue (h : p.Sound tracked) (amount : Nat) :
    (p.accrue scale amount).Sound tracked where
  paid_le a ha := (h.paid_le a ha).trans (Nat.le_add_right _ _)
  weight_le := h.weight_le

variable [DecidableEq α]

/-- The account is credited with its growth and paid up to the index. -/
def settle (scale : Nat) (p : Pool α) (a : α) : Pool α :=
  { p with
    owed := Function.update p.owed a (p.pending scale a)
    paid := Function.update p.paid a p.index }

/-- The account has weight `v` from now on, and all accounts together `total`. -/
def reweigh (p : Pool α) (a : α) (v total : Nat) : Pool α :=
  { p with weight := Function.update p.weight a v, total := total }

/-- The account takes what it has been credited. -/
def clear (p : Pool α) (a : α) : Pool α :=
  { p with owed := Function.update p.owed a 0 }

theorem settle_owed_self (a : α) : (p.settle scale a).owed a = p.pending scale a :=
  Function.update_self ..

theorem settle_paid_self (a : α) : (p.settle scale a).paid a = p.index :=
  Function.update_self ..

/-- Bringing an account up to date adds nothing to the debt: rounding down is all
that happens to it. -/
theorem debt_settle_le (a : α) : (p.settle scale a).debt scale tracked ≤ p.debt scale tracked := by
  apply Finset.sum_le_sum
  intro b _
  rcases eq_or_ne b a with rfl | hb
  · have hdiv : scale * (p.growth b / scale) ≤ p.growth b := Nat.mul_div_le _ _
    have hgrowth : (p.settle scale b).growth b = 0 := by
      simp [growth, settle]
    rw [hgrowth, settle_owed_self, pending, Nat.mul_add]
    omega
  · have hgrowth : (p.settle scale a).growth b = p.growth b := by
      simp [growth, settle, hb]
    have howed : (p.settle scale a).owed b = p.owed b := by
      simp [settle, hb]
    rw [hgrowth, howed]

theorem Sound.settle (h : p.Sound tracked) (a : α) : (p.settle scale a).Sound tracked where
  paid_le b hb := by
    rcases eq_or_ne b a with rfl | hne
    · exact (settle_paid_self b).le
    · have := h.paid_le b hb
      simpa [Pool.settle, hne] using this
  weight_le := h.weight_le

/-- The weight of an account that is up to date can change freely. -/
theorem debt_reweigh {a : α} (h : a ∈ tracked → p.index ≤ p.paid a) (v total : Nat) :
    (p.reweigh a v total).debt scale tracked = p.debt scale tracked := by
  apply Finset.sum_congr rfl
  intro b hb
  rcases eq_or_ne b a with rfl | hne
  · have hzero : p.index - p.paid b = 0 := Nat.sub_eq_zero_of_le (h hb)
    simp [growth, reweigh, hzero]
  · simp [growth, reweigh, hne]

theorem Sound.reweigh (h : p.Sound tracked) {a : α} {v total : Nat}
    (hw : ∑ b ∈ tracked, Function.update p.weight a v b ≤ total) :
    (p.reweigh a v total).Sound tracked where
  paid_le := h.paid_le
  weight_le := hw

/-- What an account takes leaves the debt. -/
theorem debt_clear {a : α} (ha : a ∈ tracked) :
    (p.clear a).debt scale tracked + scale * p.owed a = p.debt scale tracked := by
  have hsplit := Finset.add_sum_erase tracked (fun b => p.growth b + scale * p.owed b) ha
  have hsplit' := Finset.add_sum_erase tracked
    (fun b => (p.clear a).growth b + scale * (p.clear a).owed b) ha
  have hrest : ∑ b ∈ tracked.erase a, ((p.clear a).growth b + scale * (p.clear a).owed b)
      = ∑ b ∈ tracked.erase a, (p.growth b + scale * p.owed b) := by
    apply Finset.sum_congr rfl
    intro b hb
    have hne : b ≠ a := Finset.ne_of_mem_erase hb
    simp [growth, clear, hne]
  have hself : (p.clear a).growth a + scale * (p.clear a).owed a = p.growth a := by
    simp [growth, clear]
  rw [debt, debt, ← hsplit, ← hsplit', hrest, hself]
  omega

theorem Sound.clear (h : p.Sound tracked) (a : α) : (p.clear a).Sound tracked where
  paid_le := h.paid_le
  weight_le := h.weight_le

end Pool

/-- A steady payment of `rate` for each unit of time from `last` to `finish`. -/
structure Stream where
  rate : Nat
  last : Nat
  finish : Nat

namespace Stream

/-- What is still to be paid. -/
def remaining (s : Stream) : Nat := s.rate * (s.finish - s.last)

/-- What is due between the last payment and `now`. -/
def due (s : Stream) (now : Nat) : Nat := (min now s.finish - s.last) * s.rate

/-- The stream after what is due at `now` has been paid. -/
def advance (s : Stream) (now : Nat) : Stream := { s with last := min now s.finish }

/-- Paying what is due takes it from what remains. -/
theorem remaining_advance {s : Stream} {now : Nat} (hlast : s.last ≤ min now s.finish) :
    (s.advance now).remaining + s.due now = s.remaining := by
  have hsplit : s.finish - s.last
      = (s.finish - min now s.finish) + (min now s.finish - s.last) := by omega
  rw [remaining, remaining, due, advance, hsplit, Nat.mul_add,
    Nat.mul_comm (min now s.finish - s.last)]

/-- A stream restarted for `length` with `reward` and what was left of it pays out no
more than these two. -/
theorem remaining_restart_le (reward left now length : Nat) :
    (Stream.mk ((reward + left) / length) now (now + length)).remaining ≤ reward + left := by
  rw [remaining, Nat.add_sub_cancel_left]
  exact Nat.div_mul_le_self _ _

end Stream

end Accrual
