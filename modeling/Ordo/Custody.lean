import Mathlib.Algebra.BigOperators.Group.Finset.Piecewise
import Mathlib.Algebra.Order.BigOperators.Group.Finset
import Mathlib.Data.Fintype.BigOperators

/-!
# Keeping one asset for many accounts

A `Book` says who is owed how much of an asset that is all held in one place.
What is held is what is owed, plus a spare amount nobody is owed; the equation
is a field, so a book that does not add up cannot be written down.  The
operations are the only ways value moves: in with a credit, out with a debit,
in without an owner with a gift.
-/

namespace Custody

variable {ι : Type} [Fintype ι]

/-- Who is owed how much of what is held. -/
structure Book (ι : Type) [Fintype ι] where
  /-- What account `i` is owed. -/
  owed : ι → Nat
  /-- What is held for everybody. -/
  held : Nat
  /-- What is held for nobody. -/
  spare : Nat
  balanced : held = spare + ∑ i, owed i

/-- Changing one entry changes a total by what the entry changes. -/
theorem sum_update_add [DecidableEq ι] (f : ι → Nat) (i : ι) (v : Nat) :
    (∑ j, Function.update f i v j) + f i = (∑ j, f j) + v := by
  rw [Finset.sum_update_of_mem (Finset.mem_univ i),
    Finset.sum_eq_add_sum_sdiff_singleton_of_mem (Finset.mem_univ i) f]
  omega

/-- One account that has everything. -/
theorem sum_single [DecidableEq ι] (i : ι) (v : Nat) :
    (∑ j, Function.update (fun _ => 0) i v j) = v := by
  have h := sum_update_add (fun _ => 0) i v
  simpa using h

namespace Book

/-- The empty book over what is already there. -/
def empty (spare : Nat) : Book ι where
  owed := fun _ => 0
  held := spare
  spare := spare
  balanced := by simp

/-- Nobody is owed more than is held. -/
theorem owed_le_held (b : Book ι) (i : ι) : b.owed i ≤ b.held := by
  have h := Finset.single_le_sum (f := b.owed) (fun _ _ => Nat.zero_le _)
    (Finset.mem_univ i)
  have hb := b.balanced
  omega

variable [DecidableEq ι]

/-- `v` comes in for account `i`. -/
def credit (b : Book ι) (i : ι) (v : Nat) : Book ι where
  owed := Function.update b.owed i (b.owed i + v)
  held := b.held + v
  spare := b.spare
  balanced := by
    have h := sum_update_add b.owed i (b.owed i + v)
    have hb := b.balanced
    omega

/-- Account `i` gives up `v` of what it is owed, and it leaves. -/
def debit (b : Book ι) (i : ι) (v : Nat) (hv : v ≤ b.owed i) : Book ι where
  owed := Function.update b.owed i (b.owed i - v)
  held := b.held - v
  spare := b.spare
  balanced := by
    have h := sum_update_add b.owed i (b.owed i - v)
    have hb := b.balanced
    omega

/-- `v` comes in for nobody. -/
def gift (b : Book ι) (v : Nat) : Book ι where
  owed := b.owed
  held := b.held + v
  spare := b.spare + v
  balanced := by
    have hb := b.balanced
    omega

end Book

end Custody
