import Mathlib.Algebra.Order.Ring.Nat
import Mathlib.Tactic.Common
import Mathlib.Tactic.Ring

/-!
# Shares of a pooled quantity

`held` of a quantity is pooled, and `supply` shares of it are out.  A deposit of `added` mints
shares, and shares are redeemed for their slice; both round down.

* `price_mint`, `price_redeem` — neither lowers what a share is worth, `held / supply`;
* `minted_worth_le` — what is minted is worth no more than what was added for it;
* `growth_mint_le`, `growth_redeem_le` — the worth of a share grows by less than one part in the
  supply that is left;
* `redeemed_grown_le` — redeemed later, shares bring back no more than was added for them, times
  the growth of a share's worth since.
-/

namespace Ordo

namespace PooledShares

def minted (added supply held : Nat) : Nat := added * supply / held

def redeemed (shares supply held : Nat) : Nat := held * shares / supply

variable {added supply held shares : Nat}

theorem minted_mul_le : minted added supply held * held ≤ added * supply :=
  Nat.div_mul_le_self _ _

theorem redeemed_mul_le : redeemed shares supply held * supply ≤ held * shares :=
  Nat.div_mul_le_self _ _

theorem price_mint :
    held * (supply + minted added supply held) ≤ (held + added) * supply := by
  have h : held * minted added supply held ≤ added * supply := by
    rw [Nat.mul_comm]
    exact minted_mul_le
  calc held * (supply + minted added supply held)
      = held * supply + held * minted added supply held := Nat.mul_add ..
    _ ≤ held * supply + added * supply := Nat.add_le_add_left h _
    _ = (held + added) * supply := (Nat.add_mul ..).symm

theorem price_redeem :
    held * (supply - shares) ≤ (held - redeemed shares supply held) * supply := by
  have h : redeemed shares supply held * supply ≤ held * shares := redeemed_mul_le
  rw [Nat.mul_sub, Nat.sub_mul]
  omega

/-- What is minted for a deposit is worth no more than the deposit. -/
theorem minted_worth_le : minted added supply held * (held + added) ≤
    added * (supply + minted added supply held) := by
  have h : minted added supply held * held ≤ added * supply := minted_mul_le
  calc minted added supply held * (held + added)
      = minted added supply held * held + added * minted added supply held := by ring
    _ ≤ added * supply + added * minted added supply held := Nat.add_le_add_right h _
    _ = added * (supply + minted added supply held) := (Nat.mul_add ..).symm

/-- Rounding leaves less than the worth of a share to the pool. -/
theorem growth_mint_le (hheld : held ≠ 0) :
    (held + added) * supply ≤ held * (supply + minted added supply held + 1) := by
  have h : added * supply < held * (minted added supply held + 1) :=
    Nat.lt_mul_div_succ _ (Nat.pos_of_ne_zero hheld)
  calc (held + added) * supply = held * supply + added * supply := Nat.add_mul ..
    _ ≤ held * supply + held * (minted added supply held + 1) := Nat.add_le_add_left h.le _
    _ = held * (supply + minted added supply held + 1) := by ring

/-- Where a share is worth a unit at least, that holds of the unit a redemption leaves too. -/
theorem growth_redeem_le (hworth : supply ≤ held) (hsupply : supply ≠ 0) :
    (held - redeemed shares supply held) * supply ≤ held * (supply - shares + 1) := by
  have h : held * shares < supply * (redeemed shares supply held + 1) :=
    Nat.lt_mul_div_succ _ (Nat.pos_of_ne_zero hsupply)
  rw [Nat.mul_comm supply, Nat.add_mul, Nat.one_mul] at h
  rw [Nat.sub_mul, Nat.mul_add, Nat.mul_sub, Nat.mul_one]
  omega

/-- The growth of a share's worth, against a floor of the supply. -/
theorem growth_floor {floor supply' held' : Nat} (h : held' * supply ≤ held * (supply' + 1))
    (hfloor : floor ≤ supply') : held' * supply * floor ≤ held * supply' * (floor + 1) := by
  calc held' * supply * floor ≤ held * (supply' + 1) * floor := Nat.mul_le_mul_right floor h
    _ = held * (supply' * floor + floor) := by ring
    _ ≤ held * (supply' * floor + supply') :=
        Nat.mul_le_mul_left held (Nat.add_le_add_left hfloor _)
    _ = held * supply' * (floor + 1) := by ring

/-- Shares bring back later no more than was added for them, times the growth of their worth. -/
theorem redeemed_grown_le {supply' held' a b : Nat} (h : shares * held ≤ added * supply)
    (hgrowth : held' * supply * a ≤ held * supply' * b) (hheld : held ≠ 0)
    (hsupply' : supply' ≠ 0) : redeemed shares supply' held' * a ≤ added * b := by
  have hpos : 0 < supply' * held := Nat.mul_pos (Nat.pos_of_ne_zero hsupply')
    (Nat.pos_of_ne_zero hheld)
  apply Nat.le_of_mul_le_mul_right _ hpos
  calc redeemed shares supply' held' * a * (supply' * held)
      = redeemed shares supply' held' * supply' * (held * a) := by ring
    _ ≤ held' * shares * (held * a) := Nat.mul_le_mul_right _ redeemed_mul_le
    _ = shares * held * (held' * a) := by ring
    _ ≤ added * supply * (held' * a) := Nat.mul_le_mul_right _ h
    _ = added * (held' * supply * a) := by ring
    _ ≤ added * (held * supply' * b) := Nat.mul_le_mul_left _ hgrowth
    _ = added * b * (supply' * held) := by ring

end PooledShares

end Ordo
