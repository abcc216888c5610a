import Ordo.Custody
import Ordo.Words

/-!
# Vault shares

The minimal ERC-20 that a stake vault's shares are.  Balances add up to the supply
and the supply is a word: both are fields, so that no transfer can overflow an
account.
-/

namespace Ordo

/-- Why a call on a stake contract reverts. -/
inductive StakeError
  | reentrancy
  | insufficientBalance
  | insufficientAllowance
  | zeroRecipient
  | zeroAddress
  | farmSet
  | notFactory
  | zeroShares
  | firstDepositTooSmall
  | transferFailed
  | notVault
  | notZap
  | zeroAmount
  /-- Checked arithmetic: an overflow or a division by zero. -/
  | panic
  /-- A call to another contract reverted. -/
  | reverted
  deriving DecidableEq, Repr

namespace Stake

/-- `if (condition) revert error();` -/
def revertIf (condition : Prop) [Decidable condition] (e : StakeError) : Except StakeError Unit :=
  if condition then .error e else .ok ()

/-- A checked operation panics when it has no value. -/
def checked {α : Type} : Option α → Except StakeError α
  | some a => .ok a
  | none => .error .panic

@[simp] theorem revertIf_eq_ok {c : Prop} [Decidable c] {e : StakeError} {u : Unit} :
    revertIf c e = .ok u ↔ ¬c := by
  unfold revertIf
  split <;> simp_all

@[simp] theorem checked_eq_ok {α : Type} {o : Option α} {a : α} :
    checked o = .ok a ↔ o = some a := by
  cases o <;> simp [checked]

@[simp] theorem bind_eq_ok {α β : Type} {x : Except StakeError α}
    {f : α → Except StakeError β} {b : β} :
    (x >>= f) = .ok b ↔ ∃ a, x = .ok a ∧ f a = .ok b := by
  cases x <;> simp [bind, Except.bind]

@[simp] theorem pure_eq_ok {α : Type} {a b : α} :
    (pure a : Except StakeError α) = .ok b ↔ a = b := by
  simp [pure, Except.pure]

end Stake

open Stake

section Moved

variable {balanceOf : Address → Nat} {src dst : Address} {amount : Nat}

/-- A covered transfer keeps the total. -/
theorem sum_moved (h : amount ≤ balanceOf src) :
    ∑ a, moved balanceOf src dst amount a = ∑ a, balanceOf a := by
  have hout := Custody.sum_update_add balanceOf src (balanceOf src - amount)
  have hin := Custody.sum_update_add (Function.update balanceOf src (balanceOf src - amount)) dst
    (Function.update balanceOf src (balanceOf src - amount) dst + amount)
  unfold moved
  omega

theorem moved_dst (h : src ≠ dst) :
    moved balanceOf src dst amount dst = balanceOf dst + amount := by
  simp [moved, h.symm]

theorem moved_src (h : src ≠ dst) :
    moved balanceOf src dst amount src = balanceOf src - amount := by
  simp [moved, h]

/-- The sender is left with no less than the difference, whoever receives. -/
theorem le_moved_src : balanceOf src - amount ≤ moved balanceOf src dst amount src := by
  rcases eq_or_ne src dst with rfl | h
  · simp [moved]
  · exact (moved_src h).ge

theorem moved_other {a : Address} (hsrc : a ≠ src) (hdst : a ≠ dst) :
    moved balanceOf src dst amount a = balanceOf a := by
  simp [moved, hsrc, hdst]

end Moved

/-- The state of the share token. -/
structure Shares where
  totalSupply : Nat
  balanceOf : Address → Nat
  allowance : Address → Address → Nat
  backed : ∑ a, balanceOf a = totalSupply
  fits : totalSupply < 2 ^ 256

namespace Shares

/-- A token nobody holds yet. -/
def empty : Shares where
  totalSupply := 0
  balanceOf := fun _ => 0
  allowance := fun _ _ => 0
  backed := by simp
  fits := by omega

theorem balanceOf_le (s : Shares) (a : Address) : s.balanceOf a ≤ s.totalSupply := by
  rw [← s.backed]
  exact Finset.single_le_sum (fun _ _ => Nat.zero_le _) (Finset.mem_univ a)

def approve (s : Shares) (sender spender : Address) (amount : Nat) : Shares :=
  let row := Function.update (s.allowance sender) spender amount
  { s with allowance := Function.update s.allowance sender row }

/-- `_move`.  The receiver's balance stays below the supply, so adding to it never
overflows. -/
def move (s : Shares) (src dst : Address) (amount : Nat) : Except StakeError Shares :=
  if dst = 0 then .error .zeroRecipient
  else if h : s.balanceOf src < amount then .error .insufficientBalance
  else
    .ok { s with
      balanceOf := moved s.balanceOf src dst amount
      backed := (sum_moved (Nat.le_of_not_lt h)).trans s.backed }

def transfer (s : Shares) (sender dst : Address) (amount : Nat) : Except StakeError Shares :=
  s.move sender dst amount

def transferFrom (s : Shares) (sender src dst : Address) (amount : Nat) :
    Except StakeError Shares :=
  let a := s.allowance src sender
  if a = 2 ^ 256 - 1 then s.move src dst amount
  else if a < amount then .error .insufficientAllowance
  else (s.approve src sender (a - amount)).move src dst amount

/-- `_mint`.  The new supply bounds the receiver's new balance. -/
def mint (s : Shares) (dst : Address) (amount : Nat) : Except StakeError Shares :=
  if h : s.totalSupply + amount < 2 ^ 256 then
    .ok { s with
      totalSupply := s.totalSupply + amount
      balanceOf := Function.update s.balanceOf dst (s.balanceOf dst + amount)
      backed := by
        have hin := Custody.sum_update_add s.balanceOf dst (s.balanceOf dst + amount)
        have hbacked := s.backed
        omega
      fits := h }
  else .error .panic

/-- `_burn`.  The balance bounds the amount, and the supply bounds the balance. -/
def burn (s : Shares) (src : Address) (amount : Nat) : Except StakeError Shares :=
  if h : s.balanceOf src < amount then .error .insufficientBalance
  else
    .ok { s with
      balanceOf := Function.update s.balanceOf src (s.balanceOf src - amount)
      totalSupply := s.totalSupply - amount
      backed := by
        have hout := Custody.sum_update_add s.balanceOf src (s.balanceOf src - amount)
        have hle := s.balanceOf_le src
        have hbacked := s.backed
        omega
      fits := by
        have hfits := s.fits
        omega }

/-- What a transfer between two accounts does to the token. -/
theorem move_eq_ok {s s' : Shares} {src dst : Address} {amount : Nat} :
    s.move src dst amount = .ok s' ↔ dst ≠ 0 ∧ amount ≤ s.balanceOf src ∧
      s'.totalSupply = s.totalSupply ∧ s'.allowance = s.allowance ∧
      s'.balanceOf = moved s.balanceOf src dst amount := by
  unfold move
  split
  · simp_all
  · split
    · simp; omega
    · constructor
      · intro h
        cases h
        exact ⟨‹_›, by omega, rfl, rfl, rfl⟩
      · intro h
        obtain ⟨_, _, hsupply, hallow, hbal⟩ := h
        cases s'
        simp_all

/-- A transfer by allowance moves the balances as any transfer. -/
theorem transferFrom_moves {s s' : Shares} {sender src dst : Address} {amount : Nat}
    (h : s.transferFrom sender src dst amount = .ok s') :
    dst ≠ 0 ∧ amount ≤ s.balanceOf src ∧ s'.totalSupply = s.totalSupply ∧
      s'.balanceOf = moved s.balanceOf src dst amount := by
  unfold transferFrom at h
  dsimp only at h
  split at h
  · obtain ⟨hdst, hle, hsupply, _, hbal⟩ := move_eq_ok.mp h
    exact ⟨hdst, hle, hsupply, hbal⟩
  · split at h
    · cases h
    · obtain ⟨hdst, hle, hsupply, _, hbal⟩ := move_eq_ok.mp h
      exact ⟨hdst, hle, hsupply, hbal⟩

end Shares

end Ordo
