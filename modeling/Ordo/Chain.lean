import Ordo.Reentrant.Zoom
import Ordo.Words
import Mathlib.Logic.Function.Basic

/-!
# What a swapping contract can see and ask

The ledger the batch and swap contracts work on: balances of every token and of
ether, for every account, as `balanceOf` and `.balance` answer them.  WETH is
the standard one-to-one wrapper and its functions are part of the model.  Any
other token, the V3 router, the V4 PoolManager and whoever is sent ether are
code the contract does not know, and every call to them is a `Query`.

A query is asked in the state after the contract's own ether has moved.  What
the callee does to the ledger and what it answers is for the surroundings to
say; here stands only how the contract reads the answer.
-/

namespace Ordo

open Reentrant

/-- `V4Actions.NATIVE`. -/
def NATIVE : Address := 0

/-- The addresses a swapping contract is built on.  Its own is new at its
deployment, and its constructor refuses zero for the others. -/
structure Immutables where
  this : Address
  WETH : Address
  ROUTER : Address
  poolManager : Address
  WETH_ne_this : WETH ≠ this
  ROUTER_ne_this : ROUTER ≠ this
  poolManager_ne_this : poolManager ≠ this
  WETH_ne_zero : WETH ≠ NATIVE
  ROUTER_ne_zero : ROUTER ≠ NATIVE
  poolManager_ne_zero : poolManager ≠ NATIVE

/-- Ether is named as WETH where an ERC-20 is meant. -/
def Immutables.asErc20 (I : Immutables) (token : Address) : Address :=
  if token = NATIVE then I.WETH else token

/-- The ledger. -/
structure Chain where
  /-- `balanceOf`, by token and holder. -/
  bal : Address → Address → Nat
  /-- Ether. -/
  eth : Address → Nat
  /-- WETH allowances, by owner and spender. -/
  allowance : Address → Address → Nat
  /-- Accounts with code. -/
  code : Address → Bool
  /-- Accounts that answer `balanceOf`. -/
  erc20 : Address → Bool
  /-- What accounts answer to ERC-1271's `isValidSignature`. -/
  accepts : Address → Bytes32 → Bytes → Bool

/-- The key of a V4 pool. -/
structure PoolKey where
  currency0 : Address
  currency1 : Address
  fee : Nat
  tickSpacing : Int
  hooks : Address
  deriving DecidableEq

/-- A call to code the contract does not know. -/
inductive Query where
  | transferFrom (token src dst : Address) (amount : Nat)
  | transfer (token dst : Address) (amount : Nat)
  | approve (token spender : Address) (amount : Nat)
  /-- The router's `exactInput`, paying out to this contract. -/
  | exactInput (path : Bytes) (amountIn : Nat)
  /-- The PoolManager's `unlock`, up to its call back. -/
  | unlock
  | poolSwap (key : PoolKey) (zeroForOne : Bool) (amountSpecified : Int)
      (sqrtPriceLimitX96 : Nat)
  | sync (currency : Address)
  | settle (value : Nat)
  /-- The PoolManager's `take`, to this contract. -/
  | take (currency : Address) (amount : Nat)
  /-- The end of `unlock`: is every delta settled? -/
  | relock
  /-- Ether to an account, which runs its code. -/
  | send (recipient : Address) (amount : Nat)
  deriving DecidableEq

/-- What a call comes back with. -/
inductive Answer where
  /-- It reverted. -/
  | fail
  /-- It returned nothing. -/
  | empty
  | bool (b : Bool)
  | word (n : Nat)
  | int (i : Int)
  deriving DecidableEq

/-- Why the shared code reverts. -/
inductive VenueError where
  | BadLegs | BadPath
  | LegMismatch (index : Nat) (produced declared : Address)
  | SwapMinOut (out min : Nat)
  | TransferFailed
  /-- Checked arithmetic failed. -/
  | Panic
  /-- A callee reverted, or answered something that does not decode. -/
  | CallFailed
  deriving DecidableEq

/-- A program over the ledger. -/
abbrev Op := Prog Chain Query Answer VenueError

/-! ## Balances -/

namespace Chain

/-- Move a token. -/
def move (c : Chain) (token src dst : Address) (v : Nat) : Chain :=
  { c with bal := Function.update c.bal token (moved (c.bal token) src dst v) }

/-- Move ether. -/
def moveEth (c : Chain) (src dst : Address) (v : Nat) : Chain :=
  { c with eth := moved c.eth src dst v }

/-- Change what one account holds of a token. -/
def setBal (c : Chain) (token a : Address) (v : Nat) : Chain :=
  { c with bal := Function.update c.bal token (Function.update (c.bal token) a v) }

/-- Change a WETH allowance. -/
def setAllowance (c : Chain) (owner spender : Address) (v : Nat) : Chain :=
  { c with
    allowance := Function.update c.allowance owner
      (Function.update (c.allowance owner) spender v) }

@[simp] theorem move_eth (c : Chain) (token src dst : Address) (v : Nat) :
    (c.move token src dst v).eth = c.eth := rfl

@[simp] theorem move_allowance (c : Chain) (token src dst : Address) (v : Nat) :
    (c.move token src dst v).allowance = c.allowance := rfl

@[simp] theorem moveEth_bal (c : Chain) (src dst : Address) (v : Nat) :
    (c.moveEth src dst v).bal = c.bal := rfl

@[simp] theorem moveEth_allowance (c : Chain) (src dst : Address) (v : Nat) :
    (c.moveEth src dst v).allowance = c.allowance := rfl

@[simp] theorem setBal_eth (c : Chain) (token a : Address) (v : Nat) :
    (c.setBal token a v).eth = c.eth := rfl

@[simp] theorem setBal_allowance (c : Chain) (token a : Address) (v : Nat) :
    (c.setBal token a v).allowance = c.allowance := rfl

@[simp] theorem setAllowance_bal (c : Chain) (owner spender : Address) (v : Nat) :
    (c.setAllowance owner spender v).bal = c.bal := rfl

@[simp] theorem setAllowance_eth (c : Chain) (owner spender : Address) (v : Nat) :
    (c.setAllowance owner spender v).eth = c.eth := rfl

/-- A move of one token, for every token and holder. -/
theorem move_bal {c : Chain} {token src : Address} {v : Nat} (dst : Address)
    (hv : v ≤ c.bal token src) (x a : Address) :
    ((c.move token src dst v).bal x a : Int) =
      c.bal x a - (if x = token ∧ a = src then v else 0) +
        (if x = token ∧ a = dst then v else 0) := by
  by_cases hx : x = token
  · subst hx
    simpa [move] using moved_apply dst hv a
  · simp [move, hx]

/-- Setting one balance, for every token and holder. -/
theorem setBal_bal (c : Chain) (token b : Address) (v : Nat) (x a : Address) :
    (c.setBal token b v).bal x a = if x = token ∧ a = b then v else c.bal x a := by
  by_cases hx : x = token
  · subst hx
    by_cases ha : a = b <;> simp [setBal, ha]
  · simp [setBal, hx]

/-- Setting one allowance, for every owner and spender. -/
theorem setAllowance_allowance (c : Chain) (owner spender : Address) (v : Nat)
    (x y : Address) : (c.setAllowance owner spender v).allowance x y =
      if x = owner ∧ y = spender then v else c.allowance x y := by
  by_cases hx : x = owner
  · subst hx
    by_cases hy : y = spender <;> simp [setAllowance, hy]
  · simp [setAllowance, hx]

/-- A move of ether, for every account. -/
theorem moveEth_eth {c : Chain} {src : Address} {v : Nat} (dst : Address)
    (hv : v ≤ c.eth src) (a : Address) :
    ((c.moveEth src dst v).eth a : Int) =
      c.eth a - (if a = src then v else 0) + (if a = dst then v else 0) :=
  moved_apply dst hv a

theorem moveEth_src {c : Chain} {src dst : Address} {v : Nat} (hv : v ≤ c.eth src)
    (hne : src ≠ dst) : (c.moveEth src dst v).eth src = c.eth src - v := by
  have h := moveEth_eth dst hv src
  rw [if_pos rfl, if_neg hne] at h
  omega

theorem moveEth_dst {c : Chain} {src dst : Address} {v : Nat} (hv : v ≤ c.eth src)
    (hne : src ≠ dst) : (c.moveEth src dst v).eth dst = c.eth dst + v := by
  have h := moveEth_eth dst hv dst
  rw [if_neg hne.symm, if_pos rfl] at h
  omega

theorem moveEth_other {c : Chain} {src dst : Address} {v : Nat} (hv : v ≤ c.eth src)
    {a : Address} (hsrc : a ≠ src) (hdst : a ≠ dst) :
    (c.moveEth src dst v).eth a = c.eth a := by
  have h := moveEth_eth dst hv a
  rw [if_neg hsrc, if_neg hdst] at h
  omega

end Chain

/-! ## WETH -/

/-- `WETH.deposit{value: amount}()`. -/
def wethDeposit (I : Immutables) (amount : Nat) : Op Unit := do
  let c ← Prog.read
  Prog.require (amount ≤ c.eth I.this) .CallFailed
  Prog.write fun c =>
    (c.moveEth I.this I.WETH amount).setBal I.WETH I.this (c.bal I.WETH I.this + amount)

/-- `WETH.withdraw(amount)`. -/
def wethWithdraw (I : Immutables) (amount : Nat) : Op Unit := do
  let c ← Prog.read
  Prog.require (amount ≤ c.bal I.WETH I.this ∧ amount ≤ c.eth I.WETH) .CallFailed
  Prog.write fun c =>
    (c.setBal I.WETH I.this (c.bal I.WETH I.this - amount)).moveEth I.WETH I.this amount

/-- WETH never counts down an unlimited allowance, nor asks for one from the
account itself. -/
def needsAllowance (I : Immutables) (c : Chain) (src : Address) : Prop :=
  src ≠ I.this ∧ c.allowance src I.this ≠ 2 ^ 256 - 1

instance (I : Immutables) (c : Chain) (src : Address) : Decidable (needsAllowance I c src) :=
  inferInstanceAs (Decidable (_ ∧ _))

/-- The allowances after `amount` is pulled from `src`. -/
def spent (I : Immutables) (c : Chain) (src : Address) (amount : Nat) : Chain :=
  if needsAllowance I c src then
    c.setAllowance src I.this (c.allowance src I.this - amount)
  else c

@[simp] theorem spent_bal (I : Immutables) (c : Chain) (src : Address) (amount : Nat) :
    (spent I c src amount).bal = c.bal := by
  unfold spent
  split <;> rfl

@[simp] theorem spent_eth (I : Immutables) (c : Chain) (src : Address) (amount : Nat) :
    (spent I c src amount).eth = c.eth := by
  unfold spent
  split <;> rfl

/-- Only the allowance that was used goes down. -/
theorem spent_allowance (I : Immutables) (c : Chain) (src : Address) (amount : Nat)
    {owner spender : Address} (h : ¬ (owner = src ∧ spender = I.this)) :
    (spent I c src amount).allowance owner spender = c.allowance owner spender := by
  unfold spent
  split
  · rw [Chain.setAllowance_allowance, if_neg h]
  · rfl

/-- `WETH.transferFrom(src, this, amount)`. -/
def wethPull (I : Immutables) (src : Address) (amount : Nat) : Op Unit := do
  let c ← Prog.read
  Prog.require (amount ≤ c.bal I.WETH src ∧
    (needsAllowance I c src → amount ≤ c.allowance src I.this)) .TransferFailed
  Prog.write fun c => (spent I c src amount).move I.WETH src I.this amount

/-- `WETH.transfer(dst, amount)`. -/
def wethTransfer (I : Immutables) (dst : Address) (amount : Nat) : Op Unit := do
  let c ← Prog.read
  Prog.require (amount ≤ c.bal I.WETH I.this) .CallFailed
  Prog.write fun c => c.move I.WETH I.this dst amount

/-! ## Tokens -/

/-- The answer of a low-level token call, as `_pull` and `_approve` read it. -/
def accepted : Answer → Except VenueError Unit
  | .empty => .ok ()
  | .bool true => .ok ()
  | .bool false => .error .TransferFailed
  | .fail => .error .TransferFailed
  | _ => .error .CallFailed

/-- The answer of a call declared to return a `bool`. -/
def returned : Answer → Except VenueError Bool
  | .bool b => .ok b
  | _ => .error .CallFailed

/-- The answer of a call declared to return a `uint256`. -/
def returnedWord : Answer → Except VenueError Nat
  | .word n => .ok n
  | _ => .error .CallFailed

/-- The answer of a call declared to return an `int256`. -/
def returnedInt : Answer → Except VenueError Int
  | .int i => .ok i
  | _ => .error .CallFailed

/-- The answer of a call whose result is not read. -/
def succeeded : Answer → Except VenueError Unit
  | .fail => .error .CallFailed
  | _ => .ok ()

@[simp] theorem returned_eq_ok (a : Answer) (b : Bool) : returned a = .ok b ↔ a = .bool b := by
  cases a <;> simp [returned]

@[simp] theorem returnedWord_eq_ok (a : Answer) (n : Nat) :
    returnedWord a = .ok n ↔ a = .word n := by
  cases a <;> simp [returnedWord]

@[simp] theorem returnedInt_eq_ok (a : Answer) (i : Int) :
    returnedInt a = .ok i ↔ a = .int i := by
  cases a <;> simp [returnedInt]

@[simp] theorem succeeded_eq_ok (a : Answer) : succeeded a = .ok () ↔ a ≠ .fail := by
  cases a <;> simp [succeeded]

/-- `IERC20(token).balanceOf(address(this))`. -/
def balanceOf (I : Immutables) (token : Address) : Op Nat := do
  let c ← Prog.read
  Prog.require (token = I.WETH ∨ c.erc20 token = true) .CallFailed
  pure (c.bal token I.this)

/-- `_pull`. -/
def pull (I : Immutables) (token src : Address) (amount : Nat) : Op Unit :=
  if token = I.WETH then wethPull I src amount
  else do
    let answer ← Prog.ask (.transferFrom token src I.this amount)
    Prog.ofExcept (accepted answer)

/-- `_approve`, to the router. -/
def approve (I : Immutables) (token : Address) (amount : Nat) : Op Unit :=
  if token = I.WETH then Prog.write fun c => c.setAllowance I.this I.ROUTER amount
  else do
    let answer ← Prog.ask (.approve token I.ROUTER amount)
    Prog.ofExcept (accepted answer)

/-- `IERC20(token).transfer(dst, amount)`. -/
def transfer (I : Immutables) (token dst : Address) (amount : Nat) : Op Bool :=
  if token = I.WETH then do
    wethTransfer I dst amount
    pure true
  else do
    let answer ← Prog.ask (.transfer token dst amount)
    Prog.ofExcept (returned answer)

/-- `if (!IERC20(token).transfer(dst, amount)) revert TransferFailed()`. -/
def payToken (I : Immutables) (token dst : Address) (amount : Nat) : Op Unit := do
  let ok ← transfer I token dst amount
  Prog.require (ok = true) .TransferFailed

/-- Ether sent along with a call, which fails with `e` for want of it. -/
def payEther (I : Immutables) (dst : Address) (amount : Nat) (e : VenueError) : Op Unit := do
  let c ← Prog.read
  Prog.require (amount ≤ c.eth I.this) e
  Prog.write fun c => c.moveEth I.this dst amount

/-- `receive`. -/
def receive (I : Immutables) (sender : Address) : Op Unit :=
  Prog.require (sender = I.WETH ∨ sender = I.poolManager) .BadPath

/-- The PoolManager may send the contract ether, at any time. -/
theorem receive_poolManager (I : Immutables) (c : Chain) :
    receive I I.poolManager c = .done c () := by
  simp [receive]

/-- A plain transfer of ether: it runs the recipient's code. -/
def sendPlain (I : Immutables) (recipient : Address) (amount : Nat) : Op Unit := do
  payEther I recipient amount .TransferFailed
  let answer ← Prog.ask (.send recipient amount)
  Prog.require (answer ≠ .fail) .TransferFailed

/-- `_send`.  The contract's own `receive` turns it away, and WETH wraps what it
is sent. -/
def send (I : Immutables) (recipient : Address) (amount : Nat) : Op Unit :=
  if recipient = I.this then Prog.revert .TransferFailed
  else if recipient = I.WETH then do
    let c ← Prog.read
    Prog.require (amount ≤ c.eth I.this) .TransferFailed
    wethDeposit I amount
  else sendPlain I recipient amount

end Ordo
