import Ordo.Chain

/-!
# An exact-input swap through the PoolManager

`_swapExactIn` asks the PoolManager to unlock; the PoolManager calls back
`unlockCallback`, in which the contract swaps, pays what it owes and takes what
it is owed, and before `unlock` returns every delta must be settled.  The
PoolManager hands the callback the data it was given and passes its answer on,
so the callback runs in line here, between `unlock` and `relock`; nobody else
can call it, since it answers the PoolManager alone.
-/

namespace Ordo.V4Swap

open Reentrant

/-- `TickMath.MIN_SQRT_PRICE`. -/
def MIN_SQRT_PRICE : Nat := 4295128739

/-- `TickMath.MAX_SQRT_PRICE`. -/
def MAX_SQRT_PRICE : Nat := 1461446703485210103287273052203988822378723970342

/-- The cast `int128(i)`. -/
def toI128 (i : Int) : Int :=
  if i % 2 ^ 128 < 2 ^ 127 then i % 2 ^ 128 else i % 2 ^ 128 - 2 ^ 128

theorem toI128_range (i : Int) : -2 ^ 127 ≤ toI128 i ∧ toI128 i < 2 ^ 127 := by
  unfold toI128
  have hlow := Int.emod_nonneg i (b := 2 ^ 128) (by decide)
  have hhigh := Int.emod_lt_of_pos i (b := 2 ^ 128) (by decide)
  split <;> omega

/-- The checked negation `-int256(amountIn)`. -/
def amountSpecified (amountIn : Nat) : Option Int :=
  if toI256 amountIn = -2 ^ 255 then none else some (-toI256 amountIn)

/-- The delta of the currency that goes in. -/
def dIn (zeroForOne : Bool) (delta : Int) : Int :=
  if zeroForOne then toI128 (delta / 2 ^ 128) else toI128 delta

/-- The delta of the currency that comes out. -/
def dOut (zeroForOne : Bool) (delta : Int) : Int :=
  if zeroForOne then toI128 delta else toI128 (delta / 2 ^ 128)

theorem dIn_range (zeroForOne : Bool) (delta : Int) :
    -2 ^ 127 ≤ dIn zeroForOne delta ∧ dIn zeroForOne delta < 2 ^ 127 := by
  unfold dIn
  split <;> exact toI128_range _

/-- Whatever size the input is told to be, a pool takes no more of it. -/
theorem owed_le {amountIn : Nat} {zeroForOne : Bool} {specified delta : Int}
    (hspecified : amountSpecified amountIn = some specified) (hpos : amountIn ≠ 0)
    (h : specified < 0 → -dIn zeroForOne delta ≤ -specified) :
    (-dIn zeroForOne delta).toNat ≤ amountIn := by
  have hrange := dIn_range zeroForOne delta
  by_cases hsmall : amountIn < 2 ^ 255
  · rw [amountSpecified, toI256_of_lt hsmall, if_neg (by omega)] at hspecified
    cases hspecified
    have hle := h (by omega)
    omega
  · -- such an amount is out of the range of a pool's deltas
    omega

def currencyIn (key : PoolKey) (zeroForOne : Bool) : Address :=
  if zeroForOne then key.currency0 else key.currency1

def currencyOut (key : PoolKey) (zeroForOne : Bool) : Address :=
  if zeroForOne then key.currency1 else key.currency0

/-- `_pay`; the token's own answer is not read, only decoded. -/
def pay (I : Immutables) (currency : Address) (amount : Nat) : Op Unit :=
  if currency = NATIVE then do
    payEther I I.poolManager amount .CallFailed
    let answer ← Prog.ask (.settle amount)
    Prog.ofExcept (succeeded answer)
  else do
    let synced ← Prog.ask (.sync currency)
    Prog.ofExcept (succeeded synced)
    let _ ← transfer I currency I.poolManager amount
    let answer ← Prog.ask (.settle 0)
    Prog.ofExcept (succeeded answer)

/-- `if (dIn < 0) _pay(currencyIn, uint256(uint128(-dIn)))`; the negation is
checked. -/
def payOwed (I : Immutables) (currency : Address) (d : Int) : Op Unit :=
  if d < 0 then do
    Prog.require (d ≠ -2 ^ 127) .Panic
    pay I currency (-d).toNat
  else pure ()

/-- `if (out > 0) _poolManager.take(currencyOut, address(this), out)`. -/
def takeOwed (currency : Address) (out : Nat) : Op Unit :=
  if 0 < out then do
    let answer ← Prog.ask (.take currency out)
    Prog.ofExcept (succeeded answer)
  else pure ()

/-- `unlockCallback`, called by the PoolManager. -/
def unlockCallback (I : Immutables) (key : PoolKey) (zeroForOne : Bool) (amountIn minOut : Nat) :
    Op Nat := do
  let specified ← Prog.orRevert (amountSpecified amountIn) .Panic
  let answer ← Prog.ask (.poolSwap key zeroForOne specified
    (if zeroForOne then MIN_SQRT_PRICE + 1 else MAX_SQRT_PRICE - 1))
  let delta ← Prog.ofExcept (returnedInt answer)
  let out := (dOut zeroForOne delta).toNat
  Prog.require (minOut ≤ out) (.SwapMinOut out minOut)
  payOwed I (currencyIn key zeroForOne) (dIn zeroForOne delta)
  takeOwed (currencyOut key zeroForOne) out
  pure out

/-- `_swapExactIn`. -/
def swapExactIn (I : Immutables) (key : PoolKey) (zeroForOne : Bool) (amountIn minOut : Nat) :
    Op Nat :=
  if amountIn = 0 then pure 0
  else do
    let unlocked ← Prog.ask .unlock
    Prog.ofExcept (succeeded unlocked)
    let out ← unlockCallback I key zeroForOne amountIn minOut
    let relocked ← Prog.ask .relock
    Prog.ofExcept (succeeded relocked)
    pure out

end Ordo.V4Swap
