import Ordo.V4Swap

/-!
# Running a chain of legs

A leg is a hop on one venue: a Uniswap V3 path through the router, or one V4
pool.  The output of a leg is the input of the next, and between legs ether is
held either as itself or as WETH, converted whichever way the next leg needs.
The batch and swap contracts run their legs with the same code.
-/

namespace Ordo.Legs

open Reentrant

/-- A hop on one venue. -/
structure Leg where
  /-- 0: Uniswap V3 (`path`); 1: Uniswap V4 (`key`, `zeroForOne`). -/
  venue : Nat
  path : Bytes
  key : PoolKey
  zeroForOne : Bool
  deriving DecidableEq

/-- `_first`: the token a V3 path starts with. -/
def first (path : Bytes) : Except VenueError Address :=
  if path.length < 43 then .error .BadPath else .ok (addressOf (path.take 20))

/-- `_last`: the token a V3 path ends with. -/
def last (path : Bytes) : Except VenueError Address :=
  if path.length < 43 ∨ (path.length - 20) % 23 ≠ 0 then .error .BadPath
  else .ok (addressOf (path.drop (path.length - 20)))

/-- `_legInput`, `_inputOf`: the asset a leg consumes, and whether that is
native ether. -/
def inputOf (l : Leg) : Except VenueError (Address × Bool) :=
  if l.venue = 0 then (first l.path).map fun token => (token, false)
  else if l.venue = 1 then
    .ok (V4Swap.currencyIn l.key l.zeroForOne,
      decide (V4Swap.currencyIn l.key l.zeroForOne = NATIVE))
  else .error .BadLegs

/-- `_legOutput`, `_outputOf`: the asset a leg produces. -/
def outputOf (l : Leg) : Except VenueError Address :=
  if l.venue = 0 then last l.path
  else if l.venue = 1 then .ok (V4Swap.currencyOut l.key l.zeroForOne)
  else .error .BadLegs

/-- `_asErc20`. -/
def asErc20 (I : Immutables) (token : Address) (isNative : Bool) : Address :=
  if isNative = true ∨ token = NATIVE then I.WETH else token

/-- Ether in hand becomes WETH, if that is what the venue wants. -/
def toErc20 (I : Immutables) (token : Address) (amount : Nat) (haveNative : Bool) : Op Unit :=
  if haveNative then do
    Prog.require (token = I.WETH) .BadLegs
    wethDeposit I amount
  else pure ()

/-- WETH in hand becomes ether. -/
def toNative (I : Immutables) (amount : Nat) (haveNative : Bool) : Op Unit :=
  if haveNative then pure () else wethWithdraw I amount

/-- A leg on V3, which wants ERC-20 in and gives ERC-20 out. -/
def runV3 (I : Immutables) (l : Leg) (amount : Nat) (haveNative : Bool) : Op (Nat × Bool) := do
  let tokenIn ← Prog.ofExcept (first l.path)
  toErc20 I tokenIn amount haveNative
  approve I tokenIn amount
  let answer ← Prog.ask (.exactInput l.path amount)
  let out ← Prog.ofExcept (returnedWord answer)
  pure (out, false)

/-- What a V4 leg needs in hand. -/
def prepareV4 (I : Immutables) (cIn : Address) (amount : Nat) (haveNative : Bool) : Op Unit :=
  if cIn = NATIVE then toNative I amount haveNative else toErc20 I cIn amount haveNative

/-- A leg on V4. -/
def runV4 (I : Immutables) (l : Leg) (amount : Nat) (haveNative : Bool) : Op (Nat × Bool) := do
  prepareV4 I (V4Swap.currencyIn l.key l.zeroForOne) amount haveNative
  let out ← V4Swap.swapExactIn I l.key l.zeroForOne amount 0
  pure (out, decide (V4Swap.currencyOut l.key l.zeroForOne = NATIVE))

/-- The venue of a leg. -/
def runVenue (I : Immutables) (l : Leg) (amount : Nat) (haveNative : Bool) : Op (Nat × Bool) :=
  if l.venue = 0 then runV3 I l amount haveNative
  else if l.venue = 1 then runV4 I l amount haveNative
  else Prog.revert .BadLegs

/-- The body of the loop of `_run`, from leg `index` on: `holding` is what the
leg before produced. -/
def runFrom (I : Immutables) : Nat → Address → List Leg → Nat → Bool → Op (Nat × Bool)
  | _, _, [], amount, haveNative => pure (amount, haveNative)
  | index, holding, l :: legs, amount, haveNative => do
      let input ← Prog.ofExcept (inputOf l)
      let declared := asErc20 I input.1 input.2
      Prog.require (declared = holding) (.LegMismatch index holding declared)
      let held ← runVenue I l amount haveNative
      let produced ← Prog.ofExcept (outputOf l)
      runFrom I (index + 1) (I.asErc20 produced) legs held.1 held.2

/-- `_run`: the legs in order, funded from this contract's balance.  Answers
the final amount and whether it is native ether. -/
def run (I : Immutables) (legs : List Leg) (amount : Nat) (haveNative : Bool) :
    Op (Nat × Bool) :=
  match legs with
  | [] => Prog.revert .Panic
  | l :: rest => do
      let input ← Prog.ofExcept (inputOf l)
      runFrom I 0 (asErc20 I input.1 input.2) (l :: rest) amount haveNative

end Ordo.Legs
