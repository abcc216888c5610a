import Ordo.Reentrant.World
import Ordo.Surroundings

/-!
# OrdoSwapV3

The swap contract.  `swap` takes the user's input, in ether with the call or in
a token from the user's allowance, runs the user's legs, pays the user and the
treasury, and checks that the float, WETH and ether together, is not below what
it was.  Behind that it may run a back-run of its own, `reclaimFor`, as a call
to itself inside a `try`: if that fails, everything it did is undone and the
swap stands.

Gas is not modelled but for the one check `swap` makes of what is left of it.
Events are left out; the storage carries a log of the owner's withdrawals,
newest first, which no function reads.
-/

namespace Ordo.OrdoSwapV3

open Reentrant Legs

/-- The back-run behind a swap; no legs means none. -/
structure Reclaim where
  legs : List Leg
  amountIn : Nat
  minProfit : Nat
  gas : Nat

/-- A withdrawal of the float: by whom, who the owner was, and how much. -/
structure Withdrawal where
  sender : Address
  owner : Address
  amount : Nat
  deriving DecidableEq

/-- The contract's storage. -/
structure Store where
  owner : Address
  treasury : Address
  protocolBps : Nat
  routeFeeBps : Nat
  locked : Bool
  withdrawals : List Withdrawal

structure State where
  chain : Chain
  store : Store

/-- The ledger as a part of the state. -/
def ledger : Part State Chain where
  get := State.chain
  set s c := { s with chain := c }
  get_set _ _ := rfl
  set_get _ := rfl
  set_set _ _ _ := rfl

/-- `MAX_PROTOCOL_BPS`. -/
def MAX_PROTOCOL_BPS : Nat := 5000

/-- `MAX_ROUTE_FEE_BPS`. -/
def MAX_ROUTE_FEE_BPS : Nat := 50

/-- Why a call reverts. -/
inductive Error where
  | NotOwner | NotSelf | Reentrancy | ZeroAddress | BpsTooHigh (bps : Nat)
  | ValueMismatch (amountIn msgValue : Nat) | NativeInMustBeEther
  | TooLittleReceived (amountOut minimum : Nat)
  | InsufficientGasForReclaim (left needed : Nat)
  | ReclaimNotEtherClosed | NotPoolManager
  | FloatTouched (before after : Nat)
  /-- What the quotes answer. -/
  | QuoteResult (amountOut reclaimProfit : Nat) (reclaimFailed : Bool)
  /-- The shared code's `BadLegs`, `BadPath`, `LegMismatch`, `TransferFailed`,
  and calls that fail. -/
  | venue (e : VenueError)
  /-- Checked arithmetic failed. -/
  | Panic
  /-- Ether sent to a function that is not payable. -/
  | NotPayable
  deriving DecidableEq

/-- A function body. -/
abbrev Body := Prog State Query Answer Error

/-- Code that works on the ledger alone. -/
def onChain {α : Type} (p : Op α) : Body α := Prog.zoom ledger .venue p

/-- Change the storage. -/
def modify (f : Store → Store) : Body Unit := Prog.write fun s => { s with store := f s.store }

def Store.lock (st : Store) : Store := { st with locked := true }

def Store.unlock (st : Store) : Store := { st with locked := false }

def Store.record (st : Store) (w : Withdrawal) : Store :=
  { st with withdrawals := w :: st.withdrawals }

/-- `constructor`; the immutables are checked where they are built. -/
def constructor (owner treasury : Address) (protocolBps : Nat) : Except Error Store :=
  if owner = 0 ∨ treasury = 0 then .error .ZeroAddress
  else if MAX_PROTOCOL_BPS < protocolBps then .error (.BpsTooHigh protocolBps)
  else .ok {
    owner, treasury, protocolBps, routeFeeBps := 0, locked := false, withdrawals := [] }

def nonReentrant {α : Type} (body : Body α) : Body α := do
  let s ← Prog.read
  Prog.require (s.store.locked = false) .Reentrancy
  modify Store.lock
  let a ← body
  modify Store.unlock
  pure a

def onlyOwner (sender : Address) (body : Body Unit) : Body Unit := do
  let s ← Prog.read
  Prog.require (sender = s.store.owner) .NotOwner
  body

/-- `float`: WETH, plus any ether held. -/
def float (I : Immutables) : Body Nat := do
  let balance ← onChain (balanceOf I I.WETH)
  let s ← Prog.read
  Prog.orRevert (addU balance (s.chain.eth I.this)) .Panic

/-- `amount * bps / 10_000`. -/
def share (amount bps : Nat) : Body Nat := do
  let product ← Prog.orRevert (mulU amount bps) .Panic
  pure (product / 10000)

/-- Ether in either of its forms. -/
def isEther (I : Immutables) (token : Address) : Bool :=
  decide (token = I.WETH ∨ token = NATIVE)

/-! ## Swap -/

/-- The user's input: the ether that came with the call, or a token pulled from
the user. -/
def takeInput (I : Immutables) (sender : Address) (value : Nat) (tokenIn : Address)
    (nativeIn : Bool) (amountIn : Nat) : Body Unit :=
  if value ≠ 0 then do
    Prog.require (tokenIn = I.WETH ∨ nativeIn = true) .NativeInMustBeEther
    Prog.require (amountIn = value) (.ValueMismatch amountIn value)
  else onChain (pull I (if nativeIn then I.WETH else tokenIn) sender amountIn)

/-- The output of a route, back in ERC-20 form. -/
def wrapOut (I : Immutables) (out : Nat) (haveNative : Bool) : Op Unit :=
  if haveNative then wethDeposit I out else pure ()

/-- `_deliver`. -/
def deliver (I : Immutables) (tokenOut : Address) (etherOut nativeOut haveNative : Bool)
    (recipient : Address) (amount : Nat) : Op Unit :=
  if etherOut then
    if nativeOut then do
      toNative I amount haveNative
      send I recipient amount
    else do
      wrapOut I amount haveNative
      payToken I I.WETH recipient amount
  else do
    Prog.require (haveNative = false) .BadLegs
    payToken I tokenOut recipient amount

/-- `if (fee != 0)` it is delivered to the treasury. -/
def deliverFee (I : Immutables) (tokenOut : Address) (etherOut nativeOut haveNative : Bool)
    (treasury : Address) (fee : Nat) : Op Unit :=
  if fee ≠ 0 then deliver I tokenOut etherOut nativeOut haveNative treasury fee else pure ()

/-- How a reclaim pays the user. -/
def payProfit (I : Immutables) (recipient : Address) (nativeOut : Bool) (toUser : Nat) :
    Op Unit :=
  if nativeOut then do
    wethWithdraw I toUser
    send I recipient toUser
  else payToken I I.WETH recipient toUser

/-- `reclaimFor`. -/
def reclaimFor (I : Immutables) (sender recipient : Address) (r : Reclaim)
    (nativeOut : Bool) : Body Nat := do
  Prog.require (sender = I.this) .NotSelf
  let leg ← Prog.orRevert r.legs.head? .Panic
  let input ← Prog.ofExcept ((inputOf leg).mapError .venue)
  let lastLeg ← Prog.orRevert r.legs.getLast? .Panic
  let output ← Prog.ofExcept ((outputOf lastLeg).mapError .venue)
  Prog.require ((input.1 = I.WETH ∨ input.2 = true) ∧ isEther I output = true)
    .ReclaimNotEtherClosed
  let before ← float I
  let out ← onChain (run I r.legs r.amountIn false)
  onChain (wrapOut I out.1 out.2)
  let after ← float I
  let floor ← Prog.orRevert (addU before r.minProfit) .Panic
  Prog.require (¬ after < floor) (.TooLittleReceived (after - before) r.minProfit)
  let profit ← Prog.orRevert (subU after before) .Panic
  let s ← Prog.read
  let toProtocol ← share profit s.store.protocolBps
  let toUser ← Prog.orRevert (subU profit toProtocol) .Panic
  onChain (payProfit I recipient nativeOut toUser)
  pure toUser

/-- The call to itself behind a swap: what it paid the user, nothing if it was
skipped. -/
def tryReclaim (I : Immutables) (recipient : Address) (r : Reclaim) (nativeOut : Bool) :
    Body Nat :=
  if r.legs ≠ [] then do
    let result ← Prog.attempt (reclaimFor I I.this recipient r nativeOut)
    match result with
    | .ok toUser => pure toUser
    | .error _ => pure 0
  else pure 0

/-- The checks of `swap` on its arguments, down to `nativeOut`: the input of the
first leg, whether it is native ether, and the output of the last. -/
def checkArgs (I : Immutables) (legs : List Leg) (recipient : Address) (nativeOut : Bool)
    (reclaim : Reclaim) (gasleft : Nat) : Except Error (Address × Bool × Address) :=
  if recipient = 0 then .error .ZeroAddress
  else match legs.head?, legs.getLast? with
    | some firstLeg, some lastLeg =>
        if reclaim.legs ≠ [] ∧ gasleft < reclaim.gas then
          .error (.InsufficientGasForReclaim gasleft reclaim.gas)
        else match inputOf firstLeg, outputOf lastLeg with
          | .ok input, .ok tokenOut =>
              if nativeOut = true ∧ isEther I tokenOut = false then .error (.venue .BadPath)
              else .ok (input.1, input.2, tokenOut)
          | .error e, _ => .error (.venue e)
          | .ok _, .error e => .error (.venue e)
    | _, _ => .error (.venue .BadLegs)

/-- The user's route, and the payment of the user and the treasury; answers
what the user got. -/
def payRoute (I : Immutables) (legs : List Leg) (amountIn amountOutMinimum : Nat)
    (tokenOut recipient : Address) (nativeOut haveNative : Bool) : Body Nat := do
  let out ← onChain (run I legs amountIn haveNative)
  let s ← Prog.read
  let fee ← share out.1 s.store.routeFeeBps
  let userOut ← Prog.orRevert (subU out.1 fee) .Panic
  Prog.require (¬ userOut < amountOutMinimum) (.TooLittleReceived userOut amountOutMinimum)
  onChain (deliver I tokenOut (isEther I tokenOut) nativeOut out.2 recipient userOut)
  let s ← Prog.read
  onChain (deliverFee I tokenOut (isEther I tokenOut) nativeOut out.2 s.store.treasury fee)
  pure userOut

/-- `swap`, answering what the user got and the surplus. -/
def swap (sender : Address) (value : Nat) (I : Immutables) (legs : List Leg)
    (amountIn amountOutMinimum : Nat) (recipient : Address) (nativeOut : Bool)
    (reclaim : Reclaim) (gasleft : Nat) : Body (Nat × Nat) := nonReentrant do
  let ends ← Prog.ofExcept (checkArgs I legs recipient nativeOut reclaim gasleft)
  takeInput I sender value ends.1 ends.2.1 amountIn
  let held ← float I
  let floatBefore ← Prog.orRevert (subU held value) .Panic
  let userOut ← payRoute I legs amountIn amountOutMinimum ends.2.2 recipient nativeOut
    (decide (value ≠ 0))
  let floatAfter ← float I
  Prog.require (¬ floatAfter < floatBefore) (.FloatTouched floatBefore floatAfter)
  let surplus ← tryReclaim I recipient reclaim (nativeOut && isEther I ends.2.2)
  pure (userOut, surplus)

/-! ## Quotes -/

/-- The profit a quoted reclaim would make, and whether it failed. -/
def quoteProfit (I : Immutables) (r : Reclaim) : Body (Nat × Bool) := do
  let before ← float I
  let result ← Prog.attempt (reclaimFor I I.this I.this r false)
  match result with
  | .ok _ => do
      let after ← float I
      let profit ← Prog.orRevert (subU after before) .Panic
      pure (profit, false)
  | .error _ => pure (0, true)

/-- `if (reclaim.legs.length != 0)` it is quoted too. -/
def quoteTry (I : Immutables) (r : Reclaim) : Body (Nat × Bool) :=
  if r.legs ≠ [] then quoteProfit I r else pure (0, false)

def quote (value : Nat) (I : Immutables) (legs : List Leg) (amountIn : Nat)
    (reclaim : Reclaim) : Body Unit := do
  Prog.require (legs ≠ []) (.venue .BadLegs)
  let out ← onChain (run I legs amountIn (decide (value ≠ 0)))
  onChain (wrapOut I out.1 out.2)
  let profit ← quoteTry I reclaim
  Prog.revert (.QuoteResult out.1 profit.1 profit.2)

def quoteReclaim (I : Immutables) (reclaim : Reclaim) : Body Unit := do
  let profit ← quoteProfit I reclaim
  Prog.revert (.QuoteResult 0 profit.1 profit.2)

/-! ## Admin -/

def fund (value : Nat) (I : Immutables) : Body Unit := onChain (wethDeposit I value)

/-- What a withdrawal pays. -/
def withdrawOut (I : Immutables) (recipient : Address) (amount : Nat) : Op Unit := do
  wethWithdraw I amount
  send I recipient amount

def withdraw (sender : Address) (I : Immutables) (recipient : Address) (amount : Nat) :
    Body Unit := onlyOwner sender do
  let s ← Prog.read
  modify fun st => st.record ⟨sender, s.store.owner, amount⟩
  onChain (withdrawOut I recipient amount)

def withdrawToken (sender : Address) (I : Immutables) (token recipient : Address)
    (amount : Nat) : Body Unit := onlyOwner sender do
  Prog.require (token ≠ I.WETH) (.venue .BadPath)
  onChain (payToken I token recipient amount)

def setProtocolBps (sender : Address) (bps : Nat) : Body Unit := onlyOwner sender do
  Prog.require (¬ MAX_PROTOCOL_BPS < bps) (.BpsTooHigh bps)
  modify fun st => { st with protocolBps := bps }

def setRouteFeeBps (sender : Address) (bps : Nat) : Body Unit := onlyOwner sender do
  Prog.require (¬ MAX_ROUTE_FEE_BPS < bps) (.BpsTooHigh bps)
  modify fun st => { st with routeFeeBps := bps }

def setTreasury (sender treasury : Address) : Body Unit := onlyOwner sender do
  Prog.require (treasury ≠ 0) .ZeroAddress
  modify fun st => { st with treasury }

def transferOwnership (sender owner : Address) : Body Unit := onlyOwner sender do
  Prog.require (owner ≠ 0) .ZeroAddress
  modify fun st => { st with owner }

/-! ## The contract as a system -/

/-- The external functions. -/
inductive Call where
  | swap (legs : List Leg) (amountIn amountOutMinimum : Nat) (recipient : Address)
      (nativeOut : Bool) (reclaim : Reclaim) (gasleft : Nat)
  | reclaimFor (recipient : Address) (r : Reclaim) (nativeOut : Bool)
  | quote (legs : List Leg) (amountIn : Nat) (reclaim : Reclaim)
  | quoteReclaim (reclaim : Reclaim)
  | unlockCallback
  | fund
  | withdraw (recipient : Address) (amount : Nat)
  | withdrawToken (token recipient : Address) (amount : Nat)
  | setProtocolBps (bps : Nat)
  | setRouteFeeBps (bps : Nat)
  | setTreasury (treasury : Address)
  | transferOwnership (owner : Address)

/-- A call from outside, by `sender` with `value` ether. -/
structure Msg (I : Immutables) where
  sender : Address
  value : Nat
  call : Call
  sender_ne_this : sender ≠ I.this

/-- The ether a call brings. -/
def payIn (I : Immutables) (sender : Address) (value : Nat) : Body Unit := do
  let s ← Prog.read
  Prog.require (value ≤ s.chain.eth sender) .Panic
  Prog.write fun s => { s with chain := s.chain.moveEth sender I.this value }

/-- A function that takes no ether. -/
def notPayable (value : Nat) (body : Body Unit) : Body Unit := do
  Prog.require (value = 0) .NotPayable
  body

/-- `swap` with the ether the caller sends. -/
def swapCall (sender : Address) (value : Nat) (I : Immutables) (legs : List Leg)
    (amountIn amountOutMinimum : Nat) (recipient : Address) (nativeOut : Bool)
    (reclaim : Reclaim) (gasleft : Nat) : Body (Nat × Nat) := do
  payIn I sender value
  swap sender value I legs amountIn amountOutMinimum recipient nativeOut reclaim gasleft

/-- What a call runs.  `unlockCallback` answers the PoolManager alone, which
calls it only inside this contract's own swaps. -/
def entry (I : Immutables) (m : Msg I) : Body Unit :=
  match m.call with
  | .swap legs amountIn amountOutMinimum recipient nativeOut reclaim gasleft => do
      let _ ← swapCall m.sender m.value I legs amountIn amountOutMinimum recipient nativeOut
        reclaim gasleft
      pure ()
  | .reclaimFor recipient r nativeOut => notPayable m.value do
      let _ ← reclaimFor I m.sender recipient r nativeOut
      pure ()
  | .quote legs amountIn reclaim => do
      payIn I m.sender m.value
      quote m.value I legs amountIn reclaim
  | .quoteReclaim reclaim => notPayable m.value (quoteReclaim I reclaim)
  | .unlockCallback => Prog.revert .NotPoolManager
  | .fund => do
      payIn I m.sender m.value
      fund m.value I
  | .withdraw recipient amount => notPayable m.value (withdraw m.sender I recipient amount)
  | .withdrawToken token recipient amount =>
      notPayable m.value (withdrawToken m.sender I token recipient amount)
  | .setProtocolBps bps => notPayable m.value (setProtocolBps m.sender bps)
  | .setRouteFeeBps bps => notPayable m.value (setRouteFeeBps m.sender bps)
  | .setTreasury treasury => notPayable m.value (setTreasury m.sender treasury)
  | .transferOwnership owner => notPayable m.value (transferOwnership m.sender owner)

/-- The contract among everybody else, who may also pay it ether it did not ask
for. -/
def system (I : Immutables) : System State Query Answer Error (Msg I) where
  entry := entry I
  outside s t := t.store = s.store ∧ Outside I True s.chain t.chain
  reply s q t a := t.store = s.store ∧ Reply I s.chain q t.chain a

end Ordo.OrdoSwapV3
