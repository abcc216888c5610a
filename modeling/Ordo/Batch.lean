import Ordo.Reentrant.World
import Ordo.Surroundings

/-!
# OrdoBatch

Batch settlement: users sign orders, the solver picks one clearing price for
each token and calls `settle`, which pulls every sell, runs the solver's
interactions on the residual, pays every buy, and then checks token by token
that nothing was lost and no more kept than the fee cap.  An order sold for
ether is funded by `depositOrder`, which wraps and escrows the ether under the
order's hash until the order is settled or refunded.

`simulate` runs the same preparation and interactions without the checks on
orders and always reverts, with what it saw in the error.  Events are left out;
in their place the storage carries a journal of what happened to orders, newest
first, which no function reads, and `settle` answers the fees it took.
-/

namespace Ordo.OrdoBatch

open Reentrant

structure Order where
  owner : Address
  /-- Receives `buyToken`; zero means the owner. -/
  receiver : Address
  sellToken : Address
  /-- An ERC-20, or zero for native ether out. -/
  buyToken : Address
  sellAmount : Nat
  minBuyAmount : Nat
  validTo : Nat
  nonce : Nat
  appData : Bytes32
  deriving DecidableEq

/-- One AMM route the solver runs on the residual. -/
structure Interaction where
  legs : List Legs.Leg
  amountIn : Nat

/-- The clearing price of a token, in any common unit. -/
structure Price where
  token : Address
  price : Nat

/-- What is fixed at deployment, and the hash and precompile the contract
uses. -/
structure Params where
  I : Immutables
  DOMAIN_SEPARATOR : Bytes32
  ORDER_TYPEHASH : Bytes32
  keccak : Bytes → Bytes32
  ecrecover : Bytes32 → Nat → Nat → Nat → Address

/-- `orderHash`: what the owner of an order signs. -/
def Params.orderHash (P : Params) (o : Order) : Bytes32 :=
  typedDigest P.keccak P.DOMAIN_SEPARATOR
    (P.keccak (abiEncode [P.ORDER_TYPEHASH, o.owner, o.receiver, o.sellToken, o.buyToken,
      o.sellAmount, o.minBuyAmount, o.validTo, o.nonce, o.appData]))

/-- `MAX_FEE_BPS_CEILING`. -/
def MAX_FEE_BPS_CEILING : Nat := 100

/-- What happened to orders. -/
inductive Entry where
  | deposited (o : Order)
  | refunded (o : Order)
  | cancelled (owner : Address) (nonce : Nat)
  /-- A settlement took the order. -/
  | filled (o : Order)
  /-- A settlement used up what was escrowed for the order. -/
  | consumed (o : Order)
  deriving DecidableEq

/-- The contract's storage. -/
structure Store where
  owner : Address
  solver : Address
  treasury : Address
  maxFeeBps : Nat
  nonceUsed : Address → Nat → Bool
  escrowed : Bytes32 → Nat
  escrowTotal : Nat
  locked : Bool
  journal : List Entry

structure State where
  chain : Chain
  store : Store
  now : Nat

/-- The ledger as a part of the state. -/
def ledger : Part State Chain where
  get := State.chain
  set s c := { s with chain := c }
  get_set _ _ := rfl
  set_get _ := rfl
  set_set _ _ _ := rfl

/-- Why a call reverts. -/
inductive Error where
  | NotOwner | NotSolver | Reentrancy | ZeroAddress | BpsTooHigh (bps : Nat)
  | Expired (orderHash : Bytes32) | NonceUsed (owner : Address) (nonce : Nat)
  | BadSignature (orderHash : Bytes32) | SameToken | ZeroAmount | NoPrice (token : Address)
  | LimitNotMet (orderHash : Bytes32) (buyAmount minBuyAmount : Nat)
  | ContractLostFunds (token : Address) (before after : Nat)
  | FeeAboveCap (token : Address) (fee cap : Nat)
  | NotEscrowed (orderHash : Bytes32) | NotYetExpired (orderHash : Bytes32)
  | DepositMismatch | NotPoolManager
  /-- What `simulate` answers. -/
  | SimResult (tokens : List Address) (delta : List Int) (owed buyAmounts : List Nat)
  /-- The shared code's `BadLegs`, `BadPath`, `LegMismatch`, `TransferFailed`,
  and calls that fail. -/
  | venue (e : VenueError)
  /-- Checked arithmetic failed. -/
  | Panic
  /-- Ether sent to a function that is not payable. -/
  | NotPayable
  deriving DecidableEq

/-- A function body. -/
abbrev Body := Prog State Query Answer Error

/-- Code that works on the ledger alone. -/
def onChain {α : Type} (p : Op α) : Body α := Prog.zoom ledger .venue p

/-- Change the storage. -/
def modify (f : Store → Store) : Body Unit := Prog.write fun s => { s with store := f s.store }

namespace Store

def lock (st : Store) : Store := { st with locked := true }

def unlock (st : Store) : Store := { st with locked := false }

/-- Set what is escrowed under a hash. -/
def setEscrow (st : Store) (h : Bytes32) (v : Nat) : Store :=
  { st with escrowed := Function.update st.escrowed h v }

def setTotal (st : Store) (v : Nat) : Store := { st with escrowTotal := v }

/-- Burn a nonce. -/
def useNonce (st : Store) (a : Address) (n : Nat) : Store :=
  { st with
    nonceUsed := Function.update st.nonceUsed a (Function.update (st.nonceUsed a) n true) }

def record (st : Store) (e : Entry) : Store := { st with journal := e :: st.journal }

end Store

/-- `constructor`; the immutables are checked where they are built. -/
def constructor (owner solver treasury : Address) (maxFeeBps : Nat) : Except Error Store :=
  if owner = 0 ∨ solver = 0 ∨ treasury = 0 then .error .ZeroAddress
  else if MAX_FEE_BPS_CEILING < maxFeeBps then .error (.BpsTooHigh maxFeeBps)
  else .ok {
    owner, solver, treasury, maxFeeBps
    nonceUsed := fun _ _ => false, escrowed := fun _ => 0, escrowTotal := 0
    locked := false, journal := [] }

def nonReentrant {α : Type} (body : Body α) : Body α := do
  let s ← Prog.read
  Prog.require (s.store.locked = false) .Reentrancy
  modify Store.lock
  let a ← body
  modify Store.unlock
  pure a

def onlyOwner (sender : Address) (body : Body Unit) : Body Unit := do
  let s ← Prog.read
  Prog.require (sender = s.store.owner) .NotOwner
  body

/-! ## Orders -/

def depositOrder (sender : Address) (value : Nat) (P : Params) (o : Order) : Body Unit :=
  nonReentrant do
    Prog.require (¬ (o.owner ≠ sender ∨ o.sellToken ≠ P.I.WETH ∨ o.sellAmount ≠ value ∨
      value = 0)) .DepositMismatch
    let s ← Prog.read
    Prog.require (¬ o.validTo < s.now) (.Expired (P.orderHash o))
    Prog.require (s.store.nonceUsed o.owner o.nonce = false) (.NonceUsed o.owner o.nonce)
    let h := P.orderHash o
    Prog.require (s.store.escrowed h = 0) .DepositMismatch
    onChain (wethDeposit P.I value)
    let total ← Prog.orRevert (addU s.store.escrowTotal value) .Panic
    modify fun st => ((st.setEscrow h value).setTotal total).record (.deposited o)

def refund (P : Params) (o : Order) : Body Unit := nonReentrant do
  let s ← Prog.read
  let h := P.orderHash o
  let amount := s.store.escrowed h
  Prog.require (amount ≠ 0) (.NotEscrowed h)
  Prog.require (¬ s.now ≤ o.validTo) (.NotYetExpired h)
  let total ← Prog.orRevert (subU s.store.escrowTotal amount) .Panic
  modify fun st => ((st.setEscrow h 0).setTotal total).record (.refunded o)
  onChain (wethWithdraw P.I amount)
  onChain (send P.I o.owner amount)

def cancel (sender : Address) (nonce : Nat) : Body Unit :=
  modify fun st => (st.useNonce sender nonce).record (.cancelled sender nonce)

/-! ## Settlement -/

/-- A listed token: entry `i` of the arrays `tokens`, `px`, `before` and
`volume`. -/
structure Row where
  token : Address
  px : Nat
  before : Nat
  volume : Nat
  deriving DecidableEq

structure Batch where
  rows : List Row
  buyAmounts : List Nat
  escrowConsumed : Nat

/-- `_priceOf`: the first price of the token that is not zero. -/
def priceOf : List Row → Address → Except Error Nat
  | [], token => .error (.NoPrice token)
  | r :: rows, token =>
      if r.token = token ∧ r.px ≠ 0 then .ok r.px else priceOf rows token

/-- `_addVolume`: to the first row of the token. -/
def addVolume : List Row → Address → Nat → Except Error (List Row)
  | [], token, _ => .error (.NoPrice token)
  | r :: rows, token, amount =>
      if r.token = token then
        match addU r.volume amount with
        | some volume => .ok ({ r with volume } :: rows)
        | none => .error .Panic
      else (addVolume rows token amount).map (r :: ·)

/-- `_validSignature`: ECDSA first, then ERC-1271 for an account with code. -/
def validSignature (P : Params) (c : Chain) (signer : Address) (digest : Bytes32)
    (sig : Bytes) : Prop :=
  ecdsaSigner P.ecrecover digest sig = some signer ∨
    c.code signer = true ∧ c.accepts signer digest sig = true

instance (P : Params) (c : Chain) (signer : Address) (digest : Bytes32) (sig : Bytes) :
    Decidable (validSignature P c signer digest sig) :=
  inferInstanceAs (Decidable (_ ∨ _))

/-- A priced token is watched from its balance now. -/
def watch (P : Params) (p : Price) : Body Row := do
  Prog.require (p.price ≠ 0) (.NoPrice p.token)
  let before ← onChain (balanceOf P.I (P.I.asErc20 p.token))
  pure ⟨P.I.asErc20 p.token, p.price, before, 0⟩

def watchAll (P : Params) : List Price → Body (List Row)
  | [] => pure []
  | p :: prices => do
      let r ← watch P p
      let rows ← watchAll P prices
      pure (r :: rows)

/-- The rows of a batch: WETH is always watched, priced or not. -/
def openRows (P : Params) (prices : List Price) : Body (List Row) :=
  if P.I.WETH ∈ prices.map (fun p => P.I.asErc20 p.token) then watchAll P prices
  else do
    let before ← onChain (balanceOf P.I P.I.WETH)
    let rows ← watchAll P prices
    pure (⟨P.I.WETH, 0, before, 0⟩ :: rows)

/-- Expiry and nonce; only `settle` asks. -/
def take (P : Params) (strict : Bool) (o : Order) : Body Unit :=
  if strict then do
    let s ← Prog.read
    Prog.require (¬ o.validTo < s.now) (.Expired (P.orderHash o))
    Prog.require (s.store.nonceUsed o.owner o.nonce = false) (.NonceUsed o.owner o.nonce)
    modify fun st => (st.useNonce o.owner o.nonce).record (.filled o)
  else pure ()

/-- The order's money: what is escrowed for it, or its owner's.  Answers what
was taken from escrow. -/
def fund (P : Params) (strict : Bool) (o : Order) (sig : Bytes) : Body Nat := do
  let s ← Prog.read
  let esc := s.store.escrowed (P.orderHash o)
  if esc ≠ 0 then do
    modify fun st => (st.setEscrow (P.orderHash o) 0).record (.consumed o)
    pure esc
  else do
    Prog.require (strict = true → validSignature P s.chain o.owner (P.orderHash o) sig)
      (.BadSignature (P.orderHash o))
    onChain (pull P.I o.sellToken o.owner o.sellAmount)
    pure 0

/-- The body of the loop of `_prepareInner`. -/
def fill (P : Params) (strict : Bool) (o : Order) (sig : Bytes) (b : Batch) : Body Batch := do
  Prog.require (o.sellAmount ≠ 0) .ZeroAmount
  let buyTok := P.I.asErc20 o.buyToken
  Prog.require (o.sellToken ≠ buyTok) .SameToken
  take P strict o
  let esc ← fund P strict o sig
  let escrowConsumed ← Prog.orRevert (addU b.escrowConsumed esc) .Panic
  let sellPrice ← Prog.ofExcept (priceOf b.rows o.sellToken)
  let product ← Prog.orRevert (mulU o.sellAmount sellPrice) .Panic
  let buyPrice ← Prog.ofExcept (priceOf b.rows buyTok)
  let buyAmount ← Prog.orRevert (divU product buyPrice) .Panic
  Prog.require (strict = true → ¬ buyAmount < o.minBuyAmount)
    (.LimitNotMet (P.orderHash o) buyAmount o.minBuyAmount)
  let sold ← Prog.ofExcept (addVolume b.rows o.sellToken o.sellAmount)
  let rows ← Prog.ofExcept (addVolume sold buyTok buyAmount)
  pure { rows, buyAmounts := b.buyAmounts ++ [buyAmount], escrowConsumed }

def fillAll (P : Params) (strict : Bool) : List (Order × Bytes) → Batch → Body Batch
  | [], b => pure b
  | (o, sig) :: orders, b => do
      let b ← fill P strict o sig b
      fillAll P strict orders b

/-- `_prepareInner`. -/
def prepare (P : Params) (orders : List Order) (signatures : List Bytes) (prices : List Price)
    (strict : Bool) : Body Batch := do
  let rows ← openRows P prices
  fillAll P strict (orders.zip signatures) ⟨rows, [], 0⟩

/-- The output of a route, back in ERC-20 form. -/
def wrapOut (I : Immutables) (out : Nat) (haveNative : Bool) : Op Unit :=
  if haveNative then wethDeposit I out else pure ()

/-- `_interact`. -/
def interact (I : Immutables) : List Interaction → Op Unit
  | [] => pure ()
  | x :: interactions => do
      Prog.require (x.legs ≠ []) .BadLegs
      let out ← Legs.run I x.legs x.amountIn false
      wrapOut I out.1 out.2
      interact I interactions

/-- Where an order's buy goes. -/
def Order.recipient (o : Order) : Address := if o.receiver = 0 then o.owner else o.receiver

/-- One buy, in ether or as a token. -/
def payOne (I : Immutables) (o : Order) (buyAmount : Nat) : Op Unit :=
  if o.buyToken = NATIVE then do
    wethWithdraw I buyAmount
    send I o.recipient buyAmount
  else payToken I o.buyToken o.recipient buyAmount

/-- `_pay`. -/
def pay (I : Immutables) : List (Order × Nat) → Op Unit
  | [] => pure ()
  | (o, buyAmount) :: orders => do
      payOne I o buyAmount
      pay I orders

/-- What the contract should still hold of a listed token. -/
def expected (I : Immutables) (escrowConsumed : Nat) (r : Row) : Option Nat :=
  if r.token = I.WETH then subU r.before escrowConsumed else some r.before

/-- `if (fee != 0)` it goes to the treasury. -/
def sendFee (I : Immutables) (token treasury : Address) (fee : Nat) : Op Unit :=
  if fee ≠ 0 then payToken I token treasury fee else pure ()

/-- The body of the loop of `_checkAndTakeFee`; answers the fee. -/
def takeFee (P : Params) (escrowConsumed : Nat) (r : Row) : Body Nat := do
  let expected ← Prog.orRevert (expected P.I escrowConsumed r) .Panic
  let after ← onChain (balanceOf P.I r.token)
  Prog.require (¬ after < expected) (.ContractLostFunds r.token expected after)
  let fee := after - expected
  let s ← Prog.read
  let product ← Prog.orRevert (mulU r.volume s.store.maxFeeBps) .Panic
  let cap := product / 10000
  Prog.require (¬ cap < fee) (.FeeAboveCap r.token fee cap)
  onChain (sendFee P.I r.token s.store.treasury fee)
  pure fee

def takeFees (P : Params) (escrowConsumed : Nat) : List Row → Body (List Nat)
  | [] => pure []
  | r :: rows => do
      let fee ← takeFee P escrowConsumed r
      let fees ← takeFees P escrowConsumed rows
      pure (fee :: fees)

/-- `_checkAndTakeFee`. -/
def checkAndTakeFee (P : Params) (b : Batch) : Body (List Nat) := do
  let fees ← takeFees P b.escrowConsumed b.rows
  let s ← Prog.read
  Prog.require (s.chain.eth P.I.this = 0) (.venue .BadLegs)
  pure fees

/-- `settle`, answering the fee taken of each listed token. -/
def settle (sender : Address) (P : Params) (orders : List Order) (signatures : List Bytes)
    (prices : List Price) (interactions : List Interaction) : Body (List Nat) :=
  nonReentrant do
    let s ← Prog.read
    Prog.require (sender = s.store.solver) .NotSolver
    Prog.require (orders.length = signatures.length) (.BadSignature 0)
    let b ← prepare P orders signatures prices true
    let s ← Prog.read
    let total ← Prog.orRevert (subU s.store.escrowTotal b.escrowConsumed) .Panic
    modify fun st => st.setTotal total
    onChain (interact P.I interactions)
    onChain (pay P.I (orders.zip b.buyAmounts))
    checkAndTakeFee P b

/-- How one listed token moved. -/
def rowDelta (P : Params) (escrowConsumed : Nat) (r : Row) : Body Int := do
  let expected ← Prog.orRevert (expected P.I escrowConsumed r) .Panic
  let now ← onChain (balanceOf P.I r.token)
  Prog.orRevert (subI (toI256 now) (toI256 expected)) .Panic

def rowDeltas (P : Params) (escrowConsumed : Nat) : List Row → Body (List Int)
  | [] => pure []
  | r :: rows => do
      let delta ← rowDelta P escrowConsumed r
      let deltas ← rowDeltas P escrowConsumed rows
      pure (delta :: deltas)

/-- `owed[j] += buyAmount` for the first listed token that is `token`. -/
def addOwed : List Address → List Nat → Address → Nat → Option (List Nat)
  | t :: tokens, v :: owed, token, amount =>
      if t = token then (addU v amount).map (· :: owed)
      else (addOwed tokens owed token amount).map (v :: ·)
  | _, owed, _, _ => some owed

/-- What the buyers are owed of each listed token. -/
def sumOwed (I : Immutables) (tokens : List Address) : List (Order × Nat) → List Nat →
    Option (List Nat)
  | [], owed => some owed
  | (o, buyAmount) :: orders, owed =>
      (addOwed tokens owed (I.asErc20 o.buyToken) buyAmount).bind (sumOwed I tokens orders)

def simulate (P : Params) (orders : List Order) (prices : List Price)
    (interactions : List Interaction) : Body Unit := do
  let b ← prepare P orders (orders.map fun _ => []) prices false
  onChain (interact P.I interactions)
  let delta ← rowDeltas P b.escrowConsumed b.rows
  let tokens := b.rows.map Row.token
  let owed ← Prog.orRevert
    (sumOwed P.I tokens (orders.zip b.buyAmounts) (tokens.map fun _ => 0)) .Panic
  Prog.revert (.SimResult tokens delta owed b.buyAmounts)

/-! ## Admin -/

def setSolver (sender solver : Address) : Body Unit := onlyOwner sender do
  Prog.require (solver ≠ 0) .ZeroAddress
  modify fun st => { st with solver }

def setTreasury (sender treasury : Address) : Body Unit := onlyOwner sender do
  Prog.require (treasury ≠ 0) .ZeroAddress
  modify fun st => { st with treasury }

def setMaxFeeBps (sender : Address) (bps : Nat) : Body Unit := onlyOwner sender do
  Prog.require (¬ MAX_FEE_BPS_CEILING < bps) (.BpsTooHigh bps)
  modify fun st => { st with maxFeeBps := bps }

def transferOwnership (sender owner : Address) : Body Unit := onlyOwner sender do
  Prog.require (owner ≠ 0) .ZeroAddress
  modify fun st => { st with owner }

/-- What of a token is not escrowed. -/
def surplus (P : Params) (st : Store) (token : Address) (bal : Nat) : Option Nat :=
  if token = P.I.WETH then subU bal st.escrowTotal else some bal

def sweep (sender : Address) (P : Params) (token recipient : Address) : Body Unit :=
  onlyOwner sender do
    Prog.require (recipient ≠ 0) .ZeroAddress
    let all ← onChain (balanceOf P.I token)
    let s ← Prog.read
    let bal ← Prog.orRevert (surplus P s.store token all) .Panic
    onChain (sendFee P.I token recipient bal)

/-! ## The contract as a system -/

/-- The external functions. -/
inductive Call where
  | depositOrder (o : Order)
  | refund (o : Order)
  | cancel (nonce : Nat)
  | settle (orders : List Order) (signatures : List Bytes) (prices : List Price)
      (interactions : List Interaction)
  | simulate (orders : List Order) (prices : List Price) (interactions : List Interaction)
  | unlockCallback
  | setSolver (solver : Address)
  | setTreasury (treasury : Address)
  | setMaxFeeBps (bps : Nat)
  | transferOwnership (owner : Address)
  | sweep (token recipient : Address)

/-- A call by `sender` with `value` ether.  The contract calls none of its own
external functions. -/
structure Msg (I : Immutables) where
  sender : Address
  value : Nat
  call : Call
  sender_ne_this : sender ≠ I.this

/-- The ether a call brings. -/
def payIn (I : Immutables) (sender : Address) (value : Nat) : Body Unit := do
  let s ← Prog.read
  Prog.require (value ≤ s.chain.eth sender) .Panic
  Prog.write fun s => { s with chain := s.chain.moveEth sender I.this value }

/-- A function that takes no ether. -/
def notPayable (value : Nat) (body : Body Unit) : Body Unit := do
  Prog.require (value = 0) .NotPayable
  body

/-- What a call runs.  `unlockCallback` answers the PoolManager alone, which
calls it only inside this contract's own swaps. -/
def entry (P : Params) (m : Msg P.I) : Body Unit :=
  match m.call with
  | .depositOrder o => do
      payIn P.I m.sender m.value
      depositOrder m.sender m.value P o
  | .refund o => notPayable m.value (refund P o)
  | .cancel nonce => notPayable m.value (cancel m.sender nonce)
  | .settle orders signatures prices interactions => notPayable m.value do
      let _ ← settle m.sender P orders signatures prices interactions
      pure ()
  | .simulate orders prices interactions =>
      notPayable m.value (simulate P orders prices interactions)
  | .unlockCallback => Prog.revert .NotPoolManager
  | .setSolver solver => notPayable m.value (setSolver m.sender solver)
  | .setTreasury treasury => notPayable m.value (setTreasury m.sender treasury)
  | .setMaxFeeBps bps => notPayable m.value (setMaxFeeBps m.sender bps)
  | .transferOwnership owner => notPayable m.value (transferOwnership m.sender owner)
  | .sweep token recipient => notPayable m.value (sweep m.sender P token recipient)

/-- The contract among everybody else; `pushes` says whether they pay it ether
it did not ask for. -/
def system (P : Params) (pushes : Prop) : System State Query Answer Error (Msg P.I) where
  entry := entry P
  outside s t := t.store = s.store ∧ s.now ≤ t.now ∧ Outside P.I pushes s.chain t.chain
  reply s q t a := t.store = s.store ∧ t.now = s.now ∧ Reply P.I s.chain q t.chain a

/-- A state the constructor leaves. -/
def Deployed (s : State) : Prop :=
  ∃ owner solver treasury maxFeeBps,
    constructor owner solver treasury maxFeeBps = .ok s.store

end Ordo.OrdoBatch
