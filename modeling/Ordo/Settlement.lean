import Ordo.Delayed
import Ordo.Reentrant.World
import Ordo.Words

/-!
# OrdoSettlement

The settlement contract of the back-run auction.  Searchers bond ether; the
auctioneer charges a winning bid against the bond with the searcher's own
signature and splits it between the user, the app and the treasury, who claim
their parts.  A bond leaves in two steps, `requestWithdraw` and, after
`WITHDRAW_DELAY`, `withdrawBond`.

The only calls out are the ether transfers of `withdrawBond` and `claim`; the
recipient runs any code, and may call back.  The contract never calls itself,
so a sender is never the contract.  Events are left out: nothing reads them.
In their place the state carries a journal of what was done and by whom, newest
first, and counts the ether that was forced in without a call; no function
reads either.
-/

namespace Ordo.OrdoSettlement

open Reentrant

/-- What is fixed at deployment, and the hash and precompile the contract
uses. -/
structure Params where
  WITHDRAW_DELAY : Nat
  DOMAIN_SEPARATOR : Bytes32
  BID_TYPEHASH : Bytes32
  keccak : Bytes → Bytes32
  ecrecover : Bytes32 → Nat → Nat → Nat → Address

/-- `bidDigest`: what a searcher signs for a bid of up to `maxAmountWei`. -/
def Params.bidDigest (P : Params) (searcher : Address) (opportunityId : Bytes32)
    (maxAmountWei : Nat) : Bytes32 :=
  typedDigest P.keccak P.DOMAIN_SEPARATOR
    (P.keccak (abiEncode [P.BID_TYPEHASH, searcher, opportunityId, maxAmountWei]))

/-- The auctioneer's instruction to charge a bid. -/
structure Settlement where
  searcher : Address
  opportunityId : Bytes32
  maxAmountWei : Nat
  chargeWei : Nat
  user : Address
  app : Address
  deriving DecidableEq

/-- A pending withdrawal; `readyAt = 0` when there is none. -/
structure Withdrawal where
  amount : Nat
  readyAt : Nat
  deriving DecidableEq

/-- What was done, by whom. -/
inductive Entry where
  | deposited (searcher : Address) (amount : Nat)
  | requested (searcher : Address) (amount : Nat) (time : Nat)
  | cancelled (searcher : Address)
  | withdrawn (searcher : Address) (amount : Nat) (readyAt time : Nat)
  /-- A charge, with the sender and the auctioneer at the time. -/
  | settled (sender auctioneer : Address) (s : Settlement) (searcherSig : Bytes)
  | claimed (beneficiary : Address) (amount : Nat)
  deriving DecidableEq

/-- The contract's storage, its ether and the block time. -/
structure State where
  bond : Address → Nat
  claimable : Address → Nat
  settled : Bytes32 → Bool
  withdrawal : Address → Withdrawal
  owner : Address
  auctioneer : Address
  protocolTreasury : Address
  appBps : Nat
  protocolBps : Nat
  locked : Bool
  balance : Nat
  now : Nat
  /-- Ether that came in without a call. -/
  forced : Nat
  journal : List Entry

/-- Why a call reverts. -/
inductive Error where
  | NotOwner | NotAuctioneer | AlreadySettled | BadSignature | ChargeExceedsBid
  | InsufficientBond | NothingToClaim | NoWithdrawalPending
  | WithdrawalNotReady (readyAt : Nat)
  | InvalidSplit | ZeroAddress | TransferFailed | Reentrancy
  /-- Checked arithmetic failed. -/
  | Panic
  /-- Ether sent to a function that is not payable. -/
  | NotPayable
  deriving DecidableEq

/-- An ether transfer, which runs the recipient's code. -/
structure Send where
  recipient : Address
  amount : Nat
  deriving DecidableEq

/-- A function body; the answer to a transfer is whether it succeeded. -/
abbrev Body := Prog State Send Bool Error

/-- Add to the journal. -/
def State.record (s : State) (e : Entry) : State := { s with journal := e :: s.journal }

def constructor (sender auctioneer protocolTreasury : Address) (appBps protocolBps : Nat)
    (balance now : Nat) : Except Error State :=
  if auctioneer = 0 ∨ protocolTreasury = 0 then .error .ZeroAddress
  else if 10000 < appBps + protocolBps then .error .InvalidSplit
  else .ok {
    bond := fun _ => 0, claimable := fun _ => 0, settled := fun _ => false
    withdrawal := fun _ => ⟨0, 0⟩
    owner := sender, auctioneer, protocolTreasury, appBps, protocolBps
    locked := false, balance, now, forced := balance, journal := [] }

def nonReentrant (body : Body Unit) : Body Unit := do
  let s ← Prog.read
  Prog.require (s.locked = false) .Reentrancy
  Prog.write fun s => { s with locked := true }
  body
  Prog.write fun s => { s with locked := false }

def onlyOwner (sender : Address) (body : Body Unit) : Body Unit := do
  let s ← Prog.read
  Prog.require (sender = s.owner) .NotOwner
  body

/-! ## Bonding -/

/-- `deposit`, and `receive`, which does the same. -/
def deposit (sender : Address) (value : Nat) : Body Unit := do
  let s ← Prog.read
  let newBond ← Prog.orRevert (addU (s.bond sender) value) .Panic
  Prog.write fun s =>
    { s with bond := Function.update s.bond sender newBond }.record (.deposited sender value)

def requestWithdraw (sender : Address) (P : Params) (amount : Nat) : Body Unit := do
  let s ← Prog.read
  Prog.require (¬ (amount = 0 ∨ s.bond sender < amount)) .InsufficientBond
  let readyAt ← Prog.orRevert (addU64 (toU64 s.now) P.WITHDRAW_DELAY) .Panic
  Prog.write fun s =>
    { s with withdrawal := Function.update s.withdrawal sender ⟨amount, readyAt⟩ }.record
      (.requested sender amount s.now)

def cancelWithdraw (sender : Address) : Body Unit := do
  let s ← Prog.read
  Prog.require ((s.withdrawal sender).readyAt ≠ 0) .NoWithdrawalPending
  Prog.write fun s =>
    { s with withdrawal := Function.update s.withdrawal sender ⟨0, 0⟩ }.record
      (.cancelled sender)

/-- `_send`: the amount leaves before the recipient runs. -/
def send (recipient : Address) (amount : Nat) : Body Unit := do
  let s ← Prog.read
  Prog.require (amount ≤ s.balance) .TransferFailed
  Prog.write fun s => { s with balance := s.balance - amount }
  let ok ← Prog.ask ⟨recipient, amount⟩
  Prog.require (ok = true) .TransferFailed

def withdrawBond (sender : Address) : Body Unit := nonReentrant do
  let s ← Prog.read
  let w := s.withdrawal sender
  Prog.require (w.readyAt ≠ 0) .NoWithdrawalPending
  Prog.require (¬ s.now < w.readyAt) (.WithdrawalNotReady w.readyAt)
  let bal := s.bond sender
  let amount := if w.amount < bal then w.amount else bal
  Prog.write fun s =>
    { s with
      withdrawal := Function.update s.withdrawal sender ⟨0, 0⟩
      bond := Function.update s.bond sender (bal - amount) }.record
      (.withdrawn sender amount w.readyAt s.now)
  send sender amount

/-- `collateral`: what the auctioneer may accept bids against. -/
def collateral (s : State) (searcher : Address) : Nat :=
  let bal := s.bond searcher
  let leaving := (s.withdrawal searcher).amount
  if bal ≤ leaving then 0 else bal - leaving

/-! ## Settling -/

/-- `_recover`. -/
def recover (P : Params) (digest : Bytes32) (sig : Bytes) : Body Address :=
  Prog.orRevert (ecdsaSigner P.ecrecover digest sig) .BadSignature

/-- `amount * bps / 10_000`. -/
def share (amount bps : Nat) : Body Nat := do
  let product ← Prog.orRevert (mulU amount bps) .Panic
  pure (product / 10000)

/-- The app's share; an absent app forfeits it to the user. -/
def appShare (app : Address) (amount bps : Nat) : Body Nat :=
  if app = 0 then pure 0 else share amount bps

/-- `if (amount > 0) claimable[beneficiary] += amount`. -/
def credit (beneficiary : Address) (amount : Nat) : Body Unit :=
  if 0 < amount then do
    let s ← Prog.read
    let total ← Prog.orRevert (addU (s.claimable beneficiary) amount) .Panic
    Prog.write fun s => { s with claimable := Function.update s.claimable beneficiary total }
  else pure ()

def settle (sender : Address) (P : Params) (s : Settlement) (searcherSig : Bytes) :
    Body Unit := do
  let st ← Prog.read
  Prog.require (sender = st.auctioneer) .NotAuctioneer
  Prog.require (st.settled s.opportunityId = false) .AlreadySettled
  Prog.require (¬ s.maxAmountWei < s.chargeWei) .ChargeExceedsBid
  let signer ← recover P (P.bidDigest s.searcher s.opportunityId s.maxAmountWei) searcherSig
  Prog.require (signer = s.searcher) .BadSignature
  let amount := s.chargeWei
  Prog.require (¬ st.bond s.searcher < amount) .InsufficientBond
  Prog.require (s.user ≠ 0) .ZeroAddress
  Prog.write fun st =>
    { st with
      settled := Function.update st.settled s.opportunityId true
      bond := Function.update st.bond s.searcher (st.bond s.searcher - amount) }.record
      (.settled sender st.auctioneer s searcherSig)
  let appAmt ← appShare s.app amount st.appBps
  let protocolAmt ← share amount st.protocolBps
  let rest ← Prog.orRevert (subU amount appAmt) .Panic
  let userAmt ← Prog.orRevert (subU rest protocolAmt) .Panic
  credit s.user userAmt
  credit s.app appAmt
  credit st.protocolTreasury protocolAmt

/-! ## Claims -/

def claim (sender : Address) : Body Unit := nonReentrant do
  let s ← Prog.read
  let amount := s.claimable sender
  Prog.require (amount ≠ 0) .NothingToClaim
  Prog.write fun s =>
    { s with claimable := Function.update s.claimable sender 0 }.record
      (.claimed sender amount)
  send sender amount

/-! ## Admin -/

def setAuctioneer (sender auctioneer : Address) : Body Unit := onlyOwner sender do
  Prog.require (auctioneer ≠ 0) .ZeroAddress
  Prog.write fun s => { s with auctioneer }

def setSplit (sender : Address) (appBps protocolBps : Nat) : Body Unit := onlyOwner sender do
  Prog.require (¬ 10000 < appBps + protocolBps) .InvalidSplit
  Prog.write fun s => { s with appBps, protocolBps }

def setProtocolTreasury (sender treasury : Address) : Body Unit := onlyOwner sender do
  Prog.require (treasury ≠ 0) .ZeroAddress
  Prog.write fun s => { s with protocolTreasury := treasury }

def transferOwnership (sender owner : Address) : Body Unit := onlyOwner sender do
  Prog.require (owner ≠ 0) .ZeroAddress
  Prog.write fun s => { s with owner }

/-! ## The contract as a system -/

/-- The external functions; plain ether is a `deposit`. -/
inductive Call where
  | deposit
  | requestWithdraw (amount : Nat)
  | cancelWithdraw
  | withdrawBond
  | settle (s : Settlement) (searcherSig : Bytes)
  | claim
  | setAuctioneer (auctioneer : Address)
  | setSplit (appBps protocolBps : Nat)
  | setProtocolTreasury (treasury : Address)
  | transferOwnership (owner : Address)

/-- A call by `sender` with `value` ether. -/
structure Msg where
  sender : Address
  value : Nat
  call : Call

/-- A function that takes no ether. -/
def notPayable (value : Nat) (body : Body Unit) : Body Unit := do
  Prog.require (value = 0) .NotPayable
  body

/-- What a call runs. -/
def entry (P : Params) (m : Msg) : Body Unit :=
  match m.call with
  | .deposit => do
      Prog.write fun s => { s with balance := s.balance + m.value }
      deposit m.sender m.value
  | .requestWithdraw amount => notPayable m.value (requestWithdraw m.sender P amount)
  | .cancelWithdraw => notPayable m.value (cancelWithdraw m.sender)
  | .withdrawBond => notPayable m.value (withdrawBond m.sender)
  | .settle s searcherSig => notPayable m.value (settle m.sender P s searcherSig)
  | .claim => notPayable m.value (claim m.sender)
  | .setAuctioneer auctioneer => notPayable m.value (setAuctioneer m.sender auctioneer)
  | .setSplit appBps protocolBps => notPayable m.value (setSplit m.sender appBps protocolBps)
  | .setProtocolTreasury treasury =>
      notPayable m.value (setProtocolTreasury m.sender treasury)
  | .transferOwnership owner => notPayable m.value (transferOwnership m.sender owner)

/-- The contract among everybody else.  On their own they can force ether in
and let time pass (block times are 64-bit, and letting time pass inside a
transaction only allows more); the recipient of a transfer does nothing to the
contract except by calling it. -/
def system (P : Params) : System State Send Bool Error Msg where
  entry := entry P
  outside s t := ∃ value later, later < 2 ^ 64 ∧ s.now ≤ later ∧
    t = { s with balance := s.balance + value, forced := s.forced + value, now := later }
  reply s _ t _ := t = s

/-- A state the constructor leaves. -/
def Deployed (s : State) : Prop :=
  ∃ sender auctioneer treasury appBps protocolBps balance now, now < 2 ^ 64 ∧
    constructor sender auctioneer treasury appBps protocolBps balance now = .ok s

end Ordo.OrdoSettlement
