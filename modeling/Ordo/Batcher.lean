import Ordo.Tables
import Ordo.BatchSolve

/-!
# The batcher

Orders are posted, or posted and funded by a deposit, and wait in a table.  Every window
takes the orders that are ready, groups them by pair, and settles each pair: the pair is
solved, the settlement is dry-run, sent, and its receipt is waited for.  Whatever happens
to a settlement happens to all of its orders.

Only the code between two awaits is one step.  In between, the answers of the chain come
in any order, orders are posted, settlements are mined or not, and the process may be
restarted, which loses all that it had in memory.

1.  Intake: the checks that keep a bad order out (`vet`, `checkAnswers`).
2.  A window: what expires, what is ready, how it is grouped (`groupByPair`).
3.  A settlement: four steps, one for each answer.
4.  The world: the process, and the part of the chain that it depends on (`step`).
-/

namespace Ordo

namespace Batcher

open OrdoBatch (Order Interaction Params)
open Solver

abbrev TxHash := Bytes32

def MAX_ATTEMPTS : Nat := 3

/-- What is said of an order that is rejected. -/
inductive Reason where
  | dropped (reason : Solver.Reason)
  | unsolved (error : SolveError)
  /-- `settlement would revert`. -/
  | wouldRevert (error : String)
  /-- `could not submit`. -/
  | couldNotSubmit (msg : String)
  /-- `settlement reverted on-chain`. -/
  | reverted
  /-- `settlement not mined`. -/
  | notMined
  deriving DecidableEq

inductive OrderStatus where
  | pending
  | awaitingDeposit
  | settling (txHash : TxHash)
  | filled (txHash : TxHash) (buyAmount : Int) (alone : Option Int) (netted : Bool)
  | rejected (reason : Reason)
  | expired
  deriving DecidableEq

structure Pending where
  order : Order
  signature : Bytes
  /-- Funded by `depositOrder`; settled from escrow, no signature. -/
  deposited : Bool
  receivedAt : Nat
  attempts : Nat
  status : OrderStatus
  /-- Which object it is, as an order can be put down twice. -/
  ref : Nat
  deriving DecidableEq

/-- What is configured. -/
structure Config where
  P : Params
  MAX_VALID_S : Nat

/-- `chain.orderHash`, the key of an order. -/
def Config.hash (cfg : Config) (o : Order) : Bytes32 := cfg.P.orderHash o

abbrev Config.WETH (cfg : Config) : Address := cfg.P.I.WETH

/-! ### Intake -/

/-- Why a post is refused. -/
inductive Refusal where
  | sellAmount
  | sameToken
  | sellsEther
  | validToPast
  | validToAhead (limit : Nat)
  | nonceUsed
  | escrow
  | signatureLength
  | signatureOwner
  | balance (balance amount : Nat)
  | allowance (allowance amount : Nat)
  deriving DecidableEq

/-- The checks of `intake` that ask nobody; `now` is in seconds. -/
def vet (cfg : Config) (now : Nat) (o : Order) : Except Refusal Unit :=
  if o.sellAmount = 0 then .error .sellAmount
  else if asToken cfg.WETH o.sellToken = asToken cfg.WETH o.buyToken then .error .sameToken
  else if o.sellToken = NATIVE then .error .sellsEther
  else if o.validTo ≤ now + 1 then .error .validToPast
  else if now + cfg.MAX_VALID_S < o.validTo then .error (.validToAhead cfg.MAX_VALID_S)
  else .ok ()

/-- What the chain says of an order that is posted. -/
structure Answers where
  escrowed : Nat
  signer : Option Address
  hasCode : Bool
  allowance : Nat
  balance : Nat

/-- Allowance and balance: the two things that fail a pull. -/
def canPull (a : Answers) (amount : Nat) : Except Refusal Unit :=
  if a.balance < amount then .error (.balance a.balance amount)
  else if a.allowance < amount then .error (.allowance a.allowance amount)
  else .ok ()

/-- The checks of `intake` on what the chain says; an order without a signature is to be
paid for by a deposit. -/
def checkAnswers (o : Order) (signature : Bytes) (a : Answers) : Except Refusal OrderStatus :=
  if signature = [] then
    if a.escrowed = 0 then .ok .awaitingDeposit
    else if a.escrowed ≠ o.sellAmount then .error .escrow
    else .ok .pending
  else if signature.length ≠ 65 then .error .signatureLength
  else if a.signer ≠ some o.owner ∧ a.hasCode = false then .error .signatureOwner
  else (canPull a o.sellAmount).map fun _ => .pending

/-- A post that waits for an answer. -/
structure Intake where
  order : Order
  signature : Bytes
  /-- The nonce has been looked up, and was unused. -/
  nonceChecked : Bool

/-! ### A window -/

section Window

variable {WETH : Address}

/-- The pair of an order, in order. -/
def pairOf (WETH : Address) (o : Order) : Address × Address :=
  if asToken WETH o.sellToken ≤ asToken WETH o.buyToken then
    (asToken WETH o.sellToken, asToken WETH o.buyToken)
  else (asToken WETH o.buyToken, asToken WETH o.sellToken)

theorem sells_second {o : Order} (h : asToken WETH o.sellToken ≠ (pairOf WETH o).1) :
    asToken WETH o.sellToken = (pairOf WETH o).2 := by
  unfold pairOf at h ⊢
  split
  next hle =>
    rw [if_pos hle] at h
    exact absurd rfl h
  next => rfl

/-- A pair's batch with one order. -/
def batchOf (WETH : Address) (o : Order) : PairBatch WETH where
  a := (pairOf WETH o).1
  b := (pairOf WETH o).2
  sellA := if asToken WETH o.sellToken = (pairOf WETH o).1 then [o] else []
  sellB := if asToken WETH o.sellToken = (pairOf WETH o).1 then [] else [o]
  sellsA := by
    intro p hp
    split at hp
    next heq => rw [List.mem_singleton.mp hp, heq]
    next => cases hp
  sellsB := by
    intro p hp
    split at hp
    next => cases hp
    next hne =>
      rw [List.mem_singleton.mp hp]
      exact ⟨sells_second hne, sells_second hne ▸ hne⟩

/-- An order joins the batch of its pair. -/
def join (pb : PairBatch WETH) (o : Order) (h : pairOf WETH o = (pb.a, pb.b)) :
    PairBatch WETH where
  a := pb.a
  b := pb.b
  sellA := if asToken WETH o.sellToken = pb.a then pb.sellA ++ [o] else pb.sellA
  sellB := if asToken WETH o.sellToken = pb.a then pb.sellB else pb.sellB ++ [o]
  sellsA := by
    intro p hp
    split at hp
    next heq =>
      rcases List.mem_append.mp hp with hp | hp
      · exact pb.sellsA p hp
      · rw [List.mem_singleton.mp hp, heq]
    next => exact pb.sellsA p hp
  sellsB := by
    intro p hp
    split at hp
    next => exact pb.sellsB p hp
    next hne =>
      rcases List.mem_append.mp hp with hp | hp
      · exact pb.sellsB p hp
      · have hfirst : asToken WETH o.sellToken ≠ (pairOf WETH o).1 := by rw [h]; exact hne
        have hb : asToken WETH o.sellToken = pb.b := by rw [sells_second hfirst, h]
        rw [List.mem_singleton.mp hp]
        exact ⟨hb, hb ▸ hne⟩

/-- One round of `groupByPair`. -/
def group (o : Order) : List (PairBatch WETH) → List (PairBatch WETH)
  | [] => [batchOf WETH o]
  | pb :: rest =>
      if h : pairOf WETH o = (pb.a, pb.b) then join pb o h :: rest else pb :: group o rest

def groupByPair (WETH : Address) (orders : List Order) : List (PairBatch WETH) :=
  orders.foldl (fun batches o => group o batches) []

end Window

/-- Orders that are not taken up by their time end. -/
def expire (now : Nat) (p : Pending) : Pending :=
  if (p.status = .pending ∨ p.status = .awaitingDeposit) ∧ p.order.validTo ≤ now + 1 then
    { p with status := .expired }
  else p

/-- After ten minutes finished orders are forgotten. -/
def remembered (ms : Nat) (p : Pending) : Bool :=
  match p.status with
  | .pending | .settling _ => true
  | _ => ms ≤ p.receivedAt + 600000

/-! ### A settlement -/

/-- What is given to the private path. -/
structure Settlement where
  orders : List Order
  signatures : List Bytes
  prices : List Quote
  interactions : List Interaction
  gas : Nat

/-- `settlePair`, by what it waits for. -/
inductive Job (WETH : Address) where
  | solving (batch : PairBatch WETH)
  | dryRunning (solved : Solved WETH) (signatures : List Bytes)
  | sending (solved : Solved WETH) (txHash : TxHash)
  | waiting (solved : Solved WETH) (txHash : TxHash)
  | ended

/-- `tick`, by what it waits for: answers on deposits, or its settlements. -/
inductive Tick (WETH : Address) where
  | idle
  | checking (ready checks : List Pending)
  | settling (ready : List Pending) (jobs : List (Job WETH))

def Tick.jobs {WETH : Address} : Tick WETH → List (Job WETH)
  | .settling _ jobs => jobs
  | _ => []

def Tick.setJob {WETH : Address} (j : Nat) (job : Job WETH) : Tick WETH → Tick WETH
  | .settling ready jobs => .settling ready (jobs.set j job)
  | tick => tick

/-- An attempt that failed is counted, and `limit` of them reject the order. -/
def countAttempt (limit : Nat) (reason : Reason) (p : Pending) : Pending :=
  { p with
    attempts := p.attempts + 1
    status := if limit ≤ p.attempts + 1 then .rejected reason else p.status }

/-- The whole pair could not be settled this window. -/
def tryAgain (error : SolveError) (p : Pending) : Pending :=
  if p.status = .pending then countAttempt MAX_ATTEMPTS (.unsolved error) p else p

/-- The settlement reverted, or was not seen in time. -/
def putBack (reason : Reason) (p : Pending) : Pending :=
  { p with
    attempts := p.attempts + 1
    status := if MAX_ATTEMPTS ≤ p.attempts + 1 then .rejected reason else .pending }

def setStatus (status : OrderStatus) (p : Pending) : Pending := { p with status }

def filledStatus {WETH : Address} (solved : Solved WETH) (txHash : TxHash) (o : Order) :
    OrderStatus :=
  .filled txHash (buyAmount solved.batch solved.clearing o)
    (if (allOrders solved.batch).length = 1 then
      some (if asToken WETH o.sellToken = solved.batch.a then solved.aloneB else solved.aloneA)
    else none)
    (solved.batch.sellA ≠ [] ∧ solved.batch.sellB ≠ [])

/-- The seconds after `reset in`, if the message has them. -/
def resetIn (msg : List Char) : Option Nat :=
  msg.tails.findSome? fun rest =>
    if "reset in ".toList.isPrefixOf rest then
      let digits := (rest.drop 9).takeWhile Char.isDigit
      if digits ≠ [] ∧ " second".toList.isPrefixOf ((rest.drop 9).drop digits.length) then
        some (digits.foldl (fun n d => n * 10 + (d.toNat - 48)) 0)
      else none
    else none

/-- For how long no settlement is sent after a send was refused, in milliseconds. -/
def pauseFor (msg : String) : Nat :=
  let msg := msg.toList.map Char.toLower
  if ["429", "rate limit", "too many"].any fun s => msg.tails.any s.toList.isPrefixOf then
    ((resetIn msg).map (· * 1000)).getD 5000
  else 2000

/-! ### The world -/

/-- The orders of one owner. -/
def own {WETH : Address} (batch : PairBatch WETH) (owner : Address) : PairBatch WETH :=
  without batch ((allOrders batch).filter fun o => o.owner ≠ owner)

/-- With these routes and answers, the batch is solved with the order in it. -/
def takes {WETH : Address} (node : PairBatch WETH → Market) (batch : PairBatch WETH)
    (o : Order) : Bool :=
  match Solver.solve (node batch) batch with
  | .done (solved, _) => o ∈ allOrders solved.batch
  | _ => false

/-- An order that was not settled, and the orders that it was to be settled with. -/
structure Failure where
  order : Order
  batch : List Order
  /-- It is not known that its owner's orders alone would not have been solved with it. -/
  alone : Bool

/-- The process and the chain.  `failures` is not in the program: it lists each order
that a settlement failed. -/
structure World (WETH : Address) where
  orders : Table Bytes32 Pending
  inFlight : Finset Bytes32
  sendPausedUntil : Nat
  /-- How many `Pending` objects have been made. -/
  refs : Nat
  intakes : List Intake
  tick : Tick WETH
  sent : List (TxHash × Settlement)
  mined : List (TxHash × Bool)
  nonceUsed : List (Address × Nat)
  failures : List Failure

/-- What can happen next.  Times are in milliseconds. -/
inductive Event (WETH : Address) where
  | post (o : Order) (signature : Bytes) (ms : Nat)
  | nonceAnswer (i : Nat) (used : Bool)
  | accept (i : Nat) (answers : Answers) (ms : Nat)
  /-- A call that a post waits for fails. -/
  | abort (i : Nat)
  | window (ms : Nat)
  | escrowAnswer (i : Nat) (escrowed : Nat) (ms : Nat)
  /-- The routes and the node's answers for any batch, with which one is solved. -/
  | solve (j : Nat) (node : PairBatch WETH → Market)
  | dryRun (j : Nat) (answer : Except String Nat) (txHash : TxHash)
  | sendAnswer (j : Nat) (answer : Except String Unit) (ms : Nat)
  | receipt (j : Nat) (answer : Option Bool)
  /-- A call that a settlement waits for throws. -/
  | throw (j : Nat)
  | close (ms : Nat)
  | restart
  | mine (txHash : TxHash) (status : Bool)
  /-- A nonce is cancelled. -/
  | useNonce (owner : Address) (nonce : Nat)

section Steps

variable (cfg : Config)

/-- A change to the entry under each key, one after the other.  While a window's
settlements last, the entries of their orders are there. -/
def onEach {α : Type} (key : α → Bytes32) (f : α → Pending → Pending) (xs : List α)
    (t : Table Bytes32 Pending) : Table Bytes32 Pending :=
  xs.foldl (fun t x => t.mapValues fun h p => if h = key x then f x p else p) t

def release (os : List Order) (inFlight : Finset Bytes32) : Finset Bytes32 :=
  inFlight.filter fun h => ∀ o ∈ os, h ≠ cfg.hash o

def isPending (t : Table Bytes32 Pending) (o : Order) : Bool :=
  (t.lookup (cfg.hash o)).map Pending.status = some .pending

variable (w : World cfg.WETH)

/-- An attempt to settle `os` together has failed. -/
def fail (j : Nat) (f : Order → Pending → Pending) (os : List Order) : World cfg.WETH :=
  { w with
    orders := onEach cfg.hash f os w.orders
    inFlight := release cfg os w.inFlight
    tick := w.tick.setJob j .ended
    failures := w.failures ++ os.map fun o => ⟨o, os, true⟩ }

/-- An order that the search does not take. -/
def untaken (node : PairBatch cfg.WETH → Market) (batch : PairBatch cfg.WETH) (o : Order) :
    Failure :=
  ⟨o, allOrders batch, takes node (own batch o.owner) o⟩

/-- The orders that the search dropped from a batch are rejected. -/
def reject (node : PairBatch cfg.WETH → Market) (batch : PairBatch cfg.WETH)
    (dropped : List Dropped) : World cfg.WETH :=
  { w with
    orders := onEach (fun d => cfg.hash d.order)
      (fun d => setStatus (.rejected (.dropped d.reason))) dropped w.orders
    inFlight := release cfg (dropped.map Dropped.order) w.inFlight
    failures := w.failures ++ dropped.map fun d => untaken cfg node batch d.order }

def onSolve (j : Nat) (batch : PairBatch cfg.WETH) (node : PairBatch cfg.WETH → Market) :
    World cfg.WETH :=
  match Solver.solve (node batch) batch with
  | .threw => { w with tick := w.tick.setJob j .ended }
  | .error error dropped =>
      let w := reject cfg w node batch dropped
      { w with
        orders := onEach cfg.hash (fun _ => tryAgain error) (allOrders batch) w.orders
        inFlight := release cfg ((allOrders batch).filter (isPending cfg w.orders)) w.inFlight
        tick := w.tick.setJob j .ended
        failures := w.failures ++ (allOrders batch).map (untaken cfg node batch) }
  | .done (solved, _) =>
      let w := reject cfg w node batch solved.dropped
      let signatures := (allOrders solved.batch).mapM fun o =>
        (w.orders.lookup (cfg.hash o)).map Pending.signature
      { w with
        tick := w.tick.setJob j ((signatures.map (Job.dryRunning solved)).getD .ended) }

def onDryRun (j : Nat) (solved : Solved cfg.WETH) (signatures : List Bytes) (txHash : TxHash) :
    Except String Nat → World cfg.WETH
  | .error error =>
      fail cfg w j (fun _ => countAttempt MAX_ATTEMPTS (.wouldRevert error))
        (allOrders solved.batch)
  | .ok gas =>
      { w with
        tick := w.tick.setJob j (.sending solved txHash)
        sent := w.sent ++ [(txHash, {
          orders := allOrders solved.batch
          signatures
          prices := prices solved.batch solved.clearing
          interactions := solved.interactions
          gas := gas * 13 / 10 })] }

/-- A refused send is not the orders' fault, but a dead path must not hold them forever. -/
def onSend (j : Nat) (solved : Solved cfg.WETH) (txHash : TxHash) (ms : Nat) :
    Except String Unit → World cfg.WETH
  | .error msg =>
      { fail cfg w j (fun _ => countAttempt (MAX_ATTEMPTS * 2) (.couldNotSubmit msg))
          (allOrders solved.batch) with
        sendPausedUntil := ms + pauseFor msg }
  | .ok () =>
      { w with
        orders := onEach cfg.hash (fun _ => setStatus (.settling txHash)) (allOrders solved.batch)
          w.orders
        tick := w.tick.setJob j (.waiting solved txHash) }

def onReceipt (j : Nat) (solved : Solved cfg.WETH) (txHash : TxHash) :
    Option Bool → World cfg.WETH
  | some true =>
      { w with
        orders := onEach cfg.hash (fun o => setStatus (filledStatus solved txHash o))
          (allOrders solved.batch) w.orders
        inFlight := release cfg (allOrders solved.batch) w.inFlight
        tick := w.tick.setJob j .ended }
  | some false => fail cfg w j (fun _ => putBack .reverted) (allOrders solved.batch)
  | none => fail cfg w j (fun _ => putBack .notMined) (allOrders solved.batch)

/-- What `tick` does when the deposits have been looked up. -/
def settleReady (ready : List Pending) (ms : Nat) : World cfg.WETH :=
  if ready = [] ∨ ms < w.sendPausedUntil then { w with tick := .idle }
  else
    { w with
      inFlight := w.inFlight ∪ (ready.map fun p => cfg.hash p.order).toFinset
      tick := .settling ready
        ((groupByPair cfg.WETH (ready.map Pending.order)).map Job.solving) }

def afterChecks (ready checks : List Pending) (ms : Nat) : World cfg.WETH :=
  if checks = [] then settleReady cfg w ready ms
  else { w with tick := .checking ready checks }

/-- The entries in the order in which they were made. -/
def values : List Pending := w.orders.entries.reverse.map Sigma.snd

/-- A window opens. -/
def onWindow (ms : Nat) : World cfg.WETH :=
  let w := { w with orders := w.orders.mapValues fun _ => expire (ms / 1000) }
  let free := (values cfg w).filter fun p => cfg.hash p.order ∉ w.inFlight
  afterChecks cfg w (free.filter (·.status = .pending))
    (free.filter (·.status = .awaitingDeposit)) ms

/-- `p.status = { state: "pending" }`, which is seen in the table while `p` is there. -/
def makePending (p : Pending) (t : Table Bytes32 Pending) : Table Bytes32 Pending :=
  onEach cfg.hash (fun _ q => if q.ref = p.ref then setStatus .pending q else q) [p.order] t

/-- The deposit of the order has been looked up. -/
def onEscrow (ready checks : List Pending) (i : Nat) (p : Pending) (escrowed ms : Nat) :
    World cfg.WETH :=
  if escrowed = p.order.sellAmount then
    let w := { w with orders := makePending cfg p w.orders }
    afterChecks cfg w (ready ++ [setStatus .pending p]) (checks.eraseIdx i) ms
  else afterChecks cfg w ready (checks.eraseIdx i) ms

def onPost (o : Order) (signature : Bytes) (ms : Nat) : World cfg.WETH :=
  match vet cfg (ms / 1000) o with
  | .error _ => w
  | .ok () =>
      if (w.orders.lookup (cfg.hash o)).isSome then w
      else { w with intakes := w.intakes ++ [⟨o, signature, false⟩] }

def onAccept (i : Nat) (intake : Intake) (answers : Answers) (ms : Nat) : World cfg.WETH :=
  let w := { w with intakes := w.intakes.eraseIdx i }
  match checkAnswers intake.order intake.signature answers with
  | .error _ => w
  | .ok status =>
      { w with
        orders := w.orders.insert (cfg.hash intake.order)
          { order := intake.order
            signature := intake.signature
            deposited := intake.signature = []
            receivedAt := ms
            attempts := 0
            status
            ref := w.refs }
        refs := w.refs + 1 }

def onMine (txHash : TxHash) (status : Bool) (settlement : Settlement) : World cfg.WETH :=
  { w with
    mined := w.mined ++ [(txHash, status)]
    nonceUsed :=
      if status then w.nonceUsed ++ settlement.orders.map fun o => (o.owner, o.nonce)
      else w.nonceUsed }

/-- The next step, if it can happen.  What the node says of nonces and receipts is so;
a transaction hash stands for one settlement. -/
def step : Event cfg.WETH → Option (World cfg.WETH)
  | .post o signature ms => some (onPost cfg w o signature ms)
  | .nonceAnswer i used =>
      match w.intakes[i]? with
      | some intake =>
          if used ≠ decide ((intake.order.owner, intake.order.nonce) ∈ w.nonceUsed) then none
          else if used then some { w with intakes := w.intakes.eraseIdx i }
          else some { w with intakes := w.intakes.set i { intake with nonceChecked := true } }
      | none => none
  | .accept i answers ms =>
      match w.intakes[i]? with
      | some intake =>
          if intake.nonceChecked then some (onAccept cfg w i intake answers ms) else none
      | none => none
  | .abort i => some { w with intakes := w.intakes.eraseIdx i }
  | .window ms =>
      match w.tick with
      | .idle => some (onWindow cfg w ms)
      | _ => none
  | .escrowAnswer i escrowed ms =>
      match w.tick with
      | .checking ready checks =>
          checks[i]?.map fun p => onEscrow cfg w ready checks i p escrowed ms
      | _ => none
  | .solve j node =>
      match w.tick.jobs[j]? with
      | some (.solving batch) => some (onSolve cfg w j batch node)
      | _ => none
  | .dryRun j answer txHash =>
      match w.tick.jobs[j]? with
      | some (.dryRunning solved signatures) =>
          if ∀ s ∈ w.sent, s.1 = txHash → s.2.orders = allOrders solved.batch then
            some (onDryRun cfg w j solved signatures txHash answer)
          else none
      | _ => none
  | .sendAnswer j answer ms =>
      match w.tick.jobs[j]? with
      | some (.sending solved txHash) => some (onSend cfg w j solved txHash ms answer)
      | _ => none
  | .receipt j answer =>
      match w.tick.jobs[j]? with
      | some (.waiting solved txHash) =>
          if ∀ status ∈ answer, (txHash, status) ∈ w.mined then
            some (onReceipt cfg w j solved txHash answer)
          else none
      | _ => none
  | .throw j =>
      match w.tick.jobs[j]? with
      | some (.solving _) | some (.dryRunning _ _) | some (.waiting _ _) =>
          some { w with tick := w.tick.setJob j .ended }
      | _ => none
  | .close ms =>
      match w.tick with
      | .settling ready jobs =>
          if jobs.all fun job => job matches .ended then
            some { w with
              orders := w.orders.keep fun _ p => remembered ms p
              inFlight := release cfg (ready.map Pending.order) w.inFlight
              tick := .idle }
          else none
      | _ => none
  | .restart =>
      some { w with orders := ∅, inFlight := ∅, sendPausedUntil := 0, intakes := [], tick := .idle }
  | .mine txHash status =>
      match w.sent.find? (·.1 = txHash) with
      | some (_, settlement) =>
          if txHash ∈ w.mined.map Prod.fst then none
          else if status ∧
              ∃ o ∈ settlement.orders, (o.owner, o.nonce) ∈ w.nonceUsed then none
          else some (onMine cfg w txHash status settlement)
      | none => none
  | .useNonce owner nonce => some { w with nonceUsed := w.nonceUsed ++ [(owner, nonce)] }

end Steps

/-- Where everything starts. -/
def started (cfg : Config) : World cfg.WETH where
  orders := ∅
  inFlight := ∅
  sendPausedUntil := 0
  refs := 0
  intakes := []
  tick := .idle
  sent := []
  mined := []
  nonceUsed := []
  failures := []

def run (cfg : Config) (w : World cfg.WETH) : List (Event cfg.WETH) → Option (World cfg.WETH)
  | [] => some w
  | e :: es => (step cfg w e).bind fun w' => run cfg w' es

end Batcher

end Ordo
