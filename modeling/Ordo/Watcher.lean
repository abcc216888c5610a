import Ordo.Detect
import Ordo.HeadWatcher
import Ordo.Keyed

/-!
# The watcher

The watcher indexes the chain, block by block.  The live loop takes the blocks from the
checkpoint to the head in chunks; the blocks of a chunk are processed at the same time, and
`next` moves when all of them have returned.  Beside it a walk asks for the Initialize logs
of everything before the block at which the live loop began.

* `processBlock` is what the processing of a block leaves in the index, and whether it
  returns, for whatever the upstream answers and wherever a write throws;
* `step` is one event: a start, a crash, an answer, the end of a chunk, a window of the walk.
-/

namespace Ordo

namespace Watch

section Chains

/-- A block of the chain, and what `eth_getBlockReceipts` has for it. -/
structure ChainBlock where
  timestamp : Nat
  transactions : List BlockTx
  receipts : List TxReceipt
  quiet : transactions = [] → receipts = []

/-- The chain, which mines a transaction in one block and initialises a pool in one block. -/
structure Chain where
  blockAt : Int → ChainBlock
  minedOnce : ∀ m n, ∀ r ∈ (blockAt m).receipts, ∀ other ∈ (blockAt n).receipts,
    r.transactionHash = other.transactionHash → m = n
  initializedOnce : ∀ m n, ∀ read ∈ logsOf (blockAt m).receipts,
    ∀ other ∈ logsOf (blockAt n).receipts, IsInitialize read.2 → IsInitialize other.2 →
      poolIdOf read.2 = poolIdOf other.2 → m = n

end Chains

section Store

/-- A row of the table `arbs`. -/
structure ArbRow where
  txHash : String
  block : Int
  timestamp : Nat
  sender : String
  pools : List String
  poolCount : Nat
  profitToken : Option String
  profitWei : Option Int
  profitIsQuote : Bool
  gasPaidWei : Nat
  deriving DecidableEq

/-- What the store keeps of blocks; `swaps` is a counter, the rest are tables. -/
structure Index where
  trades : Keyed.Rows (String × Int × Nat) TradeRow := fun _ => none
  pools : Keyed.Rows String V4PoolRow := fun _ => none
  swaps : Nat := 0
  arbs : Keyed.Rows String ArbRow := fun _ => none
  arbPools : Keyed.Rows (String × String) (String × String) := fun _ => none

def TradeRow.key (row : TradeRow) : String × Int × Nat := (row.pool, row.block, row.logIndex)

def TradeRow.stored (row : TradeRow) : TradeRow := { row with pool := row.pool.toLower }

def V4PoolRow.stored (row : V4PoolRow) : V4PoolRow :=
  { row with
    poolId := row.poolId.toLower
    currency0 := row.currency0.toLower
    currency1 := row.currency1.toLower
    hooks := row.hooks.toLower }

def ArbObservation.stored (a : ArbObservation) : ArbRow where
  txHash := a.txHash
  block := a.block
  timestamp := a.timestamp
  sender := a.sender
  pools := a.poolsTouched
  poolCount := a.poolsTouched.length
  profitToken := a.profitToken
  profitWei := a.profitWei
  profitIsQuote := a.profitIsQuote
  gasPaidWei := a.gasPaidWei

/-- The rows of `arb_pools` that an arbitrage has. -/
def ArbObservation.poolRows (a : ArbObservation) : List (String × String) :=
  a.poolsTouched.map fun pool => (a.txHash, pool)

namespace Index

variable (x : Index)

def insertTrades (rows : List TradeRow) : Index :=
  { x with trades := Keyed.insertAll TradeRow.key x.trades (rows.map TradeRow.stored) }

def upsertV4Pools (rows : List V4PoolRow) : Index :=
  { x with pools := Keyed.insertAll (·.poolId) x.pools (rows.map V4PoolRow.stored) }

/-- Swaps are counted rather than stored. -/
def addSwaps (n : Nat) : Index := { x with swaps := x.swaps + n }

def insertArbs (rows : List ArbObservation) : Index :=
  { x with
    arbs := Keyed.insertAll (·.txHash) x.arbs (rows.map ArbObservation.stored)
    arbPools := Keyed.insertAll id x.arbPools (rows.flatMap ArbObservation.poolRows) }

def pruneTrades (olderThanTs : Nat) : Index :=
  { x with trades := fun k => (x.trades k).filter fun row => ¬ row.ts < olderThanTs }

end Index

end Store

section Processing

/-- What the processing of a block meets. -/
inductive Reply where
  /-- `eth_getBlockByNumber` answers `null`. -/
  | null
  /-- A request throws, or the receipt of a transaction is `null`. -/
  | failed
  /-- The block and its receipts are read.  `taped` says that the tape took the trades, and
  `writes` how many of the writes after it are made before one throws, of three: the pools,
  the swap count and the arbitrages. -/
  | read (taped : Bool) (writes : Nat)
  deriving DecidableEq

/-- The trades go to the tape if they can be read; a failure is swallowed. -/
def tape (n : Int) (b : ChainBlock) (x : Index) : Index :=
  match extractTrades n b.timestamp b.receipts with
  | .error _ => x
  | .ok rows => x.insertTrades rows

def analysis (n : Int) (b : ChainBlock) : BlockAnalysis :=
  analyzeBlock n b.timestamp b.receipts b.transactions

/-- What is left in the index, and whether it returned. -/
def processBlock (n : Int) (b : ChainBlock) (reply : Reply) (x : Index) : Index × Bool :=
  match reply with
  | .null => (x, true)
  | .failed => (x, false)
  | .read taped writes =>
      if b.transactions = [] then (x, true)
      else
        let found := analysis n b
        let x := if taped then tape n b x else x
        -- not best-effort: a failure here fails the block
        match extractV4Initializes n b.timestamp b.receipts with
        | .error _ => (x, false)
        | .ok created =>
            let x := if 1 ≤ writes then x.upsertV4Pools created else x
            let x := if 2 ≤ writes then x.addSwaps found.swaps.length else x
            let x := if 3 ≤ writes then x.insertArbs found.arbs else x
            (x, 3 ≤ writes)

section Written

variable (n : Int) (b : ChainBlock)

def trades : List TradeRow := ((extractTrades n b.timestamp b.receipts).toOption).getD []

def created : List V4PoolRow := ((extractV4Initializes n b.timestamp b.receipts).toOption).getD []

/-- The trades of the block are put on the tape. -/
def tapes : Reply → Bool
  | .read taped _ => b.transactions ≠ [] ∧ taped
  | _ => false

/-- The processing makes this many of the writes that come after the tape. -/
def reaches (k : Nat) : Reply → Bool
  | .read _ writes =>
      b.transactions ≠ [] ∧ (extractV4Initializes n b.timestamp b.receipts).toOption.isSome ∧
        k ≤ writes
  | _ => false

/-- The block was read, and all there was to write is written. -/
def whole : Reply → Bool
  | .read taped writes => b.transactions = [] ∨ reaches n b 3 (.read taped writes)
  | _ => false

/-- The swaps that a processing counts. -/
def swapsAdded (reply : Reply) : Nat :=
  if reaches n b 2 reply then (analysis n b).swaps.length else 0

variable {n b} {reply : Reply} {x : Index}

theorem processBlock_empty (h : b.transactions = []) (taped : Bool) (writes : Nat) :
    processBlock n b (.read taped writes) x = (x, true) := if_pos h

theorem tape_eq : tape n b x = x.insertTrades (trades n b) := by
  unfold tape trades
  cases extractTrades n b.timestamp b.receipts with
  | error e => rfl
  | ok rows => rfl

/-- What comes of reading a block that has transactions. -/
theorem processBlock_read (h : b.transactions ≠ []) (taped : Bool) (writes : Nat) :
    processBlock n b (.read taped writes) x =
      let y := if taped then x.insertTrades (trades n b) else x
      let y := if reaches n b 1 (.read taped writes) then y.upsertV4Pools (created n b) else y
      let y := y.addSwaps (swapsAdded n b (.read taped writes))
      let y := if reaches n b 3 (.read taped writes) then y.insertArbs (analysis n b).arbs else y
      (y, reaches n b 3 (.read taped writes)) := by
  unfold processBlock swapsAdded reaches created
  dsimp only
  rw [if_neg h, tape_eq]
  cases hrows : extractV4Initializes n b.timestamp b.receipts with
  | error e => simp [Except.toOption, Index.addSwaps]
  | ok rows =>
      by_cases h2 : 2 ≤ writes
      · simp [Except.toOption, h, h2]
      · simp [Except.toOption, h, h2, Index.addSwaps]

theorem analysis_quiet (h : b.transactions = []) : analysis n b = ⟨[], []⟩ := by
  unfold analysis analyzeBlock
  rw [b.quiet h]
  rfl

/-- A processing that is whole, of a block with transactions, comes to all of the writes. -/
theorem reaches_of_whole {k : Nat} (h : whole n b reply = true) (htxs : b.transactions ≠ [])
    (hk : k ≤ 3) : reaches n b k reply = true := by
  cases reply with
  | null => cases h
  | failed => cases h
  | read taped writes =>
      have h3 := (of_decide_eq_true h).resolve_left htxs
      obtain ⟨-, hcreated, hwrites⟩ := of_decide_eq_true h3
      exact decide_eq_true ⟨htxs, hcreated, by omega⟩

/-- What comes to a write could decode the pools. -/
theorem created_of_reaches {k : Nat} (h : reaches n b k reply = true) :
    extractV4Initializes n b.timestamp b.receipts = .ok (created n b) := by
  cases reply with
  | null => cases h
  | failed => cases h
  | read taped writes =>
      obtain ⟨-, hcreated, -⟩ := of_decide_eq_true h
      unfold created
      cases hrows : extractV4Initializes n b.timestamp b.receipts with
      | error e =>
          rw [hrows] at hcreated
          cases hcreated
      | ok rows => rfl

/-- And counts every swap of the block. -/
theorem swapsAdded_whole (h : whole n b reply = true) :
    swapsAdded n b reply = (analysis n b).swaps.length := by
  unfold swapsAdded
  by_cases htxs : b.transactions = []
  · rw [analysis_quiet htxs]
    exact ite_self 0
  · exact if_pos (reaches_of_whole h htxs (by omega))

/-- **It returns**, without having read the block, or with all that there was to write. -/
theorem processBlock_returned :
    (processBlock n b reply x).2 = (decide (reply = .null) || whole n b reply) := by
  cases reply with
  | null => rfl
  | failed => rfl
  | read taped writes =>
      by_cases h : b.transactions = []
      · rw [processBlock_empty h]
        simp [whole, h]
      · rw [processBlock_read h]
        simp [whole, h]

/-- **What it writes**, to each of the tables and to the counter. -/
theorem processBlock_index : (processBlock n b reply x).1 = {
    trades := Keyed.insertAll TradeRow.key x.trades
      (if tapes b reply then (trades n b).map TradeRow.stored else [])
    pools := Keyed.insertAll (·.poolId) x.pools
      (if reaches n b 1 reply then (created n b).map V4PoolRow.stored else [])
    swaps := x.swaps + swapsAdded n b reply
    arbs := Keyed.insertAll (·.txHash) x.arbs
      (if reaches n b 3 reply then (analysis n b).arbs.map ArbObservation.stored else [])
    arbPools := Keyed.insertAll id x.arbPools
      (if reaches n b 3 reply then (analysis n b).arbs.flatMap ArbObservation.poolRows
        else []) } := by
  cases reply with
  | null => rfl
  | failed => rfl
  | read taped writes =>
      by_cases h : b.transactions = []
      · have htapes : tapes b (.read taped writes) = false := by simp [tapes, h]
        have hreaches : ∀ k, reaches n b k (.read taped writes) = false := by simp [reaches, h]
        rw [processBlock_empty h, htapes, hreaches, hreaches, swapsAdded, hreaches]
        rfl
      · have htapes : tapes b (.read taped writes) = taped := by simp [tapes, h]
        rw [processBlock_read h, htapes]
        cases taped <;> cases reaches n b 1 (.read _ writes) <;>
          cases reaches n b 3 (.read _ writes) <;> rfl

end Written

end Processing

section States

/-- The checkpoint file.  `began` is not in it: it is the block at which the chain of runs
that the checkpoint has carried on began. -/
structure Checkpoint where
  nextBlock : Int
  began : Int
  deriving DecidableEq

/-- The walk over the blocks before the live loop's. -/
structure Walk where
  /-- `from` -/
  start : Int
  toBlock : Int
  span : Nat
  stuck : Nat := 0
  good : Nat := 0

inductive Phase where
  /-- At the head of the loop, about to ask for the head or asleep. -/
  | idle
  /-- A chunk is under way: the blocks that have not come back, and those of the others for
  which the answer was `null`. -/
  | fetching (target : Int) (chunk pending missing : List Int)

structure Process where
  began : Int
  liveStart : Int
  next : Int
  lastSaved : Int
  concurrency : Nat
  goodChunks : Nat := 0
  phase : Phase := .idle
  /-- The blocks of failed chunks that have not come back. -/
  stragglers : List Int := []
  v4Caught : Bool
  walk : Option Walk

inductive Running where
  | down
  /-- The head was `null` at the start: `next` is not a number. -/
  | lost
  | up (p : Process)

structure Watcher where
  index : Index := {}
  /-- None: there is no file, or nothing can be read from it. -/
  checkpoint : Option Checkpoint := none
  /-- `v4:initScannedTo` -/
  scannedTo : Option Int := none
  running : Running := .down
  /-- Every processing there was, and what it met. -/
  log : List (Int × Reply) := []

structure Config where
  concurrency : Nat := 8
  maxBatch : Nat := 400

/-- How a commit goes. -/
inductive Commit where
  /-- The file cannot be opened. -/
  | refused
  /-- The file is left empty or cut short. -/
  | torn
  /-- The file is written, and the cursor is not. -/
  | fileOnly
  | whole

inductive WalkReply where
  /-- The provider will not serve the window. -/
  | refused
  | failed
  | null
  /-- The logs come, and of the two writes, the pools and the cursor, so many are made. -/
  | logs (writes : Nat)

inductive Event where
  | start (head : Polled Int) (backfill : Int)
  | crash
  | poll (head : Polled Int) (commit : Commit)
  | finish (n : Int) (reply : Reply)
  | straggle (n : Int) (reply : Reply)
  /-- All of the chunk has returned.  `pruned`: the summary, if one is due, does not throw. -/
  | endChunk (saved : Commit) (pruned : Bool) (final : Commit)
  | walk (reply : WalkReply)
  | prune (olderThanTs : Nat)

end States

section Steps

def intRange (lo hi : Int) : List Int :=
  (List.range (hi + 1 - lo).toNat).map fun i : Nat => lo + i

def MAX_SPAN : Nat := 10000

/-- `saveCheckpoint`, and the cursor with it once the walk has met the live loop; and whether
it returns. -/
def commit (s : Watcher) (p : Process) : Commit → Watcher × Bool
  | .refused => (s, false)
  | .torn => ({ s with checkpoint := none }, false)
  | .fileOnly => ({ s with checkpoint := some ⟨p.next, p.began⟩ }, !p.v4Caught)
  | .whole =>
      ({ s with
          checkpoint := some ⟨p.next, p.began⟩
          scannedTo := if p.v4Caught then some (p.next - 1) else s.scannedTo }, true)

/-- The `catch` of the loop. -/
def Process.backOff (p : Process) : Process :=
  { p with
    concurrency := max 1 (p.concurrency / 2)
    goodChunks := 0
    phase := .idle }

/-- Additive increase after twenty good chunks. -/
def Process.recover (cfg : Config) (p : Process) : Process :=
  if 20 ≤ p.goodChunks + 1 ∧ p.concurrency < cfg.concurrency then
    { p with
      concurrency := p.concurrency + 1
      goodChunks := 0 }
  else { p with goodChunks := p.goodChunks + 1 }

def Process.chunk (p : Process) (target : Int) : List Int :=
  (intRange p.next target).take p.concurrency

/-- `while (next <= target)`, and the commit after it. -/
def nextChunk (s : Watcher) (p : Process) (target : Int) (final : Commit) : Watcher :=
  if p.next ≤ target then
    { s with
      running :=
        .up { p with phase := .fetching target (p.chunk target) (p.chunk target) [] } }
  else
    let (s, returned) := commit s p final
    if returned then
      { s with
        running := .up { p with
          lastSaved := p.next
          phase := .idle } }
    else { s with running := .up p.backOff }

/-- The walk from where the cursor is, or from the block of the deployment. -/
def walkFrom (scannedTo : Option Int) (toBlock : Int) : Walk where
  start := (scannedTo.map (· + 1)).getD V4.deployBlock
  toBlock := toBlock
  span := MAX_SPAN

/-- Resume from the checkpoint, unless it is absurdly far behind the head. -/
def resumeFrom (saved : Option Checkpoint) (head backfill : Int) : Checkpoint :=
  match saved with
  | some c =>
      if head - c.nextBlock < 500000 then c else ⟨head - backfill, head - backfill⟩
  | none => ⟨head - backfill, head - backfill⟩

def start (cfg : Config) (s : Watcher) (head backfill : Int) : Watcher :=
  let resumed := resumeFrom s.checkpoint head backfill
  let next := resumed.nextBlock
  let v4Caught := decide (next - 1 ≤ s.scannedTo.getD (-1))
  { s with
    running := .up {
      began := resumed.began
      liveStart := next
      next
      lastSaved := next
      concurrency := cfg.concurrency
      v4Caught
      walk := if v4Caught then none else some (walkFrom s.scannedTo (next - 1)) } }

/-- A commit of what is not a number: there is `null` in the file. -/
def commitLost (s : Watcher) : Commit → Watcher
  | .refused => s
  | _ => { s with checkpoint := none }

def poll (cfg : Config) (s : Watcher) (head : Polled Int) (final : Commit) : Watcher :=
  match s.running with
  | .down => s
  | .lost =>
      match head with
      | .failed => s
      | _ => commitLost s final
  | .up p =>
      match p.phase with
      | .fetching .. => s
      | .idle =>
          match head with
          | .failed => { s with running := .up p.backOff }
          -- nothing is above what is not a number, and nothing below it
          | .null => nextChunk s p (p.next - 1) final
          | .value head =>
              if head < p.next then s
              else nextChunk s p (min head (p.next + cfg.maxBatch - 1)) final

/-- A processing writes what it writes. -/
def processed (ch : Chain) (s : Watcher) (n : Int) (reply : Reply) : Watcher :=
  { s with
    index := (processBlock n (ch.blockAt n) reply s.index).1
    log := s.log ++ [(n, reply)] }

def finish (ch : Chain) (s : Watcher) (n : Int) (reply : Reply) : Watcher :=
  match s.running with
  | .up p =>
      match p.phase with
      | .fetching target chunk pending missing =>
          if n ∈ pending then
            let pending := pending.erase n
            let missing := if reply = .null then n :: missing else missing
            -- all or nothing: one that throws ends the chunk, and the others go on
            if (processBlock n (ch.blockAt n) reply s.index).2 then
              { processed ch s n reply with
                running := .up { p with phase := .fetching target chunk pending missing } }
            else
              { processed ch s n reply with
                running := .up { p.backOff with stragglers := p.stragglers ++ pending } }
          else s
      | .idle => s
  | _ => s

def straggle (ch : Chain) (s : Watcher) (n : Int) (reply : Reply) : Watcher :=
  match s.running with
  | .up p =>
      if n ∈ p.stragglers then
        { processed ch s n reply with
          running := .up { p with stragglers := p.stragglers.erase n } }
      else s
  | _ => s

/-- The commit of every twenty-five blocks; and whether it returns. -/
def commitDue (s : Watcher) (p : Process) (saved : Commit) : Watcher × Process × Bool :=
  if 25 ≤ p.next - p.lastSaved then
    let (s, returned) := commit s p saved
    (s, if returned then { p with lastSaved := p.next } else p, returned)
  else (s, p, true)

/-- The chunk has all come back. -/
def chunkDone (cfg : Config) (s : Watcher) (p : Process) (target : Int) (saved : Commit)
    (pruned : Bool) (final : Commit) : Watcher :=
  let (s, p, returned) := commitDue s p saved
  if returned ∧ pruned then nextChunk s (p.recover cfg) target final
  else { s with running := .up p.backOff }

def endChunk (cfg : Config) (s : Watcher) (saved : Commit) (pruned : Bool) (final : Commit) :
    Watcher :=
  match s.running with
  | .up p =>
      match p.phase with
      | .fetching target chunk [] _ =>
          chunkDone cfg s { p with next := p.next + chunk.length } target saved pruned final
      | _ => s
  | _ => s

/-- What `eth_getLogs` answers: the logs of the PoolManager with the topic of Initialize. -/
def initializeLogs (ch : Chain) (lo hi : Int) : List (Int × ReceiptLog) :=
  (intRange lo hi).flatMap fun n =>
    (((logsOf (ch.blockAt n).receipts).map named).filter fun log =>
      log.address.toLower = V4.poolManager ∧
        (log.topics.head?.map String.toLower).getD "" = V4.initializeTopic).map fun log => (n, log)

def walkRows (ch : Chain) (lo hi : Int) : Except Thrown (List V4PoolRow) :=
  rowsOf (fun found => decodeInitialize found.2 found.1 none) (initializeLogs ch lo hi)

/-- The walk returns the block that it reached. -/
def Process.reached (p : Process) (block : Int) : Process :=
  { p with
    v4Caught := p.liveStart - 1 ≤ block
    walk := none }

/-- A failure that a smaller window does not fix. -/
def Process.stall (p : Process) (w : Walk) : Process :=
  if 40 < w.stuck + 1 then p.reached (w.start - 1)
  else { p with walk := some { w with stuck := w.stuck + 1 } }

/-- Windows grow back on success. -/
def Walk.advance (w : Walk) (last : Int) : Walk :=
  if 5 ≤ w.good + 1 ∧ w.span < MAX_SPAN then
    { w with
      start := last + 1
      stuck := 0
      span := min MAX_SPAN (w.span * 2)
      good := 0 }
  else
    { w with
      start := last + 1
      stuck := 0
      good := w.good + 1 }

def walkStep (ch : Chain) (s : Watcher) (p : Process) (w : Walk) (reply : WalkReply) : Watcher :=
  if w.toBlock < w.start then { s with running := .up (p.reached w.toBlock) }
  else
    let last := min (w.start + w.span - 1) w.toBlock
    let dead := { p with walk := none }
    match reply with
    | .refused =>
        if 100 < w.span then
          { s with
            running := .up { p with
              walk := some { w with
                span := max 100 (w.span / 2)
                good := 0 } } }
        else { s with running := .up (p.stall w) }
    | .failed => { s with running := .up (p.stall w) }
    | .null => { s with running := .up dead }
    | .logs writes =>
        match walkRows ch w.start last with
        | .error _ => { s with running := .up dead }
        | .ok rows =>
            match writes with
            | 0 => { s with running := .up dead }
            | 1 =>
                { s with
                  index := s.index.upsertV4Pools rows
                  running := .up dead }
            | _ =>
                { s with
                  index := s.index.upsertV4Pools rows
                  scannedTo := some last
                  running := .up { p with walk := some (w.advance last) } }

/-- One event. -/
def step (cfg : Config) (ch : Chain) (s : Watcher) : Event → Watcher
  | .start head backfill =>
      match s.running, head with
      | .down, .null => { s with running := .lost }
      | .down, .value head => start cfg s head backfill
      | _, _ => s
  | .crash => { s with running := .down }
  | .poll head final => poll cfg s head final
  | .finish n reply => finish ch s n reply
  | .straggle n reply => straggle ch s n reply
  | .endChunk saved pruned final => endChunk cfg s saved pruned final
  | .walk reply =>
      match s.running with
      | .up p =>
          match p.walk with
          | some w => walkStep ch s p w reply
          | none => s
      | _ => s
  | .prune olderThanTs => { s with index := s.index.pruneTrades olderThanTs }

end Steps

section Effects

variable {cfg : Config} {ch : Chain} {s : Watcher} {p : Process}

theorem commit_index (c : Commit) : (commit s p c).1.index = s.index := by
  cases c <;> rfl

theorem commit_log (c : Commit) : (commit s p c).1.log = s.log := by
  cases c <;> rfl

theorem nextChunk_index (target : Int) (final : Commit) :
    (nextChunk s p target final).index = s.index := by
  unfold nextChunk
  split
  · rfl
  · dsimp only
    split <;> exact commit_index final

theorem nextChunk_log (target : Int) (final : Commit) :
    (nextChunk s p target final).log = s.log := by
  unfold nextChunk
  split
  · rfl
  · dsimp only
    split <;> exact commit_log final

/-- What an event may do to the index and to the log of processings. -/
inductive Effect (ch : Chain) (s after : Watcher) : Prop where
  | none (hindex : after.index = s.index) (hlog : after.log = s.log)
  | block (n : Int) (reply : Reply) (hindex : after.index = (processed ch s n reply).index)
      (hlog : after.log = (processed ch s n reply).log)
  | pools (rows : List V4PoolRow) (hindex : after.index = s.index.upsertV4Pools rows)
      (hlog : after.log = s.log)
  | pruned (olderThanTs : Nat) (hindex : after.index = s.index.pruneTrades olderThanTs)
      (hlog : after.log = s.log)

theorem poll_effect (head : Polled Int) (final : Commit) :
    Effect ch s (poll cfg s head final) := by
  unfold poll
  split
  · exact .none rfl rfl
  · split
    · exact .none rfl rfl
    · cases final <;> exact .none rfl rfl
  · split
    · exact .none rfl rfl
    · split
      · exact .none rfl rfl
      · exact .none (nextChunk_index _ _) (nextChunk_log _ _)
      · split
        · exact .none rfl rfl
        · exact .none (nextChunk_index _ _) (nextChunk_log _ _)

theorem finish_effect (n : Int) (reply : Reply) : Effect ch s (finish ch s n reply) := by
  unfold finish
  split
  · split
    · split
      · dsimp only
        split <;> exact .block n reply rfl rfl
      · exact .none rfl rfl
    · exact .none rfl rfl
  · exact .none rfl rfl

theorem straggle_effect (n : Int) (reply : Reply) : Effect ch s (straggle ch s n reply) := by
  unfold straggle
  split
  · split
    · exact .block n reply rfl rfl
    · exact .none rfl rfl
  · exact .none rfl rfl

theorem commitDue_index (saved : Commit) : (commitDue s p saved).1.index = s.index := by
  unfold commitDue
  split
  · exact commit_index saved
  · rfl

theorem commitDue_log (saved : Commit) : (commitDue s p saved).1.log = s.log := by
  unfold commitDue
  split
  · exact commit_log saved
  · rfl

theorem chunkDone_index (target : Int) (saved : Commit) (pruned : Bool) (final : Commit) :
    (chunkDone cfg s p target saved pruned final).index = s.index := by
  unfold chunkDone
  dsimp only
  split
  · exact (nextChunk_index target final).trans (commitDue_index saved)
  · exact commitDue_index saved

theorem chunkDone_log (target : Int) (saved : Commit) (pruned : Bool) (final : Commit) :
    (chunkDone cfg s p target saved pruned final).log = s.log := by
  unfold chunkDone
  dsimp only
  split
  · exact (nextChunk_log target final).trans (commitDue_log saved)
  · exact commitDue_log saved

theorem endChunk_effect (saved : Commit) (pruned : Bool) (final : Commit) :
    Effect ch s (endChunk cfg s saved pruned final) := by
  unfold endChunk
  split
  · split
    · exact .none (chunkDone_index _ saved pruned final) (chunkDone_log _ saved pruned final)
    · exact .none rfl rfl
  · exact .none rfl rfl

theorem walkStep_effect (w : Walk) (reply : WalkReply) :
    Effect ch s (walkStep ch s p w reply) := by
  unfold walkStep
  split
  · exact .none rfl rfl
  · dsimp only
    split
    · split <;> exact .none rfl rfl
    · exact .none rfl rfl
    · exact .none rfl rfl
    · split
      · exact .none rfl rfl
      · next rows _ =>
          split
          · exact .none rfl rfl
          · exact .pools rows rfl rfl
          · exact .pools rows rfl rfl

/-- **What can be written.**  An event processes one block, or adds pools, or prunes the
tape, or leaves the index as it is. -/
theorem step_effect (e : Event) : Effect ch s (step cfg ch s e) := by
  cases e with
  | start head backfill =>
      simp only [step]
      split <;> exact .none rfl rfl
  | crash => exact .none rfl rfl
  | poll head final => exact poll_effect head final
  | finish n reply => exact finish_effect n reply
  | straggle n reply => exact straggle_effect n reply
  | endChunk saved pruned final => exact endChunk_effect saved pruned final
  | walk reply =>
      simp only [step]
      split
      · split
        · exact walkStep_effect _ reply
        · exact .none rfl rfl
      · exact .none rfl rfl
  | prune olderThanTs => exact .pruned olderThanTs rfl rfl

end Effects

section Sample

def emptyBlock : ChainBlock := ⟨1700000001, [], [], fun _ => rfl⟩

/-- A chain on which nothing happens but in the block of the deployment. -/
def quietBut (b : ChainBlock) : Chain where
  blockAt n := if n = V4.deployBlock then b else emptyBlock
  minedOnce := by
    intro m n r hr other hother _
    split at hr
    · split at hother
      · omega
      · cases hother
    · cases hr
  initializedOnce := by
    intro m n read hread other hother _ _ _
    split at hread
    · split at hother
      · omega
      · cases hother
    · cases hread

end Sample

end Watch

end Ordo
