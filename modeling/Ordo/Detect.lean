import Mathlib.Data.List.Sort
import Ordo.Delivery
import Ordo.Hints

/-!
# What a block is searched for

The watcher reads the receipts of a block three times: for the swaps and the arbitrages, for
the trades of the tape, and for the Uniswap V4 pools that are initialised in it.

Numbers of the node's answers are numbers here, and its texts are texts: a topic or a word
of the data is read out of the text as the source slices it.
-/

namespace Ordo

namespace Watch

/-- A log of a receipt. -/
structure ReceiptLog extends Hints.SimLog where
  logIndex : Nat := 0
  transactionHash : Option String := none
  deriving DecidableEq

structure TxReceipt where
  transactionHash : String
  transactionIndex : Nat := 0
  /-- `from` -/
  sender : String
  /-- `to` -/
  dst : Option String := none
  gasUsed : Nat := 0
  effectiveGasPrice : Option Nat := none
  status : Nat := 1
  logs : List ReceiptLog
  deriving DecidableEq

/-- A transaction of a block, as `eth_getBlockByNumber` gives it. -/
structure BlockTx where
  hash : String
  value : Nat := 0
  deriving DecidableEq

namespace V4

def poolManager : String := "0x8366a39cc670b4001a1121b8f6a443a643e40951"

/-- The first block with the code of the PoolManager. -/
def deployBlock : Int := 9070

def initializeTopic : String :=
  "0xdd466e674ea557f56295e2d0218a125ea4b4f0f6f3307b95f85e6110838d6438"

end V4

def WETH : String := "0x0bd7d308f8e1639fab988df18a8011f41eacad73"

def USDG : String := "0x5fc5360d0400a0fd4f2af552add042d716f1d168"

/-- The keys of `QUOTE_TOKENS`. -/
def quoteTokens : List String :=
  [WETH, USDG, "0xaf88d065e77c8cc2239327c5edb3a432268e5831",
    "0xfd086bc7cd5c481dcc9c85ebe478a1c0b69fcbb9"]

def isQuoteToken (addr : String) : Bool := quoteTokens.contains addr.toLower

section Reading

/-- The digits of a log's data, without the `0x`. -/
def ReceiptLog.digits (log : ReceiptLog) : List Char := log.data.toList.drop 2

/-- `BigInt("0x" + data.slice(i * 64, (i + 1) * 64))` -/
def wordAt (data : List Char) (i : Nat) : Except Thrown Int :=
  bigInt ('0' :: 'x' :: (data.drop (i * 64)).take 64)

/-- The same word as a two's-complement number. -/
def signedAt (data : List Char) (i : Nat) : Except Thrown Int :=
  (wordAt data i).map fun v => if 2 ^ 255 ≤ v then v - 2 ^ 256 else v

/-- `("0x" + topic.slice(26)).toLowerCase()` -/
def topicToAddress (topic : String) : String :=
  ("0x" ++ String.ofList (topic.toList.drop 26)).toLower

/-- The rows that are read out of a list, one or none from each element; the first that throws
stops it. -/
def rowsOf {α β : Type} (read : α → Except Thrown (Option β)) : List α → Except Thrown (List β)
  | [] => .ok []
  | a :: as => do
      let row ← read a
      let rows ← rowsOf read as
      return row.toList ++ rows

/-- Every log of every receipt, with its receipt. -/
def logsOf (receipts : List TxReceipt) : List (TxReceipt × ReceiptLog) :=
  receipts.flatMap fun r => r.logs.map fun log => (r, log)

end Reading

section Tape

/-- One swap as the trades tape stores it. -/
structure TradeRow where
  pool : String
  block : Int
  logIndex : Nat
  txHash : String
  amount0 : String
  amount1 : String
  sqrtPrice : String
  ts : Nat
  deriving DecidableEq

structure PricedSwap where
  pool : String
  amount0 : Int
  amount1 : Int
  sqrt : Int

/-- The parts of a swap log that the tape needs; none when it is not a priced swap. -/
def pricedSwap (log : ReceiptLog) : Except Thrown (Option PricedSwap) := do
  let data := log.digits
  match Hints.swapTopic log.toSimLog with
  | some .univ3 =>
      if data.length < 5 * 64 then return none
      let amount0 ← signedAt data 0
      let amount1 ← signedAt data 1
      let sqrt ← wordAt data 2
      return some ⟨log.address.toLower, amount0, amount1, sqrt⟩
  | some .univ4 =>
      -- a PoolId is meaningless without the contract that names it
      if log.address.toLower ≠ V4.poolManager then return none
      match log.topics[1]? with
      | none => return none
      | some id =>
          if id.length ≠ 66 ∨ data.length < 6 * 64 then return none
          -- the swapper's deltas, so the sign is the other one
          let amount0 ← signedAt data 0
          let amount1 ← signedAt data 1
          let sqrt ← wordAt data 2
          return some ⟨id.toLower, -amount0, -amount1, sqrt⟩
  | _ => return none

/-- One round of the loop over the logs. -/
def tradeOf (block : Int) (timestamp : Nat) (read : TxReceipt × ReceiptLog) :
    Except Thrown (Option TradeRow) := do
  let swap ← pricedSwap read.2
  return swap.map fun s => {
    pool := s.pool
    block
    logIndex := read.2.logIndex
    txHash := read.2.transactionHash.getD read.1.transactionHash
    amount0 := toString s.amount0
    amount1 := toString s.amount1
    sqrtPrice := toString s.sqrt
    ts := timestamp }

def extractTrades (block : Int) (timestamp : Nat) (receipts : List TxReceipt) :
    Except Thrown (List TradeRow) := rowsOf (tradeOf block timestamp) (logsOf receipts)

end Tape

section Pools

/-- A V4 pool, as its Initialize event described it. -/
structure V4PoolRow where
  poolId : String
  currency0 : String
  currency1 : String
  fee : Int
  tickSpacing : Int
  hooks : String
  sqrtPrice : String
  tick : Int
  block : Int
  txHash : Option String
  ts : Option Nat
  deriving DecidableEq

/-- An Initialize log of the PoolManager, by its address, its event and its length. -/
def IsInitialize (log : ReceiptLog) : Prop :=
  log.address.toLower = V4.poolManager ∧
    (log.topics.head?.map String.toLower).getD "" = V4.initializeTopic ∧
      4 ≤ log.topics.length ∧ 5 * 64 ≤ log.digits.length

instance (log : ReceiptLog) : Decidable (IsInitialize log) := by
  unfold IsInitialize
  infer_instance

/-- The id that an Initialize log announces. -/
def poolIdOf (log : ReceiptLog) : String := (log.topics.getD 1 "").toLower

/-- Decode one Initialize log into a pool row, or none if it is not one. -/
def decodeInitialize (log : ReceiptLog) (block : Int) (ts : Option Nat) :
    Except Thrown (Option V4PoolRow) := do
  if log.address.toLower ≠ V4.poolManager then return none
  if (log.topics.head?.map String.toLower).getD "" ≠ V4.initializeTopic ∨
      log.topics.length < 4 then return none
  let data := log.digits
  -- fee, tickSpacing, hooks, sqrtPriceX96, tick
  if data.length < 5 * 64 then return none
  let fee ← wordAt data 0
  let tickSpacing ← signedAt data 1
  let sqrtPrice ← wordAt data 3
  let tick ← signedAt data 4
  return some {
    poolId := poolIdOf log
    currency0 := topicToAddress (log.topics.getD 2 "")
    currency1 := topicToAddress (log.topics.getD 3 "")
    fee
    tickSpacing
    hooks := ("0x" ++ String.ofList ((data.drop (2 * 64 + 24)).take 40)).toLower
    sqrtPrice := toString sqrtPrice
    tick
    block
    txHash := log.transactionHash
    ts }

/-- A log with the hash of its receipt where it has none itself. -/
def named (read : TxReceipt × ReceiptLog) : ReceiptLog :=
  { read.2 with transactionHash := some (read.2.transactionHash.getD read.1.transactionHash) }

/-- Every pool initialised in one block's receipts. -/
def extractV4Initializes (block : Int) (timestamp : Nat) (receipts : List TxReceipt) :
    Except Thrown (List V4PoolRow) :=
  rowsOf (fun read => decodeInitialize (named read) block (some timestamp)) (logsOf receipts)

end Pools

section Analysis

structure SwapObservation where
  block : Int
  timestamp : Nat
  txHash : String
  txIndex : Nat
  pool : String
  kind : Hints.SwapKind
  deriving DecidableEq

structure ArbObservation where
  block : Int
  timestamp : Nat
  txHash : String
  txIndex : Nat
  sender : String
  poolsTouched : List String
  netFlows : List (String × Int)
  profitToken : Option String
  profitWei : Option Int
  profitIsQuote : Bool
  gasPaidWei : Nat
  deriving DecidableEq

structure BlockAnalysis where
  swaps : List SwapObservation
  arbs : List ArbObservation

/-- Native ETH sent with a transaction: what the map of the nonzero values has for its hash. -/
def txValue (txs : List BlockTx) (hash : String) : Nat :=
  ((txs.reverse.find? fun t => t.hash ≠ "" ∧ t.value ≠ 0 ∧ t.hash.toLower = hash.toLower).map
    (·.value)).getD 0

/-- A V4 pool is its PoolId, and any other is the contract that emits. -/
def swappedPool (kind : Hints.SwapKind) (log : ReceiptLog) : String :=
  match kind, log.topics[1]? with
  | .univ4, some id => if id.length = 66 then id.toLower else log.address.toLower
  | _, _ => log.address.toLower

/-- The swaps of one successful receipt. -/
def swapsIn (block : Int) (timestamp : Nat) (r : TxReceipt) : List SwapObservation :=
  r.logs.filterMap fun log => (Hints.swapTopic log.toSimLog).map fun kind => {
    block
    timestamp
    txHash := r.transactionHash
    txIndex := r.transactionIndex
    pool := swappedPool kind log
    kind }

/-- `net.set(token, (net.get(token) ?? 0n) + v)`; a new token goes to the end. -/
def addFlow (net : List (String × Int)) (token : String) (v : Int) : List (String × Int) :=
  if net.any fun flow => flow.1 = token then
    net.map fun flow => if flow.1 = token then (token, flow.2 + v) else flow
  else net ++ [(token, v)]

/-- The parties that could be the searcher: the sender and the contract it called. -/
def beneficiaries (r : TxReceipt) : List String :=
  r.sender.toLower :: ((r.dst.filter (· ≠ "")).map String.toLower).toList

/-- One round of the loop over the Transfer logs. -/
def flowOf (parties : List String) (net : List (String × Int)) (log : ReceiptLog) :
    List (String × Int) :=
  if (log.topics.head?.map String.toLower).getD "" ≠ Delivery.TRANSFER_TOPIC ∨
      log.topics.length < 3 then net
  else
    match if log.data = "0x" then .ok 0 else bigInt log.data.toList with
    | .error _ => net
    | .ok amount =>
        let token := log.address.toLower
        let received :=
          if parties.contains (topicToAddress (log.topics.getD 2 "")) then
            addFlow net token amount
          else net
        if parties.contains (topicToAddress (log.topics.getD 1 "")) then
          addFlow received token (-amount)
        else received

def senderNet (txs : List BlockTx) (r : TxReceipt) : List (String × Int) :=
  let net := r.logs.foldl (flowOf (beneficiaries r)) []
  let nativeSpent := txValue txs r.transactionHash
  if 0 < nativeSpent then addFlow net WETH (-nativeSpent) else net

/-- The best quote-denominated profit; none when the sender is down on anything. -/
def bestQuote (net : List (String × Int)) : Option (String × Int) :=
  if net.any fun flow => flow.2 < 0 then none
  else
    net.foldl
      (fun best flow =>
        if isQuoteToken flow.1 ∧ (best.map (·.2)).getD 0 < flow.2 then some flow else best)
      none

/-- The token that the sender gained most of.  The comparison never says that two amounts are
equal, which leaves equal ones in the opposite order. -/
def mostGained (net : List (String × Int)) : Option (String × Int) :=
  ((net.filter fun flow => 0 < flow.2).reverse.insertionSort fun a b => b.2 ≤ a.2).head?

/-- The arbitrage that one receipt shows, if it does. -/
def arbIn (txs : List BlockTx) (block : Int) (timestamp : Nat) (r : TxReceipt) :
    Option ArbObservation :=
  let pools := ((swapsIn block timestamp r).map (·.pool)).eraseDups
  let net := senderNet txs r
  let hasTokenProfit := (mostGained net).isSome && ¬ net.any fun flow => flow.2 < 0
  if pools.length < 2 then none
  else if ¬ (bestQuote net).isSome ∧ ¬ hasTokenProfit then none
  else
    let profit := (bestQuote net).or (mostGained net)
    some {
      block
      timestamp
      txHash := r.transactionHash
      txIndex := r.transactionIndex
      sender := r.sender.toLower
      poolsTouched := pools
      netFlows := net
      profitToken := profit.map (·.1)
      profitWei := profit.map (·.2)
      profitIsQuote := (bestQuote net).isSome
      gasPaidWei := r.gasUsed * r.effectiveGasPrice.getD 0 }

/-- Analyze one block's receipts. -/
def analyzeBlock (block : Int) (timestamp : Nat) (receipts : List TxReceipt)
    (txs : List BlockTx) : BlockAnalysis where
  swaps := (receipts.filter (·.status = 1)).flatMap (swapsIn block timestamp)
  arbs := (receipts.filter (·.status = 1)).filterMap (arbIn txs block timestamp)

end Analysis

section Texts

theorem toLower_poolIdOf (log : ReceiptLog) : (poolIdOf log).toLower = poolIdOf log :=
  toLower_toLower _

end Texts

section Rows

variable {block : Int} {timestamp : Nat} {receipts : List TxReceipt}

/-- What returned had its first part return. -/
theorem ok_of_bind {α β : Type} {x : Except Thrown α} {f : α → Except Thrown β} {b : β}
    (h : (x >>= f) = .ok b) : ∃ a, x = .ok a ∧ f a = .ok b := by
  cases x with
  | error e => cases h
  | ok a => exact ⟨a, rfl, h⟩

theorem rowsOf_cons {α β : Type} {read : α → Except Thrown (Option β)} {a : α} {as : List α}
    {rows : List β} (h : rowsOf read (a :: as) = .ok rows) :
    ∃ row rest, read a = .ok row ∧ rowsOf read as = .ok rest ∧ rows = row.toList ++ rest := by
  obtain ⟨row, hrow, h⟩ := ok_of_bind h
  obtain ⟨rest, hrest, h⟩ := ok_of_bind h
  exact ⟨row, rest, hrow, hrest, (Except.ok.inj h).symm⟩

/-- **What is read.**  A row is there if and only if some element gives it. -/
theorem mem_rowsOf {α β : Type} {read : α → Except Thrown (Option β)} {as : List α}
    {rows : List β} (h : rowsOf read as = .ok rows) {row : β} :
    row ∈ rows ↔ ∃ a ∈ as, read a = .ok (some row) := by
  induction as generalizing rows with
  | nil =>
      cases h
      simp
  | cons a as ih =>
      obtain ⟨first, rest, hfirst, hrest, rfl⟩ := rowsOf_cons h
      rw [List.mem_append, ih hrest, List.exists_mem_cons_iff, hfirst, Option.mem_toList]
      simp

/-- Where rows could be read, no element threw. -/
theorem read_of_rowsOf {α β : Type} {read : α → Except Thrown (Option β)} {as : List α}
    {rows : List β} (h : rowsOf read as = .ok rows) {a : α} (ha : a ∈ as) :
    ∃ row, read a = .ok row := by
  induction as generalizing rows with
  | nil => cases ha
  | cons b as ih =>
      obtain ⟨first, rest, hfirst, hrest, -⟩ := rowsOf_cons h
      rcases List.mem_cons.mp ha with rfl | ha
      · exact ⟨first, hfirst⟩
      · exact ih hrest ha

theorem mem_logsOf {read : TxReceipt × ReceiptLog} :
    read ∈ logsOf receipts ↔ read.1 ∈ receipts ∧ read.2 ∈ read.1.logs := by
  constructor
  · intro h
    obtain ⟨r, hr, hmem⟩ := List.mem_flatMap.mp h
    obtain ⟨log, hlog, rfl⟩ := List.mem_map.mp hmem
    exact ⟨hr, hlog⟩
  · rintro ⟨hr, hlog⟩
    exact List.mem_flatMap.mpr ⟨read.1, hr, List.mem_map.mpr ⟨read.2, hlog, rfl⟩⟩

theorem tradeOf_block {read : TxReceipt × ReceiptLog} {row : TradeRow}
    (h : tradeOf block timestamp read = .ok (some row)) : row.block = block := by
  obtain ⟨swap, -, h⟩ := ok_of_bind h
  obtain ⟨s, -, hrow⟩ := Option.map_eq_some_iff.mp (Except.ok.inj h)
  rw [← hrow]

/-- A trade of the tape names the block it was read in. -/
theorem extractTrades_block {rows : List TradeRow}
    (h : extractTrades block timestamp receipts = .ok rows) {row : TradeRow}
    (hrow : row ∈ rows) : row.block = block := by
  obtain ⟨read, -, hread⟩ := (mem_rowsOf h).mp hrow
  exact tradeOf_block hread

/-- Any other log is passed over. -/
theorem decodeInitialize_other {log : ReceiptLog} {ts : Option Nat} (h : ¬ IsInitialize log) :
    decodeInitialize log block ts = .ok none := by
  unfold IsInitialize at h
  unfold decodeInitialize
  by_cases haddress : log.address.toLower ≠ V4.poolManager
  · rw [if_pos haddress]
    rfl
  rw [if_neg haddress]
  by_cases htopics : (log.topics.head?.map String.toLower).getD "" ≠ V4.initializeTopic ∨
      log.topics.length < 4
  · rw [if_pos htopics]
    rfl
  rw [if_neg htopics]
  push Not at haddress htopics
  have hshort : log.digits.length < 5 * 64 := by
    by_contra hlong
    exact h ⟨haddress, htopics.1, htopics.2, by omega⟩
  dsimp only
  rw [if_pos hshort]
  rfl

/-- An Initialize log that can be decoded gives a row, under the id that it announces. -/
theorem decodeInitialize_row {log : ReceiptLog} {ts : Option Nat} {found : Option V4PoolRow}
    (hlog : IsInitialize log) (h : decodeInitialize log block ts = .ok found) :
    ∃ row, found = some row ∧ row.poolId = poolIdOf log := by
  obtain ⟨haddress, htopic, hcount, hlong⟩ := hlog
  have htopics : ¬ ((log.topics.head?.map String.toLower).getD "" ≠ V4.initializeTopic ∨
      log.topics.length < 4) := by
    rintro (hother | hfew)
    · exact hother htopic
    · omega
  unfold decodeInitialize at h
  rw [if_neg (not_not.mpr haddress), if_neg htopics] at h
  dsimp only at h
  rw [if_neg (by omega)] at h
  obtain ⟨fee, -, h⟩ := ok_of_bind h
  obtain ⟨tickSpacing, -, h⟩ := ok_of_bind h
  obtain ⟨sqrtPrice, -, h⟩ := ok_of_bind h
  obtain ⟨tick, -, h⟩ := ok_of_bind h
  exact ⟨_, (Except.ok.inj h).symm, rfl⟩

/-- So a row that is decoded is that of an Initialize log. -/
theorem isInitialize_of_row {log : ReceiptLog} {ts : Option Nat} {row : V4PoolRow}
    (h : decodeInitialize log block ts = .ok (some row)) :
    IsInitialize log ∧ row.poolId = poolIdOf log := by
  by_cases hlog : IsInitialize log
  · obtain ⟨found, hfound, hid⟩ := decodeInitialize_row hlog h
    obtain rfl := Option.some.inj hfound
    exact ⟨hlog, hid⟩
  · rw [decodeInitialize_other hlog] at h
    cases h

/-- An arbitrage names the transaction of one of the receipts. -/
theorem analyzeBlock_txHash {txs : List BlockTx} {a : ArbObservation}
    (h : a ∈ (analyzeBlock block timestamp receipts txs).arbs) :
    ∃ r ∈ receipts, a.txHash = r.transactionHash := by
  obtain ⟨r, hr, harb⟩ := List.mem_filterMap.mp h
  refine ⟨r, (List.mem_filter.mp hr).1, ?_⟩
  unfold arbIn at harb
  dsimp only at harb
  split at harb
  · cases harb
  · split at harb
    · cases harb
    · rw [← Option.some.inj harb]

end Rows

end Watch

end Ordo
