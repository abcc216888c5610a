import Ordo.Reentrant.World
import Ordo.Reentrant.Zoom
import Ordo.Custody
import Ordo.Words
import Ordo.Legs
import Ordo.Surroundings
import Ordo.NativeFlow
import Ordo.Swap
import Ordo.SwapFunding
import Ordo.Batch
import Ordo.BatchSteps
import Ordo.BatchEscrow
import Ordo.BatchOnce
import Ordo.BatchNative
import Ordo.BatchFairness
import Ordo.BatchSimulate
import Ordo.BatchSolver
import Ordo.BatchSolve
import Ordo.BatchAcceptance
import Ordo.Delayed
import Ordo.SettlementSolvency
import Ordo.SettlementHistory
import Ordo.SettlementSteps
import Ordo.ReceiptLog
import Ordo.ReceiptAudit
import Ordo.Auction
import Ordo.SecondPrice
import Ordo.Rounds
import Ordo.Tables
import Ordo.Bonds
import Ordo.BondsRace
import Ordo.BidOrigins
import Ordo.Liquidity
import Ordo.StakeSolvency
import Ordo.KeyLedger
import Ordo.KeyLedgerRace
import Ordo.Candles
import Ordo.BigIntText
import Ordo.Hints
import Ordo.Delivery
import Ordo.DeliveryBounds
import Ordo.SplitLadder
import Ordo.PlanLadder
import Ordo.LadderPlans
import Ordo.Batcher
import Ordo.BatcherSteps
import Ordo.OrderStatus
import Ordo.Isolation
import Ordo.Hex
import Ordo.Stealth
import Ordo.StealthOwner
import Ordo.Json
import Ordo.FastPath
import Ordo.Finality
import Ordo.ApiKeys
import Ordo.PrivateSend
import Ordo.Protect
import Ordo.SendPaths
import Ordo.RateLimiter
import Ordo.AnonBudget
import Ordo.HeadWatcher
import Ordo.HeadFeed
import Ordo.ServedHead
import Ordo.PromiseChain
import Ordo.Hub
import Ordo.LogFeed
import Ordo.EdgeWorker
import Ordo.EdgeClients
import Ordo.Approvals
import Ordo.SearcherBid
import Ordo.Guarded
import Ordo.SearcherNonce
import Ordo.ArbBot
import Ordo.ArbGasCap
import Ordo.ArbHalt
import Ordo.Prepaid
import Ordo.SendBooks
import Ordo.LabelBilling
import Ordo.HarvestNeutral
import Ordo.Keyed
import Ordo.Detect
import Ordo.Watcher
import Ordo.WatcherCoverage
import Ordo.WatcherReplay
import Ordo.JsonParse
import Ordo.ReceiptHistory
import Ordo.BondsResolved
import Ordo.TwapQuote
import Ordo.TopupStops
import Ordo.Blocks
import Ordo.StealthFeed
import Ordo.LadderLogs
import Ordo.SizeBudget
import Ordo.DecimalText
import Ordo.RebateLedger
import Ordo.SettlementTotals
import Ordo.PlanBudget
import Ordo.ClearingPrice
import Ordo.Framing
import Ordo.FeedMessages
import Ordo.RpcRotation
import Ordo.Numbered
import Ordo.InflightCap
import Ordo.QuoteLane
import Ordo.BestOf
import Ordo.QuoteSwap
import Ordo.WideLogs
import Ordo.ZapVaults
import Ordo.StakeZaps
import Ordo.PooledShares
import Ordo.VaultPrice
import Ordo.CrossCycles
import Ordo.SearcherSocket
import Ordo.Tallies
import Ordo.Explain
import Ordo.SwapStats
import Ordo.Ladders
