import Mathlib.Data.List.Basic
import Mathlib.Tactic.Common
import Ordo.BigIntText

/-!
# Hints

A transaction that the auction holds is simulated, and what its logs show is
broadcast to searchers: the pools it moves, which way, and at the level `full`
how far.

The upstream that simulates is `rpc`, the index of v4 pools `index`; either may
fail.  `hint_noninterference` says which parts of a transaction its hint is a
function of.
-/

namespace Ordo

namespace Hints

inductive HintLevel where
  | minimal
  | pools
  | full
  deriving DecidableEq

inductive SwapKind where
  | univ2
  | univ3
  | univ4
  deriving DecidableEq

inductive SwapDirection where
  | zeroForOne
  | oneForZero
  deriving DecidableEq

structure SimLog where
  address : String
  topics : List String
  data : String
  deriving DecidableEq

structure PoolKey where
  currency0 : String
  currency1 : String
  fee : Int
  tickSpacing : Int
  hooks : String
  deriving DecidableEq

structure SwapHint where
  kind : SwapKind
  pool : String
  poolId : Option String := none
  key : Option PoolKey := none
  direction : Option SwapDirection := none
  amount0 : Option Int := none
  amount1 : Option Int := none
  deriving DecidableEq

def hintLevelFromEnv (env : Option String) : HintLevel :=
  match (env.getD "pools").toLower with
  | "minimal" => .minimal
  | "full" => .full
  | _ => .pools

section Decoding

/-- The `index`th 32-byte word of a log's data; none when the data is too short. -/
def word (data : String) (index : Nat) : Except Thrown (Option Int) :=
  let hex :=
    match data.toList with
    | '0' :: 'x' :: rest => rest
    | chars => chars
  let start := index * 64
  if hex.length < start + 64 then .ok none
  else (bigInt ('0' :: 'x' :: (hex.drop start).take 64)).map some

/-- The same word as a two's-complement number. -/
def signedWord (data : String) (index : Nat) : Except Thrown (Option Int) :=
  (word data index).map fun raw =>
    raw.map fun n => if 2 ^ 255 ≤ n then n - 2 ^ 256 else n

/-- `SWAP_TOPICS` at the first topic of a log. -/
def swapTopic (log : SimLog) : Option SwapKind :=
  match (log.topics.head?.map String.toLower).getD "" with
  | "0xd78ad95fa46c994b6551d0da85fc275fe613ce37657fb8d5e3d130840159d822" => some .univ2
  | "0xc42079f94a6350d7e6235f29174924f928cc2ac818eb64fed8004e115fbcca67" => some .univ3
  | "0x40e9cecb9f5f1f1c5b9c97dec2917b7ee92e57ba5563708daca94dd84ad7112f" => some .univ4
  | _ => none

def decode (log : SimLog) (kind : SwapKind) : Except Thrown SwapHint := do
  let pool := log.address.toLower
  match kind with
  | .univ2 =>
      let a0In ← word log.data 0
      let a1In ← word log.data 1
      let a0Out ← word log.data 2
      let a1Out ← word log.data 3
      match a0In, a1In, a0Out, a1Out with
      | some a0In, some a1In, some a0Out, some a1Out =>
          return {
            kind
            pool
            direction :=
              if 0 < a0In then some .zeroForOne
              else if 0 < a1In then some .oneForZero
              else none
            amount0 := some (a0In - a0Out)
            amount1 := some (a1In - a1Out) }
      | _, _, _, _ => return { kind, pool }
  | .univ3 =>
      -- the pool's deltas
      let a0 ← signedWord log.data 0
      let a1 ← signedWord log.data 1
      match a0, a1 with
      | some a0, some a1 =>
          return {
            kind
            pool
            direction :=
              if 0 < a0 then some .zeroForOne
              else if a0 < 0 then some .oneForZero
              else none
            amount0 := some a0
            amount1 := some a1 }
      | _, _ => return { kind, pool }
  | .univ4 =>
      -- the swapper's deltas, so the sign is the other one
      let poolId := (log.topics[1]?).filter (· ≠ "")
      let a0 ← signedWord log.data 0
      let a1 ← signedWord log.data 1
      match a0, a1 with
      | some a0, some a1 =>
          return {
            kind
            pool
            poolId
            direction :=
              if a0 < 0 then some .zeroForOne
              else if 0 < a0 then some .oneForZero
              else none
            amount0 := some a0
            amount1 := some a1 }
      | _, _ => return { kind, pool, poolId }

end Decoding

namespace SwapHint

/-- What hints are collected by: `poolId ?? pool`. -/
def market (hint : SwapHint) : String := hint.poolId.getD hint.pool

/-- Below `full` the amounts are deleted. -/
def redact (level : HintLevel) (hint : SwapHint) : SwapHint :=
  if level = .full then hint else { hint with amount0 := none, amount1 := none }

end SwapHint

/-- One round of the loop over the logs. -/
def collect (level : HintLevel) (seen : List SwapHint) (log : SimLog) :
    Except Thrown (List SwapHint) :=
  match swapTopic log with
  | none => .ok seen
  | some kind => do
      let hint ← decode log kind
      if seen.any (·.market = hint.market) then return seen
      else return seen ++ [hint.redact level]

def extractSwapHints (logs : List SimLog) (level : HintLevel) : Except Thrown (List SwapHint) :=
  if level = .minimal then .ok [] else logs.foldlM (collect level) []

/-- Somewhere that can turn v4 pool ids into their keys. -/
abbrev V4Keys := List String → Except Thrown (String → Option PoolKey)

def withV4Keys (hints : List SwapHint) (index : Option V4Keys) : List SwapHint :=
  let ids := hints.filterMap fun h => if h.kind = .univ4 then h.poolId else none
  match index with
  | none => hints
  | some v4PoolsByIds =>
      if ids = [] then hints
      else
        match v4PoolsByIds ids with
        | .error _ => hints
        | .ok keys =>
            hints.map fun h =>
              match h.poolId.bind keys with
              | some k => { h with key := some k }
              | none => h

/-- A signed transaction as it is parsed, and the signer, if one can be recovered. -/
structure UserTx where
  dst : Option String
  data : Option String
  value : Option Nat
  gas : Option Nat
  signer : Option String
  deriving DecidableEq

/-- The call of an `eth_simulateV1` request and the balance it gives the sender. -/
structure SimRequest where
  sender : String
  dst : Option String
  data : Option String
  value : Option Nat
  gas : Option Nat
  balance : Option Nat
  block : String
  deriving DecidableEq

structure RpcLog where
  address : String
  topics : Option (List String)
  data : Option String
  deriving DecidableEq

/-- The outcome of the one call; a gas figure may be a text that is no number. -/
structure SimCallOut where
  status : Option String
  logs : Option (List RpcLog)
  gasUsed : Option (Except Thrown Nat)
  errorMessage : Option String
  returnData : Option String

abbrev Rpc := SimRequest → Except Thrown (Option SimCallOut)

structure SimTxResult where
  ok : Bool
  degraded : Bool
  logs : List SimLog
  gasUsed : Nat
  revertReason : Option String
  deriving DecidableEq

def SimTxResult.empty : SimTxResult where
  ok := false
  degraded := true
  logs := []
  gasUsed := 0
  revertReason := none

def simRequest (tx : UserTx) (signer : String) (fundSender : Bool) : SimRequest where
  sender := signer
  dst := tx.dst
  data := tx.data.filter fun d => d ≠ "" ∧ d ≠ "0x"
  value := tx.value.filter (0 < ·)
  gas := tx.gas
  balance := if fundSender then some (100 * 10 ^ 18) else none
  block := "latest"

/-- Replay a signed transaction at head without broadcasting it. -/
def simulateTx (rpc : Rpc) (tx : UserTx) (fundSender : Bool) : Except Thrown SimTxResult :=
  match tx.signer with
  | none => .ok .empty
  | some signer =>
      match rpc (simRequest tx signer fundSender) with
      | .error _ => .ok .empty
      | .ok none => .ok .empty
      | .ok (some out) => do
          let ok := decide (out.status = some "0x1")
          let gasUsed ← out.gasUsed.getD (.ok 0)
          return {
            ok
            degraded := false
            logs := (out.logs.getD []).map fun l =>
              { address := l.address, topics := l.topics.getD [], data := l.data.getD "0x" }
            gasUsed
            revertReason :=
              if ok then none
              else some (out.errorMessage.getD (out.returnData.getD "reverted")) }

/-- The hint of an opportunity. -/
structure OpportunityHint where
  dst : Option String
  selector : Option String
  value : String
  level : HintLevel
  poolsTouched : List String
  swaps : List SwapHint
  simulated : Bool
  deriving DecidableEq

/-- The function selector, of a call that has one. -/
def selector (tx : UserTx) : Option String :=
  let data := (tx.data.getD "0x").toList
  if 10 ≤ data.length then some (String.ofList (data.take 10)) else none

/-- `"0x" + value.toString(16)`. -/
def hexWei (tx : UserTx) : String :=
  "0x" ++ String.ofList (Nat.toDigits 16 (tx.value.getD 0))

/-- `tx.to ? [tx.to.toLowerCase()] : []`. -/
def target (tx : UserTx) : List String := (tx.dst.map String.toLower).toList

def buildHint (level : HintLevel) (index : Option V4Keys) (rpc : Rpc) (simulate : Bool)
    (tx : UserTx) : OpportunityHint :=
  let base : OpportunityHint :=
    { dst := tx.dst
      selector := selector tx
      value := hexWei tx
      level
      poolsTouched := []
      swaps := []
      simulated := false }
  if level = .minimal ∨ simulate = false ∨ selector tx = none then base
  else
    let swaps : Except Thrown (Option (List SwapHint)) := do
      let sim ← simulateTx rpc tx true
      if ¬ sim.ok ∨ sim.degraded then return none
      else
        let hints ← extractSwapHints sim.logs level
        return some (withV4Keys hints index)
    match swaps with
    | .ok (some swaps) =>
        { base with poolsTouched := (swaps.map (·.pool)).eraseDups, swaps, simulated := true }
    | .ok none => { base with poolsTouched := target tx }
    | .error _ => { base with poolsTouched := target tx }

/-- What a swap shows of itself without its amounts. -/
structure Touch where
  kind : SwapKind
  pool : String
  poolId : Option String
  direction : Option SwapDirection
  deriving DecidableEq

namespace Touch

def market (t : Touch) : String := t.poolId.getD t.pool

/-- The hint that says this much. -/
def hint (t : Touch) : SwapHint where
  kind := t.kind
  pool := t.pool
  poolId := t.poolId
  direction := t.direction

/-- A market keeps the swap that was first there. -/
def keepFirst (seen : List Touch) (t : Touch) : List Touch :=
  if seen.any (·.market = t.market) then seen else seen ++ [t]

end Touch

def SwapHint.touch (h : SwapHint) : Touch where
  kind := h.kind
  pool := h.pool
  poolId := h.poolId
  direction := h.direction

/-- The swaps of the logs in order. -/
def touches : List SimLog → Except Thrown (List Touch)
  | [] => .ok []
  | log :: logs =>
      match swapTopic log with
      | none => touches logs
      | some kind => do
          let hint ← decode log kind
          let rest ← touches logs
          return hint.touch :: rest

/-- The pools a transaction is simulated to move, in the order in which it first
moves them, and which way; none when no simulation shows it. -/
def effects (sim : Except Thrown SimTxResult) : Option (List Touch) :=
  match sim with
  | .error _ => none
  | .ok sim =>
      if ¬ sim.ok ∨ sim.degraded then none
      else
        match touches sim.logs with
        | .error _ => none
        | .ok ts => some (ts.foldl Touch.keepFirst [])

/-- A hint is decoded before anybody names its pool. -/
theorem decode_key {log : SimLog} {kind : SwapKind} {h : SwapHint}
    (hd : decode log kind = .ok h) : h.key = none := by
  unfold decode at hd
  cases kind <;> simp only [bind, Except.bind, pure, Except.pure] at hd <;>
    repeat' split at hd
  all_goals cases hd
  all_goals rfl

/-- A redacted hint says what the swap shows without its amounts. -/
theorem redact_eq {level : HintLevel} {h : SwapHint} (hlevel : level ≠ .full)
    (hkey : h.key = none) : h.redact level = h.touch.hint := by
  cases h
  simp_all [SwapHint.redact, SwapHint.touch, Touch.hint]

/-- Hints collected below `full` are those of the swaps without their amounts. -/
theorem foldlM_collect {level : HintLevel} (hlevel : level ≠ .full) (logs : List SimLog) :
    ∀ seen : List Touch,
      logs.foldlM (collect level) (seen.map Touch.hint) =
        (touches logs).map fun ts => (ts.foldl Touch.keepFirst seen).map Touch.hint := by
  induction logs with
  | nil => intro seen; rfl
  | cons log logs ih =>
      intro seen
      rw [List.foldlM_cons, touches]
      cases hkind : swapTopic log with
      | none =>
          have hstep : collect level (seen.map Touch.hint) log = .ok (seen.map Touch.hint) := by
            simp only [collect, hkind]
          rw [hstep]
          exact ih seen
      | some kind =>
          cases hd : decode log kind with
          | error e =>
              have hstep : collect level (seen.map Touch.hint) log = .error e := by
                simp only [collect, hkind, hd, bind, Except.bind]
              rw [hstep]
              simp only [hd]
              rfl
          | ok h =>
              have hany : (seen.map Touch.hint).any (fun g => g.market = h.market)
                  = seen.any (fun t => t.market = h.touch.market) := by
                rw [List.any_map]
                rfl
              have hstep : collect level (seen.map Touch.hint) log
                  = .ok ((Touch.keepFirst seen h.touch).map Touch.hint) := by
                simp only [collect, hkind, hd, bind, Except.bind, pure, Except.pure, hany,
                  redact_eq hlevel (decode_key hd), Touch.keepFirst]
                split <;> simp
              rw [hstep]
              simp only [hd, bind, Except.bind]
              rw [ih (Touch.keepFirst seen h.touch)]
              cases touches logs <;> rfl

/-- What an observer below `full` is shown of a transaction. -/
def shown (level : HintLevel) (index : Option V4Keys) (simulate : Bool) (dst : Option String)
    (selector : Option String) (value : String) (effects : Option (List Touch)) :
    OpportunityHint :=
  let base : OpportunityHint :=
    { dst, selector, value, level, poolsTouched := [], swaps := [], simulated := false }
  if level = .minimal ∨ simulate = false ∨ selector = none then base
  else
    match effects with
    | some ts =>
        let swaps := withV4Keys (ts.map Touch.hint) index
        { base with poolsTouched := (swaps.map (·.pool)).eraseDups, swaps, simulated := true }
    | none => { base with poolsTouched := (dst.map String.toLower).toList }

/-- **What a hint is a function of.**  Below `full`, of the target, the selector, the
value and the effects. -/
theorem buildHint_eq {level : HintLevel} (hlevel : level ≠ .full) (index : Option V4Keys)
    (rpc : Rpc) (simulate : Bool) (tx : UserTx) :
    buildHint level index rpc simulate tx =
      shown level index simulate tx.dst (selector tx) (hexWei tx)
        (effects (simulateTx rpc tx true)) := by
  unfold buildHint shown
  by_cases hskip : level = .minimal ∨ simulate = false ∨ selector tx = none
  · simp only [hskip, if_true]
  · simp only [hskip, if_false]
    have hmin : level ≠ .minimal := fun h => hskip (Or.inl h)
    cases simulateTx rpc tx true with
    | error e => rfl
    | ok sim =>
        have hextract : extractSwapHints sim.logs level =
            (touches sim.logs).map fun ts => (ts.foldl Touch.keepFirst []).map Touch.hint := by
          rw [extractSwapHints, if_neg hmin]
          exact foldlM_collect hlevel sim.logs []
        by_cases hfail : ¬ sim.ok ∨ sim.degraded
        · simp only [bind, Except.bind, pure, Except.pure, effects, if_pos hfail]
          rfl
        · simp only [bind, Except.bind, pure, Except.pure, effects, if_neg hfail, hextract]
          cases touches sim.logs <;> rfl

section Sample

/-- A word of a log's data. -/
def padded (n : Nat) : String :=
  let digits := Nat.toDigits 16 n
  String.ofList (List.replicate (64 - digits.length) '0' ++ digits)

/-- An upstream at which a call sells, into one v3 pool, the ether it was sent or
else `amount` of a token. -/
def seller (amount : Nat) : Rpc := fun request =>
  .ok (some
    { status := some "0x1"
      logs := some [
        { address := "0xPool"
          topics := some ["0xc42079f94a6350d7e6235f29174924f928cc2ac818eb64fed8004e115fbcca67"]
          data := some ("0x" ++ padded (request.value.getD amount) ++ padded 0) }]
      gasUsed := none
      errorMessage := none
      returnData := none })

def sale (data : String) (value : Option Nat) (signer : String) : UserTx where
  dst := some "0xRouter"
  data := some data
  value := value
  gas := none
  signer := some signer

/-- One pool sold into, and nothing else that a level below `full` would show. -/
def soldOnce : Option (List Touch) := some [⟨.univ3, "0xpool", none, some .zeroForOne⟩]

/-- What the seller's pool logs depends on the call only in the ether that is attached. -/
def sold (n : Nat) : SimTxResult where
  ok := true
  degraded := false
  logs := [
    { address := "0xPool"
      topics := ["0xc42079f94a6350d7e6235f29174924f928cc2ac818eb64fed8004e115fbcca67"]
      data := "0x" ++ padded n ++ padded 0 }]
  gasUsed := 0
  revertReason := none

theorem simulateTx_seller (amount : Nat) (data : String) (value : Option Nat)
    (signer : String) : simulateTx (seller amount) (sale data value signer) true =
      .ok (sold ((value.filter (0 < ·)).getD amount)) := by
  simp [simulateTx, sale, seller, simRequest, sold, bind, Except.bind, pure, Except.pure]

theorem swapTopic_sold (data : String) :
    swapTopic { address := "0xPool", data := data, topics :=
      ["0xc42079f94a6350d7e6235f29174924f928cc2ac818eb64fed8004e115fbcca67"] } =
      some .univ3 := by
  have hlower : "0xc42079f94a6350d7e6235f29174924f928cc2ac818eb64fed8004e115fbcca67".toLower =
      "0xc42079f94a6350d7e6235f29174924f928cc2ac818eb64fed8004e115fbcca67" := by
    rw [← String.toList_inj, toLower_eq_map, String.toList_map]
    decide
  simp only [swapTopic, List.head?_cons, Option.map_some, Option.getD_some, hlower]

/-- A word of a text, of its characters. -/
theorem word_eq {data : String} {chars : List Char} (hdata : data.toList = '0' :: 'x' :: chars)
    (index : Nat) : word data index =
      if chars.length < index * 64 + 64 then .ok none
      else (bigInt ('0' :: 'x' :: (chars.drop (index * 64)).take 64)).map some := by
  simp only [word, hdata]

theorem toList_padded (n : Nat) : (padded n).toList =
    List.replicate (64 - (Nat.toDigits 16 n).length) '0' ++ Nat.toDigits 16 n :=
  String.toList_ofList

theorem signedWord_sold {n index : Nat} {raw : Int}
    (h : (if ((padded n).toList ++ (padded 0).toList).length < index * 64 + 64 then
        (.ok none : Except Thrown (Option Int))
      else (bigInt ('0' :: 'x' ::
        (((padded n).toList ++ (padded 0).toList).drop (index * 64)).take 64)).map some) =
          .ok (some raw))
    (hraw : raw < 2 ^ 255) :
    signedWord ("0x" ++ padded n ++ padded 0) index = .ok (some raw) := by
  have htext : ("0x" ++ padded n ++ padded 0).toList =
      '0' :: 'x' :: ((padded n).toList ++ (padded 0).toList) := by
    have hstart : "0x".toList = ['0', 'x'] := by decide
    rw [String.toList_append, String.toList_append, List.append_assoc, hstart, List.cons_append,
      List.cons_append, List.nil_append]
  rw [signedWord, word_eq htext, h]
  simp only [Except.map, Option.map_some, if_neg (Int.not_le.mpr hraw)]

/-- A sale of an amount that is written in one word. -/
theorem effects_sold {n : Nat} {raw : Int} (hpos : 0 < raw)
    (hfirst : signedWord ("0x" ++ padded n ++ padded 0) 0 = .ok (some raw))
    (hsecond : signedWord ("0x" ++ padded n ++ padded 0) 1 = .ok (some 0)) :
    effects (.ok (sold n)) = soldOnce := by
  have hlower : "0xPool".toLower = "0xpool" := by
    decide +kernel
  simp only [effects, sold, touches, swapTopic_sold, decode, hfirst, hsecond, hlower, hpos, bind,
    Except.bind, pure, Except.pure, SwapHint.touch, soldOnce, Touch.keepFirst, List.foldl_cons,
    List.foldl_nil, if_true, List.any_nil, List.nil_append]
  simp

theorem buildHint_value (level : HintLevel) (index : Option V4Keys) (rpc : Rpc)
    (simulate : Bool) (tx : UserTx) :
    (buildHint level index rpc simulate tx).value = hexWei tx := by
  simp only [buildHint]
  split
  · rfl
  · split <;> rfl

theorem buildHint_selector (level : HintLevel) (index : Option V4Keys) (rpc : Rpc)
    (simulate : Bool) (tx : UserTx) :
    (buildHint level index rpc simulate tx).selector = selector tx := by
  simp only [buildHint]
  split
  · rfl
  · split <;> rfl

end Sample

end Hints

end Ordo
