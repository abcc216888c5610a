import Ordo.PrivateSend
import Ordo.Blocks

/-!
# Logs of a wide range

`eth_getLogs` is asked as the caller asks it, and when the upstream refuses the range it is
asked again for the two halves, down to a single block, under a budget of requests and a
budget of logs.

An upstream answers a request exactly or refuses it.  The first request carries the bounds of
the caller, which the upstream reads; the halves carry numbers, which `resolveRange` reads.
`answers_iff` says when the two readings agree, whatever is refused.
-/

namespace Ordo

namespace WideLogs

open PrivateSend Blocks

/-! ### Filters and chains -/

inductive Tag where
  | latest
  | pending
  | safe
  | finalized
  deriving DecidableEq

/-- A block, as a filter names it. -/
inductive Bound where
  | number (n : Nat)
  | earliest
  | tag (t : Tag)
  deriving DecidableEq

/-- The parameter of `eth_getLogs`; `criteria` is its `address` and its `topics`. -/
structure Filter (Criteria Hash : Type) where
  fromBlock : Option Bound := none
  toBlock : Option Bound := none
  blockHash : Option Hash := none
  criteria : Criteria

/-- A chain during one call: its heads do not move. -/
structure Chain (Criteria Hash Log : Type) where
  head : Tag → Nat
  logs : Criteria → Nat → List Log
  logsOf : Criteria → Hash → List Log

variable {Criteria Hash Log : Type}

section Asked

variable (chain : Chain Criteria Hash Log)

/-- A bound as `eth_getLogs` reads it: one that is missing is the latest block. -/
def Chain.block : Option Bound → Nat
  | none => chain.head .latest
  | some (.number n) => n
  | some .earliest => 0
  | some (.tag t) => chain.head t

/-- What an upstream without limits returns. -/
def Chain.asked (filter : Filter Criteria Hash) : List Log :=
  match filter.blockHash with
  | some hash => chain.logsOf filter.criteria hash
  | none => between (chain.logs filter.criteria) (chain.block filter.fromBlock)
      (chain.block filter.toBlock)

/-- The part of a filter from one block to another. -/
def Filter.part (filter : Filter Criteria Hash) (first last : Nat) : Filter Criteria Hash :=
  { filter with fromBlock := some (.number first), toBlock := some (.number last) }

theorem Chain.asked_part {filter : Filter Criteria Hash} (hhash : filter.blockHash = none)
    (first last : Nat) :
    chain.asked (filter.part first last) = between (chain.logs filter.criteria) first last := by
  have hnone : (filter.part first last).blockHash = none := hhash
  rw [Chain.asked, hnone]
  rfl

end Asked

/-! ### The upstream -/

/-- What the upstream refuses: the message with which it refuses an `eth_getLogs` request,
given how many came before, and the one with which it refuses `eth_blockNumber`.  What it does
not refuse, it answers. -/
structure Upstream (Criteria Hash : Type) where
  logs : Nat → Filter Criteria Hash → Option String := fun _ _ => none
  blockNumber : Option String := none

/-- What a call throws: the error of the upstream as it is, or an `RpcError`. -/
inductive Failure where
  | upstream (message : String)
  | rpcError (code : Int) (message : String)
  deriving DecidableEq

section Requests

variable (chain : Chain Criteria Hash Log) (u : Upstream Criteria Hash)

/-- `rpc("eth_getLogs", [filter])`, after `calls` such requests. -/
def Upstream.getLogs (calls : Nat) (filter : Filter Criteria Hash) : Except String (List Log) :=
  match u.logs calls filter with
  | some message => .error message
  | none => .ok (chain.asked filter)

/-- `rpc("eth_blockNumber", [])` -/
def Upstream.head : Except String Nat :=
  match u.blockNumber with
  | some message => .error message
  | none => .ok (chain.head .latest)

theorem Upstream.getLogs_eq_ok {chain : Chain Criteria Hash Log} {u : Upstream Criteria Hash}
    {calls : Nat} {filter : Filter Criteria Hash} {logs : List Log}
    (h : u.getLogs chain calls filter = .ok logs) : logs = chain.asked filter := by
  unfold Upstream.getLogs at h
  split at h
  · cases h
  · cases h
    rfl

end Requests

/-- The upstream is refusing because we looked too far, or because too much came back. -/
def isRangeRefusal (message : String) : Bool :=
  let m := message.toList.map Char.toLower
  hasInfix "block range".toList m || hasInfix "range limit".toList m ||
    hasInfix "exceeds limit".toList m || hasInfix "query returned more than".toList m ||
    hasInfix "too many results".toList m || hasInfix "log response size exceeded".toList m ||
    hasInfix "range too large".toList m

/-! ### The range -/

/-- A bound as `tag` reads it: the head of the chain, or a number. -/
inductive Resolved where
  | head
  | number (n : Nat)
  deriving DecidableEq

/-- `tag`.  Every head of the chain is the one `eth_blockNumber` tells. -/
def tag (v : Option Bound) (fallback : Resolved) : Resolved :=
  match v with
  | none => fallback
  | some (.tag _) => .head
  | some .earliest => .number 0
  | some (.number n) => .number n

def Resolved.block (head : Nat) : Resolved → Nat
  | .head => head
  | .number n => n

/-- The first block and the last one of the split. -/
def resolved (head : Nat) (filter : Filter Criteria Hash) : Nat × Nat :=
  ((tag filter.fromBlock (.number 0)).block head, (tag filter.toBlock .head).block head)

/-- Block tags a caller may use, resolved to numbers so a range can be halved. -/
def resolveRange (chain : Chain Criteria Hash Log) (u : Upstream Criteria Hash)
    (filter : Filter Criteria Hash) : Except String (Nat × Nat) :=
  match tag filter.fromBlock (.number 0), tag filter.toBlock .head with
  | .number a, .number b => .ok (a, b)
  | a, b =>
      match u.head chain with
      | .error message => .error message
      | .ok head => .ok (a.block head, b.block head)

theorem resolveRange_eq_ok {chain : Chain Criteria Hash Log} {u : Upstream Criteria Hash}
    {filter : Filter Criteria Hash} {range : Nat × Nat}
    (h : resolveRange chain u filter = .ok range) :
    range = resolved (chain.head .latest) filter := by
  unfold resolveRange at h
  split at h
  next a b ha hb =>
    cases h
    rw [resolved, ha, hb]
    rfl
  · unfold Upstream.head at h
    cases hu : u.blockNumber with
    | some message =>
        rw [hu] at h
        cases h
    | none =>
        rw [hu] at h
        cases h
        rfl

/-- An upstream that tells its head lets every range be resolved. -/
theorem resolveRange_of_head (chain : Chain Criteria Hash Log) {u : Upstream Criteria Hash}
    (hu : u.blockNumber = none) (filter : Filter Criteria Hash) :
    resolveRange chain u filter = .ok (resolved (chain.head .latest) filter) := by
  unfold resolveRange
  split
  next a b ha hb =>
    rw [resolved, ha, hb]
    rfl
  · rw [Upstream.head, hu]
    rfl

/-! ### The walk -/

structure WideOptions where
  maxCalls : Option Nat := none
  maxLogs : Option Nat := none

def WideOptions.calls (opts : WideOptions) : Nat := opts.maxCalls.getD 40

def WideOptions.logs (opts : WideOptions) : Nat := opts.maxLogs.getD 150000

/-- `n.toLocaleString("en-US")`: a comma between groups of three digits. -/
def localeString (n : Nat) : String :=
  String.ofList (((Nat.toDigits 10 n).reverse.toChunks 3).intersperse [',']).flatten.reverse

def outOfCalls (maxCalls : Nat) : Failure :=
  .rpcError (-32005) ("eth_getLogs: this range needed more than " ++ toString maxCalls ++
    " upstream queries to answer. Narrow the block range or add an address or topic filter — " ++
    "a partial answer would look complete, so none is returned.")

def blockTooLarge (first : Nat) : Failure :=
  .rpcError (-32005) ("eth_getLogs: block " ++ toString first ++ " alone returns more logs than " ++
    "the upstream will serve. Add an address or topic filter.")

def tooManyLogs (maxLogs : Nat) : Failure :=
  .rpcError (-32005) ("eth_getLogs: this query matches more than " ++ localeString maxLogs ++
    " logs. Narrow the range or add a filter.")

def backwards : Failure := .rpcError (-32602) "eth_getLogs: fromBlock is after toBlock"

/-- The requests spent so far, and the logs that came. -/
structure Walk (Log : Type) where
  calls : Nat
  out : List Log

section Walking

variable (chain : Chain Criteria Hash Log) (u : Upstream Criteria Hash)
  (filter : Filter Criteria Hash) (maxCalls maxLogs : Nat)

def walk (first last : Nat) (w : Walk Log) : Except Failure Unit × Walk Log :=
  if maxCalls ≤ w.calls then (.error (outOfCalls maxCalls), w)
  else
    match u.getLogs chain w.calls (filter.part first last) with
    | .ok logs =>
        if maxLogs < w.out.length + logs.length then
          (.error (tooManyLogs maxLogs), ⟨w.calls + 1, w.out⟩)
        else (.ok (), ⟨w.calls + 1, w.out ++ logs⟩)
    | .error message =>
        if isRangeRefusal message then
          if last ≤ first then (.error (blockTooLarge first), ⟨w.calls + 1, w.out⟩)
          else
            match walk first (first + (last - first) / 2) ⟨w.calls + 1, w.out⟩ with
            | (.ok (), w') => walk (first + (last - first) / 2 + 1) last w'
            | (.error e, w') => (.error e, w')
        else (.error (.upstream message), ⟨w.calls + 1, w.out⟩)
  termination_by last - first

/-- Answer `eth_getLogs` however wide it is, or say why not; with the requests it took. -/
def getLogsWide (opts : WideOptions) : Except Failure (List Log) × Nat :=
  match filter.blockHash with
  | some _ => ((u.getLogs chain 0 filter).mapError .upstream, 1)
  | none =>
      match u.getLogs chain 0 filter with
      | .ok logs => (.ok logs, 1)
      | .error message =>
          if isRangeRefusal message then
            match resolveRange chain u filter with
            | .error message => (.error (.upstream message), 1)
            | .ok (first, last) =>
                if last < first then (.error backwards, 1)
                else
                  match walk chain u filter opts.calls opts.logs first last ⟨1, []⟩ with
                  | (.ok (), w) => (.ok w.out, w.calls)
                  | (.error e, w) => (.error e, w.calls)
          else (.error (.upstream message), 1)

end Walking

section Runs

variable {chain : Chain Criteria Hash Log} {u : Upstream Criteria Hash}
  {filter : Filter Criteria Hash} {maxCalls maxLogs : Nat}

/-- A walk keeps to the budget of requests, whether it gets through or not. -/
theorem walk_calls {first last : Nat} {w : Walk Log} (hw : w.calls ≤ maxCalls) :
    (walk chain u filter maxCalls maxLogs first last w).2.calls ≤ maxCalls := by
  fun_induction walk chain u filter maxCalls maxLogs first last w with
  | case1 => exact hw
  | case5 first last w hbudget message hrefused hrange hwide w' hleft ihleft ihright =>
      apply ihright
      have hcalls := ihleft (by show w.calls + 1 ≤ maxCalls; omega)
      rw [hleft] at hcalls
      exact hcalls
  | case6 first last w hbudget message hrefused hrange hwide e w' hleft ihleft =>
      have hcalls := ihleft (by show w.calls + 1 ≤ maxCalls; omega)
      rw [hleft] at hcalls
      exact hcalls
  | case2 | case3 | case4 | case7 =>
      show _ + 1 ≤ maxCalls
      omega

/-- A walk that gets through has the logs of every block, one after the other. -/
theorem walk_ok {first last : Nat} {w w' : Walk Log} (hhash : filter.blockHash = none)
    (h : walk chain u filter maxCalls maxLogs first last w = (.ok (), w')) :
    w.calls < maxCalls ∧ w'.out.length ≤ maxLogs ∧
      w'.out = w.out ++ between (chain.logs filter.criteria) first last := by
  fun_induction walk chain u filter maxCalls maxLogs first last w generalizing w' with
  | case3 first last w hbudget logs hanswer hfew =>
      cases h
      have hlogs := Upstream.getLogs_eq_ok hanswer
      rw [chain.asked_part hhash] at hlogs
      refine ⟨by omega, ?_, by rw [hlogs]⟩
      show (w.out ++ logs).length ≤ maxLogs
      rw [List.length_append]
      omega
  | case5 first last w hbudget message hrefused hrange hwide middle hleft ihleft ihright =>
      obtain ⟨-, -, houtleft⟩ := ihleft hleft
      obtain ⟨-, hlength, hout⟩ := ihright h
      refine ⟨by omega, hlength, ?_⟩
      have hhalves :
          between (chain.logs filter.criteria) first (first + (last - first) / 2 : Nat) ++
            between (chain.logs filter.criteria) (first + (last - first) / 2 + 1 : Nat) last =
          between (chain.logs filter.criteria) first last := by
        rw [Nat.cast_succ]
        exact between_append (by omega) (by omega) (by omega)
      rw [hout, houtleft, List.append_assoc, hhalves]
  | case1 | case2 | case4 | case6 | case7 => cases h

end Runs

/-! ### The answer -/

section Answer

variable (chain : Chain Criteria Hash Log) (filter : Filter Criteria Hash) (opts : WideOptions)

/-- A call keeps to its budget of requests, and what it returns is what was asked. -/
def Answers (u : Upstream Criteria Hash) : Prop :=
  (getLogsWide chain u filter opts).2 ≤ opts.calls ∧
    ∀ logs : List Log, (getLogsWide chain u filter opts).1 = .ok logs → logs = chain.asked filter

/-- The split reads the bounds as the upstream does, or holds more than a call may return, or
runs backwards. -/
def SplitAgrees : Prop :=
  let (first, last) := resolved (chain.head .latest) filter
  first ≤ last → (between (chain.logs filter.criteria) first last).length ≤ opts.logs →
    between (chain.logs filter.criteria) first last = chain.asked filter

variable {chain filter opts} {u : Upstream Criteria Hash}

/-- A filter by block hash is the upstream's answer verbatim. -/
theorem answers_of_hash {hash : Hash} (hhash : filter.blockHash = some hash)
    (hcalls : 1 ≤ opts.calls) : Answers chain filter opts u := by
  rw [Answers, getLogsWide, hhash]
  refine ⟨hcalls, ?_⟩
  intro logs h
  cases hu : u.getLogs chain 0 filter with
  | ok answer =>
      rw [hu] at h
      cases h
      exact Upstream.getLogs_eq_ok hu
  | error message =>
      rw [hu] at h
      cases h

/-- What the split returns is what the blocks of the resolved range hold. -/
theorem answers_of_agrees (hhash : filter.blockHash = none) (hcalls : 1 ≤ opts.calls)
    (hagrees : 2 ≤ opts.calls → SplitAgrees chain filter opts) : Answers chain filter opts u := by
  unfold Answers getLogsWide
  rw [hhash]
  dsimp only
  split
  next answer hu =>
    refine ⟨hcalls, ?_⟩
    intro logs h
    cases h
    exact Upstream.getLogs_eq_ok hu
  next message hu =>
    split
    next hrange =>
      split
      next =>
        exact ⟨hcalls, fun _ h => nomatch h⟩
      next first last hresolve =>
        have hresolved := resolveRange_eq_ok hresolve
        split
        next => exact ⟨hcalls, fun _ h => nomatch h⟩
        next hforward =>
          have hbudget : (walk chain u filter opts.calls opts.logs first last ⟨1, []⟩).2.calls ≤
              opts.calls := walk_calls hcalls
          split
          next w hwalk =>
            rw [hwalk] at hbudget
            refine ⟨hbudget, ?_⟩
            intro logs h
            cases h
            obtain ⟨hspent, hlength, hout⟩ := walk_ok hhash hwalk
            rw [List.nil_append] at hout
            have hsplit := hagrees hspent
            rw [SplitAgrees, ← hresolved] at hsplit
            rw [hout]
            rw [hout] at hlength
            exact hsplit (by omega) hlength
          next e w hwalk =>
            rw [hwalk] at hbudget
            exact ⟨hbudget, fun _ h => nomatch h⟩
    next => exact ⟨hcalls, fun _ h => nomatch h⟩

/-- An upstream that refuses the first request alone. -/
def refusesFirst : Upstream Criteria Hash where
  logs calls _ := if calls = 0 then some "Block range limit exceeded." else none

theorem walk_of_served {maxCalls maxLogs first last : Nat} {w : Walk Log}
    (hu : u.logs w.calls (filter.part first last) = none) (hhash : filter.blockHash = none)
    (hcalls : w.calls < maxCalls)
    (hlogs : w.out.length + (between (chain.logs filter.criteria) first last).length ≤ maxLogs) :
    walk chain u filter maxCalls maxLogs first last w =
      (.ok (), ⟨w.calls + 1, w.out ++ between (chain.logs filter.criteria) first last⟩) := by
  have hserved : u.getLogs chain w.calls (filter.part first last) =
      .ok (between (chain.logs filter.criteria) first last) := by
    rw [Upstream.getLogs, hu, ← chain.asked_part hhash]
  rw [walk, if_neg (by omega), hserved]
  exact if_neg (by omega)

/-- When only the first request is refused, the call returns what the resolved range holds. -/
theorem getLogsWide_refusesFirst {first last : Nat} (hhash : filter.blockHash = none)
    (hcalls : 2 ≤ opts.calls) (hrange : resolved (chain.head .latest) filter = (first, last))
    (hforward : first ≤ last)
    (hlogs : (between (chain.logs filter.criteria) first last).length ≤ opts.logs) :
    (getLogsWide chain refusesFirst filter opts).1 =
      .ok (between (chain.logs filter.criteria) first last) := by
  have hrefused : refusesFirst.getLogs chain 0 filter = .error "Block range limit exceeded." := rfl
  have hrefusal : isRangeRefusal "Block range limit exceeded." = true := by decide +kernel
  have hresolve : resolveRange chain refusesFirst filter = .ok (first, last) := by
    rw [← hrange]
    exact resolveRange_of_head chain rfl filter
  have hwalk : walk chain refusesFirst filter opts.calls opts.logs first last ⟨1, []⟩ =
      (.ok (), ⟨2, between (chain.logs filter.criteria) first last⟩) := by
    apply walk_of_served rfl hhash hcalls
    rw [List.length_nil]
    omega
  have hnot : ¬ last < first := by omega
  unfold getLogsWide
  rw [hhash, hrefused]
  simp only [hrefusal, if_true, hresolve, if_neg hnot, hwalk]

/-- A call answers what was asked, whatever the upstream refuses, exactly when it may make a
request, and its split, where it may make a second one, reads the bounds as the upstream does. -/
theorem answers_iff (chain : Chain Criteria Hash Log) (filter : Filter Criteria Hash)
    (opts : WideOptions) :
    (∀ u : Upstream Criteria Hash, Answers chain filter opts u) ↔
      1 ≤ opts.calls ∧
        (filter.blockHash = none → 2 ≤ opts.calls → SplitAgrees chain filter opts) := by
  constructor
  · intro h
    have hcalls : 1 ≤ opts.calls := by
      have hserved := (h {}).1
      cases hhash : filter.blockHash <;> rw [getLogsWide, hhash] at hserved <;> exact hserved
    refine ⟨hcalls, ?_⟩
    intro hhash htwo hforward hlogs
    exact (h refusesFirst).2 _ (getLogsWide_refusesFirst hhash htwo rfl hforward hlogs)
  · rintro ⟨hcalls, hagrees⟩ u
    cases hhash : filter.blockHash with
    | some hash => exact answers_of_hash hhash hcalls
    | none => exact answers_of_agrees hhash hcalls (hagrees hhash)

section Readings

/-- The bounds that `resolveRange` reads as `eth_getLogs` does. -/
def Bound.Plain : Bound → Prop
  | .number _ => True
  | .earliest => True
  | .tag t => t = .latest

theorem block_tag {v : Option Bound} {fallback : Resolved} (hv : ∀ b ∈ v, b.Plain)
    (hmissing : v = none → fallback = .head) :
    (tag v fallback).block (chain.head .latest) = chain.block v := by
  cases v with
  | none =>
      rw [hmissing rfl]
      rfl
  | some b =>
      cases b with
      | tag t =>
          have ht : t = .latest := hv _ rfl
          rw [ht]
          rfl
      | number n => rfl
      | earliest => rfl

/-- A filter that names its first block, and no head but the latest, is split as asked. -/
theorem splitAgrees_of_plain (opts : WideOptions) (hhash : filter.blockHash = none)
    (hgiven : filter.fromBlock ≠ none) (hfirst : ∀ b ∈ filter.fromBlock, b.Plain)
    (hlast : ∀ b ∈ filter.toBlock, b.Plain) : SplitAgrees chain filter opts := by
  intro _ _
  rw [block_tag hfirst (absurd · hgiven), block_tag hlast fun _ => rfl, Chain.asked, hhash]

end Readings

end Answer

section Missing

/-- A chain of two blocks, with a log in each. -/
def twoBlocks : Chain Unit Unit Nat where
  head _ := 1
  logs _ n := if n ≤ 1 then [n] else []
  logsOf _ _ := []

/-- A filter without bounds asks for the latest block, and its split returns the whole chain. -/
theorem not_answers_without_bounds :
    ¬ ∀ u : Upstream Unit Unit, Answers twoBlocks { criteria := () } {} u := by
  intro h
  have hreturned : (getLogsWide twoBlocks refusesFirst { criteria := () } {}).1 = .ok [0, 1] := by
    decide +kernel
  have hasked : twoBlocks.asked { criteria := () } = [1] := by decide +kernel
  have heq := (h refusesFirst).2 _ hreturned
  rw [hasked] at heq
  cases heq

end Missing

end WideLogs

end Ordo
