import Mathlib.Algebra.BigOperators.Group.Finset.Basic
import Mathlib.Algebra.Order.BigOperators.Group.Finset
import Ordo.Watcher

/-!
# Blocks that are processed again

A chunk that fails is taken again, and so is what came after the checkpoint when the watcher
restarts: a block may be processed any number of times, and each processing may stop at any
of its writes.

* `replay_index` — every table is the rows of the processings that reached it, inserted once,
  and the counter is a sum over the processings;
* `reindexed_iff` — so after all of it the index is what processing each block once leaves, if
  and only if each block with swaps was counted by one processing alone, and the trades of
  each block were on the tape or were put there.
-/

namespace Ordo

namespace Watch

section Model

variable (ch : Chain)

/-- The index after some processings, one after another. -/
def replay (x : Index) (runs : List (Int × Reply)) : Index :=
  runs.foldl (fun x p => (processBlock p.1 (ch.blockAt p.1) p.2 x).1) x

/-- Each block once, and nothing fails. -/
def once (blocks : List Int) : List (Int × Reply) := blocks.map fun n => (n, .read true 3)

/-- The blocks of the processings of which something holds, as often as it does. -/
def blocksWhere (holds : Int → Reply → Bool) (runs : List (Int × Reply)) : List Int :=
  (runs.filter fun p => holds p.1 p.2).map Prod.fst

def swapCount (n : Int) : Nat := (analysis n (ch.blockAt n)).swaps.length

def tradeRows (n : Int) : List TradeRow := (trades n (ch.blockAt n)).map TradeRow.stored

def poolRows (n : Int) : List V4PoolRow := (created n (ch.blockAt n)).map V4PoolRow.stored

def arbRows (n : Int) : List ArbRow :=
  (analysis n (ch.blockAt n)).arbs.map ArbObservation.stored

def arbPoolRows (n : Int) : List (String × String) :=
  (analysis n (ch.blockAt n)).arbs.flatMap ArbObservation.poolRows

/-- The blocks that were put on the tape. -/
def taped : List (Int × Reply) → List Int := blocksWhere fun n => tapes (ch.blockAt n)

/-- The blocks whose processing came to a write. -/
def reached (k : Nat) : List (Int × Reply) → List Int :=
  blocksWhere fun n => reaches n (ch.blockAt n) k

/-- The processings are of these blocks, and each of them is processed to the end, at least
once. -/
structure Reindexes (blocks : List Int) (runs : List (Int × Reply)) : Prop where
  nodup : blocks.Nodup
  among : ∀ p ∈ runs, p.1 ∈ blocks
  done : ∀ n ∈ blocks, ∃ reply, (n, reply) ∈ runs ∧ whole n (ch.blockAt n) reply

end Model

section Tables

variable {ch : Chain} {x : Index} {holds : Int → Reply → Bool} {n : Int} {reply : Reply}
  {runs : List (Int × Reply)} {blocks : List Int}

theorem mem_blocksWhere : n ∈ blocksWhere holds runs ↔
    ∃ reply, (n, reply) ∈ runs ∧ holds n reply = true := by
  constructor
  · intro h
    obtain ⟨p, hp, rfl⟩ := List.mem_map.mp h
    obtain ⟨hmem, hholds⟩ := List.mem_filter.mp hp
    exact ⟨p.2, hmem, hholds⟩
  · rintro ⟨reply, hmem, hholds⟩
    exact List.mem_map.mpr ⟨(n, reply), List.mem_filter.mpr ⟨hmem, hholds⟩, rfl⟩

theorem blocksWhere_cons : blocksWhere holds ((n, reply) :: runs) =
    (if holds n reply then [n] else []) ++ blocksWhere holds runs := by
  unfold blocksWhere
  cases h : holds n reply <;> simp [h]

theorem flatMap_blocksWhere_cons {R : Type} (rows : Int → List R) :
    (blocksWhere holds ((n, reply) :: runs)).flatMap rows =
      (if holds n reply then rows n else []) ++ (blocksWhere holds runs).flatMap rows := by
  rw [blocksWhere_cons, List.flatMap_append]
  cases holds n reply <;> simp

theorem sum_blocksWhere_cons (f : Int → Nat) :
    ((blocksWhere holds ((n, reply) :: runs)).map f).sum =
      (if holds n reply then f n else 0) + ((blocksWhere holds runs).map f).sum := by
  rw [blocksWhere_cons, List.map_append, List.sum_append]
  cases holds n reply <;> simp

/-- **What any processings leave.** -/
theorem replay_index : replay ch x runs = {
    trades := Keyed.insertAll TradeRow.key x.trades ((taped ch runs).flatMap (tradeRows ch))
    pools := Keyed.insertAll (·.poolId) x.pools ((reached ch 1 runs).flatMap (poolRows ch))
    swaps := x.swaps + ((reached ch 2 runs).map (swapCount ch)).sum
    arbs := Keyed.insertAll (·.txHash) x.arbs ((reached ch 3 runs).flatMap (arbRows ch))
    arbPools := Keyed.insertAll id x.arbPools
      ((reached ch 3 runs).flatMap (arbPoolRows ch)) } := by
  induction runs generalizing x with
  | nil => rfl
  | cons p runs ih =>
      obtain ⟨n, reply⟩ := p
      have hfirst : replay ch x ((n, reply) :: runs) =
          replay ch (processBlock n (ch.blockAt n) reply x).1 runs := rfl
      rw [hfirst, ih, processBlock_index]
      simp only [taped, reached, flatMap_blocksWhere_cons, sum_blocksWhere_cons,
        Keyed.insertAll_append, tradeRows, poolRows, arbRows, arbPoolRows, swapsAdded, swapCount,
        Nat.add_assoc]

end Tables

section Keys

variable {ch : Chain}

theorem extractTrades_of_mem {n : Int} {row : TradeRow}
    (h : row ∈ trades n (ch.blockAt n)) : row.block = n := by
  unfold trades at h
  cases hrows : extractTrades n (ch.blockAt n).timestamp (ch.blockAt n).receipts with
  | error e =>
      rw [hrows] at h
      cases h
  | ok rows =>
      rw [hrows] at h
      exact extractTrades_block hrows h

/-- The key of a trade has its block in it. -/
theorem trades_apart : Keyed.Apart TradeRow.key (tradeRows ch) := by
  intro m n row hrow other hother hkey
  obtain ⟨t, ht, rfl⟩ := List.mem_map.mp hrow
  obtain ⟨t', ht', rfl⟩ := List.mem_map.mp hother
  have hblock : t.block = t'.block := congrArg (fun k => k.2.1) hkey
  rw [← extractTrades_of_mem ht, ← extractTrades_of_mem ht', hblock]

/-- A pool that is created is announced by a log of the block. -/
theorem of_mem_created {n : Int} {row : V4PoolRow} (h : row ∈ created n (ch.blockAt n)) :
    ∃ read ∈ logsOf (ch.blockAt n).receipts,
      IsInitialize read.2 ∧ row.stored.poolId = poolIdOf read.2 := by
  unfold created at h
  cases hrows : extractV4Initializes n (ch.blockAt n).timestamp (ch.blockAt n).receipts with
  | error e =>
      rw [hrows] at h
      cases h
  | ok rows =>
      rw [hrows] at h
      obtain ⟨read, hread, hdecoded⟩ := (mem_rowsOf hrows).mp h
      obtain ⟨hlog, hid⟩ := isInitialize_of_row hdecoded
      refine ⟨read, hread, hlog, ?_⟩
      have hlower : row.stored.poolId = row.poolId.toLower := rfl
      rw [hlower, hid]
      exact toLower_poolIdOf _

theorem pools_apart : Keyed.Apart V4PoolRow.poolId (poolRows ch) := by
  intro m n row hrow other hother hkey
  obtain ⟨r, hr, rfl⟩ := List.mem_map.mp hrow
  obtain ⟨r', hr', rfl⟩ := List.mem_map.mp hother
  obtain ⟨read, hread, hlog, hid⟩ := of_mem_created hr
  obtain ⟨read', hread', hlog', hid'⟩ := of_mem_created hr'
  have hsame : poolIdOf read.2 = poolIdOf read'.2 := by rw [← hid, ← hid', hkey]
  exact ch.initializedOnce m n read hread read' hread' hlog hlog' hsame

/-- Arbitrages of one transaction are in one block. -/
theorem block_of_arb {m n : Int} {a b : ArbObservation}
    (ha : a ∈ (analysis m (ch.blockAt m)).arbs) (hb : b ∈ (analysis n (ch.blockAt n)).arbs)
    (h : a.txHash = b.txHash) : m = n := by
  obtain ⟨r, hr, hra⟩ := analyzeBlock_txHash ha
  obtain ⟨r', hr', hrb⟩ := analyzeBlock_txHash hb
  exact ch.minedOnce m n r hr r' hr' (by rw [← hra, ← hrb, h])

theorem arbs_apart : Keyed.Apart ArbRow.txHash (arbRows ch) := by
  intro m n row hrow other hother hkey
  obtain ⟨a, ha, rfl⟩ := List.mem_map.mp hrow
  obtain ⟨b, hb, rfl⟩ := List.mem_map.mp hother
  exact block_of_arb ha hb hkey

theorem arbPools_apart : Keyed.Apart id (arbPoolRows ch) := by
  intro m n row hrow other hother hkey
  obtain ⟨a, ha, hpa⟩ := List.mem_flatMap.mp hrow
  obtain ⟨b, hb, hpb⟩ := List.mem_flatMap.mp hother
  obtain ⟨p, -, rfl⟩ := List.mem_map.mp hpa
  obtain ⟨p', -, rfl⟩ := List.mem_map.mp hpb
  exact block_of_arb ha hb (congrArg Prod.fst hkey)

end Keys

section Counting

/-- Where each is counted at least once, the sum is right if and only if none that weighs
anything is counted twice. -/
theorem sum_eq_iff_count {ι : Type} [DecidableEq ι] {f : ι → Nat} {used all : List ι}
    (hnodup : all.Nodup) (hsub : ∀ i ∈ used, i ∈ all) (hcover : ∀ i ∈ all, i ∈ used) :
    (used.map f).sum = (all.map f).sum ↔ ∀ i ∈ all, 0 < f i → used.count i = 1 := by
  have hsame : used.toFinset = all.toFinset := by
    ext i
    rw [List.mem_toFinset, List.mem_toFinset]
    exact ⟨hsub i, hcover i⟩
  have hle : ∀ i ∈ all.toFinset, f i ≤ used.count i • f i := by
    intro i hi
    have hpos : 0 < used.count i := List.count_pos_iff.mpr (hcover i (List.mem_toFinset.mp hi))
    exact Nat.le_mul_of_pos_left _ hpos
  rw [Finset.sum_list_map_count, hsame, ← List.sum_toFinset f hnodup, eq_comm,
    Finset.sum_eq_sum_iff_of_le hle]
  simp only [List.mem_toFinset, Nat.nsmul_eq_mul]
  refine forall₂_congr fun i hi => ?_
  constructor
  · intro heq hpos
    exact (Nat.eq_of_mul_eq_mul_right hpos (by omega : 1 * f i = used.count i * f i)).symm
  · intro hone
    rcases Nat.eq_zero_or_pos (f i) with hzero | hpos
    · rw [hzero, Nat.mul_zero]
    · rw [hone hpos, Nat.one_mul]

end Counting

section Replays

variable {ch : Chain} {x : Index} {blocks : List Int} {runs : List (Int × Reply)} {n : Int}
  {k : Nat}

/-- Nothing is in a block without transactions. -/
theorem quiet_empty (h : (ch.blockAt n).transactions = []) :
    tradeRows ch n = [] ∧ swapCount ch n = 0 := by
  have hnone := (ch.blockAt n).quiet h
  constructor
  · unfold tradeRows trades extractTrades
    rw [hnone]
    rfl
  · unfold swapCount
    rw [analysis_quiet h]
    rfl

/-- A processing that comes to one of the three writes reads a block that can be decoded. -/
theorem reaches_once {reply : Reply} (hk : k ≤ 3)
    (h : reaches n (ch.blockAt n) k reply = true) :
    reaches n (ch.blockAt n) k (.read true 3) = true := by
  cases reply with
  | null => cases h
  | failed => cases h
  | read taped writes =>
      obtain ⟨htxs, hcreated, -⟩ := of_decide_eq_true h
      exact decide_eq_true ⟨htxs, hcreated, hk⟩

theorem blocksWhere_once (holds : Int → Reply → Bool) :
    blocksWhere holds (once blocks) = blocks.filter fun n => holds n (.read true 3) := by
  induction blocks with
  | nil => rfl
  | cons n blocks ih =>
      have hcons : once (n :: blocks) = (n, .read true 3) :: once blocks := rfl
      rw [hcons, blocksWhere_cons, ih, List.filter_cons]
      cases holds n (.read true 3) <;> rfl

/-- The same blocks come to a write as when each is processed once. -/
theorem reached_iff (h : Reindexes ch blocks runs) (hk : k ≤ 3) :
    n ∈ reached ch k runs ↔ n ∈ reached ch k (once blocks) := by
  unfold reached
  rw [blocksWhere_once, mem_blocksWhere, List.mem_filter]
  constructor
  · rintro ⟨reply, hmem, hreaches⟩
    exact ⟨h.among _ hmem, reaches_once hk hreaches⟩
  · rintro ⟨hmem, hreaches⟩
    obtain ⟨reply, hrun, hwhole⟩ := h.done n hmem
    exact ⟨reply, hrun, reaches_of_whole hwhole (of_decide_eq_true hreaches).1 hk⟩

/-- **The tables of pools and arbitrages** do not see that a block is processed again. -/
theorem replay_tables {R K : Type} [DecidableEq K] {key : R → K} {rows : Int → List R}
    {t : Keyed.Rows K R} (h : Reindexes ch blocks runs) (hk : k ≤ 3)
    (hapart : Keyed.Apart key rows) :
    Keyed.insertAll key t ((reached ch k runs).flatMap rows) =
      Keyed.insertAll key t ((reached ch k (once blocks)).flatMap rows) := by
  rw [Keyed.insertAll_batches_iff hapart fun n hn => (reached_iff h hk).mp hn]
  exact fun n hn row _ => Or.inr ((reached_iff h hk).mpr hn)

/-- **The counter** is right if and only if no block with swaps is counted twice. -/
theorem replay_swaps (h : Reindexes ch blocks runs) :
    ((reached ch 2 runs).map (swapCount ch)).sum =
        ((reached ch 2 (once blocks)).map (swapCount ch)).sum ↔
      ∀ n ∈ blocks, 0 < swapCount ch n → (reached ch 2 runs).count n = 1 := by
  have hnodup : (reached ch 2 (once blocks)).Nodup := by
    unfold reached
    rw [blocksWhere_once]
    exact h.nodup.filter _
  rw [sum_eq_iff_count hnodup (fun n hn => (reached_iff h (by omega)).mp hn)
    fun n hn => (reached_iff h (by omega)).mpr hn]
  constructor
  · intro hcount n hn hpos
    refine hcount n ?_ hpos
    obtain ⟨reply, hrun, hwhole⟩ := h.done n hn
    have htxs : (ch.blockAt n).transactions ≠ [] := by
      intro hquiet
      rw [(quiet_empty hquiet).2] at hpos
      cases hpos
    exact (reached_iff h (by omega)).mp
      (mem_blocksWhere.mpr ⟨reply, hrun, reaches_of_whole hwhole htxs (by omega)⟩)
  · intro hcount n hn hpos
    refine hcount n ?_ hpos
    unfold reached at hn
    rw [blocksWhere_once] at hn
    exact (List.mem_filter.mp hn).1

/-- **The tape** has all trades if and only if those of each block were there or were put
there. -/
theorem replay_trades (h : Reindexes ch blocks runs) :
    Keyed.insertAll TradeRow.key x.trades ((taped ch runs).flatMap (tradeRows ch)) =
        Keyed.insertAll TradeRow.key x.trades ((taped ch (once blocks)).flatMap (tradeRows ch)) ↔
      ∀ n ∈ blocks, ∀ row ∈ tradeRows ch n,
        (x.trades row.key).isSome ∨ n ∈ taped ch runs := by
  have honce : ∀ n, n ∈ taped ch (once blocks) ↔
      n ∈ blocks ∧ (ch.blockAt n).transactions ≠ [] := by
    intro n
    unfold taped
    rw [blocksWhere_once, List.mem_filter]
    simp [tapes]
  have hsub : ∀ n ∈ taped ch runs, n ∈ taped ch (once blocks) := by
    intro n hn
    obtain ⟨reply, hrun, htapes⟩ := mem_blocksWhere.mp hn
    refine (honce n).mpr ⟨h.among _ hrun, ?_⟩
    cases reply with
    | null => cases htapes
    | failed => cases htapes
    | read taped writes => exact (of_decide_eq_true htapes).1
  rw [Keyed.insertAll_batches_iff trades_apart hsub]
  constructor
  · intro hall n hn row hrow
    have htxs : (ch.blockAt n).transactions ≠ [] := by
      intro hquiet
      rw [(quiet_empty hquiet).1] at hrow
      cases hrow
    exact hall n ((honce n).mpr ⟨hn, htxs⟩) row hrow
  · intro hall n hn row hrow
    exact hall n ((honce n).mp hn).1 row hrow

/-- **Indexing again.**  The index is what processing each block once leaves if and only if
each block with swaps came to the counter in one of its processings and no other, and the
trades of each block were on the tape or came to it. -/
theorem reindexed_iff (h : Reindexes ch blocks runs) :
    replay ch x runs = replay ch x (once blocks) ↔
      (∀ n ∈ blocks, 0 < swapCount ch n → (reached ch 2 runs).count n = 1) ∧
        ∀ n ∈ blocks, ∀ row ∈ tradeRows ch n,
          (x.trades row.key).isSome ∨ n ∈ taped ch runs := by
  rw [replay_index, replay_index, Index.mk.injEq, replay_trades h,
    replay_tables h (by omega) pools_apart, replay_tables h (by omega) arbs_apart,
    replay_tables h (by omega) arbPools_apart, Nat.add_left_cancel_iff, replay_swaps h]
  tauto

end Replays

section Runs

variable {cfg : Config} {ch : Chain} {s : Watcher}

/-- The counter and the tables of arbitrages are those of the processings in the log. -/
def Replayed (ch : Chain) (s : Watcher) : Prop :=
  s.index.swaps = (replay ch {} s.log).swaps ∧ s.index.arbs = (replay ch {} s.log).arbs ∧
    s.index.arbPools = (replay ch {} s.log).arbPools

theorem replay_append (x : Index) (runs : List (Int × Reply)) (n : Int) (reply : Reply) :
    replay ch x (runs ++ [(n, reply)]) =
      (processBlock n (ch.blockAt n) reply (replay ch x runs)).1 := by
  unfold replay
  rw [List.foldl_append]
  rfl

theorem replayed_step (h : Replayed ch s) (e : Event) : Replayed ch (step cfg ch s e) := by
  obtain ⟨hswaps, harbs, harbPools⟩ := h
  unfold Replayed
  have heffect : Effect ch s (step cfg ch s e) := step_effect e
  cases heffect with
  | none hindex hlog =>
      rw [hindex, hlog]
      exact ⟨hswaps, harbs, harbPools⟩
  | block n reply hindex hlog =>
      rw [hindex, hlog, processed, replay_append, processBlock_index, processBlock_index, hswaps,
        harbs, harbPools]
      exact ⟨rfl, rfl, rfl⟩
  | pools rows hindex hlog =>
      rw [hindex, hlog]
      exact ⟨hswaps, harbs, harbPools⟩
  | pruned olderThanTs hindex hlog =>
      rw [hindex, hlog]
      exact ⟨hswaps, harbs, harbPools⟩

/-- **A run is a replay.**  Whatever fails and restarts, the counter and the arbitrages are
what the processings of the log leave. -/
theorem run_replayed (h : Replayed ch s) (es : List Event) :
    Replayed ch (es.foldl (step cfg ch) s) := by
  induction es generalizing s with
  | nil => exact h
  | cons e es ih => exact ih (replayed_step h e)

end Runs

section Sample

variable {ch : Chain} {blocks : List Int} {runs : List (Int × Reply)}

theorem Reindexes.of_runs (hnodup : blocks.Nodup) (hamong : ∀ p ∈ runs, p.1 ∈ blocks)
    (hdone : ∀ n ∈ blocks, ∃ p ∈ runs, p.1 = n ∧ whole n (ch.blockAt n) p.2 = true) :
    Reindexes ch blocks runs where
  nodup := hnodup
  among := hamong
  done := by
    intro n hn
    obtain ⟨p, hp, rfl, hwhole⟩ := hdone n hn
    exact ⟨p.2, hp, hwhole⟩

/-- There is a swap in the block of the deployment. -/
def swapChain : Chain := quietBut {
  timestamp := 1700000000
  transactions := [{ hash := "0x01" }]
  receipts := [{
    transactionHash := "0x01"
    sender := "0x0a"
    logs := [
      { address := "0x05"
        topics := ["0xd78ad95fa46c994b6551d0da85fc275fe613ce37657fb8d5e3d130840159d822"]
        data := "0x" }] }]
  quiet := nofun }

/-- A first processing that fails before the counter, and one that comes to the end. -/
def failedEarly : List (Int × Reply) :=
  [(9070, .read true 1), (9070, .read true 3), (9071, .read true 0)]

theorem reindexed_sample : replay swapChain {} failedEarly =
    replay swapChain {} (once [9070, 9071]) := by
  have h : Reindexes swapChain [9070, 9071] failedEarly :=
    .of_runs (by decide) (by decide) (by decide +kernel)
  exact (reindexed_iff h).mpr ⟨by decide +kernel, by decide +kernel⟩

/-- The second block of a chunk fails, and the chunk is taken again. -/
def retried : List (Int × Reply) :=
  [(9070, .read true 3), (9071, .failed), (9070, .read true 3), (9071, .read true 3)]

def retriedRun : List Event := [.start (.value 9071) 1, .walk .failed,
  .poll (.value 9071) .whole, .finish 9070 (.read true 3), .finish 9071 .failed,
  .poll (.value 9071) .whole, .finish 9070 (.read true 3), .finish 9071 (.read true 3),
  .endChunk .whole true .whole]

theorem retried_reindexes : Reindexes swapChain [9070, 9071] retried :=
  .of_runs (by decide) (by decide) (by decide +kernel)

theorem retriedRun_log : (retriedRun.foldl (step {} swapChain) {}).log = retried := by
  decide +kernel

theorem retriedRun_swaps :
    (retriedRun.foldl (step {} swapChain) {}).index.swaps = 2 := by
  decide +kernel

/-- **A chunk that is taken again counts its swaps again.**  There is one swap in the two
blocks, and the counter says two. -/
theorem retried_counts_twice :
    Reindexes swapChain [9070, 9071] retried ∧
      (retriedRun.foldl (step {} swapChain) {}).log = retried ∧
      (retriedRun.foldl (step {} swapChain) {}).index.swaps = 2 ∧
      (replay swapChain {} (once [9070, 9071])).swaps = 1 ∧
      replay swapChain {} retried ≠ replay swapChain {} (once [9070, 9071]) := by
  have htwice : (replay swapChain {} retried).swaps = 2 := by decide +kernel
  have honce : (replay swapChain {} (once [9070, 9071])).swaps = 1 := by decide +kernel
  refine ⟨retried_reindexes, retriedRun_log, retriedRun_swaps, honce, ?_⟩
  intro hsame
  have hbad : 2 = 1 := htwice.symm.trans ((congrArg Index.swaps hsame).trans honce)
  cases hbad

end Sample

end Watch

end Ordo
