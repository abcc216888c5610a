import Ordo.Guarded
import Ordo.Watcher

/-!
# What the watcher's cursors stand for

A run may crash anywhere and start again from its checkpoint; requests fail, answers are
`null`, and writes throw.

* `Covered` — every block below the checkpoint, from where the chain of runs began, is in the
  index, and every pool that was initialised up to the walk's cursor; so is every block that
  the live loop has counted as done;
* `coverage_iff` — this holds all along a run if and only if whenever a chunk ended, the
  blocks of it that were answered with `null` had been read before.
-/

namespace Ordo

namespace Watch

section Statements

variable (ch : Chain)

/-- The block was read, by a processing that came to its end. -/
def Read (s : Watcher) (n : Int) : Prop :=
  ∃ reply, (n, reply) ∈ s.log ∧ whole n (ch.blockAt n) reply = true

/-- Every Initialize log of the block is stored as a pool. -/
def PoolsStored (x : Index) (n : Int) : Prop :=
  ∀ read ∈ logsOf (ch.blockAt n).receipts, IsInitialize read.2 →
    (x.pools (poolIdOf read.2)).isSome

/-- Every arbitrage of the block is stored, with its pools. -/
def ArbsStored (x : Index) (n : Int) : Prop :=
  ∀ a ∈ (analysis n (ch.blockAt n)).arbs, (x.arbs a.txHash).isSome ∧
    ∀ pool ∈ a.poolsTouched, (x.arbPools (a.txHash, pool)).isSome

/-- The block was read, its swaps were counted, and its arbitrages and pools are stored. -/
structure Indexed (s : Watcher) (n : Int) : Prop where
  read : Read ch s n
  swaps : ∃ reply, (n, reply) ∈ s.log ∧
    swapsAdded n (ch.blockAt n) reply = (analysis n (ch.blockAt n)).swaps.length
  arbs : ArbsStored ch s.index n
  pools : PoolsStored ch s.index n

/-- What the cursors stand for. -/
structure Covered (s : Watcher) : Prop where
  saved : ∀ c, s.checkpoint = some c → ∀ n, c.began ≤ n → n < c.nextBlock → Indexed ch s n
  scanned : ∀ k, s.scannedTo = some k → ∀ n, V4.deployBlock ≤ n → n ≤ k →
    PoolsStored ch s.index n
  counted : s.index.swaps = (s.log.map fun p => swapsAdded p.1 (ch.blockAt p.1) p.2).sum
  done : ∀ p, s.running = .up p → ∀ n, p.began ≤ n → n < p.next → Indexed ch s n

/-- When a chunk ends, the blocks of it that were answered with `null` had been read before. -/
def NoneMissed (s : Watcher) : Event → Prop
  | .endChunk .. =>
      match s.running with
      | .up p =>
          match p.phase with
          | .fetching _ _ [] missing => ∀ n ∈ missing, Read ch s n
          | _ => True
      | _ => True
  | _ => True

/-- What is known of a process, its chunk apart. -/
structure Core (s : Watcher) (p : Process) : Prop where
  began : p.began ≤ p.liveStart
  started : p.liveStart ≤ p.next
  read : ∀ n, p.began ≤ n → n < p.next → Read ch s n
  caught : p.v4Caught = true → ∀ n, V4.deployBlock ≤ n → n < p.liveStart →
    PoolsStored ch s.index n
  walked : ∀ w, p.walk = some w → w.toBlock = p.liveStart - 1 ∧
    ∀ n, V4.deployBlock ≤ n → n < w.start → PoolsStored ch s.index n

/-- What is known of the chunk under way. -/
structure InChunk (s : Watcher) (p : Process) (chunk pending missing : List Int) : Prop where
  range : ∀ n, n ∈ chunk ↔ p.next ≤ n ∧ n < p.next + chunk.length
  within : ∀ n ∈ pending, n ∈ chunk
  missed : ∀ n ∈ missing, n ∈ chunk
  waits : ∀ n ∈ chunk, n ∈ pending ∨ n ∈ missing ∨ Read ch s n

def ChunkKept (s : Watcher) (p : Process) : Prop :=
  match p.phase with
  | .idle => True
  | .fetching _ chunk pending missing => InChunk ch s p chunk pending missing

/-- The invariant: what was read is indexed, and every cursor stands behind what was read or
walked. -/
structure Kept (s : Watcher) : Prop where
  counted : s.index.swaps = (s.log.map fun p => swapsAdded p.1 (ch.blockAt p.1) p.2).sum
  rows : ∀ n, Read ch s n → Indexed ch s n
  ordered : ∀ c, s.checkpoint = some c → c.began ≤ c.nextBlock
  saved : ∀ c, s.checkpoint = some c → ∀ n, c.began ≤ n → n < c.nextBlock → Read ch s n
  scanned : ∀ k, s.scannedTo = some k → ∀ n, V4.deployBlock ≤ n → n ≤ k →
    PoolsStored ch s.index n
  live : ∀ p, s.running = .up p → Core ch s p ∧ ChunkKept ch s p

theorem Kept.covered {ch : Chain} {s : Watcher} (h : Kept ch s) : Covered ch s where
  saved := fun c hc n hlow hhigh => h.rows n (h.saved c hc n hlow hhigh)
  scanned := h.scanned
  counted := h.counted
  done := fun p hp n hlow hhigh => h.rows n ((h.live p hp).1.read n hlow hhigh)

end Statements

section Growth

variable {ch : Chain} {s after : Watcher} {p : Process} {n : Int}

/-- Nothing that was read is forgotten, and no row of a pool or an arbitrage goes. -/
structure Grows (s after : Watcher) : Prop where
  log : ∀ e ∈ s.log, e ∈ after.log
  pools : ∀ k, (s.index.pools k).isSome → (after.index.pools k).isSome
  arbs : ∀ k, (s.index.arbs k).isSome → (after.index.arbs k).isSome
  arbPools : ∀ k, (s.index.arbPools k).isSome → (after.index.arbPools k).isSome

theorem Grows.of_same (hindex : after.index = s.index) (hlog : after.log = s.log) :
    Grows s after := by
  refine ⟨?_, ?_, ?_, ?_⟩
  · rw [hlog]
    exact fun e he => he
  all_goals
    rw [hindex]
    exact fun k hk => hk

theorem Grows.of_pools {rows : List V4PoolRow}
    (hindex : after.index = s.index.upsertV4Pools rows) (hlog : after.log = s.log) :
    Grows s after := by
  refine ⟨?_, ?_, ?_, ?_⟩
  · rw [hlog]
    exact fun e he => he
  · rw [hindex]
    exact fun k hk => Keyed.isSome_insertAll_of_isSome hk _
  all_goals
    rw [hindex]
    exact fun k hk => hk

theorem Effect.grows (h : Effect ch s after) : Grows s after := by
  cases h with
  | none hindex hlog => exact .of_same hindex hlog
  | block n reply hindex hlog =>
      refine ⟨?_, ?_, ?_, ?_⟩
      · rw [hlog]
        exact fun e he => List.mem_append_left _ he
      all_goals
        rw [hindex, processed, processBlock_index]
        exact fun k hk => Keyed.isSome_insertAll_of_isSome hk _
  | pools rows hindex hlog => exact .of_pools hindex hlog
  | pruned olderThanTs hindex hlog =>
      refine ⟨?_, ?_, ?_, ?_⟩
      · rw [hlog]
        exact fun e he => he
      all_goals
        rw [hindex]
        exact fun k hk => hk

theorem Read.mono (h : Read ch s n) (hgrows : Grows s after) : Read ch after n := by
  obtain ⟨reply, hmem, hwhole⟩ := h
  exact ⟨reply, hgrows.log _ hmem, hwhole⟩

theorem PoolsStored.mono (h : PoolsStored ch s.index n) (hgrows : Grows s after) :
    PoolsStored ch after.index n := fun read hread hlog => hgrows.pools _ (h read hread hlog)

theorem Indexed.mono (h : Indexed ch s n) (hgrows : Grows s after) : Indexed ch after n where
  read := h.read.mono hgrows
  swaps := by
    obtain ⟨reply, hmem, hadded⟩ := h.swaps
    exact ⟨reply, hgrows.log _ hmem, hadded⟩
  arbs := fun a ha => ⟨hgrows.arbs _ (h.arbs a ha).1,
    fun pool hpool => hgrows.arbPools _ ((h.arbs a ha).2 pool hpool)⟩
  pools := h.pools.mono hgrows

theorem Core.mono (h : Core ch s p) (hgrows : Grows s after) : Core ch after p where
  began := h.began
  started := h.started
  read := fun n hlow hhigh => (h.read n hlow hhigh).mono hgrows
  caught := fun hcaught n hlow hhigh => (h.caught hcaught n hlow hhigh).mono hgrows
  walked := fun w hw => ⟨(h.walked w hw).1,
    fun n hlow hhigh => ((h.walked w hw).2 n hlow hhigh).mono hgrows⟩

theorem InChunk.mono {chunk pending missing : List Int} (h : InChunk ch s p chunk pending missing)
    (hgrows : Grows s after) : InChunk ch after p chunk pending missing where
  range := h.range
  within := h.within
  missed := h.missed
  waits := fun n hn => (h.waits n hn).imp_right (Or.imp_right fun hread => hread.mono hgrows)

theorem ChunkKept.mono (h : ChunkKept ch s p) (hgrows : Grows s after) :
    ChunkKept ch after p := by
  unfold ChunkKept at h ⊢
  split
  · trivial
  · next hphase =>
      rw [hphase] at h
      exact h.mono hgrows

end Growth

section Rows

variable {ch : Chain} {s after : Watcher} {n : Int} {reply : Reply}

/-- An Initialize log of a block that could be decoded is among the rows. -/
theorem created_row {rows : List V4PoolRow}
    (h : extractV4Initializes n (ch.blockAt n).timestamp (ch.blockAt n).receipts = .ok rows)
    {read : TxReceipt × ReceiptLog} (hread : read ∈ logsOf (ch.blockAt n).receipts)
    (hlog : IsInitialize read.2) : ∃ row ∈ rows, row.stored.poolId = poolIdOf read.2 := by
  obtain ⟨found, hfound⟩ := read_of_rowsOf h hread
  have hnamed : IsInitialize (named read) := hlog
  obtain ⟨row, rfl, hid⟩ := decodeInitialize_row hnamed hfound
  refine ⟨row, (mem_rowsOf h).mpr ⟨read, hread, hfound⟩, ?_⟩
  have hlower : row.stored.poolId = row.poolId.toLower := rfl
  rw [hlower, hid]
  exact toLower_poolIdOf _

theorem poolsStored_upsert {rows : List V4PoolRow} {x : Index}
    (h : ∀ read ∈ logsOf (ch.blockAt n).receipts, IsInitialize read.2 →
      ∃ row ∈ rows, row.stored.poolId = poolIdOf read.2) :
    PoolsStored ch (x.upsertV4Pools rows) n := by
  intro read hread hlog
  obtain ⟨row, hrow, hid⟩ := h read hread hlog
  rw [← hid]
  exact Keyed.isSome_insertAll_of_mem (List.mem_map.mpr ⟨row, hrow, rfl⟩)

/-- **A block that was read is indexed.** -/
theorem indexed_of_whole (h : whole n (ch.blockAt n) reply = true) :
    Indexed ch (processed ch s n reply) n := by
  have hmem : (n, reply) ∈ (processed ch s n reply).log :=
    List.mem_append_right _ (List.mem_singleton.mpr rfl)
  refine ⟨⟨reply, hmem, h⟩, ⟨reply, hmem, swapsAdded_whole h⟩, ?_, ?_⟩
  · intro a ha
    by_cases htxs : (ch.blockAt n).transactions = []
    · rw [analysis_quiet htxs] at ha
      cases ha
    · have hreaches := reaches_of_whole (k := 3) h htxs le_rfl
      rw [processed, processBlock_index]
      dsimp only
      rw [if_pos hreaches, if_pos hreaches]
      refine ⟨Keyed.isSome_insertAll_of_mem (List.mem_map.mpr ⟨a, ha, rfl⟩), ?_⟩
      intro pool hpool
      refine Keyed.isSome_insertAll_of_mem (List.mem_flatMap.mpr ⟨a, ha, ?_⟩)
      exact List.mem_map.mpr ⟨pool, hpool, rfl⟩
  · by_cases htxs : (ch.blockAt n).transactions = []
    · intro read hread
      rw [(ch.blockAt n).quiet htxs] at hread
      cases hread
    · have hreaches := reaches_of_whole (k := 1) h htxs (by omega)
      have hstored : PoolsStored ch (s.index.upsertV4Pools (created n (ch.blockAt n))) n :=
        poolsStored_upsert fun read hread hlog =>
          created_row (created_of_reaches hreaches) hread hlog
      rw [processed, processBlock_index]
      dsimp only
      rw [if_pos hreaches]
      exact hstored

/-- What a processing adds to the counter is in the log. -/
theorem counted_step (h : Effect ch s after)
    (hcounted : s.index.swaps = (s.log.map fun p => swapsAdded p.1 (ch.blockAt p.1) p.2).sum) :
    after.index.swaps =
      (after.log.map fun p => swapsAdded p.1 (ch.blockAt p.1) p.2).sum := by
  cases h with
  | none hindex hlog => rw [hindex, hlog, hcounted]
  | block n reply hindex hlog =>
      rw [hindex, hlog, processed, processBlock_index]
      simp [hcounted]
  | pools rows hindex hlog =>
      rw [hindex, hlog]
      exact hcounted
  | pruned olderThanTs hindex hlog =>
      rw [hindex, hlog]
      exact hcounted

theorem rows_step (h : Effect ch s after) (hrows : ∀ n, Read ch s n → Indexed ch s n) (n : Int)
    (hread : Read ch after n) : Indexed ch after n := by
  have hold : after.log = s.log → Indexed ch after n := by
    intro hlog
    obtain ⟨reply, hmem, hwhole⟩ := hread
    rw [hlog] at hmem
    exact (hrows n ⟨reply, hmem, hwhole⟩).mono h.grows
  cases h with
  | none hindex hlog => exact hold hlog
  | block m reply hindex hlog =>
      obtain ⟨reply', hmem, hwhole⟩ := hread
      rw [hlog] at hmem
      rcases List.mem_append.mp hmem with hbefore | hnew
      · exact (hrows n ⟨reply', hbefore, hwhole⟩).mono (Effect.block m reply hindex hlog).grows
      · obtain ⟨rfl, rfl⟩ := Prod.mk.inj (List.mem_singleton.mp hnew)
        have hsame : Indexed ch (processed ch s n reply') n := indexed_of_whole hwhole
        obtain ⟨hread, hswaps, harbs, hpools⟩ := hsame
        refine ⟨?_, ?_, ?_, ?_⟩
        · obtain ⟨r, hr, hw⟩ := hread
          exact ⟨r, hlog ▸ hr, hw⟩
        · rw [hlog]
          exact hswaps
        · rw [hindex]
          exact harbs
        · rw [hindex]
          exact hpools
  | pools rows hindex hlog => exact hold hlog
  | pruned olderThanTs hindex hlog => exact hold hlog

end Rows

section Steps

variable {cfg : Config} {ch : Chain} {s after : Watcher} {p : Process}

/-- A cursor that is new stands behind what was read, or walked. -/
structure Marks (ch : Chain) (s after : Watcher) : Prop where
  saved : ∀ c, after.checkpoint = some c → s.checkpoint = some c ∨
    c.began ≤ c.nextBlock ∧ ∀ n, c.began ≤ n → n < c.nextBlock → Read ch after n
  scanned : ∀ k, after.scannedTo = some k → s.scannedTo = some k ∨
    ∀ n, V4.deployBlock ≤ n → n ≤ k → PoolsStored ch after.index n

/-- What an event may do: to the index, to the cursors, and to the process. -/
structure Moves (ch : Chain) (s after : Watcher) : Prop extends Marks ch s after where
  effect : Effect ch s after
  live : ∀ p, after.running = .up p → Core ch after p ∧ ChunkKept ch after p

theorem Kept.moves (h : Kept ch s) (hmoves : Moves ch s after) : Kept ch after where
  counted := counted_step hmoves.effect h.counted
  rows := rows_step hmoves.effect h.rows
  ordered := by
    intro c hc
    rcases hmoves.saved c hc with hold | ⟨hordered, -⟩
    · exact h.ordered c hold
    · exact hordered
  saved := by
    intro c hc n hlow hhigh
    rcases hmoves.saved c hc with hold | ⟨-, hread⟩
    · exact (h.saved c hold n hlow hhigh).mono hmoves.effect.grows
    · exact hread n hlow hhigh
  scanned := by
    intro k hk n hlow hhigh
    rcases hmoves.scanned k hk with hold | hstored
    · exact (h.scanned k hold n hlow hhigh).mono hmoves.effect.grows
    · exact hstored n hlow hhigh
  live := hmoves.live

theorem Marks.of_same (hcheckpoint : after.checkpoint = s.checkpoint)
    (hscanned : after.scannedTo = s.scannedTo) : Marks ch s after where
  saved := fun _ hc => Or.inl (hcheckpoint ▸ hc)
  scanned := fun _ hk => Or.inl (hscanned ▸ hk)

theorem Marks.trans {middle : Watcher} (h : Marks ch s middle) (hthen : Marks ch middle after)
    (hgrows : Grows middle after) : Marks ch s after where
  saved := by
    intro c hc
    rcases hthen.saved c hc with hold | hnew
    · refine (h.saved c hold).imp_right fun hnew => ⟨hnew.1, fun n hlow hhigh => ?_⟩
      exact (hnew.2 n hlow hhigh).mono hgrows
    · exact Or.inr hnew
  scanned := by
    intro k hk
    rcases hthen.scanned k hk with hold | hnew
    · refine (h.scanned k hold).imp_right fun hnew n hlow hhigh => ?_
      exact (hnew n hlow hhigh).mono hgrows
    · exact Or.inr hnew

theorem Core.of_same {q : Process} (h : Core ch s p) (hbegan : q.began = p.began)
    (hstart : q.liveStart = p.liveStart) (hnext : q.next = p.next)
    (hcaught : q.v4Caught = p.v4Caught) (hwalk : q.walk = p.walk) : Core ch s q where
  began := by rw [hbegan, hstart]; exact h.began
  started := by rw [hstart, hnext]; exact h.started
  read := by rw [hbegan, hnext]; exact h.read
  caught := by rw [hcaught, hstart]; exact h.caught
  walked := by rw [hwalk, hstart]; exact h.walked

theorem chunkKept_idle (hphase : p.phase = .idle) : ChunkKept ch s p := by
  unfold ChunkKept
  rw [hphase]
  trivial

theorem backOff_live (h : Core ch s p) : Core ch s p.backOff ∧ ChunkKept ch s p.backOff :=
  ⟨h.of_same rfl rfl rfl rfl rfl, chunkKept_idle rfl⟩

/-- All that was initialised before `next` is stored, once the walk has met the live loop. -/
theorem pools_to_next (hrows : ∀ n, Read ch s n → Indexed ch s n) (h : Core ch s p)
    (hcaught : p.v4Caught = true) (n : Int) (hlow : V4.deployBlock ≤ n) (hhigh : n < p.next) :
    PoolsStored ch s.index n := by
  rcases lt_or_ge n p.liveStart with hbefore | hlive
  · exact h.caught hcaught n hlow hbefore
  · exact (hrows n (h.read n (h.began.trans hlive) hhigh)).pools

/-- What a commit writes stands behind what the process has read and walked. -/
theorem commit_marks (hrows : ∀ n, Read ch s n → Indexed ch s n) (h : Core ch s p)
    (c : Commit) : Marks ch s (commit s p c).1 := by
  have hsaved : ∀ c : Checkpoint, some (Checkpoint.mk p.next p.began) = some c →
      s.checkpoint = some c ∨
        c.began ≤ c.nextBlock ∧ ∀ n, c.began ≤ n → n < c.nextBlock → Read ch s n := by
    intro c hc
    obtain rfl := Option.some.inj hc
    exact Or.inr ⟨h.began.trans h.started, h.read⟩
  cases c with
  | refused => exact .of_same rfl rfl
  | torn =>
      refine ⟨fun c hc => ?_, fun k hk => Or.inl hk⟩
      cases hc
  | fileOnly => exact ⟨hsaved, fun k hk => Or.inl hk⟩
  | whole =>
      refine ⟨hsaved, fun k hk => ?_⟩
      by_cases hcaught : p.v4Caught = true
      · have hk' : some (p.next - 1) = some k := (if_pos hcaught).symm.trans hk
        obtain rfl := Option.some.inj hk'
        exact Or.inr fun n hlow hhigh => pools_to_next hrows h hcaught n hlow (by omega)
      · have hk' : s.scannedTo = some k := (if_neg hcaught).symm.trans hk
        exact Or.inl hk'

theorem chunk_eq (target : Int) : p.chunk target =
    (List.range (min p.concurrency (target + 1 - p.next).toNat)).map fun i : Nat =>
      p.next + i := by
  unfold Process.chunk intRange
  rw [← List.map_take, List.take_range]

theorem mem_chunk {target n : Int} :
    n ∈ p.chunk target ↔ p.next ≤ n ∧ n < p.next + (p.chunk target).length := by
  rw [chunk_eq, List.length_map, List.length_range, List.mem_map]
  constructor
  · rintro ⟨i, hi, rfl⟩
    have hlt := List.mem_range.mp hi
    omega
  · rintro ⟨hlow, hhigh⟩
    refine ⟨(n - p.next).toNat, List.mem_range.mpr (by omega), by omega⟩

theorem nextChunk_live (h : Core ch s p) {target : Int} {final : Commit} {q : Process}
    (hq : (nextChunk s p target final).running = .up q) : Core ch s q ∧ ChunkKept ch s q := by
  unfold nextChunk at hq
  split at hq
  · obtain rfl := Running.up.inj hq
    refine ⟨h.of_same rfl rfl rfl rfl rfl, ?_⟩
    exact {
      range := fun n => mem_chunk
      within := fun n hn => hn
      missed := fun n hn => by cases hn
      waits := fun n hn => Or.inl hn }
  · dsimp only at hq
    split at hq
    · obtain rfl := Running.up.inj hq
      exact ⟨h.of_same rfl rfl rfl rfl rfl, chunkKept_idle rfl⟩
    · obtain rfl := Running.up.inj hq
      exact backOff_live h

theorem nextChunk_marks (hrows : ∀ n, Read ch s n → Indexed ch s n) (h : Core ch s p)
    (target : Int) (final : Commit) : Marks ch s (nextChunk s p target final) := by
  unfold nextChunk
  split
  · exact .of_same rfl rfl
  · dsimp only
    have hmarks := commit_marks hrows h final
    split
    · exact ⟨hmarks.saved, hmarks.scanned⟩
    · exact ⟨hmarks.saved, hmarks.scanned⟩

theorem nextChunk_moves (hrows : ∀ n, Read ch s n → Indexed ch s n) (h : Core ch s p)
    (target : Int) (final : Commit) : Moves ch s (nextChunk s p target final) where
  toMarks := nextChunk_marks hrows h target final
  effect := .none (nextChunk_index target final) (nextChunk_log target final)
  live := by
    intro q hq
    have hgrows : Grows s (nextChunk s p target final) :=
      .of_same (nextChunk_index target final) (nextChunk_log target final)
    exact (nextChunk_live h hq).imp (fun hcore => hcore.mono hgrows) fun hin => hin.mono hgrows

/-- An event that leaves both cursors. -/
theorem Moves.of_process (heffect : Effect ch s after)
    (hcheckpoint : after.checkpoint = s.checkpoint) (hscanned : after.scannedTo = s.scannedTo)
    (hlive : ∀ p, after.running = .up p → Core ch after p ∧ ChunkKept ch after p) :
    Moves ch s after := ⟨.of_same hcheckpoint hscanned, heffect, hlive⟩

theorem Moves.refl (h : Kept ch s) : Moves ch s s :=
  .of_process (.none rfl rfl) rfl rfl h.live

/-- An event that moves the process alone. -/
theorem Moves.of_running {r : Running}
    (hlive : ∀ q, r = .up q → Core ch s q ∧ ChunkKept ch s q) :
    Moves ch s { s with running := r } := by
  refine .of_process (.none rfl rfl) rfl rfl fun q hq => ?_
  have hgrows : Grows s { s with running := r } := .of_same rfl rfl
  exact (hlive q hq).imp (fun hcore => hcore.mono hgrows) fun hin => hin.mono hgrows

theorem Moves.of_up {q : Process} (hcore : Core ch s q) (hin : ChunkKept ch s q) :
    Moves ch s { s with running := .up q } := by
  refine .of_running fun q' hq => ?_
  obtain rfl := Running.up.inj hq
  exact ⟨hcore, hin⟩

/-- An event that processes a block. -/
theorem Moves.of_processed {q : Process} {n : Int} {reply : Reply}
    (hcore : Core ch (processed ch s n reply) q) (hin : ChunkKept ch (processed ch s n reply) q) :
    Moves ch s { processed ch s n reply with running := .up q } := by
  refine .of_process (.block n reply rfl rfl) rfl rfl fun q' hq => ?_
  obtain rfl := Running.up.inj hq
  have hgrows : Grows (processed ch s n reply)
      { processed ch s n reply with running := .up q } := .of_same rfl rfl
  exact ⟨hcore.mono hgrows, hin.mono hgrows⟩

variable (ch s) in
theorem processed_grows (n : Int) (reply : Reply) : Grows s (processed ch s n reply) := by
  have heffect : Effect ch s (processed ch s n reply) := .block n reply rfl rfl
  exact heffect.grows

theorem ChunkKept.of_same {q : Process} (h : ChunkKept ch s p) (hphase : q.phase = p.phase)
    (hnext : q.next = p.next) : ChunkKept ch s q := by
  unfold ChunkKept at h ⊢
  rw [hphase]
  split
  · trivial
  · next hfetching =>
      rw [hfetching] at h
      obtain ⟨hrange, hwithin, hmissed, hwaits⟩ := h
      refine ⟨?_, hwithin, hmissed, hwaits⟩
      rw [hnext]
      exact hrange

end Steps

section Events

variable {cfg : Config} {ch : Chain} {s : Watcher} {p : Process} {w : Walk}

theorem resumed_kept (h : Kept ch s) (head backfill : Int) :
    (resumeFrom s.checkpoint head backfill).began ≤
        (resumeFrom s.checkpoint head backfill).nextBlock ∧
      ∀ n, (resumeFrom s.checkpoint head backfill).began ≤ n →
        n < (resumeFrom s.checkpoint head backfill).nextBlock → Read ch s n := by
  have hfresh : ∀ n : Int, head - backfill ≤ n → n < head - backfill → Read ch s n :=
    fun n hlow hhigh => absurd hhigh (not_lt.mpr hlow)
  unfold resumeFrom
  split
  · next c hc =>
      split
      · exact ⟨h.ordered c hc, h.saved c hc⟩
      · exact ⟨le_rfl, hfresh⟩
  · exact ⟨le_rfl, hfresh⟩

/-- What is stored of the blocks before the live loop, by the cursor. -/
theorem scanned_before (h : Kept ch s) {n : Int} (hlow : V4.deployBlock ≤ n)
    (hhigh : n < (s.scannedTo.map (· + 1)).getD V4.deployBlock) : PoolsStored ch s.index n := by
  cases hk : s.scannedTo with
  | none =>
      rw [hk] at hhigh
      exact absurd hhigh (not_lt.mpr hlow)
  | some k =>
      rw [hk] at hhigh
      exact h.scanned k hk n hlow (Int.lt_add_one_iff.mp hhigh)

theorem start_moves (h : Kept ch s) (head backfill : Int) :
    Moves ch s (start cfg s head backfill) := by
  obtain ⟨hordered, hread⟩ := resumed_kept h head backfill
  refine .of_process (.none rfl rfl) rfl rfl fun p hp => ?_
  obtain rfl := Running.up.inj hp
  refine ⟨?_, chunkKept_idle rfl⟩
  exact {
    began := hordered
    started := le_rfl
    read := hread
    caught := by
      intro hcaught n hlow hhigh
      have hreached := of_decide_eq_true hcaught
      dsimp only at hhigh
      cases hk : s.scannedTo with
      | none =>
          rw [hk, Option.getD_none] at hreached
          unfold V4.deployBlock at hlow
          omega
      | some k =>
          rw [hk, Option.getD_some] at hreached
          exact h.scanned k hk n hlow (by omega)
    walked := by
      intro w hw
      dsimp only at hw
      split at hw
      · cases hw
      · obtain rfl := Option.some.inj hw
        exact ⟨rfl, fun n hlow hhigh => scanned_before h hlow hhigh⟩ }

theorem commitLost_moves (h : Kept ch s) (c : Commit) : Moves ch s (commitLost s c) := by
  have hgrows : Grows s { s with checkpoint := none } := .of_same rfl rfl
  have hnone : Moves ch s { s with checkpoint := none } := by
    refine ⟨⟨fun c hc => ?_, fun k hk => Or.inl hk⟩, .none rfl rfl, fun p hp => ?_⟩
    · cases hc
    · exact (h.live p hp).imp (fun hcore => hcore.mono hgrows) fun hin => hin.mono hgrows
  cases c with
  | refused => exact .refl h
  | torn => exact hnone
  | fileOnly => exact hnone
  | whole => exact hnone

theorem poll_moves (h : Kept ch s) (head : Polled Int) (final : Commit) :
    Moves ch s (poll cfg s head final) := by
  unfold poll
  split
  · exact .refl h
  · split
    · exact .refl h
    · exact commitLost_moves h final
  · next p hup =>
      have hcore := (h.live p hup).1
      split
      · exact .refl h
      · split
        · exact .of_up (backOff_live hcore).1 (backOff_live hcore).2
        · exact nextChunk_moves h.rows hcore _ _
        · split
          · exact .refl h
          · exact nextChunk_moves h.rows hcore _ _

/-- A processing that returned read the block, or was answered with `null`. -/
theorem read_of_returned {n : Int} {reply : Reply}
    (h : (processBlock n (ch.blockAt n) reply s.index).2 = true) (hnull : reply ≠ .null) :
    Read ch (processed ch s n reply) n := by
  rw [processBlock_returned, Bool.or_eq_true] at h
  have hwhole := h.resolve_left fun heq => hnull (of_decide_eq_true heq)
  exact ⟨reply, List.mem_append_right _ (List.mem_singleton.mpr rfl), hwhole⟩

/-- One block of the chunk has come back. -/
theorem finished_chunk {n : Int} {reply : Reply} {chunk pending missing : List Int}
    (h : InChunk ch s p chunk pending missing) (hpending : n ∈ pending)
    (hreturned : (processBlock n (ch.blockAt n) reply s.index).2 = true) :
    InChunk ch (processed ch s n reply) p chunk (pending.erase n)
      (if reply = .null then n :: missing else missing) where
  range := h.range
  within := fun m hm => h.within m (List.mem_of_mem_erase hm)
  missed := by
    intro m hm
    split at hm
    · rcases List.mem_cons.mp hm with rfl | hm
      · exact h.within m hpending
      · exact h.missed m hm
    · exact h.missed m hm
  waits := by
    intro m hm
    by_cases hmn : m = n
    · subst hmn
      right
      split
      · exact Or.inl List.mem_cons_self
      · next hnull => exact Or.inr (read_of_returned hreturned hnull)
    · rcases h.waits m hm with hwaits | hmissed | hread
      · exact Or.inl ((List.mem_erase_of_ne hmn).mpr hwaits)
      · right
        left
        split
        · exact List.mem_cons_of_mem _ hmissed
        · exact hmissed
      · exact Or.inr (Or.inr (hread.mono (processed_grows ch s n reply)))

theorem finish_moves (h : Kept ch s) (n : Int) (reply : Reply) :
    Moves ch s (finish ch s n reply) := by
  have hgrows := processed_grows ch s n reply
  unfold finish
  split
  · next p hup =>
      obtain ⟨hcore, hin⟩ := h.live p hup
      split
      · next target chunk pending missing hphase =>
          split
          · next hpending =>
              dsimp only
              split
              · next hreturned =>
                  refine .of_processed ((hcore.mono hgrows).of_same rfl rfl rfl rfl rfl) ?_
                  unfold ChunkKept at hin
                  rw [hphase] at hin
                  obtain ⟨hrange, hwithin, hmissed, hwaits⟩ :=
                    finished_chunk hin hpending hreturned
                  exact ⟨hrange, hwithin, hmissed, hwaits⟩
              · exact .of_processed ((hcore.mono hgrows).of_same rfl rfl rfl rfl rfl)
                  (chunkKept_idle rfl)
          · exact .refl h
      · exact .refl h
  · exact .refl h

theorem straggle_moves (h : Kept ch s) (n : Int) (reply : Reply) :
    Moves ch s (straggle ch s n reply) := by
  have hgrows := processed_grows ch s n reply
  unfold straggle
  split
  · next p hup =>
      obtain ⟨hcore, hin⟩ := h.live p hup
      split
      · exact .of_processed ((hcore.mono hgrows).of_same rfl rfl rfl rfl rfl)
          ((hin.mono hgrows).of_same rfl rfl)
      · exact .refl h
  · exact .refl h

/-- The commit of every twenty-five blocks, and the process after it. -/
theorem commitDue_moves (hrows : ∀ n, Read ch s n → Indexed ch s n) (h : Core ch s p)
    (saved : Commit) : Marks ch s (commitDue s p saved).1 ∧
      Core ch s (commitDue s p saved).2.1 := by
  unfold commitDue
  split
  · refine ⟨commit_marks hrows h saved, ?_⟩
    dsimp only
    split
    · exact h.of_same rfl rfl rfl rfl rfl
    · exact h
  · exact ⟨.of_same rfl rfl, h⟩

theorem recover_core (h : Core ch s p) : Core ch s (p.recover cfg) := by
  unfold Process.recover
  split
  · exact h.of_same rfl rfl rfl rfl rfl
  · exact h.of_same rfl rfl rfl rfl rfl

theorem Moves.after {middle after : Watcher} (hmarks : Marks ch s middle)
    (hindex : middle.index = s.index) (hlog : middle.log = s.log)
    (h : Moves ch middle after) : Moves ch s after where
  toMarks := hmarks.trans h.toMarks h.effect.grows
  effect := by
    cases h.effect with
    | none hi hl => exact .none (hi.trans hindex) (hl.trans hlog)
    | block n reply hi hl =>
        refine .block n reply ?_ ?_
        · rw [hi, processed, processed, hindex]
        · rw [hl, processed, processed, hlog]
    | pools rows hi hl => exact .pools rows (by rw [hi, hindex]) (hl.trans hlog)
    | pruned olderThanTs hi hl => exact .pruned olderThanTs (by rw [hi, hindex]) (hl.trans hlog)
  live := h.live

theorem chunkDone_moves (hrows : ∀ n, Read ch s n → Indexed ch s n) (h : Core ch s p)
    (target : Int) (saved : Commit) (pruned : Bool) (final : Commit) :
    Moves ch s (chunkDone cfg s p target saved pruned final) := by
  obtain ⟨hmarks, hcore⟩ := commitDue_moves hrows h saved
  have hindex := commitDue_index (s := s) (p := p) saved
  have hlog := commitDue_log (s := s) (p := p) saved
  have hcore' := hcore.mono (Grows.of_same hindex hlog)
  have hrows' := rows_step (.none hindex hlog) hrows
  refine .after hmarks hindex hlog ?_
  unfold chunkDone
  dsimp only
  split
  · exact nextChunk_moves hrows' (recover_core hcore') target final
  · exact .of_up (backOff_live hcore').1 (backOff_live hcore').2

/-- A chunk that has ended with no block missed moves `next` over blocks that were read. -/
theorem advance_core {chunk missing : List Int} (h : Core ch s p)
    (hin : InChunk ch s p chunk [] missing) (hmissed : ∀ n ∈ missing, Read ch s n) :
    Core ch s { p with next := p.next + chunk.length } where
  began := h.began
  started := by
    have hstarted := h.started
    dsimp only
    omega
  read := by
    intro n hlow hhigh
    rcases lt_or_ge n p.next with hbefore | hchunk
    · exact h.read n hlow hbefore
    · rcases hin.waits n ((hin.range n).mpr ⟨hchunk, hhigh⟩) with hwaits | hmiss | hread
      · cases hwaits
      · exact hmissed n hmiss
      · exact hread
  caught := h.caught
  walked := h.walked

theorem endChunk_moves (h : Kept ch s) (saved : Commit) (pruned : Bool) (final : Commit)
    (hnone : NoneMissed ch s (.endChunk saved pruned final)) :
    Moves ch s (endChunk cfg s saved pruned final) := by
  unfold NoneMissed at hnone
  unfold endChunk
  split
  · next p hup =>
      obtain ⟨hcore, hin⟩ := h.live p hup
      split
      · next target chunk missing hphase =>
          unfold ChunkKept at hin
          rw [hphase] at hin
          rw [hup] at hnone
          dsimp only at hnone
          rw [hphase] at hnone
          exact chunkDone_moves h.rows (advance_core hcore hin hnone) target saved pruned final
      · exact .refl h
  · exact .refl h

/-- The rows of a window are those of all its blocks. -/
theorem walkRows_row {lo hi n : Int} {rows : List V4PoolRow} (h : walkRows ch lo hi = .ok rows)
    (hlow : lo ≤ n) (hhigh : n ≤ hi) {read : TxReceipt × ReceiptLog}
    (hread : read ∈ logsOf (ch.blockAt n).receipts) (hlog : IsInitialize read.2) :
    ∃ row ∈ rows, row.stored.poolId = poolIdOf read.2 := by
  have hrange : n ∈ intRange lo hi :=
    List.mem_map.mpr ⟨(n - lo).toNat, List.mem_range.mpr (by omega), by omega⟩
  have hnamed : IsInitialize (named read) := hlog
  have hmem : (n, named read) ∈ initializeLogs ch lo hi := by
    refine List.mem_flatMap.mpr ⟨n, hrange, List.mem_map.mpr ⟨named read, ?_, rfl⟩⟩
    refine List.mem_filter.mpr ⟨List.mem_map.mpr ⟨read, hread, rfl⟩, ?_⟩
    exact decide_eq_true ⟨hnamed.1, hnamed.2.1⟩
  obtain ⟨found, hfound⟩ := read_of_rowsOf h hmem
  obtain ⟨row, rfl, hid⟩ := decodeInitialize_row hnamed hfound
  refine ⟨row, (mem_rowsOf h).mpr ⟨_, hmem, hfound⟩, ?_⟩
  have hlower : row.stored.poolId = row.poolId.toLower := rfl
  rw [hlower, hid]
  exact toLower_poolIdOf _

/-- The walk returns a block that it has passed. -/
theorem reached_core (h : Core ch s p) (hw : p.walk = some w) {block : Int}
    (hblock : block < w.start) : Core ch s (p.reached block) where
  began := h.began
  started := h.started
  read := h.read
  caught := by
    intro hcaught n hlow hhigh
    have hreached := of_decide_eq_true hcaught
    have hlive : n < p.liveStart := hhigh
    exact (h.walked w hw).2 n hlow (by omega)
  walked := fun w' hw' => by cases hw'

/-- The walk goes on from where it was. -/
theorem walking_core (h : Core ch s p) (hw : p.walk = some w) {next : Walk}
    (hbound : next.toBlock = w.toBlock) (hstart : next.start = w.start) :
    Core ch s { p with walk := some next } where
  began := h.began
  started := h.started
  read := h.read
  caught := h.caught
  walked := by
    intro w' hw'
    obtain rfl := Option.some.inj hw'
    rw [hbound, hstart]
    exact h.walked w hw

theorem stall_core (h : Core ch s p) (hw : p.walk = some w) : Core ch s (p.stall w) := by
  unfold Process.stall
  split
  · exact reached_core h hw (by omega)
  · exact walking_core h hw rfl rfl

theorem stall_kept (h : ChunkKept ch s p) : ChunkKept ch s (p.stall w) := by
  unfold Process.stall
  split
  · exact h.of_same rfl rfl
  · exact h.of_same rfl rfl

theorem dead_core (h : Core ch s p) : Core ch s { p with walk := none } where
  began := h.began
  started := h.started
  read := h.read
  caught := h.caught
  walked := fun w hw => by cases hw

theorem advance_start (last : Int) : (w.advance last).start = last + 1 := by
  unfold Walk.advance
  split <;> rfl

theorem advance_toBlock (last : Int) : (w.advance last).toBlock = w.toBlock := by
  unfold Walk.advance
  split <;> rfl

/-- A window whose rows are stored leaves no pool before its end unknown. -/
theorem window_stored (h : Core ch s p) (hw : p.walk = some w) {last : Int}
    {rows : List V4PoolRow} (hrows : walkRows ch w.start last = .ok rows) {after : Watcher}
    (hindex : after.index = s.index.upsertV4Pools rows) (hlog : after.log = s.log) (n : Int)
    (hlow : V4.deployBlock ≤ n) (hhigh : n ≤ last) : PoolsStored ch after.index n := by
  rcases lt_or_ge n w.start with hbefore | hwindow
  · exact ((h.walked w hw).2 n hlow hbefore).mono (.of_pools hindex hlog)
  · rw [hindex]
    exact poolsStored_upsert fun read hread hlog => walkRows_row hrows hwindow hhigh hread hlog

theorem window_moves (h : Core ch s p) (hin : ChunkKept ch s p) (hw : p.walk = some w)
    {last : Int} {rows : List V4PoolRow} (hrows : walkRows ch w.start last = .ok rows)
    {after : Watcher} (hindex : after.index = s.index.upsertV4Pools rows)
    (hlog : after.log = s.log) (hcheckpoint : after.checkpoint = s.checkpoint)
    (hscanned : after.scannedTo = some last)
    (hrunning : after.running = .up { p with walk := some (w.advance last) }) :
    Moves ch s after := by
  have hgrows : Grows s after := .of_pools hindex hlog
  have hstored := window_stored h hw hrows hindex hlog
  refine ⟨⟨fun c hc => Or.inl (hcheckpoint ▸ hc), fun k hk => ?_⟩, .pools rows hindex hlog,
    fun q hq => ?_⟩
  · obtain rfl := Option.some.inj (hscanned.symm.trans hk)
    exact Or.inr hstored
  · obtain rfl := Running.up.inj (hrunning.symm.trans hq)
    have hcore := h.mono hgrows
    refine ⟨?_, (hin.mono hgrows).of_same rfl rfl⟩
    exact {
      began := hcore.began
      started := hcore.started
      read := hcore.read
      caught := hcore.caught
      walked := by
        intro w' hw'
        obtain rfl := Option.some.inj hw'
        rw [advance_start, advance_toBlock]
        exact ⟨(h.walked w hw).1, fun n hlow hhigh => hstored n hlow (by omega)⟩ }

theorem walkStep_moves (h : Kept ch s) (hup : s.running = .up p) (hw : p.walk = some w)
    (reply : WalkReply) : Moves ch s (walkStep ch s p w reply) := by
  obtain ⟨hcore, hin⟩ := h.live p hup
  have hdead : Moves ch s { s with running := .up { p with walk := none } } :=
    .of_up (dead_core hcore) (hin.of_same rfl rfl)
  have hstall : Moves ch s { s with running := .up (p.stall w) } :=
    .of_up (stall_core hcore hw) (stall_kept hin)
  unfold walkStep
  split
  · next hover => exact .of_up (reached_core hcore hw hover) (hin.of_same rfl rfl)
  · dsimp only
    split
    · split
      · exact .of_up (walking_core hcore hw rfl rfl) (hin.of_same rfl rfl)
      · exact hstall
    · exact hstall
    · exact hdead
    · split
      · exact hdead
      · next rows hrows =>
          split
          · exact hdead
          · refine .of_process (.pools rows rfl rfl) rfl rfl fun q hq => ?_
            obtain rfl := Running.up.inj hq
            have hgrows : Grows s { s with
                index := s.index.upsertV4Pools rows
                running := .up { p with walk := none } } := .of_pools rfl rfl
            exact ⟨(dead_core hcore).mono hgrows, (hin.mono hgrows).of_same rfl rfl⟩
          · exact window_moves hcore hin hw hrows rfl rfl rfl rfl rfl

theorem prune_moves (h : Kept ch s) (olderThanTs : Nat) :
    Moves ch s { s with index := s.index.pruneTrades olderThanTs } := by
  refine .of_process (.pruned olderThanTs rfl rfl) rfl rfl fun q hq => ?_
  have hgrows : Grows s { s with index := s.index.pruneTrades olderThanTs } :=
    ⟨fun e he => he, fun k hk => hk, fun k hk => hk, fun k hk => hk⟩
  exact (h.live q hq).imp (fun hcore => hcore.mono hgrows) fun hin => hin.mono hgrows

/-- **One event** keeps the invariant, where it counts no block as done that was not read. -/
theorem step_kept (s : Watcher) (e : Event) (h : Kept ch s) (hnone : NoneMissed ch s e) :
    Kept ch (step cfg ch s e) := by
  apply h.moves
  cases e with
  | start head backfill =>
      simp only [step]
      split
      · exact .of_running fun q hq => by cases hq
      · exact start_moves h _ _
      · exact .refl h
  | crash => exact .of_running fun q hq => by cases hq
  | poll head final => exact poll_moves h head final
  | finish n reply => exact finish_moves h n reply
  | straggle n reply => exact straggle_moves h n reply
  | endChunk saved pruned final => exact endChunk_moves h saved pruned final hnone
  | walk reply =>
      simp only [step]
      split
      · next p hup =>
          split
          · next w hw => exact walkStep_moves h hup hw reply
          · exact .refl h
      · exact .refl h
  | prune olderThanTs => exact prune_moves h olderThanTs

theorem kept_start : Kept ch {} where
  counted := rfl
  rows := by
    rintro n ⟨reply, hmem, -⟩
    cases hmem
  ordered := fun c hc => by cases hc
  saved := fun c hc => by cases hc
  scanned := fun k hk => by cases hk
  live := fun p hp => by cases hp

theorem nextChunk_running (target : Int) (final : Commit) :
    ∃ q, (nextChunk s p target final).running = .up q ∧ q.began = p.began ∧ q.next = p.next := by
  unfold nextChunk
  split
  · exact ⟨_, rfl, rfl, rfl⟩
  · dsimp only
    split <;> exact ⟨_, rfl, rfl, rfl⟩

theorem commitDue_process (saved : Commit) :
    (commitDue s p saved).2.1.began = p.began ∧ (commitDue s p saved).2.1.next = p.next := by
  unfold commitDue
  split
  · dsimp only
    split <;> exact ⟨rfl, rfl⟩
  · exact ⟨rfl, rfl⟩

variable (cfg p) in
theorem recover_process :
    (p.recover cfg).began = p.began ∧ (p.recover cfg).next = p.next := by
  unfold Process.recover
  split <;> exact ⟨rfl, rfl⟩

/-- After a chunk the process has counted its blocks, whatever became of the commits. -/
theorem chunkDone_running (target : Int) (saved : Commit) (pruned : Bool) (final : Commit) :
    ∃ q, (chunkDone cfg s p target saved pruned final).running = .up q ∧ q.began = p.began ∧
      q.next = p.next := by
  obtain ⟨hbegan, hnext⟩ := commitDue_process (s := s) (p := p) saved
  unfold chunkDone
  dsimp only
  split
  · obtain ⟨hrbegan, hrnext⟩ := recover_process cfg (commitDue s p saved).2.1
    obtain ⟨q, hq, hqbegan, hqnext⟩ := nextChunk_running (s := (commitDue s p saved).1)
      (p := (commitDue s p saved).2.1.recover cfg) target final
    exact ⟨q, hq, by rw [hqbegan, hrbegan, hbegan], by rw [hqnext, hrnext, hnext]⟩
  · exact ⟨_, rfl, hbegan, hnext⟩

theorem endChunk_eq (hup : s.running = .up p) {target : Int} {chunk missing : List Int}
    (hphase : p.phase = .fetching target chunk [] missing) (saved : Commit) (pruned : Bool)
    (final : Commit) : endChunk cfg s saved pruned final =
      chunkDone cfg s { p with next := p.next + chunk.length } target saved pruned final := by
  unfold endChunk
  rw [hup]
  dsimp only
  rw [hphase]

/-- A chunk that leaves its blocks read had none of them missed. -/
theorem read_of_covered (h : Kept ch s) (hup : s.running = .up p) {target : Int}
    {chunk missing : List Int} (hphase : p.phase = .fetching target chunk [] missing)
    {saved : Commit} {pruned : Bool} {final : Commit}
    (hcovered : Covered ch (endChunk cfg s saved pruned final)) : ∀ n ∈ missing, Read ch s n := by
  intro n hn
  obtain ⟨hcore, hin⟩ := h.live p hup
  unfold ChunkKept at hin
  rw [hphase] at hin
  obtain ⟨hlow, hhigh⟩ := (hin.range n).mp (hin.missed n hn)
  rw [endChunk_eq hup hphase] at hcovered
  obtain ⟨q, hq, hbegan, hnext⟩ :=
    chunkDone_running target saved pruned final (p := { p with next := p.next + chunk.length })
  have hbefore : q.began ≤ n := by
    rw [hbegan]
    exact (hcore.began.trans hcore.started).trans hlow
  obtain ⟨reply, hmem, hwhole⟩ := (hcovered.done q hq n hbefore (hnext ▸ hhigh)).read
  rw [chunkDone_log] at hmem
  exact ⟨reply, hmem, hwhole⟩

/-- **No block is counted unread** only where none was missed. -/
theorem noneMissed_of_covered (h : Kept ch s) (e : Event)
    (hcovered : Covered ch (step cfg ch s e)) : NoneMissed ch s e := by
  unfold NoneMissed
  split
  · split
    · next p hup =>
        split
        · next target chunk missing hphase => exact read_of_covered h hup hphase hcovered
        · trivial
    · trivial
  · trivial

/-- **Coverage.**  All along a run every block below the checkpoint, and every block counted
as done, is in the index, and every pool up to the cursor is stored, if and only if whenever
a chunk ended the blocks of it that were answered with `null` had been read before. -/
theorem coverage_iff (cfg : Config) (ch : Chain) (es : List Event) :
    (∀ pre post, es = pre ++ post → Covered ch (pre.foldl (step cfg ch) {})) ↔
      Guarded.Along (step cfg ch) (NoneMissed ch) {} es := by
  have hkeeps : ∀ s e, Kept ch s → NoneMissed ch s e → Kept ch (step cfg ch s e) := step_kept
  have hsame : ∀ s e, Kept ch s → (Covered ch (step cfg ch s e) ↔ NoneMissed ch s e) :=
    fun s e h => ⟨noneMissed_of_covered h e, fun hnone => (hkeeps s e h hnone).covered⟩
  have hiff : Guarded.Along (step cfg ch) (fun s e => Covered ch (step cfg ch s e)) {} es ↔
      Guarded.Along (step cfg ch) (NoneMissed ch) {} es :=
    Guarded.along_iff hkeeps hsame kept_start
  rw [Guarded.throughout_iff, hiff]
  exact and_iff_right kept_start.covered

end Events

section Sample

def poolLog : ReceiptLog where
  address := V4.poolManager
  topics := [V4.initializeTopic, "0x02", "0x03", "0x04"]
  data := String.ofList ('0' :: 'x' :: List.replicate 320 '0')

/-- A pool is initialised in the block of the deployment. -/
def poolChain : Chain := quietBut {
  timestamp := 1700000000
  transactions := [{ hash := "0x01" }]
  receipts := [{
    transactionHash := "0x01"
    sender := "0x0a"
    logs := [poolLog] }]
  quiet := nofun }

theorem poolLog_isInitialize : IsInitialize poolLog := by
  have hdigits : poolLog.digits = List.replicate 320 '0' := by
    unfold ReceiptLog.digits poolLog
    rw [String.toList_ofList]
    rfl
  refine ⟨by decide +kernel, by decide +kernel, by decide, ?_⟩
  rw [hdigits, List.length_replicate]

/-- The first block of a run is answered with `null`, and the chunk ends. -/
def nullRun : List Event := [.start (.value 9070) 0, .walk .failed, .poll (.value 9070) .whole,
  .finish 9070 .null, .endChunk .whole true .whole]

/-- **A block that was answered with `null` is counted as done.**  The checkpoint and the
cursor go past it, and the pool that it initialised is in no table. -/
theorem null_counted :
    (nullRun.foldl (step {} poolChain) {}).checkpoint = some ⟨9071, 9070⟩ ∧
      (nullRun.foldl (step {} poolChain) {}).scannedTo = some 9070 ∧
      ¬ Read poolChain (nullRun.foldl (step {} poolChain) {}) 9070 ∧
      ¬ PoolsStored poolChain (nullRun.foldl (step {} poolChain) {}).index 9070 ∧
      ¬ Covered poolChain (nullRun.foldl (step {} poolChain) {}) := by
  have hsaved : (nullRun.foldl (step {} poolChain) {}).checkpoint = some ⟨9071, 9070⟩ := by
    decide +kernel
  have hunread : ¬ Read poolChain (nullRun.foldl (step {} poolChain) {}) 9070 := by
    have hlog : (nullRun.foldl (step {} poolChain) {}).log = [(9070, .null)] := by
      decide +kernel
    rintro ⟨reply, hmem, hwhole⟩
    rw [hlog] at hmem
    obtain ⟨-, rfl⟩ := Prod.mk.inj (List.mem_singleton.mp hmem)
    cases hwhole
  refine ⟨hsaved, by decide +kernel, hunread, ?_, fun h => ?_⟩
  · intro hstored
    have hpool := hstored (_, poolLog) (mem_logsOf.mpr ⟨List.mem_cons_self, List.mem_cons_self⟩)
      poolLog_isInitialize
    cases hpool
  · exact hunread (h.saved _ hsaved 9070 le_rfl (by decide)).read

end Sample

end Watch

end Ordo
