import Mathlib.Data.List.Perm.Basic
import Mathlib.Data.List.Nodup
import Ordo.BatchEscrow
import Ordo.Batcher

/-!
# What the batcher's steps keep

A window takes orders in hand, and a step of a settlement touches the entries of its own
orders.

1.  What the search leaves in a batch and what it drops are parts of the batch that it was
    given (`solve_done_parts`).
2.  Grouping loses no order and doubles none (`groupByPair_perm`).
3.  A step of a settlement leaves other entries alone (`JobStep`).
4.  Orders in hand are in hand once, and neither rejected nor expired; what is reported
    filled was filled (`Sound`).  Every step keeps that.
-/

namespace Ordo

/-! ### What a solution keeps -/

namespace Solver

open OrdoBatch (Order)

variable {WETH : Address} {m : Market} {k n : Nat} {s s' : Search WETH}
  {initial batch : PairBatch WETH} {dropped : List Dropped}

/-- What is left of a batch, and what was dropped from it. -/
structure Parts (initial batch : PairBatch WETH) (dropped : List Dropped) : Prop where
  kept : (allOrders batch).Sublist (allOrders initial)
  dropped : ∀ d ∈ dropped, d.order ∈ allOrders initial ∧ d.order ∉ allOrders batch

theorem allOrders_without (batch : PairBatch WETH) (gone : List Order) :
    allOrders (without batch gone) = (allOrders batch).filter (· ∉ gone) := by
  rw [allOrders, allOrders, List.filter_append]
  rfl

theorem Parts.drop (h : Parts initial s.batch s.dropped) :
    Parts initial (drop s).batch (drop s).dropped := by
  have hkept : (allOrders (Solver.drop s).batch).Sublist (allOrders s.batch) := by
    rw [Solver.drop, allOrders_without]
    exact List.filter_sublist
  refine ⟨hkept.trans h.kept, fun d hd => ?_⟩
  rcases List.mem_append.mp hd with hd | hd
  · obtain ⟨hin, hout⟩ := h.dropped d hd
    exact ⟨hin, fun hleft => hout (hkept.subset hleft)⟩
  · obtain ⟨o, ho, rfl⟩ := List.mem_map.mp hd
    refine ⟨h.kept.subset (mem_limitFailures.mp ho).1, fun hleft => ?_⟩
    exact (mem_allOrders_without.mp hleft).2 ho

theorem judge_error {res : Residual} {sim : SimResult} {e : SolveError}
    (h : judge m s res sim = .error e dropped) : dropped = s.dropped := by
  unfold judge at h
  simp only at h
  split at h
  · split at h
    · cases h
    · cases h
  · split at h
    · cases h; rfl
    · cases h

theorem ask_error {e : SolveError} (h : ask m k s = .error e dropped) : dropped = s.dropped := by
  unfold ask at h
  simp only at h
  split at h
  · cases h; rfl
  split at h
  · cases h
  split at h
  · cases h; rfl
  · exact (judge_error h).trans rfl

theorem Parts.round_error (h : Parts initial s.batch s.dropped) {e : SolveError}
    (hround : round m k s = .error e dropped) : ∀ d ∈ dropped, d.order ∈ allOrders initial := by
  intro d hd
  unfold round at hround
  split at hround
  · cases hround
  split at hround
  · rw [ask_error hround] at hd
    exact (h.dropped d hd).1
  · split at hround
    · cases hround
      exact (h.drop.dropped d hd).1
    · rw [ask_error hround] at hd
      exact (h.drop.dropped d hd).1

theorem Parts.went (h : Parts initial s.batch s.dropped) {r : Round WETH} {s₁ : Search WETH}
    {sim : SimResult} (hwent : Went m k s r s₁ sim) :
    ∀ s', r = .settled s' ∨ r = .moved s' → Parts initial s'.batch s'.dropped := by
  obtain ⟨horders, -, hjudged⟩ := hwent
  have h₁ : Parts initial s₁.batch s₁.dropped := by
    rcases horders with rfl | rfl
    · exact ⟨h.kept, h.dropped⟩
    · exact ⟨h.drop.kept, h.drop.dropped⟩
  intro s' hs'
  cases hjudged with
  | settled haccept =>
      rcases hs' with hs' | hs'
      · cases hs'
        exact ⟨h₁.kept, h₁.dropped⟩
      · cases hs'
  | moved c hmoved =>
      rcases hs' with hs' | hs'
      · cases hs'
      · cases hs'
        exact ⟨h₁.kept, h₁.dropped⟩

/-- The rounds that are left. -/
theorem Parts.rounds (n : Nat) : ∀ {k : Nat} {s : Search WETH}, Parts initial s.batch s.dropped →
    (∀ s', rounds m n k s = .done s' → Parts initial s'.batch s'.dropped) ∧
      ∀ e dropped, rounds m n k s = .error e dropped →
        ∀ d ∈ dropped, d.order ∈ allOrders initial := by
  induction n with
  | zero =>
      intro k s h
      refine ⟨fun s' hs' => ?_, fun e dropped he => by cases he⟩
      cases hs'
      exact h
  | succ n ih =>
      intro k s h
      rw [Solver.rounds]
      cases hround : round m k s with
      | error e dropped =>
          refine ⟨fun s' hs' => (by cases hs'), fun e' dropped' he => ?_⟩
          cases he
          exact h.round_error hround
      | threw => exact ⟨fun s' hs' => (by cases hs'), fun e dropped he => by cases he⟩
      | done r =>
          obtain ⟨s₁, sim, hwent⟩ := round_done hround
          have hparts := h.went hwent
          cases r with
          | settled s₂ =>
              refine ⟨fun s' hs' => ?_, fun e dropped he => by cases he⟩
              cases hs'
              exact hparts _ (Or.inl rfl)
          | moved s₂ => exact ih (hparts _ (Or.inr rfl))

theorem Parts.start (h : start m initial = some s) : Parts initial s.batch s.dropped := by
  obtain ⟨hbatch, hdropped, -, -⟩ := start_eq h
  rw [hbatch, hdropped]
  exact ⟨List.Sublist.refl _, fun d hd => absurd hd List.not_mem_nil⟩

/-- **A solution** has some orders of the batch, and dropped others. -/
theorem solve_done_parts {p : Solved WETH × List Query} (h : solve m initial = .done p) :
    Parts initial p.1.batch p.1.dropped := by
  obtain ⟨s, s', hs, hrounds, hfinish⟩ := solve_done h
  obtain ⟨sim, -, -, -, -, hbatch, -, -, -, hdropped⟩ := finish_done hfinish
  rw [hbatch, hdropped]
  exact (Parts.rounds 6 (Parts.start hs)).1 s' hrounds

theorem solve_error_parts {e : SolveError} (h : solve m initial = .error e dropped) :
    ∀ d ∈ dropped, d.order ∈ allOrders initial := by
  unfold solve at h
  split at h
  next =>
    cases h
    exact fun d hd => absurd hd List.not_mem_nil
  next s hs =>
    have hstart := Parts.start hs
    split at h
    next s' hrounds =>
      have hparts := (Parts.rounds 6 hstart).1 s' hrounds
      unfold finish at h
      split at h
      next =>
        cases h
        exact fun d hd => (hparts.dropped d hd).1
      next sim hsim =>
        split at h
        next =>
          cases h
          exact fun d hd => (hparts.dropped d hd).1
        split at h
        · cases h
        split at h
        next hlimits =>
          cases h
          intro d hd
          rcases List.mem_append.mp hd with hd | hd
          · exact (hparts.dropped d hd).1
          · obtain ⟨o, ho, rfl⟩ := List.mem_map.mp hd
            exact hparts.kept.subset (mem_limitFailures.mp ho).1
        · cases h
    next e' dropped' hrounds =>
      cases h
      exact (Parts.rounds 6 hstart).2 _ _ hrounds
    next => cases h

end Solver

namespace Batcher

open OrdoBatch (Order)

open Solver

/-! ### Grouping -/

section Grouping

variable {WETH : Address}

theorem batchOf_orders (o : Order) : allOrders (batchOf WETH o) = [o] := by
  simp only [allOrders, batchOf]
  split
  · rfl
  · rfl

theorem join_perm (pb : PairBatch WETH) (o : Order) (h : pairOf WETH o = (pb.a, pb.b)) :
    (allOrders (join pb o h)).Perm (o :: allOrders pb) := by
  simp only [allOrders, join]
  split
  · rw [List.append_assoc]
    exact List.perm_middle
  · rw [← List.append_assoc]
    exact List.perm_append_singleton o _

theorem group_perm (o : Order) (batches : List (PairBatch WETH)) :
    ((group o batches).flatMap allOrders).Perm (o :: batches.flatMap allOrders) := by
  induction batches with
  | nil =>
      rw [group, List.flatMap_cons, batchOf_orders]
      exact List.Perm.refl _
  | cons pb rest ih =>
      rw [group]
      split
      next h =>
        rw [List.flatMap_cons, List.flatMap_cons]
        exact (join_perm pb o h).append_right _
      next =>
        rw [List.flatMap_cons, List.flatMap_cons]
        exact (ih.append_left _).trans List.perm_middle

/-- **Grouping** loses no order and doubles none. -/
theorem groupByPair_perm (orders : List Order) :
    ((groupByPair WETH orders).flatMap allOrders).Perm orders := by
  have hfold : ∀ (orders : List Order) (batches : List (PairBatch WETH)),
      ((orders.foldl (fun batches o => group o batches) batches).flatMap allOrders).Perm
        (orders ++ batches.flatMap allOrders) := by
    intro orders
    induction orders with
    | nil => exact fun batches => List.Perm.refl _
    | cons o orders ih =>
        intro batches
        refine (ih (group o batches)).trans ?_
        exact ((group_perm o batches).append_left orders).trans List.perm_middle
  have h := hfold orders []
  rwa [List.flatMap_nil, List.append_nil] at h

end Grouping

/-! ### Entries -/

section Entries

variable {α : Type} {k : α → Bytes32} {f : α → Pending → Pending} {xs : List α}
  {h : Bytes32} {t : Table Bytes32 Pending}

/-- What the entry under a key becomes. -/
def entry (k : α → Bytes32) (f : α → Pending → Pending) (xs : List α) (h : Bytes32)
    (p : Pending) : Pending :=
  xs.foldl (fun p x => if h = k x then f x p else p) p

theorem lookup_onEach (xs : List α) (t : Table Bytes32 Pending) :
    (onEach k f xs t).lookup h = (t.lookup h).map (entry k f xs h) := by
  induction xs generalizing t with
  | nil =>
      have hid : entry k f [] h = id := rfl
      rw [hid, Option.map_id]
      rfl
  | cons x xs ih =>
      have hstep := Table.lookup_mapValues (fun h p => if h = k x then f x p else p) t h
      rw [onEach, List.foldl_cons]
      exact (ih _).trans ((congrArg _ hstep).trans (Option.map_map _ _ _))

/-- Other entries stay as they are. -/
theorem entry_other (hout : h ∉ xs.map k) (p : Pending) : entry k f xs h p = p := by
  induction xs with
  | nil => rfl
  | cons x xs ih =>
      obtain ⟨hne, hrest⟩ := not_or.mp fun hin => hout (List.mem_cons.mpr hin)
      rw [entry, List.foldl_cons, if_neg hne]
      exact ih hrest

/-- What each change keeps is kept. -/
theorem entry_keeps {Q : Pending → Prop} (hf : ∀ x ∈ xs, ∀ p, Q p → Q (f x p)) :
    ∀ {p : Pending}, Q p → Q (entry k f xs h p) := by
  induction xs with
  | nil => exact fun hp => hp
  | cons x xs ih =>
      intro p hp
      have hrest := fun x' hx' => hf x' (List.mem_cons_of_mem x hx')
      rw [entry, List.foldl_cons]
      split
      · exact ih hrest (hf x List.mem_cons_self p hp)
      · exact ih hrest hp

/-- What each change brings about holds afterwards. -/
theorem entry_sets {Q : Pending → Prop} (hf : ∀ x ∈ xs, ∀ p, Q (f x p))
    (hin : h ∈ xs.map k) (p : Pending) : Q (entry k f xs h p) := by
  induction xs generalizing p with
  | nil => cases hin
  | cons x xs ih =>
      have hrest := fun x' hx' => hf x' (List.mem_cons_of_mem x hx')
      rw [entry, List.foldl_cons]
      by_cases hin' : h ∈ xs.map k
      · exact ih hrest hin' _
      · have heq : h = k x := (List.mem_cons.mp hin).resolve_right hin'
        rw [if_pos heq]
        exact entry_keeps (fun x' hx' p' _ => hrest x' hx' p') (hf x List.mem_cons_self p)

theorem lookup_onEach_other (hout : h ∉ xs.map k) :
    (onEach k f xs t).lookup h = t.lookup h := by
  rw [lookup_onEach]
  cases t.lookup h with
  | none => rfl
  | some p => exact congrArg some (entry_other hout p)

theorem lookup_onEach_some {p' : Pending} (hp' : (onEach k f xs t).lookup h = some p') :
    ∃ p, t.lookup h = some p ∧ entry k f xs h p = p' := by
  rw [lookup_onEach] at hp'
  exact Option.map_eq_some_iff.mp hp'

/-- A change that brings no such status about. -/
theorem lookup_onEach_status {Q : OrderStatus → Prop} {p' : Pending}
    (hf : ∀ x ∈ xs, ∀ p, Q (f x p).status → Q p.status)
    (hp' : (onEach k f xs t).lookup h = some p') (hq : Q p'.status) :
    ∃ p, t.lookup h = some p ∧ Q p.status := by
  obtain ⟨p, hp, rfl⟩ := lookup_onEach_some hp'
  refine ⟨p, hp, ?_⟩
  have hkeeps := entry_keeps (k := k) (h := h) (Q := fun q => Q q.status → Q p.status)
    (fun x hx q hq hfx => hq (hf x hx q hfx)) fun hq => hq
  exact hkeeps hq

/-- Entries of some orders are changed, to entries of the same orders. -/
structure Changes (keys : List Bytes32) (t t' : Table Bytes32 Pending) : Prop where
  other : ∀ h, h ∉ keys → t'.lookup h = t.lookup h
  entries : ∀ h, ∃ f : Pending → Pending, (∀ p, (f p).order = p.order) ∧
    t'.lookup h = (t.lookup h).map f

theorem Changes.refl (keys : List Bytes32) (t : Table Bytes32 Pending) : Changes keys t t :=
  ⟨fun _ _ => rfl, fun _ => ⟨id, fun _ => rfl, (Option.map_id_apply).symm⟩⟩

theorem Changes.trans {keys : List Bytes32} {t t' t'' : Table Bytes32 Pending}
    (h : Changes keys t t') (h' : Changes keys t' t'') : Changes keys t t'' := by
  refine ⟨fun k hk => (h'.other k hk).trans (h.other k hk), fun k => ?_⟩
  obtain ⟨f, hf, hlookup⟩ := h.entries k
  obtain ⟨f', hf', hlookup'⟩ := h'.entries k
  refine ⟨f' ∘ f, fun p => (hf' _).trans (hf p), ?_⟩
  rw [hlookup', hlookup, Option.map_map]

theorem changes_onEach {keys : List Bytes32} (hkeys : ∀ x ∈ xs, k x ∈ keys)
    (hf : ∀ x p, (f x p).order = p.order) (t : Table Bytes32 Pending) :
    Changes keys t (onEach k f xs t) := by
  refine ⟨fun h hout => lookup_onEach_other fun hin => ?_, fun h => ?_⟩
  · obtain ⟨x, hx, rfl⟩ := List.mem_map.mp hin
    exact hout (hkeys x hx)
  · refine ⟨entry k f xs h, fun p => ?_, lookup_onEach xs t⟩
    exact entry_keeps (Q := fun q => q.order = p.order) (fun x _ q hq => (hf x q).trans hq) rfl

end Entries

/-! ### Orders in hand -/

section Hand

variable {WETH : Address}

/-- The orders that a settlement is about. -/
def Job.orders : Job WETH → List Order
  | .solving batch => allOrders batch
  | .dryRunning solved _ => allOrders solved.batch
  | .sending solved _ => allOrders solved.batch
  | .waiting solved _ => allOrders solved.batch
  | .ended => []

/-- The transaction that a settlement waits for. -/
def Job.tx : Job WETH → Option TxHash
  | .sending _ txHash => some txHash
  | .waiting _ txHash => some txHash
  | _ => none

/-- The orders that the window has in hand. -/
def Tick.orders : Tick WETH → List Order
  | .idle => []
  | .checking ready checks => (ready ++ checks).map Pending.order
  | .settling _ jobs => jobs.flatMap Job.orders

/-- Rejected or expired. -/
def OrderStatus.lost : OrderStatus → Bool
  | .rejected _ => true
  | .expired => true
  | _ => false

def OrderStatus.isFilled : OrderStatus → Bool
  | .filled _ _ _ _ => true
  | _ => false

/-- One settlement moves on. -/
def Moves (job job' : Job WETH) (tick tick' : Tick WETH) : Prop :=
  ∃ ready before after, tick = .settling ready (before ++ job :: after) ∧
    tick' = .settling ready (before ++ job' :: after)

theorem moves_setJob {tick : Tick WETH} {j : Nat} {job : Job WETH} (job' : Job WETH)
    (h : tick.jobs[j]? = some job) : Moves job job' tick (tick.setJob j job') := by
  cases tick with
  | idle => cases h
  | checking ready checks => cases h
  | settling ready jobs =>
      obtain ⟨hlt, hget⟩ := List.getElem?_eq_some_iff.mp h
      obtain ⟨before, after, hjobs, -, hset⟩ := List.exists_of_set hlt
      refine ⟨ready, before, after, ?_, ?_⟩
      · exact congrArg _ (hjobs.trans (by rw [hget]))
      · exact congrArg _ hset

theorem mem_tick_orders {tick : Tick WETH} {job : Job WETH} {o : Order} (hjob : job ∈ tick.jobs)
    (ho : o ∈ job.orders) : o ∈ tick.orders := by
  cases tick with
  | idle => cases hjob
  | checking ready checks => cases hjob
  | settling ready jobs => exact List.mem_flatMap.mpr ⟨job, hjob, ho⟩

end Hand

/-! ### The chain -/

section Invariant

variable {cfg : Config} {w w' : World cfg.WETH} {h : Bytes32} {p : Pending} {tx : TxHash}

/-- A settlement that the batcher sent under the hash was mined and has an order with
this key. -/
def FilledBy (w : World cfg.WETH) (tx : TxHash) (h : Bytes32) : Prop :=
  (tx, true) ∈ w.mined ∧ ∃ s, (tx, s) ∈ w.sent ∧ h ∈ s.orders.map cfg.hash

def Filled (w : World cfg.WETH) (h : Bytes32) : Prop := ∃ tx, FilledBy w tx h

/-- What holds in every run. -/
structure Sound (w : World cfg.WETH) : Prop where
  keys : ∀ h p, w.orders.lookup h = some p → cfg.hash p.order = h
  /-- Orders in hand are in hand once, -/
  apart : (w.tick.orders.map cfg.hash).Nodup
  /-- and their entries are there. -/
  inHand : ∀ o ∈ w.tick.orders, ∃ p, w.orders.lookup (cfg.hash o) = some p ∧
    p.status.lost = false
  sentOnce : ∀ s ∈ w.sent, ∀ s' ∈ w.sent, s.1 = s'.1 → s.2.orders = s'.2.orders
  minedOnce : (w.mined.map Prod.fst).Nodup
  minedSent : ∀ r ∈ w.mined, r.1 ∈ w.sent.map Prod.fst
  handed : ∀ job ∈ w.tick.jobs, ∀ tx, job.tx = some tx →
    ∃ s, (tx, s) ∈ w.sent ∧ s.orders = job.orders
  reported : ∀ h p tx buy alone netted, w.orders.lookup h = some p →
    p.status = .filled tx buy alone netted → FilledBy w tx h

/-- How a step of one settlement changes the world. -/
structure JobStep (job job' : Job cfg.WETH) (w w' : World cfg.WETH) : Prop where
  moves : Moves job job' w.tick w'.tick
  fewer : job'.orders.Sublist job.orders
  changes : Changes (job.orders.map cfg.hash) w.orders w'.orders
  left : ∀ o ∈ job'.orders, ∀ p p', w.orders.lookup (cfg.hash o) = some p →
    w'.orders.lookup (cfg.hash o) = some p' → p.status.lost = false → p'.status.lost = false
  mined : w'.mined = w.mined
  sent : ∀ s ∈ w.sent, s ∈ w'.sent
  new : ∀ s ∈ w'.sent, s ∈ w.sent ∨ job'.tx = some s.1 ∧ s.2.orders = job'.orders ∧
    ∀ s' ∈ w.sent, s'.1 = s.1 → s'.2.orders = job'.orders
  tx : ∀ tx, job'.tx = some tx → ∃ s, (tx, s) ∈ w'.sent ∧ s.orders = job'.orders
  reported : ∀ h p p' tx buy alone netted, w.orders.lookup h = some p →
    w'.orders.lookup h = some p' → p'.status = .filled tx buy alone netted →
      p.status = .filled tx buy alone netted ∨ FilledBy w tx h

/-! ### A settlement's step -/

section Jobs

variable {job job' : Job cfg.WETH}

/-- Nothing is filled by sending. -/
theorem JobStep.filledBy (hs : Sound w) (hjob : JobStep job job' w w') :
    FilledBy w' tx h ↔ FilledBy w tx h := by
  constructor
  · intro ⟨hmined, s, hsent, hin⟩
    rw [hjob.mined] at hmined
    rcases hjob.new _ hsent with hold | ⟨-, horders, hsame⟩
    · exact ⟨hmined, s, hold, hin⟩
    · -- it was sent before, for the same orders
      obtain ⟨s', hs', heq⟩ := List.mem_map.mp (hs.minedSent _ hmined)
      have heq : s'.1 = tx := heq
      refine ⟨hmined, s'.2, heq ▸ hs', ?_⟩
      rw [hsame s' hs' heq, ← horders]
      exact hin
  · intro ⟨hmined, s, hsent, hin⟩
    exact ⟨hjob.mined ▸ hmined, s, hjob.sent _ hsent, hin⟩

/-- An order of another settlement is no order of this one. -/
theorem apart_job {before after : List (Job cfg.WETH)}
    (hapart : (((before ++ job :: after).flatMap Job.orders).map cfg.hash).Nodup) {o : Order}
    (ho : o ∈ before.flatMap Job.orders ∨ o ∈ after.flatMap Job.orders) :
    cfg.hash o ∉ job.orders.map cfg.hash := by
  rw [List.flatMap_append, List.flatMap_cons, List.map_append, List.map_append] at hapart
  obtain ⟨-, hright, hbefore⟩ := List.nodup_append'.mp hapart
  obtain ⟨-, -, hafter⟩ := List.nodup_append'.mp hright
  intro hin
  rcases ho with ho | ho
  · exact hbefore (List.mem_map_of_mem ho) (List.mem_append_left _ hin)
  · exact hafter hin (List.mem_map_of_mem ho)

theorem Sound.jobStep (hs : Sound w) (hjob : JobStep job job' w w') : Sound w' := by
  obtain ⟨ready, before, after, htick, htick'⟩ := hjob.moves
  have hjobs : w.tick.orders = (before ++ job :: after).flatMap Job.orders := by rw [htick]; rfl
  have hjobs' : w'.tick.orders = (before ++ job' :: after).flatMap Job.orders := by
    rw [htick']; rfl
  have hfewer : w'.tick.orders.Sublist w.tick.orders := by
    rw [hjobs, hjobs', List.flatMap_append, List.flatMap_append, List.flatMap_cons,
      List.flatMap_cons]
    exact (hjob.fewer.append_right _).append_left _
  refine ⟨fun h p' hp' => ?_, hs.apart.sublist (hfewer.map _), fun o ho => ?_, ?_, ?_, ?_,
    fun job₁ hjob₁ tx htx => ?_, fun h p' tx buy alone netted hp' hstatus => ?_⟩
  · obtain ⟨f, hf, hlookup⟩ := hjob.changes.entries h
    rw [hlookup] at hp'
    obtain ⟨p, hp, rfl⟩ := Option.map_eq_some_iff.mp hp'
    rw [hf]
    exact hs.keys h p hp
  · obtain ⟨p, hp, hopen⟩ := hs.inHand o (hfewer.subset ho)
    rw [hjobs', List.flatMap_append, List.flatMap_cons] at ho
    have hcase : o ∈ job'.orders ∨ o ∈ before.flatMap Job.orders ∨
        o ∈ after.flatMap Job.orders := by
      simp only [List.mem_append] at ho
      tauto
    rcases hcase with hmine | hother
    · obtain ⟨f, -, hlookup⟩ := hjob.changes.entries (cfg.hash o)
      rw [hp] at hlookup
      exact ⟨_, hlookup, hjob.left o hmine p _ hp hlookup hopen⟩
    · have hout := apart_job (hjobs ▸ hs.apart) hother
      exact ⟨p, (hjob.changes.other _ hout).trans hp, hopen⟩
  · intro s₁ h₁ s₂ h₂ heq
    rcases hjob.new s₁ h₁ with hold₁ | ⟨-, horders₁, hsame₁⟩
    · rcases hjob.new s₂ h₂ with hold₂ | ⟨-, horders₂, hsame₂⟩
      · exact hs.sentOnce s₁ hold₁ s₂ hold₂ heq
      · exact (hsame₂ s₁ hold₁ heq).trans horders₂.symm
    · rcases hjob.new s₂ h₂ with hold₂ | ⟨-, horders₂, -⟩
      · exact horders₁.trans (hsame₁ s₂ hold₂ heq.symm).symm
      · exact horders₁.trans horders₂.symm
  · rw [hjob.mined]
    exact hs.minedOnce
  · intro r hr
    rw [hjob.mined] at hr
    obtain ⟨s, hsent, heq⟩ := List.mem_map.mp (hs.minedSent r hr)
    exact List.mem_map.mpr ⟨s, hjob.sent s hsent, heq⟩
  · rw [htick'] at hjob₁
    rcases List.mem_append.mp hjob₁ with hin | hin
    · obtain ⟨s, hsent, horders⟩ := hs.handed job₁ (by
        rw [htick]
        exact List.mem_append_left _ hin) tx htx
      exact ⟨s, hjob.sent _ hsent, horders⟩
    · rcases List.mem_cons.mp hin with rfl | hin
      · exact hjob.tx tx htx
      · obtain ⟨s, hsent, horders⟩ := hs.handed job₁ (by
          rw [htick]
          exact List.mem_append_right _ (List.mem_cons_of_mem _ hin)) tx htx
        exact ⟨s, hjob.sent _ hsent, horders⟩
  · obtain ⟨f, -, hlookup⟩ := hjob.changes.entries h
    have hp'' := hp'
    rw [hlookup] at hp''
    obtain ⟨p, hp, -⟩ := Option.map_eq_some_iff.mp hp''
    refine (hjob.filledBy hs).mpr ?_
    rcases hjob.reported h p p' tx buy alone netted hp hp' hstatus with hold | hfilled
    · exact hs.reported h p tx buy alone netted hp hold
    · exact hfilled

end Jobs

section Answers

variable {j : Nat} {batch : PairBatch cfg.WETH} {solved : Solved cfg.WETH}
  {signatures : List Bytes} {job : Job cfg.WETH}

/-- A settlement ends, with changes that fill nothing but what was filled. -/
theorem jobStep_ended (hj : w.tick.jobs[j]? = some job) (htick : w'.tick = w.tick.setJob j .ended)
    (hchanges : Changes (job.orders.map cfg.hash) w.orders w'.orders)
    (hmined : w'.mined = w.mined) (hsent : w'.sent = w.sent)
    (hreported : ∀ h p' tx buy alone netted, w'.orders.lookup h = some p' →
      p'.status = .filled tx buy alone netted →
        (∃ p, w.orders.lookup h = some p ∧ p.status = .filled tx buy alone netted) ∨
          FilledBy w tx h) :
    JobStep job .ended w w' where
  moves := htick ▸ moves_setJob .ended hj
  fewer := List.nil_sublist _
  changes := hchanges
  left := fun o ho => absurd ho List.not_mem_nil
  mined := hmined
  sent := fun s hs => hsent ▸ hs
  new := fun s hs => Or.inl (hsent ▸ hs)
  tx := fun tx htx => by cases htx
  reported := by
    intro h p p' tx buy alone netted hp hp' hstatus
    refine (hreported h p' tx buy alone netted hp' hstatus).imp_left fun ⟨q, hq, hsame⟩ => ?_
    rw [hp] at hq
    cases hq
    exact hsame

/-- An attempt that failed. -/
theorem jobStep_fail {f : Order → Pending → Pending} (hj : w.tick.jobs[j]? = some job)
    (horder : ∀ o p, (f o p).order = p.order)
    (hf : ∀ o p tx buy alone netted, (f o p).status = .filled tx buy alone netted →
      p.status = .filled tx buy alone netted) :
    JobStep job .ended w (fail cfg w j f job.orders) := by
  refine jobStep_ended hj rfl
    (changes_onEach (fun o ho => List.mem_map_of_mem ho) horder w.orders) rfl rfl ?_
  intro h p' tx buy alone netted hp' hstatus
  exact Or.inl (lookup_onEach_status (Q := fun q => q = .filled tx buy alone netted)
    (fun o _ p hq => hf o p tx buy alone netted hq) hp' hstatus)

theorem status_countAttempt {limit : Nat} {reason : Reason} {p : Pending} {buy : Int}
    {alone : Option Int} {netted : Bool}
    (h : (countAttempt limit reason p).status = .filled tx buy alone netted) :
    p.status = .filled tx buy alone netted := by
  unfold countAttempt at h
  simp only at h
  split at h
  · cases h
  · exact h

theorem tryAgain_order (e : SolveError) (p : Pending) : (tryAgain e p).order = p.order := by
  unfold tryAgain
  split
  · rfl
  · rfl

theorem status_tryAgain {e : SolveError} {p : Pending} {buy : Int} {alone : Option Int}
    {netted : Bool} (h : (tryAgain e p).status = .filled tx buy alone netted) :
    p.status = .filled tx buy alone netted := by
  unfold tryAgain at h
  split at h
  · exact status_countAttempt h
  · exact h

theorem status_putBack {reason : Reason} {p : Pending} {buy : Int} {alone : Option Int}
    {netted : Bool} : (putBack reason p).status ≠ .filled tx buy alone netted := by
  unfold putBack
  simp only
  split
  · exact fun h => by cases h
  · exact fun h => by cases h

theorem changes_reject (node : PairBatch cfg.WETH → Market) {dropped : List Dropped}
    (hdropped : ∀ d ∈ dropped, d.order ∈ allOrders batch) :
    Changes ((allOrders batch).map cfg.hash) w.orders (reject cfg w node batch dropped).orders :=
  changes_onEach (f := fun d => setStatus (.rejected (.dropped d.reason)))
    (fun d hd => List.mem_map_of_mem (hdropped d hd)) (fun _ _ => rfl) w.orders

theorem status_reject (node : PairBatch cfg.WETH → Market) (batch : PairBatch cfg.WETH)
    {dropped : List Dropped} {p' : Pending} {buy : Int} {alone : Option Int} {netted : Bool}
    (hp' : (reject cfg w node batch dropped).orders.lookup h = some p')
    (hstatus : p'.status = .filled tx buy alone netted) :
    ∃ p, w.orders.lookup h = some p ∧ p.status = .filled tx buy alone netted :=
  lookup_onEach_status (Q := fun q => q = .filled tx buy alone netted)
    (fun _ _ _ hq => by cases hq) hp' hstatus

theorem jobStep_solve (hs : Sound w) (hj : w.tick.jobs[j]? = some (.solving batch))
    (node : PairBatch cfg.WETH → Market) :
    ∃ job', JobStep (.solving batch) job' w (onSolve cfg w j batch node) := by
  unfold onSolve
  cases hsolve : Solver.solve (node batch) batch with
  | threw =>
      exact ⟨.ended, jobStep_ended hj rfl (Changes.refl _ _) rfl rfl
        fun h p' tx buy alone netted hp' hstatus => Or.inl ⟨p', hp', hstatus⟩⟩
  | error e dropped =>
      have hdropped := changes_reject (w := w) node (solve_error_parts hsolve)
      refine ⟨.ended, jobStep_ended hj rfl (hdropped.trans (changes_onEach
        (fun o ho => List.mem_map_of_mem ho) (fun _ => tryAgain_order e) _)) rfl rfl ?_⟩
      intro h p' tx buy alone netted hp' hstatus
      obtain ⟨q, hq, hq'⟩ := lookup_onEach_status (Q := fun q => q = .filled tx buy alone netted)
        (fun _ _ _ hq => status_tryAgain hq) hp' hstatus
      exact Or.inl (status_reject node batch hq hq')
  | done p =>
      have hparts := solve_done_parts hsolve
      have hdropped := changes_reject (w := w) node fun d hd => (hparts.dropped d hd).1
      simp only
      cases hsignatures : (allOrders p.1.batch).mapM (fun o =>
        ((reject cfg w node batch p.1.dropped).orders.lookup (cfg.hash o)).map
          Pending.signature) with
      | none =>
          refine ⟨.ended, jobStep_ended hj rfl hdropped rfl rfl ?_⟩
          intro h p' tx buy alone netted hp' hstatus
          exact Or.inl (status_reject node batch hp' hstatus)
      | some signatures =>
          refine ⟨.dryRunning p.1 signatures, moves_setJob _ hj, hparts.kept, hdropped,
            fun o ho q q' hq hq' hopen => ?_, rfl, fun s hs => hs, fun s hs => Or.inl hs,
            fun tx htx => (by cases htx), fun h q q' tx buy alone netted hq hq' hstatus => ?_⟩
          · -- what is left was not dropped
            have hout : cfg.hash o ∉ p.1.dropped.map fun d => cfg.hash d.order := by
              intro hin
              obtain ⟨d, hd, heq⟩ := List.mem_map.mp hin
              obtain ⟨hin', hout'⟩ := hparts.dropped d hd
              have hmem : Job.solving batch ∈ w.tick.jobs := List.mem_of_getElem? hj
              have hsame := List.inj_on_of_nodup_map hs.apart (mem_tick_orders hmem hin')
                (mem_tick_orders hmem (hparts.kept.subset ho)) heq
              exact hout' (hsame ▸ ho)
            have hlookup : (reject cfg w node batch p.1.dropped).orders.lookup (cfg.hash o) =
                w.orders.lookup (cfg.hash o) := lookup_onEach_other hout
            have hsame : q' = q := by
              have hq'' := hq'.symm.trans (hlookup.trans hq)
              exact Option.some.inj hq''
            rw [hsame]
            exact hopen
          · obtain ⟨q₁, hq₁, hstatus₁⟩ := status_reject node batch hq' hstatus
            rw [hq] at hq₁
            cases hq₁
            exact Or.inl hstatus₁

theorem jobStep_dryRun (hj : w.tick.jobs[j]? = some (.dryRunning solved signatures))
    {txHash : TxHash} (hsame : ∀ s ∈ w.sent, s.1 = txHash → s.2.orders = allOrders solved.batch)
    (answer : Except String Nat) :
    ∃ job', JobStep (.dryRunning solved signatures) job' w
      (onDryRun cfg w j solved signatures txHash answer) := by
  cases answer with
  | error error =>
      exact ⟨.ended, jobStep_fail hj (fun _ _ => rfl) fun _ _ _ _ _ _ => status_countAttempt⟩
  | ok gas =>
      refine ⟨.sending solved txHash, moves_setJob _ hj, List.Sublist.refl _, Changes.refl _ _,
        fun o _ q q' hq hq' hopen => ?_, rfl, fun s hs => List.mem_append_left _ hs,
        fun s hs => ?_, fun tx htx => ?_, fun h q q' tx buy alone netted hq hq' hstatus => ?_⟩
      · have hsame' : q' = q := Option.some.inj (hq'.symm.trans hq)
        rw [hsame']
        exact hopen
      · refine (List.mem_append.mp hs).imp_right fun hnew => ?_
        rw [List.mem_singleton.mp hnew]
        exact ⟨rfl, rfl, hsame⟩
      · cases htx
        exact ⟨_, List.mem_append_right _ List.mem_cons_self, rfl⟩
      · have hsame' : q' = q := Option.some.inj (hq'.symm.trans hq)
        rw [hsame'] at hstatus
        exact Or.inl hstatus

theorem jobStep_refused {txHash : TxHash} (hj : w.tick.jobs[j]? = some (.sending solved txHash))
    (ms : Nat) (msg : String) :
    JobStep (.sending solved txHash) .ended w (onSend cfg w j solved txHash ms (.error msg)) := by
  have hfail := jobStep_fail (f := fun _ => countAttempt (MAX_ATTEMPTS * 2) (.couldNotSubmit msg))
    hj (fun _ _ => rfl) fun _ _ _ _ _ _ => status_countAttempt
  exact ⟨hfail.moves, hfail.fewer, hfail.changes, hfail.left, hfail.mined, hfail.sent, hfail.new,
    hfail.tx, hfail.reported⟩

theorem jobStep_sent (hs : Sound w) {txHash : TxHash}
    (hj : w.tick.jobs[j]? = some (.sending solved txHash)) (ms : Nat) :
    JobStep (.sending solved txHash) (.waiting solved txHash) w
      (onSend cfg w j solved txHash ms (.ok ())) := by
  refine ⟨moves_setJob _ hj, List.Sublist.refl _,
    changes_onEach (f := fun _ => setStatus (.settling txHash))
      (fun o ho => List.mem_map_of_mem ho) (fun _ _ => rfl) w.orders,
    fun o ho q q' _ hq' _ => ?_, rfl, fun s hs => hs, fun s hs => Or.inl hs, fun tx htx => ?_,
    fun h q q' tx buy alone netted hq hq' hstatus => ?_⟩
  · obtain ⟨q₀, -, rfl⟩ := lookup_onEach_some hq'
    exact entry_sets (Q := fun q => q.status.lost = false) (fun _ _ _ => rfl)
      (List.mem_map_of_mem ho) q₀
  · cases htx
    exact hs.handed _ (List.mem_of_getElem? hj) txHash rfl
  · obtain ⟨q₁, hq₁, hstatus₁⟩ := lookup_onEach_status
      (Q := fun q => q = .filled tx buy alone netted) (fun _ _ _ hq => by cases hq) hq' hstatus
    rw [hq] at hq₁
    cases hq₁
    exact Or.inl hstatus₁

theorem jobStep_receipt (hs : Sound w) {txHash : TxHash}
    (hj : w.tick.jobs[j]? = some (.waiting solved txHash)) {answer : Option Bool}
    (hanswer : ∀ status ∈ answer, (txHash, status) ∈ w.mined) :
    JobStep (.waiting solved txHash) .ended w (onReceipt cfg w j solved txHash answer) := by
  rcases answer with _ | _ | _
  · exact jobStep_fail hj (fun _ _ => rfl) fun _ _ _ _ _ _ h => absurd h status_putBack
  · exact jobStep_fail hj (fun _ _ => rfl) fun _ _ _ _ _ _ h => absurd h status_putBack
  · refine jobStep_ended hj rfl
      (changes_onEach (f := fun o => setStatus (filledStatus solved txHash o))
        (fun o ho => List.mem_map_of_mem ho) (fun _ _ => rfl) w.orders) rfl rfl ?_
    intro h p' tx buy alone netted hp' hstatus
    obtain ⟨s, hsent, horders⟩ := hs.handed _ (List.mem_of_getElem? hj) txHash rfl
    obtain ⟨p, hp, rfl⟩ := lookup_onEach_some hp'
    by_cases hin : h ∈ (allOrders solved.batch).map cfg.hash
    · have htx := entry_sets (Q := fun q => ∀ tx buy alone netted,
        q.status = .filled tx buy alone netted → tx = txHash)
        (f := fun o => setStatus (filledStatus solved txHash o)) (k := cfg.hash) (fun o _ q => by
          intro tx buy alone netted hfilled
          cases hfilled
          rfl) hin p
      rw [htx tx buy alone netted hstatus]
      exact Or.inr ⟨hanswer true rfl, s, hsent, horders ▸ hin⟩
    · rw [entry_other hin] at hstatus
      exact Or.inl ⟨p, hp, hstatus⟩

end Answers

/-! ### A window opens -/

section Windows

variable {ready checks : List Pending}

theorem mem_values : p ∈ values cfg w ↔ ∃ h, w.orders.lookup h = some p := by
  simp only [values, List.mem_map, List.mem_reverse]
  constructor
  · rintro ⟨e, he, rfl⟩
    exact ⟨e.1, Table.mem_entries.mp he⟩
  · rintro ⟨h, hp⟩
    exact ⟨⟨h, p⟩, Table.mem_entries.mpr hp, rfl⟩

theorem values_nodup (hkeys : ∀ h p, w.orders.lookup h = some p → cfg.hash p.order = h) :
    ((values cfg w).map fun p => cfg.hash p.order).Nodup := by
  have hmap : (values cfg w).map (fun p => cfg.hash p.order) =
      (w.orders.entries.map Sigma.fst).reverse := by
    rw [values, ← List.map_reverse, List.map_map]
    refine List.map_congr_left fun e he => ?_
    exact hkeys e.1 e.2 (Table.mem_entries.mp (List.mem_reverse.mp he))
  rw [hmap, List.nodup_reverse]
  exact w.orders.nodupKeys

/-- The table stays, and what is in hand is other orders, not yet sent. -/
theorem Sound.take (hs : Sound w) (horders : w'.orders = w.orders) (hsent : w'.sent = w.sent)
    (hmined : w'.mined = w.mined) (hapart : (w'.tick.orders.map cfg.hash).Nodup)
    (hin : ∀ o ∈ w'.tick.orders, ∃ p, w.orders.lookup (cfg.hash o) = some p ∧
      p.status.lost = false)
    (htx : ∀ job ∈ w'.tick.jobs, job.tx = none) : Sound w' := by
  refine ⟨horders ▸ hs.keys, hapart, horders ▸ hin, hsent ▸ hs.sentOnce, hmined ▸ hs.minedOnce,
    ?_, fun job hjob tx htx' => ?_, fun h p tx buy alone netted hp hstatus => ?_⟩
  · rw [hmined, hsent]
    exact hs.minedSent
  · rw [htx job hjob] at htx'
    cases htx'
  · rw [horders] at hp
    obtain ⟨hm, s, hs', hin'⟩ := hs.reported h p tx buy alone netted hp hstatus
    exact ⟨hmined ▸ hm, s, hsent ▸ hs', hin'⟩

theorem settling_orders (cfg : Config) (ready : List Pending) :
    ((Tick.settling ready ((groupByPair cfg.WETH (ready.map Pending.order)).map
      Job.solving)).orders).Perm (ready.map Pending.order) := by
  rw [Tick.orders, List.flatMap_map]
  exact groupByPair_perm (ready.map Pending.order)

/-- What the window has in hand next: the orders it is given, or none. -/
theorem afterChecks_cases (ready checks : List Pending) (ms : Nat) :
    (afterChecks cfg w ready checks ms).orders = w.orders ∧
    (afterChecks cfg w ready checks ms).sent = w.sent ∧
    (afterChecks cfg w ready checks ms).mined = w.mined ∧
    ((afterChecks cfg w ready checks ms).tick = .idle ∨
      (afterChecks cfg w ready checks ms).tick = .checking ready checks ∨
      checks = [] ∧ (afterChecks cfg w ready checks ms).tick = .settling ready
        ((groupByPair cfg.WETH (ready.map Pending.order)).map Job.solving)) := by
  unfold afterChecks
  split
  next hnone =>
    unfold settleReady
    split
    · exact ⟨rfl, rfl, rfl, Or.inl rfl⟩
    · exact ⟨rfl, rfl, rfl, Or.inr (Or.inr ⟨hnone, rfl⟩)⟩
  next => exact ⟨rfl, rfl, rfl, Or.inr (Or.inl rfl)⟩

theorem Sound.afterChecks (hs : Sound w) {ms : Nat}
    (hapart : (((ready ++ checks).map Pending.order).map cfg.hash).Nodup)
    (hin : ∀ o ∈ (ready ++ checks).map Pending.order, ∃ p,
      w.orders.lookup (cfg.hash o) = some p ∧ p.status.lost = false) :
    Sound (afterChecks cfg w ready checks ms) := by
  obtain ⟨horders, hsent, hmined, htick⟩ := afterChecks_cases (w := w) ready checks ms
  rcases htick with htick | htick | ⟨rfl, htick⟩
  · refine hs.take horders hsent hmined ?_ ?_ ?_
    · rw [htick]
      exact List.nodup_nil
    · rw [htick]
      exact fun o ho => absurd ho List.not_mem_nil
    · rw [htick]
      exact fun job hjob => absurd hjob List.not_mem_nil
  · refine hs.take horders hsent hmined ?_ ?_ ?_
    · rw [htick]
      exact hapart
    · rw [htick]
      exact hin
    · rw [htick]
      exact fun job hjob => absurd hjob List.not_mem_nil
  · rw [List.append_nil] at hapart hin
    have hperm := settling_orders cfg ready
    refine hs.take horders hsent hmined ?_ ?_ ?_
    · rw [htick]
      exact (hperm.map cfg.hash).nodup_iff.mpr hapart
    · rw [htick]
      exact fun o ho => hin o (hperm.subset ho)
    · rw [htick]
      intro job hjob
      obtain ⟨batch, -, rfl⟩ := List.mem_map.mp hjob
      rfl

/-- A table whose entries changed, and nothing else. -/
theorem Sound.change (hs : Sound w) {t : Table Bytes32 Pending}
    (hentries : ∀ h p', t.lookup h = some p' → ∃ p, w.orders.lookup h = some p ∧
      p'.order = p.order ∧ ∀ tx buy alone netted, p'.status = .filled tx buy alone netted →
        p.status = .filled tx buy alone netted)
    (hleft : ∀ o ∈ w.tick.orders, ∃ p, t.lookup (cfg.hash o) = some p ∧ p.status.lost = false) :
    Sound { w with orders := t } := by
  refine ⟨fun h p' hp' => ?_, hs.apart, hleft, hs.sentOnce, hs.minedOnce, hs.minedSent, hs.handed,
    fun h p' tx buy alone netted hp' hstatus => ?_⟩
  · obtain ⟨p, hp, horder, -⟩ := hentries h p' hp'
    rw [horder]
    exact hs.keys h p hp
  · obtain ⟨p, hp, -, hsame⟩ := hentries h p' hp'
    exact hs.reported h p tx buy alone netted hp (hsame tx buy alone netted hstatus)

theorem expire_cases (now : Nat) (p : Pending) :
    expire now p = p ∨
      (p.status = .pending ∨ p.status = .awaitingDeposit) ∧
        expire now p = { p with status := .expired } := by
  unfold expire
  split
  next h => exact Or.inr ⟨h.1, rfl⟩
  next => exact Or.inl rfl

theorem Sound.expire (hs : Sound w) (hidle : w.tick = .idle) (now : Nat) :
    Sound { w with orders := w.orders.mapValues fun _ => expire now } := by
  refine hs.change (fun h p' hp' => ?_) fun o ho => ?_
  · rw [Table.lookup_mapValues] at hp'
    obtain ⟨p, hp, rfl⟩ := Option.map_eq_some_iff.mp hp'
    refine ⟨p, hp, ?_⟩
    rcases expire_cases now p with heq | ⟨-, heq⟩
    · rw [heq]
      exact ⟨rfl, fun _ _ _ _ hstatus => hstatus⟩
    · rw [heq]
      exact ⟨rfl, fun _ _ _ _ hstatus => by cases hstatus⟩
  · rw [hidle] at ho
    cases ho

/-- The two lists of a window: entries that are pending, and entries that wait for their
deposit. -/
theorem window_hand (hs : Sound w) (p : Pending → Bool) :
    (((((values cfg w).filter p).filter (·.status = .pending) ++
        ((values cfg w).filter p).filter (·.status = .awaitingDeposit)).map
          Pending.order).map cfg.hash).Nodup ∧
    ∀ o ∈ (((values cfg w).filter p).filter (·.status = .pending) ++
        ((values cfg w).filter p).filter (·.status = .awaitingDeposit)).map Pending.order,
      ∃ q, w.orders.lookup (cfg.hash o) = some q ∧ q.status.lost = false ∧
        q.status.isFilled = false := by
  have hfound : ∀ q ∈ values cfg w, w.orders.lookup (cfg.hash q.order) = some q := by
    intro q hq
    obtain ⟨h, hlookup⟩ := mem_values.mp hq
    rw [hs.keys h q hlookup]
    exact hlookup
  have hnodup := values_nodup hs.keys
  have hkeys : ∀ l : List Pending, (l.map Pending.order).map cfg.hash =
      l.map fun q => cfg.hash q.order := fun l => List.map_map
  constructor
  · rw [hkeys, List.map_append]
    have hsub : ∀ q : Pending → Bool, ((((values cfg w).filter p).filter q).map
        fun q => cfg.hash q.order).Nodup := by
      intro q
      exact hnodup.sublist ((List.filter_sublist.trans List.filter_sublist).map _)
    refine List.nodup_append'.mpr ⟨hsub _, hsub _, ?_⟩
    intro h hready hcheck
    obtain ⟨q, hq, rfl⟩ := List.mem_map.mp hready
    obtain ⟨q', hq', heq⟩ := List.mem_map.mp hcheck
    obtain ⟨hin, hpending⟩ := List.mem_filter.mp hq
    obtain ⟨hin', hawaiting⟩ := List.mem_filter.mp hq'
    have hsame := List.inj_on_of_nodup_map hnodup (List.mem_of_mem_filter hin')
      (List.mem_of_mem_filter hin) heq
    rw [hsame, of_decide_eq_true hpending] at hawaiting
    cases of_decide_eq_true hawaiting
  · intro o ho
    obtain ⟨q, hq, rfl⟩ := List.mem_map.mp ho
    rcases List.mem_append.mp hq with hq | hq
    · obtain ⟨hin, hstatus⟩ := List.mem_filter.mp hq
      refine ⟨q, hfound q (List.mem_of_mem_filter hin), ?_⟩
      rw [of_decide_eq_true hstatus]
      exact ⟨rfl, rfl⟩
    · obtain ⟨hin, hstatus⟩ := List.mem_filter.mp hq
      refine ⟨q, hfound q (List.mem_of_mem_filter hin), ?_⟩
      rw [of_decide_eq_true hstatus]
      exact ⟨rfl, rfl⟩

theorem Sound.window (hs : Sound w) (hidle : w.tick = .idle) (ms : Nat) :
    Sound (onWindow cfg w ms) := by
  have hs' := hs.expire hidle (ms / 1000)
  obtain ⟨hapart, hin⟩ := window_hand hs' _
  refine hs'.afterChecks hapart fun o ho => ?_
  obtain ⟨q, hq, hopen, -⟩ := hin o ho
  exact ⟨q, hq, hopen⟩

/-- An answer on a deposit: the order is ready, or left out. -/
theorem escrow_hand (ready : List Pending) {i : Nat} (hi : checks[i]? = some p) :
    ((ready ++ checks).map Pending.order).Perm
        ((ready ++ [setStatus .pending p] ++ checks.eraseIdx i).map Pending.order) ∧
      ((ready ++ checks.eraseIdx i).map Pending.order).Sublist
        ((ready ++ checks).map Pending.order) := by
  obtain ⟨hlt, hget⟩ := List.getElem?_eq_some_iff.mp hi
  constructor
  · have hperm := (List.getElem_cons_eraseIdx_perm hlt).symm
    rw [hget] at hperm
    rw [List.append_assoc, List.map_append, List.map_append]
    exact (hperm.map Pending.order).append_left _
  · exact ((List.eraseIdx_sublist checks i).append_left ready).map _

theorem Sound.escrow (hs : Sound w) (htick : w.tick = .checking ready checks) {i : Nat}
    (hi : checks[i]? = some p) (escrowed ms : Nat) :
    Sound (onEscrow cfg w ready checks i p escrowed ms) := by
  obtain ⟨hperm, hsub⟩ := escrow_hand ready hi
  have hapart := hs.apart
  have hinHand := hs.inHand
  rw [htick] at hapart hinHand
  unfold onEscrow
  split
  · have hs' : Sound { w with orders := makePending cfg p w.orders } := by
      refine hs.change (fun h p' hp' => ?_) fun o ho => ?_
      · obtain ⟨q, hq, rfl⟩ := lookup_onEach_some hp'
        refine ⟨q, hq, ?_⟩
        exact entry_keeps (Q := fun q' => q'.order = q.order ∧ ∀ tx buy alone netted,
            q'.status = .filled tx buy alone netted → q.status = .filled tx buy alone netted)
          (fun _ _ q' hq' => by
            split
            · exact ⟨hq'.1, fun _ _ _ _ hstatus => by cases hstatus⟩
            · exact hq') ⟨rfl, fun _ _ _ _ hstatus => hstatus⟩
      · obtain ⟨q, hq, hopen⟩ := hs.inHand o ho
        refine ⟨_, (lookup_onEach _ _).trans (congrArg _ hq), ?_⟩
        exact entry_keeps (Q := fun q' => q'.status.lost = false)
          (fun _ _ q' hq' => by
            split
            · rfl
            · exact hq') hopen
    refine hs'.afterChecks ((hperm.map cfg.hash).nodup_iff.mp hapart) fun o ho => ?_
    exact hs'.inHand o (htick ▸ hperm.symm.subset ho)
  · refine hs.afterChecks (hapart.sublist (hsub.map _)) fun o ho => ?_
    exact hinHand o (hsub.subset ho)

end Windows

/-! ### Every step -/

theorem Sound.congr (hs : Sound w) (horders : w'.orders = w.orders) (htick : w'.tick = w.tick)
    (hsent : w'.sent = w.sent) (hmined : w'.mined = w.mined) : Sound w' := by
  cases w
  cases w'
  subst horders htick hsent hmined
  exact ⟨hs.keys, hs.apart, hs.inHand, hs.sentOnce, hs.minedOnce, hs.minedSent, hs.handed,
    hs.reported⟩

theorem checkAnswers_open {o : Order} {signature : Bytes} {a : Answers} {status : OrderStatus}
    (h : checkAnswers o signature a = .ok status) :
    status = .pending ∨ status = .awaitingDeposit := by
  unfold checkAnswers at h
  split at h
  · split at h
    · cases h; exact Or.inr rfl
    split at h
    · cases h
    · cases h; exact Or.inl rfl
  split at h
  · cases h
  split at h
  · cases h
  · unfold canPull at h
    split at h
    · cases h
    split at h
    · cases h
    · cases h; exact Or.inl rfl

theorem Sound.accept (hs : Sound w) (i : Nat) (intake : Intake) (answers : Answers) (ms : Nat) :
    Sound (onAccept cfg w i intake answers ms) := by
  unfold onAccept
  cases hadmit : checkAnswers intake.order intake.signature answers with
  | error e => exact hs.congr rfl rfl rfl rfl
  | ok status =>
      have hopen := checkAnswers_open hadmit
      refine ⟨fun h p hp => ?_, hs.apart, fun o ho => ?_, hs.sentOnce, hs.minedOnce,
        hs.minedSent, hs.handed, fun h p tx buy alone netted hp hstatus => ?_⟩
      · rcases Table.lookup_insert_iff.mp hp with ⟨rfl, rfl⟩ | ⟨-, hold⟩
        · rfl
        · exact hs.keys h p hold
      · by_cases heq : cfg.hash o = cfg.hash intake.order
        · refine ⟨_, Table.lookup_insert_iff.mpr (Or.inl ⟨heq, rfl⟩), ?_⟩
          rcases hopen with rfl | rfl
          · rfl
          · rfl
        · obtain ⟨p, hp, hopen'⟩ := hs.inHand o ho
          exact ⟨p, Table.lookup_insert_iff.mpr (Or.inr ⟨heq, hp⟩), hopen'⟩
      · rcases Table.lookup_insert_iff.mp hp with ⟨-, rfl⟩ | ⟨-, hold⟩
        · rcases hopen with rfl | rfl
          · cases hstatus
          · cases hstatus
        · exact hs.reported h p tx buy alone netted hold hstatus

theorem Sound.mine (hs : Sound w) {txHash : TxHash} (status : Bool) {settlement : Settlement}
    (hsent : (txHash, settlement) ∈ w.sent) (hnew : txHash ∉ w.mined.map Prod.fst) :
    Sound (onMine cfg w txHash status settlement) := by
  refine ⟨hs.keys, hs.apart, hs.inHand, hs.sentOnce, ?_, fun r hr => ?_, hs.handed,
    fun h p tx buy alone netted hp hstatus => ?_⟩
  · simp only [onMine, List.map_append, List.map_cons, List.map_nil]
    refine List.nodup_append'.mpr ⟨hs.minedOnce, List.nodup_singleton _, fun tx htx htx' => ?_⟩
    rw [List.mem_singleton.mp htx'] at htx
    exact hnew htx
  · rcases List.mem_append.mp hr with hr | hr
    · exact hs.minedSent r hr
    · rw [List.mem_singleton.mp hr]
      exact List.mem_map_of_mem hsent
  · obtain ⟨hmined, hrest⟩ := hs.reported h p tx buy alone netted hp hstatus
    exact ⟨List.mem_append_left _ hmined, hrest⟩

/-- Nothing is in hand, and entries have gone at most. -/
theorem Sound.idle (hs : Sound w) (hidle : w'.tick = .idle)
    (hsub : ∀ h p, w'.orders.lookup h = some p → w.orders.lookup h = some p)
    (hsent : w'.sent = w.sent) (hmined : w'.mined = w.mined) : Sound w' := by
  refine ⟨fun h p hp => hs.keys h p (hsub h p hp), ?_, fun o ho => ?_, hsent ▸ hs.sentOnce,
    hmined ▸ hs.minedOnce, ?_, fun job hjob => ?_, fun h p tx buy alone netted hp hstatus => ?_⟩
  · rw [hidle]
    exact List.nodup_nil
  · rw [hidle] at ho
    cases ho
  · rw [hmined, hsent]
    exact hs.minedSent
  · rw [hidle] at hjob
    cases hjob
  · obtain ⟨hm, s, hs', hin⟩ := hs.reported h p tx buy alone netted (hsub h p hp) hstatus
    exact ⟨hmined ▸ hm, s, hsent ▸ hs', hin⟩

theorem orders_of_ended {jobs : List (Job cfg.WETH)}
    (h : (jobs.all fun job => job matches .ended) = true) :
    ∀ job ∈ jobs, job.orders = [] := by
  intro job hjob
  have hended := List.all_eq_true.mp h job hjob
  cases job with
  | ended => rfl
  | solving | dryRunning | sending | waiting => cases hended

theorem jobStep_throw {job : Job cfg.WETH} {j : Nat} (hj : w.tick.jobs[j]? = some job) :
    JobStep job .ended w { w with tick := w.tick.setJob j .ended } :=
  jobStep_ended hj rfl (Changes.refl _ _) rfl rfl
    fun _ p' _ _ _ _ hp' hstatus => Or.inl ⟨p', hp', hstatus⟩

/-- What a step does, and when it can happen. -/
inductive Stepped (w : World cfg.WETH) : Event cfg.WETH → World cfg.WETH → Prop
  | post {o : Order} {signature : Bytes} {ms : Nat} :
      Stepped w (.post o signature ms) (onPost cfg w o signature ms)
  | nonceUsed {i : Nat} : Stepped w (.nonceAnswer i true) { w with intakes := w.intakes.eraseIdx i }
  | nonceUnused {i : Nat} {intake : Intake} : Stepped w (.nonceAnswer i false)
      { w with intakes := w.intakes.set i { intake with nonceChecked := true } }
  | accept {i : Nat} {intake : Intake} {answers : Answers} {ms : Nat}
      (hi : w.intakes[i]? = some intake) :
      Stepped w (.accept i answers ms) (onAccept cfg w i intake answers ms)
  | abort {i : Nat} : Stepped w (.abort i) { w with intakes := w.intakes.eraseIdx i }
  | window {ms : Nat} (hidle : w.tick = .idle) : Stepped w (.window ms) (onWindow cfg w ms)
  | escrowAnswer {i escrowed ms : Nat} {ready checks : List Pending} {p : Pending}
      (htick : w.tick = .checking ready checks) (hi : checks[i]? = some p) :
      Stepped w (.escrowAnswer i escrowed ms) (onEscrow cfg w ready checks i p escrowed ms)
  | solve {j : Nat} {node : PairBatch cfg.WETH → Market} {batch : PairBatch cfg.WETH}
      (hj : w.tick.jobs[j]? = some (.solving batch)) :
      Stepped w (.solve j node) (onSolve cfg w j batch node)
  | dryRun {j : Nat} {answer : Except String Nat} {txHash : TxHash} {solved : Solved cfg.WETH}
      {signatures : List Bytes} (hj : w.tick.jobs[j]? = some (.dryRunning solved signatures))
      (hsame : ∀ s ∈ w.sent, s.1 = txHash → s.2.orders = allOrders solved.batch) :
      Stepped w (.dryRun j answer txHash) (onDryRun cfg w j solved signatures txHash answer)
  | sendAnswer {j ms : Nat} {answer : Except String Unit} {txHash : TxHash}
      {solved : Solved cfg.WETH} (hj : w.tick.jobs[j]? = some (.sending solved txHash)) :
      Stepped w (.sendAnswer j answer ms) (onSend cfg w j solved txHash ms answer)
  | receipt {j : Nat} {answer : Option Bool} {txHash : TxHash} {solved : Solved cfg.WETH}
      (hj : w.tick.jobs[j]? = some (.waiting solved txHash))
      (hanswer : ∀ status ∈ answer, (txHash, status) ∈ w.mined) :
      Stepped w (.receipt j answer) (onReceipt cfg w j solved txHash answer)
  | throw {j : Nat} {job : Job cfg.WETH} (hj : w.tick.jobs[j]? = some job) :
      Stepped w (.throw j) { w with tick := w.tick.setJob j .ended }
  | close {ms : Nat} {ready : List Pending} {jobs : List (Job cfg.WETH)}
      (htick : w.tick = .settling ready jobs) (hended : ∀ job ∈ jobs, job.orders = []) :
      Stepped w (.close ms) { w with
        orders := w.orders.keep fun _ p => remembered ms p
        inFlight := release cfg (ready.map Pending.order) w.inFlight
        tick := .idle }
  | restart : Stepped w .restart
      { w with orders := ∅, inFlight := ∅, sendPausedUntil := 0, intakes := [], tick := .idle }
  | mine {txHash : TxHash} {status : Bool} {settlement : Settlement}
      (hsent : (txHash, settlement) ∈ w.sent) (hnew : txHash ∉ w.mined.map Prod.fst) :
      Stepped w (.mine txHash status) (onMine cfg w txHash status settlement)
  | useNonce {owner : Address} {nonce : Nat} : Stepped w (.useNonce owner nonce)
      { w with nonceUsed := w.nonceUsed ++ [(owner, nonce)] }

theorem stepped {e : Event cfg.WETH} (h : step cfg w e = some w') : Stepped w e w' := by
  cases e with
  | post o signature ms => cases h; exact .post
  | nonceAnswer i used =>
      simp only [step] at h
      split at h
      next =>
        split at h
        · cases h
        split at h
        next hused => cases h; rw [hused]; exact .nonceUsed
        next hunused => cases h; rw [Bool.eq_false_iff.mpr hunused]; exact .nonceUnused
      next => cases h
  | accept i answers ms =>
      simp only [step] at h
      split at h
      next intake hi =>
        split at h
        · cases h; exact .accept hi
        · cases h
      next => cases h
  | abort i => cases h; exact .abort
  | window ms =>
      simp only [step] at h
      split at h
      next hidle => cases h; exact .window hidle
      next => cases h
  | escrowAnswer i escrowed ms =>
      simp only [step] at h
      split at h
      next ready checks htick =>
        obtain ⟨p, hp, rfl⟩ := Option.map_eq_some_iff.mp h
        exact .escrowAnswer htick hp
      next => cases h
  | solve j node =>
      simp only [step] at h
      split at h
      next batch hj => cases h; exact .solve hj
      next => cases h
  | dryRun j answer txHash =>
      simp only [step] at h
      split at h
      next solved signatures hj =>
        split at h
        next hsame => cases h; exact .dryRun hj hsame
        next => cases h
      next => cases h
  | sendAnswer j answer ms =>
      simp only [step] at h
      split at h
      next solved txHash hj => cases h; exact .sendAnswer hj
      next => cases h
  | receipt j answer =>
      simp only [step] at h
      split at h
      next solved txHash hj =>
        split at h
        next hanswer => cases h; exact .receipt hj hanswer
        next => cases h
      next => cases h
  | throw j =>
      simp only [step] at h
      split at h
      next job hj => cases h; exact .throw hj
      next job hj => cases h; exact .throw hj
      next job hj => cases h; exact .throw hj
      next => cases h
  | close ms =>
      simp only [step] at h
      split at h
      next ready jobs htick =>
        split at h
        next hended => cases h; exact .close htick (orders_of_ended hended)
        next => cases h
      next => cases h
  | restart => cases h; exact .restart
  | mine txHash status =>
      simp only [step] at h
      split at h
      next tx settlement hfind =>
        have hfound := List.find?_some hfind
        have htx : tx = txHash := of_decide_eq_true hfound
        split at h
        · cases h
        next hnew =>
          split at h
          · cases h
          · cases h
            exact .mine (htx ▸ List.mem_of_find?_eq_some hfind) hnew
      next => cases h
  | useNonce owner nonce => cases h; exact .useNonce

/-- **One step.** -/
theorem Sound.step (hs : Sound w) {e : Event cfg.WETH} (h : step cfg w e = some w') :
    Sound w' := by
  cases stepped h with
  | post =>
      unfold onPost
      split
      · exact hs
      split
      · exact hs
      · exact hs.congr rfl rfl rfl rfl
  | nonceUsed => exact hs.congr rfl rfl rfl rfl
  | nonceUnused => exact hs.congr rfl rfl rfl rfl
  | accept hi => exact hs.accept _ _ _ _
  | abort => exact hs.congr rfl rfl rfl rfl
  | window hidle => exact hs.window hidle _
  | escrowAnswer htick hi => exact hs.escrow htick hi _ _
  | solve hj =>
      obtain ⟨job', hjob⟩ := jobStep_solve hs hj _
      exact hs.jobStep hjob
  | dryRun hj hsame =>
      obtain ⟨job', hjob⟩ := jobStep_dryRun hj hsame _
      exact hs.jobStep hjob
  | @sendAnswer j ms answer txHash solved hj =>
      cases answer with
      | error msg => exact hs.jobStep (jobStep_refused hj ms msg)
      | ok u => exact hs.jobStep (jobStep_sent hs hj ms)
  | receipt hj hanswer => exact hs.jobStep (jobStep_receipt hs hj hanswer)
  | throw hj => exact hs.jobStep (jobStep_throw hj)
  | close => exact hs.idle rfl (fun h p hp => (Table.lookup_keep.mp hp).1) rfl rfl
  | restart => exact hs.idle rfl (fun h p hp => absurd hp (by simp)) rfl rfl
  | mine hsent hnew => exact hs.mine _ hsent hnew
  | useNonce => exact hs.congr rfl rfl rfl rfl

theorem Sound.run (es : List (Event cfg.WETH)) : ∀ {w : World cfg.WETH}, Sound w →
    run cfg w es = some w' → Sound w' := by
  induction es with
  | nil =>
      intro w hs h
      cases h
      exact hs
  | cons e es ih =>
      intro w hs h
      obtain ⟨w₁, hstep, hrest⟩ := Option.bind_eq_some_iff.mp h
      exact ih (hs.step hstep) hrest

theorem sound_started : Sound (started cfg) :=
  ⟨fun h p hp => absurd hp (by simp [started]), List.nodup_nil,
    fun o ho => absurd ho List.not_mem_nil, fun s hs => absurd hs List.not_mem_nil,
    List.nodup_nil, fun r hr => absurd hr List.not_mem_nil,
    fun job hjob => absurd hjob List.not_mem_nil,
    fun h p tx buy alone netted hp => absurd hp (by simp [started])⟩

end Invariant

/-! ### Sales -/

namespace Sample

/-- Bytes hash to the last of them, so that an order's key is its `appData`. -/
def cfg : Config where
  P := { OrdoBatch.Sample.params with
    keccak := fun bytes => Fin.ofNat _ (bytes.getLastD 0).toNat }
  MAX_VALID_S := 600

/-- 800 of token 200 for as much of token 300. -/
def sale (owner : Address) (tag : Bytes32) : Order :=
  { owner, receiver := 0, sellToken := 200, buyToken := 300, sellAmount := 800,
    minBuyAmount := 800, validTo := 100, nonce := 1, appData := tag }

/-- One pool, at a price of one.  What account 6 sells cannot be pulled. -/
def node (batch : PairBatch cfg.WETH) : Market where
  feeBps := 10
  maxFeeBps := 30
  ab := some ⟨single [], sold batch.sellA, sold batch.sellA⟩
  ba := none
  simulate := fun _ q =>
    if q.orders.any (·.owner = 6) then .error "TransferFailed()"
    else .ok ⟨[⟨200, 0, 0⟩, ⟨300, sold q.orders, sold q.orders⟩], []⟩

/-- An order is posted, and its checks pass. -/
def posted (o : Order) : List (Event cfg.WETH) :=
  [.post o (List.replicate 65 1) 0, .nonceAnswer 0 false,
    .accept 0 ⟨0, some o.owner, false, 800, 800⟩ 0]

end Sample

end Batcher

end Ordo
