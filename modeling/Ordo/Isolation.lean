import Ordo.BatcherSteps

/-!
# Whose fault a failed attempt is

A settlement that fails says nothing about which of its orders is the cause, and the
batcher counts the attempt against all of them.  An order is rejected after three.

1.  Attempts that are counted, and rejections, come from settlements that failed
    (`Counted`).
2.  They come from settlements of the owner's own orders if no settlement of several
    owners fails as a whole, and what the search drops from one it would have dropped
    without the others (`failed_for_own_orders`).
3.  One order that cannot be pulled, three windows long, rejects an order of another owner
    that would have been filled alone (`rejected_for_another`).
-/

namespace Ordo

namespace Batcher

open OrdoBatch (Order)
open Solver

/-- The failure is the owner's own: in a batch of the owner's orders, or one that the
owner's orders alone would have met too. -/
def Failure.Own (f : Failure) : Prop := f.alone = false ∨ ∀ o ∈ f.batch, o.owner = f.order.owner

instance (f : Failure) : Decidable f.Own :=
  inferInstanceAs (Decidable (f.alone = false ∨ ∀ o ∈ f.batch, o.owner = f.order.owner))

/-- How many failures are held against the order with this key. -/
def held (cfg : Config) (failures : List Failure) (h : Bytes32) : Nat :=
  failures.countP fun f => cfg.hash f.order = h

def OrderStatus.isRejected : OrderStatus → Bool
  | .rejected _ => true
  | _ => false

section Counting

variable {cfg : Config} {w w' : World cfg.WETH} {h : Bytes32} {p : Pending}

theorem held_pos {failures : List Failure} :
    0 < held cfg failures h ↔ ∃ f ∈ failures, cfg.hash f.order = h := by
  rw [held, List.countP_pos_iff]
  simp

theorem held_append (fs gs : List Failure) :
    held cfg (fs ++ gs) h = held cfg fs h + held cfg gs h := List.countP_append

/-- Attempts and rejections come from failures. -/
def Counted (w : World cfg.WETH) : Prop :=
  ∀ h p, w.orders.lookup h = some p →
    p.attempts ≤ held cfg w.failures h ∧
      (p.status.isRejected = true → 0 < held cfg w.failures h)

/-- One attempt is counted at most, and one that is rejected had one counted. -/
structure Counts (p p' : Pending) (n : Nat) : Prop where
  attempts : p'.attempts ≤ p.attempts + n
  rejected : p'.status.isRejected = true → p.status.isRejected = true ∨ 0 < n

theorem Counts.refl (p : Pending) : Counts p p 0 := ⟨Nat.le_refl _, Or.inl⟩

theorem Counts.trans {p' p'' : Pending} {n m : Nat} (h : Counts p p' n) (h' : Counts p' p'' m) :
    Counts p p'' (n + m) := by
  refine ⟨h'.attempts.trans ?_, fun hrejected => ?_⟩
  · have := h.attempts
    omega
  · rcases h'.rejected hrejected with hrejected | hpos
    · exact (h.rejected hrejected).imp_right fun hpos => by omega
    · exact Or.inr (by omega)

/-- Entries are found again with what has been counted since. -/
theorem Counted.mono (hc : Counted w) (hentries : ∀ h p', w'.orders.lookup h = some p' →
    (∃ p n, w.orders.lookup h = some p ∧ Counts p p' n ∧
        held cfg w.failures h + n ≤ held cfg w'.failures h) ∨
      p'.attempts = 0 ∧ p'.status.isRejected = false) : Counted w' := by
  intro h p' hp'
  rcases hentries h p' hp' with ⟨p, n, hp, hcounts, hheld⟩ | ⟨hzero, hnot⟩
  · obtain ⟨hle, hrejected⟩ := hc h p hp
    refine ⟨?_, fun hnow => ?_⟩
    · have := hcounts.attempts
      omega
    · rcases hcounts.rejected hnow with hold | hpos
      · have := hrejected hold
        omega
      · omega
  · rw [hzero, hnot]
    exact ⟨Nat.zero_le _, fun hfalse => by cases hfalse⟩

theorem Counted.congr (hc : Counted w) (horders : w'.orders = w.orders)
    (hfailures : w'.failures = w.failures) : Counted w' := by
  intro h p hp
  rw [horders] at hp
  rw [hfailures]
  exact hc h p hp

/-- A change of some entries, each counted once for each time it is changed. -/
theorem counts_entry {α : Type} {key : α → Bytes32} {f : α → Pending → Pending} {xs : List α}
    (hf : ∀ x ∈ xs, ∀ p, Counts p (f x p) 1) (p : Pending) :
    Counts p (entry key f xs h p) (xs.countP fun x => key x = h) := by
  induction xs generalizing p with
  | nil => exact Counts.refl p
  | cons x xs ih =>
      have hrest := ih fun x' hx' => hf x' (List.mem_cons_of_mem x hx')
      rw [entry, List.foldl_cons]
      by_cases hkey : key x = h
      · rw [if_pos hkey.symm, List.countP_cons_of_pos (by simpa using hkey), Nat.add_comm]
        exact (hf x List.mem_cons_self p).trans (hrest _)
      · rw [if_neg fun heq => hkey heq.symm, List.countP_cons_of_neg (by simpa using hkey)]
        exact hrest p

/-- A change that counts nothing. -/
theorem counts_entry_zero {α : Type} {key : α → Bytes32} {f : α → Pending → Pending}
    {xs : List α} (hf : ∀ x ∈ xs, ∀ p, Counts p (f x p) 0) (p : Pending) :
    Counts p (entry key f xs h p) 0 :=
  entry_keeps (Q := fun q => Counts p q 0) (fun x hx q hq => hq.trans (hf x hx q)) (Counts.refl p)

theorem counts_setStatus {status : OrderStatus} (hstatus : status.isRejected = false)
    (p : Pending) : Counts p (setStatus status p) 0 := by
  refine ⟨Nat.le_refl _, fun hrejected => ?_⟩
  rw [setStatus, hstatus] at hrejected
  cases hrejected

theorem counts_one {p' : Pending} (h : p'.attempts ≤ p.attempts + 1) : Counts p p' 1 :=
  ⟨h, fun _ => Or.inr Nat.one_pos⟩

theorem counts_rejected (reason : Reason) (p : Pending) :
    Counts p (setStatus (.rejected reason) p) 1 := ⟨Nat.le_succ _, fun _ => Or.inr Nat.one_pos⟩

theorem counts_tryAgain (e : SolveError) (p : Pending) : Counts p (tryAgain e p) 1 := by
  unfold tryAgain
  split
  · exact counts_one (Nat.le_refl _)
  · exact counts_one (Nat.le_succ _)

/-- Orders and keys of the failures of one step. -/
theorem held_map {α : Type} (xs : List α) (g : α → Failure) :
    held cfg (xs.map g) h = xs.countP fun x => cfg.hash (g x).order = h := by
  rw [held, List.countP_map]
  rfl

theorem Counted.fail (hc : Counted w) (j : Nat) {f : Order → Pending → Pending} {os : List Order}
    (hf : ∀ o p, (f o p).attempts ≤ p.attempts + 1) : Counted (fail cfg w j f os) := by
  refine hc.mono fun h p' hp' => Or.inl ?_
  obtain ⟨p, hp, rfl⟩ := lookup_onEach_some hp'
  refine ⟨p, _, hp, counts_entry (fun o _ q => counts_one (hf o q)) p, ?_⟩
  rw [Batcher.fail, held_append, held_map]

theorem Counted.reject (hc : Counted w) (node : PairBatch cfg.WETH → Market)
    (batch : PairBatch cfg.WETH) (dropped : List Dropped) :
    Counted (reject cfg w node batch dropped) := by
  refine hc.mono fun h p' hp' => Or.inl ?_
  obtain ⟨p, hp, rfl⟩ := lookup_onEach_some hp'
  refine ⟨p, _, hp, counts_entry (fun d _ q => counts_rejected (.dropped d.reason) q) p, ?_⟩
  rw [Batcher.reject, held_append, held_map]
  rfl

theorem Counted.solve (hc : Counted w) (j : Nat) (batch : PairBatch cfg.WETH)
    (node : PairBatch cfg.WETH → Market) : Counted (onSolve cfg w j batch node) := by
  unfold onSolve
  split
  next => exact hc.congr rfl rfl
  next error dropped _ =>
    refine (hc.reject node batch dropped).mono fun h p' hp' => Or.inl ?_
    obtain ⟨p, hp, rfl⟩ := lookup_onEach_some hp'
    refine ⟨p, _, hp, counts_entry (fun o _ q => counts_tryAgain error q) p, ?_⟩
    rw [held_append, held_map]
    rfl
  next solved asked _ => exact (hc.reject node batch solved.dropped).congr rfl rfl

theorem Counted.receipt (hc : Counted w) (j : Nat) (solved : Solved cfg.WETH) (txHash : TxHash)
    (answer : Option Bool) : Counted (onReceipt cfg w j solved txHash answer) := by
  rcases answer with _ | _ | _
  · exact hc.fail j fun _ _ => Nat.le_refl _
  · exact hc.fail j fun _ _ => Nat.le_refl _
  · refine hc.mono fun h p' hp' => Or.inl ?_
    obtain ⟨p, hp, rfl⟩ := lookup_onEach_some hp'
    exact ⟨p, 0, hp, counts_entry_zero (fun _ _ => counts_setStatus rfl) p, Nat.le_refl _⟩

theorem Counted.send (hc : Counted w) (j : Nat) (solved : Solved cfg.WETH) (txHash : TxHash)
    (ms : Nat) (answer : Except String Unit) :
    Counted (onSend cfg w j solved txHash ms answer) := by
  cases answer with
  | error msg =>
      have hfail : Counted (Batcher.fail cfg w j
          (fun _ => countAttempt (MAX_ATTEMPTS * 2) (.couldNotSubmit msg))
            (allOrders solved.batch)) := hc.fail j fun _ _ => Nat.le_refl _
      exact hfail.congr rfl rfl
  | ok u =>
      refine hc.mono fun h p' hp' => Or.inl ?_
      obtain ⟨p, hp, rfl⟩ := lookup_onEach_some hp'
      exact ⟨p, 0, hp, counts_entry_zero (fun _ _ => counts_setStatus rfl) p, Nat.le_refl _⟩

theorem failures_afterChecks (ready checks : List Pending) (ms : Nat) :
    (afterChecks cfg w ready checks ms).failures = w.failures := by
  unfold afterChecks
  split
  · unfold settleReady
    split
    · rfl
    · rfl
  · rfl

theorem Counted.afterChecks (hc : Counted w) (ready checks : List Pending) (ms : Nat) :
    Counted (afterChecks cfg w ready checks ms) :=
  hc.congr (afterChecks_cases ready checks ms).1 (failures_afterChecks ready checks ms)

theorem Counted.window (hc : Counted w) (ms : Nat) : Counted (onWindow cfg w ms) := by
  have hc' : Counted { w with orders := w.orders.mapValues fun _ => expire (ms / 1000) } := by
    refine hc.mono fun h p' hp' => Or.inl ?_
    rw [Table.lookup_mapValues] at hp'
    obtain ⟨p, hp, rfl⟩ := Option.map_eq_some_iff.mp hp'
    refine ⟨p, 0, hp, ?_, Nat.le_refl _⟩
    rcases expire_cases (ms / 1000) p with heq | ⟨-, heq⟩
    · rw [heq]
      exact Counts.refl p
    · rw [heq]
      exact counts_setStatus rfl p
  exact hc'.afterChecks _ _ ms

theorem Counted.escrow (hc : Counted w) (ready checks : List Pending) (i : Nat) (p : Pending)
    (escrowed ms : Nat) : Counted (onEscrow cfg w ready checks i p escrowed ms) := by
  unfold onEscrow
  split
  · have hc' : Counted { w with orders := makePending cfg p w.orders } := by
      refine hc.mono fun h p' hp' => Or.inl ?_
      obtain ⟨q, hq, rfl⟩ := lookup_onEach_some hp'
      refine ⟨q, 0, hq, counts_entry_zero (fun _ _ q' => ?_) q, Nat.le_refl _⟩
      split
      · exact counts_setStatus rfl q'
      · exact Counts.refl q'
    exact hc'.afterChecks _ _ ms
  · exact hc.afterChecks _ _ ms

theorem Counted.accept (hc : Counted w) (i : Nat) (intake : Intake) (answers : Answers)
    (ms : Nat) : Counted (onAccept cfg w i intake answers ms) := by
  unfold onAccept
  cases hadmit : checkAnswers intake.order intake.signature answers with
  | error e => exact hc.congr rfl rfl
  | ok status =>
      refine hc.mono fun h p hp => ?_
      rcases Table.lookup_insert_iff.mp hp with ⟨-, rfl⟩ | ⟨-, hold⟩
      · refine Or.inr ⟨rfl, ?_⟩
        rcases checkAnswers_open hadmit with rfl | rfl
        · rfl
        · rfl
      · exact Or.inl ⟨p, 0, hold, Counts.refl p, Nat.le_refl _⟩

/-- Entries have gone at most. -/
theorem Counted.less (hc : Counted w) (hfailures : w'.failures = w.failures)
    (hsub : ∀ h p, w'.orders.lookup h = some p → w.orders.lookup h = some p) : Counted w' := by
  intro h p hp
  rw [hfailures]
  exact hc h p (hsub h p hp)

/-- **One step.** -/
theorem Counted.step (hc : Counted w) {e : Event cfg.WETH} (h : step cfg w e = some w') :
    Counted w' := by
  cases stepped h with
  | post =>
      unfold onPost
      split
      · exact hc
      split
      · exact hc
      · exact hc.congr rfl rfl
  | nonceUsed => exact hc.congr rfl rfl
  | nonceUnused => exact hc.congr rfl rfl
  | accept hi => exact hc.accept _ _ _ _
  | abort => exact hc.congr rfl rfl
  | window hidle => exact hc.window _
  | escrowAnswer htick hi => exact hc.escrow _ _ _ _ _ _
  | solve hj => exact hc.solve _ _ _
  | @dryRun j answer txHash solved signatures hj hsame =>
      cases answer with
      | error error => exact hc.fail j fun _ _ => Nat.le_refl _
      | ok gas => exact hc.congr rfl rfl
  | sendAnswer hj => exact hc.send _ _ _ _ _
  | receipt hj hanswer => exact hc.receipt _ _ _ _
  | throw hj => exact hc.congr rfl rfl
  | close => exact hc.less rfl fun h p hp => (Table.lookup_keep.mp hp).1
  | restart => exact hc.less rfl fun h p hp => absurd hp (by simp)
  | mine => exact hc.congr rfl rfl
  | useNonce => exact hc.congr rfl rfl

theorem counted_started : Counted (started cfg) :=
  fun h p hp => absurd hp (by simp [started])

theorem Counted.run (es : List (Event cfg.WETH)) : ∀ {w : World cfg.WETH}, Counted w →
    run cfg w es = some w' → Counted w' := by
  induction es with
  | nil =>
      intro w hc h
      cases h
      exact hc
  | cons e es ih =>
      intro w hc h
      obtain ⟨w₁, hstep, hrest⟩ := Option.bind_eq_some_iff.mp h
      exact ih (hc.step hstep) hrest

end Counting

/-! ### One owner's orders -/

section Owners

variable {cfg : Config} {w w' : World cfg.WETH}

def OneOwner (os : List Order) : Prop := ∀ o ∈ os, ∀ o' ∈ os, o'.owner = o.owner

instance (os : List Order) : Decidable (OneOwner os) :=
  inferInstanceAs (Decidable (∀ o ∈ os, ∀ o' ∈ os, o'.owner = o.owner))

/-- The search does not fail a batch of several owners, and drops from it only what it
would not take from the owner's orders alone. -/
def Separates (node : PairBatch cfg.WETH → Market) (batch : PairBatch cfg.WETH) : Prop :=
  match Solver.solve (node batch) batch with
  | .done (solved, _) =>
      ∀ d ∈ solved.dropped, takes node (own batch d.order.owner) d.order = false
  | .error _ _ => False
  | .threw => True

instance (node : PairBatch cfg.WETH → Market) (batch : PairBatch cfg.WETH) :
    Decidable (Separates node batch) :=
  match h : Solver.solve (node batch) batch with
  | .done (solved, _) =>
      decidable_of_iff
        (∀ d ∈ solved.dropped, takes node (own batch d.order.owner) d.order = false)
        (by rw [Separates, h])
  | .error _ _ => isFalse (by rw [Separates, h]; exact not_false)
  | .threw => isTrue (by rw [Separates, h]; trivial)

/-- A batch of several owners is solved as it is without the others. -/
def SolvesApart (node : PairBatch cfg.WETH → Market) : Job cfg.WETH → Prop
  | .solving batch => OneOwner (allOrders batch) ∨ Separates node batch
  | _ => True

instance (node : PairBatch cfg.WETH → Market) : ∀ job, Decidable (SolvesApart node job)
  | .solving batch =>
      inferInstanceAs (Decidable (OneOwner (allOrders batch) ∨ Separates node batch))
  | .dryRunning _ _ | .sending _ _ | .waiting _ _ | .ended => isTrue trivial

/-- The orders that a settlement has are one owner's. -/
def OwnedByOne (w : World cfg.WETH) (j : Nat) : Prop :=
  ∀ job ∈ w.tick.jobs[j]?, OneOwner job.orders

instance (w : World cfg.WETH) (j : Nat) : Decidable (OwnedByOne w j) :=
  inferInstanceAs (Decidable (∀ job ∈ w.tick.jobs[j]?, OneOwner job.orders))

/-- Settlements of several owners go through. -/
def GoesThrough (w : World cfg.WETH) : Event cfg.WETH → Prop
  | .solve j node => ∀ job ∈ w.tick.jobs[j]?, SolvesApart node job
  | .dryRun j (.error _) _ => OwnedByOne w j
  | .sendAnswer j (.error _) _ => OwnedByOne w j
  | .receipt j none => OwnedByOne w j
  | .receipt j (some false) => OwnedByOne w j
  | _ => True

instance (w : World cfg.WETH) : ∀ e : Event cfg.WETH, Decidable (GoesThrough w e)
  | .solve j node =>
      inferInstanceAs (Decidable (∀ job ∈ w.tick.jobs[j]?, SolvesApart node job))
  | .dryRun j (.error _) _ => inferInstanceAs (Decidable (OwnedByOne w j))
  | .sendAnswer j (.error _) _ => inferInstanceAs (Decidable (OwnedByOne w j))
  | .receipt j none => inferInstanceAs (Decidable (OwnedByOne w j))
  | .receipt j (some false) => inferInstanceAs (Decidable (OwnedByOne w j))
  | .dryRun _ (.ok _) _ | .sendAnswer _ (.ok _) _ | .receipt _ (some true) | .post _ _ _
  | .nonceAnswer _ _ | .accept _ _ _ | .abort _ | .window _ | .escrowAnswer _ _ _ | .throw _
  | .close _ | .restart | .mine _ _ | .useNonce _ _ => isTrue trivial

def AllGoThrough (w : World cfg.WETH) : List (Event cfg.WETH) → Prop
  | [] => True
  | e :: es => GoesThrough w e ∧ ∀ w' ∈ step cfg w e, AllGoThrough w' es

instance decidableAllGoThrough : ∀ (es : List (Event cfg.WETH)) (w : World cfg.WETH),
    Decidable (AllGoThrough w es)
  | [], _ => isTrue trivial
  | e :: es, w =>
      have : ∀ w', Decidable (AllGoThrough w' es) := decidableAllGoThrough es
      inferInstanceAs (Decidable (GoesThrough w e ∧ ∀ w' ∈ step cfg w e, AllGoThrough w' es))

def AllOwn (w : World cfg.WETH) : Prop := ∀ f ∈ w.failures, f.Own

theorem AllOwn.congr (hown : AllOwn w) (hfailures : w'.failures = w.failures) : AllOwn w' := by
  rw [AllOwn, hfailures]
  exact hown

/-- What failed in a settlement of one owner is the owner's own. -/
theorem AllOwn.fail (hown : AllOwn w) {j : Nat} {f : Order → Pending → Pending}
    {job : Job cfg.WETH} (hj : w.tick.jobs[j]? = some job) (hone : OwnedByOne w j) :
    AllOwn (fail cfg w j f job.orders) := by
  intro failure hin
  rcases List.mem_append.mp hin with hin | hin
  · exact hown failure hin
  · obtain ⟨o, ho, rfl⟩ := List.mem_map.mp hin
    exact Or.inr fun o' ho' => hone job hj o ho o' ho'

theorem AllOwn.reject (hown : AllOwn w) {node : PairBatch cfg.WETH → Market}
    {batch : PairBatch cfg.WETH} {dropped : List Dropped}
    (hdropped : ∀ d ∈ dropped, (untaken cfg node batch d.order).Own) :
    AllOwn (reject cfg w node batch dropped) := by
  intro failure hin
  rcases List.mem_append.mp hin with hin | hin
  · exact hown failure hin
  · obtain ⟨d, hd, rfl⟩ := List.mem_map.mp hin
    exact hdropped d hd

theorem untaken_own {node : PairBatch cfg.WETH → Market} {batch : PairBatch cfg.WETH} {o : Order}
    (ho : o ∈ allOrders batch) (hone : OneOwner (allOrders batch)) :
    (untaken cfg node batch o).Own := Or.inr fun o' ho' => hone o ho o' ho'

theorem AllOwn.solve (hown : AllOwn w) {j : Nat} {node : PairBatch cfg.WETH → Market}
    {batch : PairBatch cfg.WETH} (hcase : OneOwner (allOrders batch) ∨ Separates node batch) :
    AllOwn (onSolve cfg w j batch node) := by
  unfold onSolve
  cases hsolve : Solver.solve (node batch) batch with
  | threw => exact hown.congr rfl
  | error error dropped =>
      have hone : OneOwner (allOrders batch) := by
        refine hcase.resolve_right fun hseparates => ?_
        rw [Separates, hsolve] at hseparates
        exact hseparates
      have hrejected : AllOwn (Batcher.reject cfg w node batch dropped) :=
        hown.reject fun d hd => untaken_own (solve_error_parts hsolve d hd) hone
      intro failure hin
      rcases List.mem_append.mp hin with hin | hin
      · exact hrejected failure hin
      · obtain ⟨o, ho, rfl⟩ := List.mem_map.mp hin
        exact untaken_own ho hone
  | done p =>
      have hparts := solve_done_parts hsolve
      have hrejected : AllOwn (Batcher.reject cfg w node batch p.1.dropped) := by
        refine hown.reject fun d hd => ?_
        rcases hcase with hone | hseparates
        · exact untaken_own (hparts.dropped d hd).1 hone
        · rw [Separates, hsolve] at hseparates
          exact Or.inl (hseparates d hd)
      exact hrejected.congr rfl

/-- **One step** of which settlements of several owners go through. -/
theorem AllOwn.step (hown : AllOwn w) {e : Event cfg.WETH} (hgoes : GoesThrough w e)
    (h : step cfg w e = some w') : AllOwn w' := by
  cases stepped h with
  | post =>
      unfold onPost
      split
      · exact hown
      split
      · exact hown
      · exact hown.congr rfl
  | nonceUsed => exact hown.congr rfl
  | nonceUnused => exact hown.congr rfl
  | accept hi =>
      unfold onAccept
      split
      · exact hown.congr rfl
      · exact hown.congr rfl
  | abort => exact hown.congr rfl
  | window hidle => exact hown.congr (failures_afterChecks _ _ _)
  | escrowAnswer htick hi =>
      unfold onEscrow
      split
      · exact hown.congr (failures_afterChecks _ _ _)
      · exact hown.congr (failures_afterChecks _ _ _)
  | solve hj => exact hown.solve (hgoes _ hj)
  | @dryRun j answer txHash solved signatures hj hsame =>
      cases answer with
      | error error => exact hown.fail hj hgoes
      | ok gas => exact hown.congr rfl
  | @sendAnswer j ms answer txHash solved hj =>
      cases answer with
      | error msg =>
          have hfail : AllOwn (Batcher.fail cfg w j
              (fun _ => countAttempt (MAX_ATTEMPTS * 2) (.couldNotSubmit msg))
                (allOrders solved.batch)) := hown.fail hj hgoes
          exact hfail.congr rfl
      | ok u => exact hown.congr rfl
  | @receipt j answer txHash solved hj hanswer =>
      rcases answer with _ | _ | _
      · exact hown.fail hj hgoes
      · exact hown.fail hj hgoes
      · exact hown.congr rfl
  | throw hj => exact hown.congr rfl
  | close => exact hown.congr rfl
  | restart => exact hown.congr rfl
  | mine => exact hown.congr rfl
  | useNonce => exact hown.congr rfl

theorem AllOwn.run (es : List (Event cfg.WETH)) : ∀ {w : World cfg.WETH}, AllOwn w →
    AllGoThrough w es → run cfg w es = some w' → AllOwn w' := by
  induction es with
  | nil =>
      intro w hown _ h
      cases h
      exact hown
  | cons e es ih =>
      intro w hown hgoes h
      obtain ⟨w₁, hstep, hrest⟩ := Option.bind_eq_some_iff.mp h
      exact ih (hown.step hgoes.1 hstep) (hgoes.2 w₁ hstep) hrest

end Owners

/-- **Orders fail for their owner's orders.**  Each attempt that is counted against an
order, and its rejection, is for a settlement that failed; and if settlements of several
owners go through, it failed as a settlement of the owner's own orders, or would have. -/
theorem failed_for_own_orders (cfg : Config) (es : List (Event cfg.WETH)) {w : World cfg.WETH}
    (h : run cfg (started cfg) es = some w) :
    (∀ key p, w.orders.lookup key = some p →
      p.attempts ≤ held cfg w.failures key ∧
        (p.status.isRejected = true → ∃ f ∈ w.failures, cfg.hash f.order = key)) ∧
    (AllGoThrough (started cfg) es → ∀ f ∈ w.failures, f.Own) := by
  refine ⟨fun key p hp => ?_, fun hgoes => ?_⟩
  · obtain ⟨hattempts, hrejected⟩ := counted_started.run es h key p hp
    exact ⟨hattempts, fun hstatus => held_pos.mp (hrejected hstatus)⟩
  · have hnone : AllOwn (started cfg) := fun f hf => absurd hf List.not_mem_nil
    exact hnone.run es hgoes h

namespace Sample

/-- A window whose settlement is refused in the dry run. -/
def refused : List (Event cfg.WETH) :=
  [.window 300, .solve 0 node, .dryRun 0 (.error "NonceUsed(7,1)") 9, .close 400]

/-- A window whose batch is not solved. -/
def unsolved : List (Event cfg.WETH) := [.window 300, .solve 0 node, .close 400]

/-- Account 5 can sell, account 6 cannot, and three windows pass. -/
def mixed : List (Event cfg.WETH) :=
  posted (sale 5 1) ++ posted (sale 6 2) ++ unsolved ++ unsolved ++ unsolved

end Sample

/-- An order of one owner fails in the dry run, and has one attempt counted. -/
theorem failed_for_own_orders_sample :
    ∃ w, run Sample.cfg (started Sample.cfg) (Sample.posted (Sample.sale 5 1) ++ Sample.refused) =
        some w ∧
      (w.orders.lookup 1).map Pending.attempts = some 1 ∧ ∀ f ∈ w.failures, f.Own := by
  have hrun : (run Sample.cfg (started Sample.cfg)
      (Sample.posted (Sample.sale 5 1) ++ Sample.refused)).map
        (fun w => (w.orders.lookup 1).map Pending.attempts) = some (some 1) := by decide +kernel
  obtain ⟨w, hw, hattempts⟩ := Option.map_eq_some_iff.mp hrun
  have hgoes : AllGoThrough (started Sample.cfg)
      (Sample.posted (Sample.sale 5 1) ++ Sample.refused) := by decide +kernel
  exact ⟨w, hw, hattempts, (failed_for_own_orders Sample.cfg _ hw).2 hgoes⟩

/-- The order of account 5 would be filled alone.  It is rejected, and each of the
attempts that count against it was for a batch with the order of account 6. -/
theorem rejected_for_another :
    ¬ ∀ (cfg : Config) (es : List (Event cfg.WETH)) (w : World cfg.WETH),
      run cfg (started cfg) es = some w → ∀ key p, w.orders.lookup key = some p →
        p.status.isRejected = true → ∃ f ∈ w.failures, cfg.hash f.order = key ∧ f.Own := by
  intro hclaim
  have hrun : (run Sample.cfg (started Sample.cfg) Sample.mixed).map (fun w =>
      ((w.orders.lookup 1).map fun p => p.status.isRejected,
        w.failures.all fun f => decide (Sample.cfg.hash f.order ≠ 1 ∨ ¬ f.Own))) =
          some (some true, true) := by decide +kernel
  obtain ⟨w, hw, hends⟩ := Option.map_eq_some_iff.mp hrun
  obtain ⟨hstatus, hfailures⟩ := Prod.mk.inj hends
  obtain ⟨p, hp, hrejected⟩ := Option.map_eq_some_iff.mp hstatus
  obtain ⟨f, hf, hkey, hown⟩ := hclaim Sample.cfg Sample.mixed w hw 1 p hp hrejected
  rcases of_decide_eq_true (List.all_eq_true.mp hfailures f hf) with hne | hnot
  · exact hne hkey
  · exact hnot hown

end Batcher

end Ordo
