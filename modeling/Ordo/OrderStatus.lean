import Ordo.BatcherSteps

/-!
# What an order's status says

The status that the batcher reports and what happened on the chain are two things.  An
order that is reported filled was filled, in every run (`status_truthful`).  The other way
round it takes that what is mined is seen: a settlement whose receipt did not come in time
is put back as pending, and if it is mined after all, its orders are refused for their
nonce, or expire.

1.  A settlement in hand was filled, if at all, by the transaction that it waits for, and
    entries of filled orders are in hand or say so (`Seen`).
2.  Timely steps keep that (`Seen.step`).
-/

namespace Ordo

namespace Batcher

open OrdoBatch (Order)
open Solver

section Invariant

variable {cfg : Config} {w w' : World cfg.WETH} {h : Bytes32} {p : Pending} {tx : TxHash}
  {ready checks : List Pending}

/-- What holds as long as all that is mined is seen. -/
structure Seen (w : World cfg.WETH) : Prop where
  checking : ∀ ready checks, w.tick = .checking ready checks →
    ∀ o ∈ w.tick.orders, ¬ Filled w (cfg.hash o)
  /-- A settlement in hand was filled, if at all, by the transaction it waits for. -/
  owner : ∀ job ∈ w.tick.jobs, ∀ o ∈ job.orders, ∀ tx, FilledBy w tx (cfg.hash o) →
    job.tx = some tx
  entry : ∀ h p, w.orders.lookup h = some p → Filled w h →
    p.status.lost = false ∧ (h ∈ w.tick.orders.map cfg.hash ∨ p.status.isFilled)

/-- It is seen what this settlement was, if its transaction is waited for and its entries
are not lost, and filled when it ends. -/
theorem Seen.jobStep (hs : Sound w) (hseen : Seen w) {job job' : Job cfg.WETH}
    (hjob : JobStep job job' w w')
    (htx : ∀ o ∈ job'.orders, ∀ tx, FilledBy w tx (cfg.hash o) → job'.tx = some tx)
    (hentry : ∀ o ∈ job.orders, Filled w (cfg.hash o) → ∀ p', w'.orders.lookup (cfg.hash o) =
      some p' → p'.status.lost = false ∧
        (cfg.hash o ∈ job'.orders.map cfg.hash ∨ p'.status.isFilled)) :
    Seen w' := by
  obtain ⟨ready, before, after, htick, htick'⟩ := hjob.moves
  refine ⟨fun ready₁ checks hchecking => ?_, fun job₁ hjob₁ o ho tx hfilled => ?_,
    fun h p' hp' hfilled => ?_⟩
  · rw [htick'] at hchecking
    cases hchecking
  · have hfilled := (hjob.filledBy hs).mp hfilled
    rw [htick'] at hjob₁
    rcases List.mem_append.mp hjob₁ with hin | hin
    · exact hseen.owner job₁ (by rw [htick]; exact List.mem_append_left _ hin) o ho tx hfilled
    · rcases List.mem_cons.mp hin with rfl | hin
      · exact htx o ho tx hfilled
      · refine hseen.owner job₁ ?_ o ho tx hfilled
        rw [htick]
        exact List.mem_append_right _ (List.mem_cons_of_mem _ hin)
  · have hfilled : Filled w h := by
      obtain ⟨tx, hfilled⟩ := hfilled
      exact ⟨tx, (hjob.filledBy hs).mp hfilled⟩
    have hmine : ∀ o ∈ job'.orders, cfg.hash o ∈ w'.tick.orders.map cfg.hash := by
      intro o ho
      rw [htick']
      refine List.mem_map_of_mem (List.mem_flatMap.mpr ⟨job', ?_, ho⟩)
      exact List.mem_append_right _ List.mem_cons_self
    by_cases hin : h ∈ job.orders.map cfg.hash
    · obtain ⟨o, ho, rfl⟩ := List.mem_map.mp hin
      obtain ⟨hopen, hwhere⟩ := hentry o ho hfilled p' hp'
      refine ⟨hopen, hwhere.imp_left fun hin' => ?_⟩
      obtain ⟨o', ho', heq⟩ := List.mem_map.mp hin'
      rw [← heq]
      exact hmine o' ho'
    · rw [hjob.changes.other h hin] at hp'
      obtain ⟨hopen, hwhere⟩ := hseen.entry h p' hp' hfilled
      refine ⟨hopen, hwhere.imp_left fun hin' => ?_⟩
      obtain ⟨o, ho, rfl⟩ := List.mem_map.mp hin'
      rw [htick] at ho
      obtain ⟨job₁, hjob₁, ho₁⟩ := List.mem_flatMap.mp ho
      refine List.mem_map_of_mem ?_
      rw [htick']
      refine List.mem_flatMap.mpr ⟨job₁, ?_, ho₁⟩
      rcases List.mem_append.mp hjob₁ with hin' | hin'
      · exact List.mem_append_left _ hin'
      · rcases List.mem_cons.mp hin' with rfl | hin'
        · exact absurd (List.mem_map_of_mem ho₁) hin
        · exact List.mem_append_right _ (List.mem_cons_of_mem _ hin')

/-- What was filled says so. -/
def Quiet (w : World cfg.WETH) : Prop :=
  ∀ h p, w.orders.lookup h = some p → Filled w h → p.status.isFilled

theorem not_lost_of_filled {status : OrderStatus} (h : status.isFilled = true) :
    status.lost = false := by
  cases status with
  | filled => rfl
  | pending | awaitingDeposit | settling | rejected | expired => cases h

theorem Quiet.afterChecks (hquiet : Quiet w) {ms : Nat}
    (hfresh : ∀ o ∈ (ready ++ checks).map Pending.order, ¬ Filled w (cfg.hash o)) :
    Seen (afterChecks cfg w ready checks ms) := by
  obtain ⟨horders, hsent, hmined, htick⟩ := afterChecks_cases (w := w) ready checks ms
  have hfilledBy : ∀ tx h, FilledBy (Batcher.afterChecks cfg w ready checks ms) tx h →
      FilledBy w tx h := by
    intro tx h hfilled
    unfold FilledBy at hfilled
    rwa [hsent, hmined] at hfilled
  have hfilled : ∀ h, Filled (Batcher.afterChecks cfg w ready checks ms) h → Filled w h :=
    fun h ⟨tx, hby⟩ => ⟨tx, hfilledBy tx h hby⟩
  refine ⟨fun ready₁ checks₁ hchecking o ho hbad => ?_, fun job hjob o ho tx hby => ?_,
    fun h p hp hh => ?_⟩
  · rcases htick with htick | htick | ⟨-, htick⟩
    · rw [htick] at hchecking
      cases hchecking
    · rw [htick] at ho
      exact hfresh o ho (hfilled _ hbad)
    · rw [htick] at hchecking
      cases hchecking
  · rcases htick with htick | htick | ⟨rfl, htick⟩
    · rw [htick] at hjob
      cases hjob
    · rw [htick] at hjob
      cases hjob
    · rw [htick] at hjob
      have hin := (settling_orders cfg ready).subset (mem_tick_orders hjob ho)
      rw [List.append_nil] at hfresh
      exact absurd ⟨tx, hfilledBy tx _ hby⟩ (hfresh o hin)
  · rw [horders] at hp
    have hdone := hquiet h p hp (hfilled h hh)
    exact ⟨not_lost_of_filled hdone, Or.inr hdone⟩

theorem Quiet.expire (hquiet : Quiet w) (now : Nat) :
    Quiet { w with orders := w.orders.mapValues fun _ => expire now } := by
  intro h p' hp' hfilled
  rw [Table.lookup_mapValues] at hp'
  obtain ⟨p, hp, rfl⟩ := Option.map_eq_some_iff.mp hp'
  have hdone := hquiet h p hp hfilled
  rcases expire_cases now p with heq | ⟨hopen, -⟩
  · rw [heq]
    exact hdone
  · rcases hopen with hstatus | hstatus
    · rw [hstatus] at hdone
      cases hdone
    · rw [hstatus] at hdone
      cases hdone

theorem Quiet.window (hs : Sound w) (hidle : w.tick = .idle) (hquiet : Quiet w) (ms : Nat) :
    Seen (onWindow cfg w ms) := by
  have hquiet' := hquiet.expire (ms / 1000)
  obtain ⟨-, hin⟩ := window_hand (hs.expire hidle (ms / 1000)) _
  refine hquiet'.afterChecks fun o ho hfilled => ?_
  obtain ⟨q, hq, -, hnot⟩ := hin o ho
  rw [hquiet' _ q hq hfilled] at hnot
  cases hnot

theorem Seen.escrow (hseen : Seen w) (htick : w.tick = .checking ready checks) {i : Nat}
    (hi : checks[i]? = some p) (escrowed ms : Nat) :
    Seen (onEscrow cfg w ready checks i p escrowed ms) := by
  obtain ⟨hperm, hsub⟩ := escrow_hand ready hi
  have hfresh := hseen.checking ready checks htick
  rw [htick] at hfresh
  have hquiet : Quiet w := by
    intro h q hq hfilled
    obtain ⟨-, hin | hdone⟩ := hseen.entry h q hq hfilled
    · obtain ⟨o, ho, rfl⟩ := List.mem_map.mp hin
      rw [htick] at ho
      exact absurd hfilled (hfresh o ho)
    · exact hdone
  unfold onEscrow
  split
  · have hquiet' : Quiet { w with orders := makePending cfg p w.orders } := by
      intro h q' hq' hfilled
      by_cases hin : h ∈ [p.order].map cfg.hash
      · -- the order in question was not filled
        rw [List.map_cons, List.map_nil, List.mem_singleton] at hin
        have hmem : p.order ∈ (ready ++ checks).map Pending.order :=
          List.mem_map_of_mem (List.mem_append_right _ (List.mem_of_getElem? hi))
        exact absurd (hin ▸ hfilled) (hfresh p.order hmem)
      · have hq : w.orders.lookup h = some q' := (lookup_onEach_other hin).symm.trans hq'
        exact hquiet h q' hq hfilled
    exact hquiet'.afterChecks fun o ho => hfresh o (hperm.symm.subset ho)
  · exact hquiet.afterChecks fun o ho => hfresh o (hsub.subset ho)

theorem Seen.congr (hseen : Seen w) (horders : w'.orders = w.orders) (htick : w'.tick = w.tick)
    (hsent : w'.sent = w.sent) (hmined : w'.mined = w.mined) : Seen w' := by
  cases w
  cases w'
  subst horders htick hsent hmined
  exact ⟨hseen.checking, hseen.owner, hseen.entry⟩

theorem Seen.accept (hseen : Seen w) (i : Nat) (intake : Intake) (answers : Answers) (ms : Nat)
    (hfresh : ¬ Filled w (cfg.hash intake.order)) :
    Seen (onAccept cfg w i intake answers ms) := by
  unfold onAccept
  cases hadmit : checkAnswers intake.order intake.signature answers with
  | error e => exact hseen.congr rfl rfl rfl rfl
  | ok status =>
      refine ⟨hseen.checking, hseen.owner, fun h p hp hfilled => ?_⟩
      rcases Table.lookup_insert_iff.mp hp with ⟨rfl, -⟩ | ⟨-, hold⟩
      · exact absurd hfilled hfresh
      · exact hseen.entry h p hold hfilled

/-- What is mined while it is waited for is seen. -/
theorem Seen.mine (hs : Sound w) (hseen : Seen w) {txHash : TxHash} {status : Bool}
    {settlement : Settlement} {job : Job cfg.WETH}
    (hjob : job ∈ w.tick.jobs ∧ job.tx = some txHash ∨ status = false) :
    Seen (onMine cfg w txHash status settlement) := by
  have hcases : ∀ tx h, FilledBy (onMine cfg w txHash status settlement) tx h →
      FilledBy w tx h ∨ tx = txHash ∧ (job ∈ w.tick.jobs ∧ job.tx = some txHash) ∧
        h ∈ job.orders.map cfg.hash := by
    intro tx h ⟨hmined, s, hsent, hin⟩
    rcases List.mem_append.mp hmined with hmined | hmined
    · exact Or.inl ⟨hmined, s, hsent, hin⟩
    · obtain ⟨rfl, rfl⟩ := Prod.mk.inj (List.mem_singleton.mp hmined)
      have hjob := hjob.resolve_right (by decide)
      obtain ⟨s', hsent', horders⟩ := hs.handed job hjob.1 tx hjob.2
      refine Or.inr ⟨rfl, hjob, ?_⟩
      rw [← horders, hs.sentOnce _ hsent' _ hsent rfl]
      exact hin
  refine ⟨fun ready checks htick o ho hfilled => ?_, fun job' hjob' o ho tx hfilled => ?_,
    fun h p hp hfilled => ?_⟩
  · obtain ⟨tx, hfilled⟩ := hfilled
    rcases hcases tx _ hfilled with hold | ⟨-, ⟨hin, -⟩, -⟩
    · exact hseen.checking ready checks htick o ho ⟨tx, hold⟩
    · have htick : w.tick = .checking ready checks := htick
      rw [htick] at hin
      cases hin
  · rcases hcases tx _ hfilled with hold | ⟨rfl, ⟨hin, htx⟩, hmem⟩
    · exact hseen.owner job' hjob' o ho tx hold
    · obtain ⟨o', ho', heq⟩ := List.mem_map.mp hmem
      have hsame := List.inj_on_of_nodup_map hs.apart (mem_tick_orders hin ho')
        (mem_tick_orders hjob' ho) heq
      -- an order is in one settlement only
      have hjobs : job' = job := by
        by_contra hne
        obtain ⟨before, after, hsplit⟩ := List.append_of_mem hin
        cases htick : w.tick with
        | idle => rw [htick] at hin; cases hin
        | checking ready checks => rw [htick] at hin; cases hin
        | settling ready jobs =>
            have hapart := hs.apart
            rw [htick] at hapart hsplit
            have hjobs : jobs = before ++ job :: after := hsplit
            rw [Tick.orders, hjobs] at hapart
            have hmem' : job' ∈ before ++ job :: after := by
              have hmem' : job' ∈ w.tick.jobs := hjob'
              rw [htick] at hmem'
              exact hjobs ▸ hmem'
            have hother : o ∈ before.flatMap Job.orders ∨ o ∈ after.flatMap Job.orders := by
              rcases List.mem_append.mp hmem' with hmem' | hmem'
              · exact Or.inl (List.mem_flatMap.mpr ⟨job', hmem', ho⟩)
              · rcases List.mem_cons.mp hmem' with rfl | hmem'
                · exact absurd rfl hne
                · exact Or.inr (List.mem_flatMap.mpr ⟨job', hmem', ho⟩)
            exact apart_job hapart hother hmem
      rw [hjobs]
      exact htx
  · obtain ⟨tx, hfilled⟩ := hfilled
    rcases hcases tx _ hfilled with hold | ⟨-, ⟨hin, -⟩, hmem⟩
    · exact hseen.entry h p hp ⟨tx, hold⟩
    · obtain ⟨o, ho, rfl⟩ := List.mem_map.mp hmem
      obtain ⟨q, hq, hopen⟩ := hs.inHand o (mem_tick_orders hin ho)
      have hsame : p = q := Option.some.inj (hp.symm.trans hq)
      rw [hsame]
      exact ⟨hopen, Or.inl (List.mem_map_of_mem (mem_tick_orders hin ho))⟩

theorem quiet_of_ended {ready : List Pending} {jobs : List (Job cfg.WETH)} (hseen : Seen w)
    (htick : w.tick = .settling ready jobs) (hended : ∀ job ∈ jobs, job.orders = []) :
    Quiet w := by
  intro h p hp hfilled
  obtain ⟨-, hin | hdone⟩ := hseen.entry h p hp hfilled
  · obtain ⟨o, ho, -⟩ := List.mem_map.mp hin
    rw [htick] at ho
    obtain ⟨job, hjob, ho⟩ := List.mem_flatMap.mp ho
    rw [hended job hjob] at ho
    cases ho
  · exact hdone

theorem quiet_of_idle (hseen : Seen w) (hidle : w.tick = .idle) : Quiet w := by
  intro h p hp hfilled
  obtain ⟨-, hin | hdone⟩ := hseen.entry h p hp hfilled
  · rw [hidle] at hin
    cases hin
  · exact hdone

theorem Quiet.seen (hquiet : Quiet w) (hidle : w.tick = .idle) : Seen w := by
  refine ⟨fun ready checks htick => ?_, fun job hjob => ?_, fun h p hp hfilled => ?_⟩
  · rw [hidle] at htick
    cases htick
  · rw [hidle] at hjob
    cases hjob
  · have hdone := hquiet h p hp hfilled
    exact ⟨not_lost_of_filled hdone, Or.inr hdone⟩

/-! ### What is seen -/

instance (w : World cfg.WETH) (h : Bytes32) : Decidable (Filled w h) :=
  decidable_of_iff (∃ r ∈ w.mined, r.2 = true ∧
    ∃ s ∈ w.sent, s.1 = r.1 ∧ h ∈ s.2.orders.map cfg.hash) ⟨
      fun ⟨r, hr, hok, s, hs, heq, hin⟩ => ⟨r.1, by rw [← hok]; exact hr, s.2, heq ▸ hs, hin⟩,
      fun ⟨tx, hr, s, hs, hin⟩ => ⟨(tx, true), hr, rfl, (tx, s), hs, rfl, hin⟩⟩

/-- The transaction of a settlement, if it has one, has not been mined with success. -/
def Unmined (w : World cfg.WETH) (j : Nat) : Prop :=
  ∀ tx ∈ w.tick.jobs[j]?.bind Job.tx, (tx, true) ∉ w.mined

instance (w : World cfg.WETH) (j : Nat) : Decidable (Unmined w j) :=
  inferInstanceAs (Decidable (∀ tx ∈ w.tick.jobs[j]?.bind Job.tx, (tx, true) ∉ w.mined))

theorem unmined_tx {w : World cfg.WETH} {j : Nat} {job : Job cfg.WETH} (h : Unmined w j)
    (hj : w.tick.jobs[j]? = some job) : ∀ tx, job.tx = some tx → (tx, true) ∉ w.mined := by
  intro tx htx
  refine h tx ?_
  rw [hj]
  exact htx

/-- What is mined is seen: a settlement succeeds on the chain only while the window that
sent it waits for it, nobody stops waiting for one that has succeeded, and an order that
has been filled is not put down again by a post that looked at its nonce before. -/
def Timely (w : World cfg.WETH) : Event cfg.WETH → Prop
  | .mine txHash status => status = true → ∃ job ∈ w.tick.jobs, job.tx = some txHash
  | .sendAnswer j (.error _) _ => Unmined w j
  | .receipt j none => Unmined w j
  | .throw j => Unmined w j
  | .accept i _ _ => ∀ intake ∈ w.intakes[i]?, ¬ Filled w (cfg.hash intake.order)
  | _ => True

instance (w : World cfg.WETH) : ∀ e : Event cfg.WETH, Decidable (Timely w e)
  | .mine txHash status =>
      inferInstanceAs (Decidable (status = true → ∃ job ∈ w.tick.jobs, job.tx = some txHash))
  | .sendAnswer j (.error _) _ => inferInstanceAs (Decidable (Unmined w j))
  | .receipt j none => inferInstanceAs (Decidable (Unmined w j))
  | .throw j => inferInstanceAs (Decidable (Unmined w j))
  | .accept i _ _ =>
      inferInstanceAs (Decidable (∀ intake ∈ w.intakes[i]?, ¬ Filled w (cfg.hash intake.order)))
  | .sendAnswer _ (.ok _) _ | .receipt _ (some _) | .post _ _ _ | .nonceAnswer _ _ | .abort _
  | .window _ | .escrowAnswer _ _ _ | .solve _ _ | .dryRun _ _ _ | .close _ | .restart
  | .useNonce _ _ => isTrue trivial

theorem Seen.unfilled (hseen : Seen w) {j : Nat} {job : Job cfg.WETH}
    (hj : w.tick.jobs[j]? = some job) (hunmined : ∀ tx, job.tx = some tx → (tx, true) ∉ w.mined) :
    ∀ o ∈ job.orders, ¬ Filled w (cfg.hash o) := by
  intro o ho ⟨tx, hfilled⟩
  have htx := hseen.owner job (List.mem_of_getElem? hj) o ho tx hfilled
  exact hunmined tx htx hfilled.1

/-- A settlement that filled nothing may do as it likes. -/
theorem Seen.jobStep_unfilled (hs : Sound w) (hseen : Seen w) {job job' : Job cfg.WETH}
    (hjob : JobStep job job' w w') (hnone : ∀ o ∈ job.orders, ¬ Filled w (cfg.hash o)) :
    Seen w' := by
  refine hseen.jobStep hs hjob (fun o ho tx hfilled => ?_) fun o ho hfilled => ?_
  · exact absurd ⟨tx, hfilled⟩ (hnone o (hjob.fewer.subset ho))
  · exact absurd hfilled (hnone o ho)

theorem Seen.sent (hs : Sound w) (hseen : Seen w) {j : Nat} {solved : Solved cfg.WETH}
    {txHash : TxHash} (hj : w.tick.jobs[j]? = some (.sending solved txHash)) (ms : Nat) :
    Seen (onSend cfg w j solved txHash ms (.ok ())) := by
  refine hseen.jobStep hs (jobStep_sent hs hj ms) (fun o ho tx hfilled => ?_)
    fun o ho _ p' hp' => ⟨?_, Or.inl (List.mem_map_of_mem ho)⟩
  · exact hseen.owner _ (List.mem_of_getElem? hj) o ho tx hfilled
  · obtain ⟨p, -, rfl⟩ := lookup_onEach_some hp'
    exact entry_sets (Q := fun q => q.status.lost = false) (fun _ _ _ => rfl)
      (List.mem_map_of_mem ho) p

theorem Seen.receipt (hs : Sound w) (hseen : Seen w) {j : Nat} {solved : Solved cfg.WETH}
    {txHash : TxHash} (hj : w.tick.jobs[j]? = some (.waiting solved txHash))
    {answer : Option Bool} (hanswer : ∀ status ∈ answer, (txHash, status) ∈ w.mined)
    (htimely : answer = none → Unmined w j) :
    Seen (onReceipt cfg w j solved txHash answer) := by
  have hjob := jobStep_receipt hs hj hanswer
  rcases answer with _ | _ | _
  · exact hseen.jobStep_unfilled hs hjob (hseen.unfilled hj (unmined_tx (htimely rfl) hj))
  · refine hseen.jobStep_unfilled hs hjob (hseen.unfilled hj fun tx htx hmined => ?_)
    -- a transaction has one receipt
    cases htx
    have hsame := List.inj_on_of_nodup_map hs.minedOnce hmined (hanswer false rfl) rfl
    cases hsame
  · refine hseen.jobStep hs hjob (fun o ho => absurd ho List.not_mem_nil) fun o ho _ p' hp' => ?_
    obtain ⟨p, -, rfl⟩ := lookup_onEach_some hp'
    have hdone := entry_sets (Q := fun q => q.status.isFilled = true)
      (f := fun o => setStatus (filledStatus solved txHash o)) (k := cfg.hash)
      (fun _ _ _ => rfl) (List.mem_map_of_mem ho) p
    exact ⟨not_lost_of_filled hdone, Or.inr hdone⟩

/-- **One step** that is timely. -/
theorem Seen.step (hs : Sound w) (hseen : Seen w) {e : Event cfg.WETH} (htimely : Timely w e)
    (h : step cfg w e = some w') : Seen w' := by
  cases stepped h with
  | post =>
      unfold onPost
      split
      · exact hseen
      split
      · exact hseen
      · exact hseen.congr rfl rfl rfl rfl
  | nonceUsed => exact hseen.congr rfl rfl rfl rfl
  | nonceUnused => exact hseen.congr rfl rfl rfl rfl
  | accept hi => exact hseen.accept _ _ _ _ (htimely _ hi)
  | abort => exact hseen.congr rfl rfl rfl rfl
  | window hidle => exact (quiet_of_idle hseen hidle).window hs hidle _
  | escrowAnswer htick hi => exact hseen.escrow htick hi _ _
  | solve hj =>
      obtain ⟨job', hjob⟩ := jobStep_solve hs hj _
      exact hseen.jobStep_unfilled hs hjob (hseen.unfilled hj fun tx htx => by cases htx)
  | dryRun hj hsame =>
      obtain ⟨job', hjob⟩ := jobStep_dryRun hj hsame _
      exact hseen.jobStep_unfilled hs hjob (hseen.unfilled hj fun tx htx => by cases htx)
  | @sendAnswer j ms answer txHash solved hj =>
      cases answer with
      | error msg =>
          refine hseen.jobStep_unfilled hs (jobStep_refused hj ms msg) ?_
          exact hseen.unfilled hj (unmined_tx htimely hj)
      | ok u => exact hseen.sent hs hj ms
  | receipt hj hanswer =>
      refine hseen.receipt hs hj hanswer fun hnone => ?_
      rw [hnone] at htimely
      exact htimely
  | throw hj =>
      refine hseen.jobStep_unfilled hs (jobStep_throw hj) ?_
      exact hseen.unfilled hj (unmined_tx htimely hj)
  | close htick hended =>
      have hquiet := quiet_of_ended hseen htick hended
      refine Quiet.seen (fun h p hp hfilled => ?_) rfl
      exact hquiet h p (Table.lookup_keep.mp hp).1 hfilled
  | restart => exact Quiet.seen (fun h p hp => absurd hp (by simp)) rfl
  | @mine txHash status settlement hsent hnew =>
      cases status with
      | true =>
          obtain ⟨job, hjob, htx⟩ := htimely rfl
          exact hseen.mine hs (Or.inl ⟨hjob, htx⟩)
      | false =>
          let gone : Job cfg.WETH := .ended
          have hno : gone ∈ w.tick.jobs ∧ gone.tx = some txHash ∨ false = false := Or.inr rfl
          exact hseen.mine hs hno
  | useNonce => exact hseen.congr rfl rfl rfl rfl

/-! ### Runs -/

/-- Every step is timely. -/
def AllTimely (w : World cfg.WETH) : List (Event cfg.WETH) → Prop
  | [] => True
  | e :: es => Timely w e ∧ ∀ w' ∈ step cfg w e, AllTimely w' es

instance decidableAllTimely : ∀ (es : List (Event cfg.WETH)) (w : World cfg.WETH),
    Decidable (AllTimely w es)
  | [], _ => isTrue trivial
  | e :: es, w =>
      have : ∀ w', Decidable (AllTimely w' es) := decidableAllTimely es
      inferInstanceAs (Decidable (Timely w e ∧ ∀ w' ∈ step cfg w e, AllTimely w' es))

theorem Seen.run (es : List (Event cfg.WETH)) : ∀ {w : World cfg.WETH}, Sound w → Seen w →
    AllTimely w es → run cfg w es = some w' → Seen w' := by
  induction es with
  | nil =>
      intro w _ hseen _ h
      cases h
      exact hseen
  | cons e es ih =>
      intro w hs hseen htimely h
      obtain ⟨w₁, hstep, hrest⟩ := Option.bind_eq_some_iff.mp h
      exact ih (hs.step hstep) (hseen.step hs htimely.1 hstep) (htimely.2 w₁ hstep) hrest

theorem seen_started : Seen (started cfg) :=
  Quiet.seen (fun h p hp => absurd hp (by simp [started])) rfl

end Invariant

/-- **The status of an order is truthful.**  In every run, an order that is reported
filled was filled, by the transaction that is reported; and in every run in which what is
mined is seen, an order that was filled is neither rejected nor expired, and is reported
filled when no window is open. -/
theorem status_truthful (cfg : Config) (es : List (Event cfg.WETH)) {w : World cfg.WETH}
    (h : run cfg (started cfg) es = some w) :
    (∀ key p tx buy alone netted, w.orders.lookup key = some p →
      p.status = .filled tx buy alone netted → FilledBy w tx key) ∧
    (AllTimely (started cfg) es → ∀ key p, w.orders.lookup key = some p → Filled w key →
      p.status.lost = false ∧ (w.tick = .idle → p.status.isFilled = true)) := by
  have hs := sound_started.run es h
  refine ⟨hs.reported, fun htimely key p hp hfilled => ?_⟩
  have hseen := seen_started.run es sound_started htimely h
  exact ⟨(hseen.entry key p hp hfilled).1, fun hidle => quiet_of_idle hseen hidle key p hp hfilled⟩

namespace Sample

/-- Up to the wait for the receipt. -/
def sent : List (Event cfg.WETH) :=
  posted (sale 5 1) ++ [.window 300, .solve 0 node, .dryRun 0 (.ok 100000) 9,
    .sendAnswer 0 (.ok ()) 400]

/-- No window is open. -/
def atRest (w : World cfg.WETH) : Bool :=
  match w.tick with
  | .idle => true
  | _ => false

/-- The status of the order, and whether it was filled. -/
def outcome (es : List (Event cfg.WETH)) : Option (Option OrderStatus × Bool) :=
  (run cfg (started cfg) es).map fun w =>
    ((w.orders.lookup 1).map Pending.status, decide (Filled w 1))

theorem outcome_eq {es : List (Event cfg.WETH)} {status : OrderStatus}
    (h : outcome es = some (some status, true)) :
    ∃ w p, run cfg (started cfg) es = some w ∧ w.orders.lookup 1 = some p ∧
      p.status = status ∧ Filled w 1 := by
  obtain ⟨w, hw, heq⟩ := Option.map_eq_some_iff.mp h
  obtain ⟨hstatus, hfilled⟩ := Prod.mk.inj heq
  obtain ⟨p, hp, hstatus⟩ := Option.map_eq_some_iff.mp hstatus
  exact ⟨w, p, hw, hp, hstatus, of_decide_eq_true hfilled⟩

end Sample

/-- The receipt comes in time, and the order is reported filled. -/
theorem status_truthful_sample :
    ∃ w p, run Sample.cfg (started Sample.cfg)
        (Sample.sent ++ [.mine 9 true, .receipt 0 (some true), .close 500]) = some w ∧
      w.orders.lookup 1 = some p ∧ p.status = .filled 9 800 (some 800) false ∧
      FilledBy w 9 1 ∧ p.status.isFilled = true := by
  obtain ⟨w, p, hw, hp, hstatus, hfilled⟩ := Sample.outcome_eq
    (show Sample.outcome (Sample.sent ++ [.mine 9 true, .receipt 0 (some true), .close 500]) =
      some (some (.filled 9 800 (some 800) false), true) by decide +kernel)
  have htruthful := status_truthful Sample.cfg _ hw
  refine ⟨w, p, hw, hp, hstatus, htruthful.1 1 p 9 800 (some 800) false hp hstatus, ?_⟩
  have hidle : (run Sample.cfg (started Sample.cfg)
      (Sample.sent ++ [.mine 9 true, .receipt 0 (some true), .close 500])).map Sample.atRest =
        some true := by decide +kernel
  rw [hw] at hidle
  refine (htruthful.2 (by decide +kernel) 1 p hp hfilled).2 ?_
  cases htick : w.tick with
  | idle => rfl
  | checking | settling => simp [Sample.atRest, htick] at hidle

/-- The receipt does not come in time, the settlement is mined after all, and the order
expires. -/
theorem filled_and_expired :
    ¬ ∀ (cfg : Config) (es : List (Event cfg.WETH)) (w : World cfg.WETH),
      run cfg (started cfg) es = some w → ∀ key p, w.orders.lookup key = some p →
        Filled w key → p.status.lost = false := by
  intro hclaim
  obtain ⟨w, p, hw, hp, hstatus, hfilled⟩ := Sample.outcome_eq
    (show Sample.outcome
      (Sample.sent ++ [.receipt 0 none, .close 15400, .mine 9 true, .window 99000]) =
        some (some .expired, true) by decide +kernel)
  have hopen := hclaim Sample.cfg _ w hw 1 p hp hfilled
  rw [hstatus] at hopen
  cases hopen

end Batcher

end Ordo
