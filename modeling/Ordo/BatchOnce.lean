import Ordo.BatchEscrow

/-!
# Orders are filled once, deposits are disposed of once

The journal says in which order things happened to orders.  `Sound` is what is
always true of it: no fill comes after a fill or a cancellation of the same
nonce, and what happened under one hash is nothing, a deposit, or a deposit
followed by one disposal of it.  The marks in the storage (nonce used, amount
escrowed) are exactly what is needed to keep it so; each is read and written
with no call in between, so it does not matter who comes back in when.

That two orders with one hash are one order is assumed of the orders of a run
only (`NoCollision`).
-/

namespace Ordo.OrdoBatch

open Reentrant

/-- The order an entry is about. -/
def Entry.order? : Entry → Option Order
  | .deposited o | .refunded o | .filled o | .consumed o => some o
  | .cancelled _ _ => none

/-- Different orders in the journal have different hashes. -/
def NoCollision (P : Params) (journal : List Entry) : Prop :=
  ∀ e ∈ journal, ∀ e' ∈ journal, ∀ o o', e.order? = some o → e'.order? = some o' →
    P.orderHash o = P.orderHash o' → o = o'

/-- `later` is a fill that `earlier` rules out. -/
def Conflicts (earlier later : Entry) : Prop :=
  match later with
  | .filled o =>
      earlier = .cancelled o.owner o.nonce ∨
        ∃ o', earlier = .filled o' ∧ o'.owner = o.owner ∧ o'.nonce = o.nonce
  | _ => False

/-- An entry about what is escrowed under a hash. -/
def Entry.concerns (P : Params) (h : Bytes32) : Entry → Bool
  | .deposited o | .refunded o | .consumed o => decide (P.orderHash o = h)
  | .filled _ | .cancelled _ _ => false

/-- What happened under a hash, newest first. -/
def life (P : Params) (h : Bytes32) (journal : List Entry) : List Entry :=
  journal.filter (Entry.concerns P h)

/-- The lives a hash can have, with what is escrowed under it. -/
inductive Lives (P : Params) (h : Bytes32) (journal : List Entry) : List Entry → Nat → Prop
  | unused : Lives P h journal [] 0
  | waiting (o : Order) (ho : P.orderHash o = h) (hamount : o.sellAmount ≠ 0) :
      Lives P h journal [.deposited o] o.sellAmount
  /-- Consumed by a settlement that filled the order. -/
  | consumed (o : Order) (ho : P.orderHash o = h) (hfilled : .filled o ∈ journal) :
      Lives P h journal [.consumed o, .deposited o] 0
  | refunded (o : Order) (ho : P.orderHash o = h) :
      Lives P h journal [.refunded o, .deposited o] 0

/-- What is always true of the journal and the marks. -/
structure Sound (P : Params) (s : State) : Prop where
  order : s.store.journal.Pairwise fun later earlier => ¬ Conflicts earlier later
  lives (h : Bytes32) : Lives P h s.store.journal (life P h s.store.journal)
    (s.store.escrowed h)
  filled : ∀ o, Entry.filled o ∈ s.store.journal → s.store.nonceUsed o.owner o.nonce = true
  cancelled : ∀ a n, Entry.cancelled a n ∈ s.store.journal → s.store.nonceUsed a n = true
  expired : ∀ o, Entry.refunded o ∈ s.store.journal → o.validTo < s.now

/-- What every action does: the journal grows, and stays sound. -/
structure Follows (P : Params) (s t : State) : Prop where
  suffix : s.store.journal <:+ t.store.journal
  sound : (NoCollision P s.store.journal → Sound P s) →
    NoCollision P t.store.journal → Sound P t

theorem NoCollision.suffix {P : Params} {j j' : List Entry} (h : NoCollision P j')
    (hsuffix : j <:+ j') : NoCollision P j :=
  fun e he e' he' => h e (hsuffix.subset he) e' (hsuffix.subset he')

theorem Follows.refl (P : Params) (s : State) : Follows P s s :=
  ⟨List.suffix_refl _, fun h => h⟩

theorem Follows.trans {P : Params} {s t u : State} (h₁ : Follows P s t)
    (h₂ : Follows P t u) : Follows P s u :=
  ⟨h₁.suffix.trans h₂.suffix, fun h => h₂.sound (h₁.sound h)⟩

/-- Later, with the same orders, is as sound. -/
theorem Follows.same {P : Params} {s t : State} (hjournal : t.store.journal = s.store.journal)
    (hescrowed : t.store.escrowed = s.store.escrowed)
    (hnonce : t.store.nonceUsed = s.store.nonceUsed) (hnow : s.now ≤ t.now) :
    Follows P s t := by
  refine ⟨by rw [hjournal], fun hs hcollision => ?_⟩
  rw [hjournal] at hcollision
  obtain ⟨horder, hlives, hfilled, hcancelled, hexpired⟩ := hs hcollision
  refine ⟨?_, ?_, ?_, ?_, ?_⟩
  · rw [hjournal]
    exact horder
  · rw [hjournal, hescrowed]
    exact hlives
  · rw [hjournal, hnonce]
    exact hfilled
  · rw [hjournal, hnonce]
    exact hcancelled
  · intro o ho
    rw [hjournal] at ho
    exact (hexpired o ho).trans_le hnow

/-! ## Entries -/

section Entries

variable {P : Params} {h : Bytes32} {journal : List Entry}

theorem life_cons (e : Entry) :
    life P h (e :: journal) =
      if e.concerns P h then e :: life P h journal else life P h journal := by
  unfold life
  rw [List.filter_cons]

/-- A life goes on through other entries. -/
theorem Lives.mono {l : List Entry} {v : Nat} (hl : Lives P h journal l v) (e : Entry) :
    Lives P h (e :: journal) l v := by
  cases hl with
  | unused => exact .unused
  | waiting o ho hamount => exact .waiting o ho hamount
  | consumed o ho hfilled => exact .consumed o ho (List.mem_cons_of_mem _ hfilled)
  | refunded o ho => exact .refunded o ho

/-- What a life mentions is in the journal. -/
theorem mem_of_life {l : List Entry} (hl : life P h journal = l) {e : Entry} (he : e ∈ l) :
    e ∈ journal := by
  rw [← hl] at he
  exact (List.mem_filter.mp he).1

/-- Something is escrowed only for a deposit that is still waiting. -/
theorem Lives.waiting_of_ne {v : Nat} (hl : Lives P h journal (life P h journal) v)
    (hv : v ≠ 0) : ∃ o, P.orderHash o = h ∧ life P h journal = [.deposited o] ∧
      v = o.sellAmount := by
  generalize hlife : life P h journal = l at hl
  cases hl with
  | unused => exact absurd rfl hv
  | waiting o ho hamount => exact ⟨o, ho, rfl, rfl⟩
  | consumed o ho hfilled => exact absurd rfl hv
  | refunded o ho => exact absurd rfl hv

end Entries

section Steps

variable {P : Params}

/-- The storage and time of a deposit. -/
theorem Follows.deposit {s : State} {sender : Address} {o : Order}
    (hchecks : DepositChecks P s sender o) : Follows P s (s.deposit P sender o) := by
  refine ⟨List.suffix_cons _ _, fun hs hcollision => ?_⟩
  have hold := hs (hcollision.suffix (List.suffix_cons _ _))
  -- nothing else ever happened under this hash: the marks would show it
  have hunused : life P (P.orderHash o) s.store.journal = [] := by
    have hlives := hold.lives (P.orderHash o)
    rw [hchecks.empty] at hlives
    generalize hlife : life P (P.orderHash o) s.store.journal = l at hlives
    have hsame : ∀ e o', e ∈ l → e.order? = some o' → P.orderHash o' = P.orderHash o →
        o' = o := fun e o' he horder hhash =>
      hcollision e (List.mem_cons_of_mem _ (mem_of_life hlife he)) _ List.mem_cons_self o' o
        horder rfl hhash
    generalize hzero : (0 : Nat) = v at hlives
    cases hlives with
    | unused => rfl
    | waiting o' ho' hamount => exact absurd hzero.symm hamount
    | consumed o' ho' hfilled =>
        have heq := hsame (.consumed o') o' (by simp) rfl ho'
        have hused := hold.filled o' hfilled
        rw [heq, hchecks.nonce] at hused
        exact absurd hused (by decide)
    | refunded o' ho' =>
        have heq := hsame (.refunded o') o' (by simp) rfl ho'
        have hgone := hold.expired o' (mem_of_life hlife (by simp))
        rw [heq] at hgone
        have htime := hchecks.time
        omega
  refine ⟨?_, fun k => ?_, fun o' ho' => ?_, fun a n hn => ?_, fun o' ho' => ?_⟩
  · exact List.Pairwise.cons (fun _ _ h => h) hold.order
  · simp only [State.deposit, Store.record, Store.setTotal, Store.setEscrow, life_cons,
      Entry.concerns]
    by_cases hk : P.orderHash o = k
    · subst hk
      rw [hunused]
      simpa using Lives.waiting o rfl hchecks.amount
    · simpa [hk, Function.update_of_ne (Ne.symm hk)] using (hold.lives k).mono _
  · exact hold.filled o' (by simpa [State.deposit, Store.record, Store.setTotal,
      Store.setEscrow] using ho')
  · exact hold.cancelled a n (by simpa [State.deposit, Store.record, Store.setTotal,
      Store.setEscrow] using hn)
  · exact hold.expired o' (by simpa [State.deposit, Store.record, Store.setTotal,
      Store.setEscrow] using ho')

/-- Under a hash something is escrowed for, an order is the one deposited. -/
theorem Sound.deposit_eq {s : State} (hs : Sound P s) {e : Entry} {o : Order}
    (horder : e.order? = some o) (hcollision : NoCollision P (e :: s.store.journal))
    (hesc : s.store.escrowed (P.orderHash o) ≠ 0) :
    life P (P.orderHash o) s.store.journal = [.deposited o] ∧
      s.store.escrowed (P.orderHash o) = o.sellAmount := by
  obtain ⟨o', ho', hlife, hamount⟩ := (hs.lives (P.orderHash o)).waiting_of_ne hesc
  have hmem : Entry.deposited o' ∈ s.store.journal := mem_of_life hlife (by simp)
  have heq : o' = o := hcollision _ (List.mem_cons_of_mem _ hmem) _ List.mem_cons_self o' o
    rfl horder ho'
  rw [heq] at hlife hamount
  exact ⟨hlife, hamount⟩

/-- What a disposal does to the lives of all hashes. -/
theorem Sound.dispose {s : State} (hs : Sound P s) {e : Entry} {o : Order}
    (hconcerns : ∀ h, e.concerns P h = decide (P.orderHash o = h))
    (hlives : Lives P (P.orderHash o) (e :: s.store.journal)
      (e :: life P (P.orderHash o) s.store.journal) 0) (h : Bytes32) :
    Lives P h (e :: s.store.journal) (life P h (e :: s.store.journal))
      (Function.update s.store.escrowed (P.orderHash o) 0 h) := by
  rw [life_cons, hconcerns]
  by_cases hh : P.orderHash o = h
  · subst hh
    simpa using hlives
  · simpa [hh, Function.update_of_ne (Ne.symm hh)] using (hs.lives h).mono e

theorem Follows.refund {s : State} {o : Order}
    (hesc : s.store.escrowed (P.orderHash o) ≠ 0) (htime : o.validTo < s.now) :
    Follows P s (s.refunding P o) := by
  refine ⟨List.suffix_cons _ _, fun hs hcollision => ?_⟩
  have hold := hs (hcollision.suffix (List.suffix_cons _ _))
  obtain ⟨hlife, -⟩ := hold.deposit_eq (e := .refunded o) rfl hcollision hesc
  refine ⟨?_, ?_, fun o' ho' => ?_, fun a n hn => ?_, fun o' ho' => ?_⟩
  · exact List.Pairwise.cons (fun _ _ h => h) hold.order
  · exact hold.dispose (fun _ => rfl) (by rw [hlife]; exact .refunded o rfl)
  · exact hold.filled o' (by simpa [State.refunding, Store.record, Store.setTotal,
      Store.setEscrow, Store.lock] using ho')
  · exact hold.cancelled a n (by simpa [State.refunding, Store.record, Store.setTotal,
      Store.setEscrow, Store.lock] using hn)
  · rcases List.mem_cons.mp ho' with heq | ho'
    · cases heq
      exact htime
    · exact hold.expired o' ho'

theorem Store.useNonce_mono {st : Store} {a b : Address} {n m : Nat}
    (h : st.nonceUsed b m = true) : (st.useNonce a n).nonceUsed b m = true := by
  unfold Store.useNonce
  by_cases hb : b = a
  · subst hb
    by_cases hm : m = n <;> simp [hm, h]
  · simp [hb, h]

theorem Store.useNonce_self (st : Store) (a : Address) (n : Nat) :
    (st.useNonce a n).nonceUsed a n = true := by
  simp [Store.useNonce]

theorem Follows.cancel {s : State} (a : Address) (n : Nat) :
    Follows P s { s with store := (s.store.useNonce a n).record (.cancelled a n) } := by
  refine ⟨List.suffix_cons _ _, fun hs hcollision => ?_⟩
  have hold := hs (hcollision.suffix (List.suffix_cons _ _))
  refine ⟨?_, fun h => ?_, fun o' ho' => ?_, fun b m hm => ?_, fun o' ho' => ?_⟩
  · exact List.Pairwise.cons (fun _ _ h => h) hold.order
  · simpa [Store.record, Store.useNonce, life_cons, Entry.concerns] using (hold.lives h).mono _
  · exact Store.useNonce_mono (hold.filled o' (by simpa [Store.record, Store.useNonce] using ho'))
  · rcases List.mem_cons.mp hm with heq | hm
    · cases heq
      exact Store.useNonce_self _ _ _
    · exact Store.useNonce_mono (hold.cancelled b m hm)
  · exact hold.expired o' (by simpa [Store.record, Store.useNonce] using ho')

/-- A settlement takes an order. -/
theorem Follows.take {s : State} {o : Order}
    (hfresh : s.store.nonceUsed o.owner o.nonce = false) :
    Follows P s { s with store := taken true o s.store } := by
  refine ⟨List.suffix_cons _ _, fun hs hcollision => ?_⟩
  have hold := hs (hcollision.suffix (List.suffix_cons _ _))
  refine ⟨?_, fun h => ?_, fun o' ho' => ?_, fun b m hm => ?_, fun o' ho' => ?_⟩
  · refine List.Pairwise.cons (fun e he hconflict => ?_) hold.order
    -- an earlier fill or cancellation would have used the nonce
    rcases hconflict with rfl | ⟨o', rfl, howner, hnonce⟩
    · have hused := hold.cancelled _ _ he
      simp [hfresh] at hused
    · have hused := hold.filled _ he
      rw [howner, hnonce, hfresh] at hused
      exact absurd hused (by decide)
  · simpa [taken, Store.record, Store.useNonce, life_cons, Entry.concerns]
      using (hold.lives h).mono _
  · rcases List.mem_cons.mp ho' with heq | ho'
    · cases heq
      exact Store.useNonce_self _ _ _
    · exact Store.useNonce_mono (hold.filled o' ho')
  · exact Store.useNonce_mono (hold.cancelled b m (by simpa [taken, Store.record,
      Store.useNonce] using hm))
  · exact hold.expired o' (by simpa [taken, Store.record, Store.useNonce] using ho')

/-- A settlement uses the escrow of an order it took. -/
theorem Follows.release {s : State} {o : Order}
    (hfilled : Entry.filled o ∈ s.store.journal) :
    Follows P s { s with store := released P o s.store } := by
  by_cases hesc : s.store.escrowed (P.orderHash o) = 0
  · simp only [released, hesc, ne_eq, not_true_eq_false, if_false]
    exact Follows.refl P s
  · simp only [released, hesc, ne_eq, not_false_eq_true, if_true]
    refine ⟨List.suffix_cons _ _, fun hs hcollision => ?_⟩
    have hold := hs (hcollision.suffix (List.suffix_cons _ _))
    obtain ⟨hlife, -⟩ := hold.deposit_eq (e := .consumed o) rfl hcollision hesc
    refine ⟨?_, ?_, fun o' ho' => ?_, fun a n hn => ?_, fun o' ho' => ?_⟩
    · exact List.Pairwise.cons (fun _ _ h => h) hold.order
    · refine hold.dispose (fun _ => rfl) ?_
      rw [hlife]
      exact .consumed o rfl (List.mem_cons_of_mem _ hfilled)
    · exact hold.filled o' (by simpa [Store.record, Store.setEscrow] using ho')
    · exact hold.cancelled a n (by simpa [Store.record, Store.setEscrow] using hn)
    · exact hold.expired o' (by simpa [Store.record, Store.setEscrow] using ho')

/-- One order of a settlement, up to the pull of its money. -/
theorem Follows.filling {s : State} {o : Order}
    (hfresh : s.store.nonceUsed o.owner o.nonce = false) :
    Follows P s (filling P true o s) :=
  (Follows.take hfresh).trans (Follows.release List.mem_cons_self)

end Steps

section Entry

variable {P : Params} {pushes : Prop}

theorem Follows.outside {s t : State} (h : (system P pushes).outside s t) :
    Follows P s t := by
  obtain ⟨hstore, hnow, -⟩ := h
  exact .same (by rw [hstore]) (by rw [hstore]) (by rw [hstore]) hnow

theorem Follows.around {s t : State} {q : Query} {a : Answer}
    (h : (system P pushes).around (Follows P) s q t a) : Follows P s t := by
  obtain ⟨s₁, s₂, hbefore, ⟨hstore, hnow, -⟩, hafter⟩ := h
  have hmiddle : Follows P s₁ s₂ :=
    .same (by rw [hstore]) (by rw [hstore]) (by rw [hstore]) hnow.ge
  exact (hbefore.trans hmiddle).trans hafter

/-- Code on the ledger does nothing to orders. -/
theorem sat_onChain_follows {α : Type} (p : Op α) (s : State) :
    Sat ((system P pushes).around (Follows P)) (onChain p s) fun t _ => Follows P s t :=
  sat_zoom_keep (K := Follows P) _ (fun _ _ => .same rfl rfl rfl (Nat.le_refl _))
    (fun _ _ _ => Follows.trans) (fun _ _ _ _ => Follows.around) s

theorem sat_takeFees_follows {rows : List Row} {consumed : Nat} (s : State) :
    Sat ((system P pushes).around (Follows P)) (takeFees P consumed rows s)
      fun t _ => Follows P s t := by
  induction rows generalizing s with
  | nil =>
      simp only [takeFees, Prog.pure_apply, sat_done]
      exact Follows.refl P s
  | cons r rows ih =>
      simp only [takeFees, takeFee, Prog.bind_apply, sat_bind, Prog.read_apply,
        Prog.pure_apply, Code.bind_done, sat_done, Prog.sat_orRevert, Prog.sat_require]
      intro _ _
      refine sat_balanceOf fun _ _ _ _ _ => ?_
      refine (sat_onChain_follows _ s).mono ?_
      intro t _ hfee
      exact (ih t).mono fun u _ hrest => hfee.trans hrest

theorem sat_settle_follows {s : State} {sender : Address} {orders : List Order}
    {signatures : List Bytes} {prices : List Price} {interactions : List Interaction} :
    Sat ((system P pushes).around (Follows P))
      (settle sender P orders signatures prices interactions s) fun t _ =>
        Follows P s t := by
  simp only [settle, nonReentrant, modify, prepare, checkAndTakeFee, Prog.bind_apply,
    Prog.read_apply, Prog.write_apply, Code.bind_done, sat_bind, sat_done, Prog.sat_require,
    Prog.pure_apply, Prog.sat_orRevert]
  intro _ _ _
  refine (sat_openRows prices).mono ?_
  intro t rows hopen
  obtain ⟨rfl, -⟩ := hopen
  have hfills := sat_fillAll (P := P) (E := (system P pushes).around (Follows P)) true
    (orders.zip signatures) (fun t _ => Follows P s t) (Follows.refl P)
    (fun os _ t => sat_onChain_follows _ t)
    (fun os _ t u b b' _ _ hinv hfill hpull =>
      (hinv.trans (Follows.filling (hfill.fresh rfl).2)).trans hpull)
    (s := { s with store := s.store.lock }) (b := ⟨rows, [], 0⟩)
    (.same rfl rfl rfl (Nat.le_refl _))
  refine hfills.mono ?_
  intro t b hfilled total _
  refine (sat_onChain_follows _ _).mono ?_
  intro u _ hinteract
  refine (sat_onChain_follows _ _).mono ?_
  intro v _ hpay
  refine (sat_takeFees_follows _).mono ?_
  intro w _ hfees _
  have htotal : Follows P t { t with store := t.store.setTotal total } :=
    .same rfl rfl rfl (Nat.le_refl _)
  have hunlock : Follows P w { w with store := w.store.unlock } :=
    .same rfl rfl rfl (Nat.le_refl _)
  exact ((((hfilled.trans htotal).trans hinteract).trans hpay).trans hfees).trans hunlock

/-- **Every action keeps the journal sound.** -/
theorem follows_entry (m : Msg P.I) (s : State) :
    Sat ((system P pushes).around (Follows P)) ((system P pushes).entry m s)
      fun t _ => Follows P s t := by
  refine sat_entry m ?_ ?_ ?_ ?_ ?_ ?_
  · exact fun o hchecks => .deposit hchecks
  · intro o _ hesc htime _
    refine (sat_onChain_follows _ _).mono ?_
    intro t _ hout
    have hunlock : Follows P t t.unlock := .same rfl rfl rfl (Nat.le_refl _)
    exact ((Follows.refund hesc htime).trans hout).trans hunlock
  · exact fun nonce => .cancel m.sender nonce
  · exact fun orders signatures prices interactions => sat_settle_follows
  · exact fun st hsame => .same hsame.journal hsame.escrowed hsame.nonceUsed (Nat.le_refl _)
  · exact fun token recipient bal _ _ => sat_onChain_follows _ _

theorem Reaches.follows {s t : State} (h : (system P pushes).Reaches s t) : Follows P s t :=
  System.reaches_rel (Follows.refl P) (fun _ _ _ => Follows.trans)
    (fun _ _ => Follows.outside) follows_entry h

theorem Deployed.sound {s : State} (h : Deployed s) : Sound P s := by
  obtain ⟨owner, solver, treasury, maxFeeBps, hstore⟩ := h
  obtain ⟨-, hstore⟩ := constructor_ok hstore
  refine ⟨?_, ?_, ?_, ?_, ?_⟩
  · rw [hstore]
    exact List.Pairwise.nil
  · intro k
    rw [hstore]
    exact Lives.unused
  · simp [hstore]
  · simp [hstore]
  · simp [hstore]

end Entry

namespace Sample

/-- Time passes. -/
def late : State := { deposited with now := 200 }

/-- Account 5 takes its order back. -/
def refunded : State := (system params False).exec idle ⟨5, 0, .refund order, owner_ne⟩ late

theorem step_late : (system params False).Step deposited late :=
  ⟨0, rfl, by decide, .calm (Around.refl _ _)⟩

theorem reaches_refunded : (system params False).Reaches deposited refunded :=
  (Relation.ReflTransGen.single step_late).trans (System.reaches_exec idle_reply _ _)

theorem refunded_journal :
    refunded.store.journal = [.refunded order, .deposited order] := by
  decide

end Sample

end Ordo.OrdoBatch
