import Ordo.BatchEscrow
import Ordo.NativeFlow

/-!
# Ether the batch contract did not ask for

A settlement must end with no ether in the contract, and no function takes ether
out that was there before: the legs wrap and pay only their running amount,
native payouts pay what they unwrapped, and `sweep` moves tokens alone.  So the
ether of the contract never goes down across an action, and a settlement that
starts with any cannot end.

`receive` takes ether from the PoolManager, and anybody can have the PoolManager
pay this contract.  As long as nobody does, the contract holds no ether whenever
no call of it is running.
-/

namespace Ordo.OrdoBatch

open Reentrant

/-- The contract's ether. -/
def native (P : Params) (s : State) : Nat := s.chain.eth P.I.this

/-- No ether leaves. -/
def Grows (P : Params) (s t : State) : Prop := native P s ≤ native P t

section Native

variable {P : Params} {pushes : Prop}

theorem Grows.outside {s t : State} (h : (system P pushes).outside s t) : Grows P s t := by
  obtain ⟨-, -, hchain⟩ := h
  obtain ⟨v, -, hkeeps⟩ := hchain.keeps
  have heth := hkeeps.eth
  unfold Grows native
  omega

/-- With everybody else around, a call brings at least what the callee pays. -/
theorem Grows.funded {s t : State} {q : Query} {a : Answer}
    (h : (system P pushes).around (Grows P) s q t a) : Funded P.I s.chain q t.chain a := by
  obtain ⟨s₁, s₂, hbefore, ⟨-, -, hreply⟩, hafter⟩ := h
  exact Funded.around hbefore hreply.funded hafter

theorem Grows.around {s t : State} {q : Query} {a : Answer}
    (h : (system P pushes).around (Grows P) s q t a) : Grows P s t := by
  have hin := (Grows.funded h).1
  unfold Grows native
  omega

theorem sat_onChain_grows {α : Type} {p : Op α} {s : State} {base : Nat}
    (h : Sat (Funded P.I) (p s.chain) fun c _ => base ≤ c.eth P.I.this) :
    Sat ((system P pushes).around (Grows P)) (onChain p s) fun t _ => base ≤ native P t :=
  sat_onChain h fun _ _ _ _ => Grows.funded

theorem spare_interact {I : Immutables} {interactions : List Interaction} {c : Chain}
    {base : Nat} (h : base ≤ c.eth I.this) :
    Sat (Funded I) (interact I interactions c) fun c' _ => base ≤ c'.eth I.this := by
  induction interactions generalizing c with
  | nil =>
      simp only [interact, Prog.pure_apply, sat_done]
      exact h
  | cons x interactions ih =>
      simp only [interact, Prog.bind_apply, sat_bind, Prog.sat_require]
      intro _
      have hstart : Spare I base x.amountIn false c := by simpa [Spare] using h
      refine (spare_run hstart).mono ?_
      intro c₁ out hout
      have hwrap : Sat (Funded I) (wrapOut I out.1 out.2 c₁) fun c' _ =>
          base ≤ c'.eth I.this := by
        unfold wrapOut Spare at *
        cases hnative : out.2 with
        | false => simpa [hnative] using hout
        | true =>
            simp only [hnative, if_true] at hout ⊢
            exact spare_wethDeposit hout
      exact hwrap.mono fun c₂ _ hbase => ih hbase

theorem spare_pay {I : Immutables} {orders : List (Order × Nat)} {c : Chain} {base : Nat}
    (h : base ≤ c.eth I.this) :
    Sat (Funded I) (pay I orders c) fun c' _ => base ≤ c'.eth I.this := by
  induction orders generalizing c with
  | nil =>
      simp only [pay, Prog.pure_apply, sat_done]
      exact h
  | cons o orders ih =>
      obtain ⟨o, buyAmount⟩ := o
      simp only [pay, Prog.bind_apply, sat_bind]
      have hone : Sat (Funded I) (payOne I o buyAmount c) fun c' _ => base ≤ c'.eth I.this := by
        by_cases hnative : o.buyToken = NATIVE
        · simp only [payOne, hnative, if_true, Prog.bind_apply, sat_bind]
          exact (spare_wethWithdraw h).mono fun c₁ _ hbase => spare_send hbase
        · simp only [payOne, hnative, if_false]
          exact spare_payToken h
      exact hone.mono fun c₁ _ hbase => ih hbase

theorem spare_sendFee {I : Immutables} {token dst : Address} {fee : Nat} {c : Chain}
    {base : Nat} (h : base ≤ c.eth I.this) :
    Sat (Funded I) (sendFee I token dst fee c) fun c' _ => base ≤ c'.eth I.this := by
  by_cases hfee : fee = 0
  · simpa [sendFee, hfee] using h
  · simp only [sendFee, hfee, ne_eq, not_false_eq_true, if_true]
    exact spare_payToken h

theorem sat_takeFees_grows {rows : List Row} {consumed : Nat} {s : State} {base : Nat}
    (h : base ≤ native P s) :
    Sat ((system P pushes).around (Grows P)) (takeFees P consumed rows s)
      fun t _ => base ≤ native P t := by
  induction rows generalizing s with
  | nil =>
      simp only [takeFees, Prog.pure_apply, sat_done]
      exact h
  | cons r rows ih =>
      simp only [takeFees, takeFee, Prog.bind_apply, sat_bind, Prog.read_apply,
        Prog.pure_apply, Code.bind_done, sat_done, Prog.sat_orRevert, Prog.sat_require]
      intro _ _
      refine sat_balanceOf fun _ _ _ _ _ => ?_
      refine (sat_onChain_grows (spare_sendFee h)).mono ?_
      intro t _ hfee
      exact ih hfee

/-- A settlement ends with no ether, and with no less than it began with. -/
theorem sat_settle_native {s : State} {sender : Address} {orders : List Order}
    {signatures : List Bytes} {prices : List Price} {interactions : List Interaction} :
    Sat ((system P pushes).around (Grows P))
      (settle sender P orders signatures prices interactions s) fun t _ =>
        native P t = 0 ∧ Grows P s t := by
  simp only [settle, nonReentrant, modify, prepare, checkAndTakeFee, Prog.bind_apply,
    Prog.read_apply, Prog.write_apply, Code.bind_done, sat_bind, sat_done, Prog.sat_require,
    Prog.pure_apply, Prog.sat_orRevert]
  intro _ _ _
  refine (sat_openRows prices).mono ?_
  intro t rows hopen
  obtain ⟨rfl, -⟩ := hopen
  have hfills := sat_fillAll (P := P) (E := (system P pushes).around (Grows P)) true
    (orders.zip signatures) (fun t _ => Grows P s t) (K := Grows P) (fun _ => Nat.le_refl _)
    (fun os _ t => sat_onChain_grows (spare_pull (Nat.le_refl _)))
    (fun os _ t u b b' _ _ hinv _ hpull => Nat.le_trans hinv hpull)
    (s := { s with store := s.store.lock }) (b := ⟨rows, [], 0⟩) (Nat.le_refl _)
  refine hfills.mono ?_
  intro t b hfilled total _
  refine (sat_onChain_grows (s := { t with store := t.store.setTotal total })
    (spare_interact hfilled)).mono ?_
  intro u _ hinteract
  refine (sat_onChain_grows (spare_pay hinteract)).mono ?_
  intro v _ hpay
  refine (sat_takeFees_grows hpay).mono ?_
  intro w _ hfees hzero
  exact ⟨hzero, hfees⟩

/-- **No action takes ether out of the contract.** -/
theorem grows_entry (m : Msg P.I) (s : State) :
    Sat ((system P pushes).around (Grows P)) ((system P pushes).entry m s)
      fun t _ => Grows P s t := by
  refine sat_entry m ?_ ?_ ?_ ?_ ?_ ?_
  · intro o hchecks
    have hin := Chain.moveEth_dst hchecks.funds m.sender_ne_this
    have hout : o.sellAmount ≤
        (s.chain.moveEth m.sender P.I.this o.sellAmount).eth P.I.this := by omega
    simp only [Grows, native, State.deposit, Chain.setBal_eth]
    rw [Chain.moveEth_src hout P.I.WETH_ne_this.symm]
    omega
  · intro o _ _ _ _
    have hrefund : Sat (Funded P.I)
        (refundOut P o (s.store.escrowed (P.orderHash o)) (s.refunding P o).chain)
        fun c _ => native P s ≤ c.eth P.I.this := by
      simp only [refundOut, Prog.bind_apply, sat_bind]
      exact (spare_wethWithdraw (Nat.le_refl _)).mono fun c _ hc => spare_send hc
    exact sat_onChain_grows hrefund
  · exact fun _ => Nat.le_refl _
  · exact fun _ _ _ _ => sat_settle_native.mono fun _ _ h => h.2
  · exact fun _ _ => Nat.le_refl _
  · exact fun _ _ _ _ _ => sat_onChain_grows (spare_sendFee (Nat.le_refl _))

theorem Reaches.grows {s t : State} (h : (system P pushes).Reaches s t) : Grows P s t :=
  System.reaches_rel (R := Grows P) (fun _ => Nat.le_refl _) (fun _ _ _ => Nat.le_trans)
    (fun _ _ => Grows.outside) grows_entry h

/-- No settlement succeeds from a state in which the contract holds ether. -/
theorem settle_stuck {s : State} (hs : native P s ≠ 0) {sender : Address}
    {orders : List Order} {signatures : List Bytes} {prices : List Price}
    {interactions : List Interaction} :
    Sat ((system P pushes).around (system P pushes).Reaches)
      (settle sender P orders signatures prices interactions s) fun _ _ => False := by
  intro t fees hrun
  have hrun' := hrun.mono (F := (system P pushes).around (Grows P)) fun _ _ _ _ hcall =>
    System.around_mono (fun _ _ h => Reaches.grows h) hcall
  obtain ⟨hzero, hgrows⟩ := sat_settle_native t fees hrun'
  unfold Grows at hgrows
  omega

/-! ## Nobody pushes ether in -/

/-- The contract holds no ether. -/
def Empty (P : Params) (s : State) : Prop := native P s = 0

theorem Empty.outside {s t : State} (h : (system P False).outside s t) (hs : Empty P s) :
    Empty P t := by
  obtain ⟨-, -, hchain⟩ := h
  obtain ⟨v, hv, hkeeps⟩ := hchain.keeps
  have heth := hkeeps.eth
  rcases hv with rfl | hv
  · unfold Empty native at hs ⊢
    omega
  · exact hv.elim

/-- A call that pays the contract nothing leaves it without ether. -/
theorem Empty.around {s t : State} {q : Query} {a : Answer}
    (h : (system P False).around (fun s t => Empty P s → Empty P t) s q t a)
    (hq : (∃ token dst amount, q = .transfer token dst amount) ∨
      ∃ recipient amount, q = .send recipient amount) (hs : Empty P s) : Empty P t := by
  obtain ⟨s₁, s₂, hbefore, ⟨-, -, hreply⟩, hafter⟩ := h
  refine hafter ?_
  have hs₁ := hbefore hs
  have heth : s₂.chain.eth P.I.this = s₁.chain.eth P.I.this + 0 := by
    rcases hq with ⟨token, dst, amount, rfl⟩ | ⟨recipient, amount, rfl⟩
    · exact Around.eth hreply
    · exact Around.eth hreply
  unfold Empty native at hs₁ ⊢
  omega

theorem sat_sendFee_empty {s : State} (hs : Empty P s) {token dst : Address} {fee : Nat} :
    Sat ((system P False).around fun s t => Empty P s → Empty P t)
      (onChain (sendFee P.I token dst fee) s) fun t _ => Empty P t := by
  by_cases hfee : fee = 0
  · simpa [onChain, sendFee, hfee] using hs
  · by_cases htoken : token = P.I.WETH
    · simp only [onChain, sendFee, payToken, transfer, wethTransfer, hfee, htoken, ne_eq,
        not_false_eq_true, if_true, Prog.zoom_bind, Prog.zoom_read, Prog.zoom_require,
        Prog.zoom_write, Prog.zoom_pure, Code.bind_done, sat_bind, sat_done,
        Prog.sat_require, ledger]
      exact fun _ _ => hs
    · simp only [onChain, sendFee, payToken, transfer, hfee, htoken, ne_eq, not_false_eq_true,
        if_true, if_false, Prog.zoom_bind, Prog.zoom_ask, Prog.zoom_ofExcept, Prog.zoom_require,
        Code.bind_call, Code.bind_done, sat_bind, sat_call, Prog.sat_ofExcept, Prog.sat_require]
      intro t a hcall _ _ _
      exact Empty.around hcall (Or.inl ⟨_, _, _, rfl⟩) hs

/-- A refund pays out all it unwrapped. -/
theorem sat_refundOut_empty {s : State} (hs : Empty P s) {o : Order} {amount : Nat} :
    Sat ((system P False).around fun s t => Empty P s → Empty P t)
      (onChain (refundOut P o amount) s) fun t _ => Empty P t := by
  by_cases hthis : o.owner = P.I.this
  · simp [onChain, refundOut, send, hthis]
  · have hzero : s.chain.eth P.I.this = 0 := hs
    simp only [onChain, refundOut, wethWithdraw, Prog.zoom_bind, Prog.zoom_read,
      Prog.zoom_require, Prog.zoom_write, Code.bind_done, sat_bind, sat_done,
      Prog.sat_require, ledger]
    intro hfunds
    have hheld : ((s.chain.setBal P.I.WETH P.I.this
        (s.chain.bal P.I.WETH P.I.this - amount)).moveEth P.I.WETH P.I.this amount).eth
          P.I.this = amount := by
      rw [Chain.moveEth_dst (by simpa using hfunds.2) P.I.WETH_ne_this, Chain.setBal_eth]
      omega
    by_cases hwrap : o.owner = P.I.WETH
    · simp only [send, wethDeposit, hwrap, P.I.WETH_ne_this, if_true, if_false,
        Prog.zoom_bind, Prog.zoom_read, Prog.zoom_require, Prog.zoom_write, Code.bind_done,
        sat_bind, sat_done, Prog.sat_require]
      intro _ hfit
      simp only [Empty, native, Chain.setBal_eth]
      rw [Chain.moveEth_src hfit P.I.WETH_ne_this.symm, hheld]
      omega
    · simp only [send, sendPlain, payEther, hthis, hwrap, if_false, Prog.zoom_bind,
        Prog.zoom_read, Prog.zoom_require, Prog.zoom_write, Prog.zoom_ask, Code.bind_done,
        Code.bind_call, sat_bind, sat_call, sat_done, Prog.sat_require]
      intro hfit t a hcall _
      refine Empty.around hcall (Or.inr ⟨_, _, rfl⟩) ?_
      simp only [Empty, native]
      rw [Chain.moveEth_src hfit (Ne.symm hthis), hheld]
      omega

/-- Without pushes no action leaves ether behind. -/
theorem empty_entry (m : Msg P.I) {s : State} (hs : Empty P s) :
    Sat ((system P False).around fun s t => Empty P s → Empty P t)
      ((system P False).entry m s) fun t _ => Empty P t := by
  refine sat_entry m ?_ ?_ ?_ ?_ ?_ ?_
  · intro o hchecks
    have hin := Chain.moveEth_dst hchecks.funds m.sender_ne_this
    have hout : o.sellAmount ≤
        (s.chain.moveEth m.sender P.I.this o.sellAmount).eth P.I.this := by omega
    simp only [Empty, native, State.deposit, Chain.setBal_eth] at hs ⊢
    rw [Chain.moveEth_src hout P.I.WETH_ne_this.symm]
    omega
  · exact fun o _ _ _ _ => sat_refundOut_empty (s := s.refunding P o) hs
  · exact fun _ => hs
  · intro orders signatures prices interactions
    -- whatever else happens, the last check is for no ether
    simp only [settle, nonReentrant, modify, checkAndTakeFee, Prog.bind_apply,
      Prog.read_apply, Prog.write_apply, Code.bind_done, sat_bind, sat_done,
      Prog.sat_require, Prog.pure_apply, Prog.sat_orRevert]
    intro _ _ _
    refine ((sat_true _).mpr trivial).mono fun _ _ _ _ _ => ?_
    refine ((sat_true _).mpr trivial).mono fun _ _ _ => ?_
    refine ((sat_true _).mpr trivial).mono fun _ _ _ => ?_
    exact ((sat_true _).mpr trivial).mono fun _ _ _ hzero => hzero
  · exact fun _ _ => hs
  · exact fun _ _ _ _ _ => sat_sendFee_empty hs

end Native

/-- **Ether between transactions.**  In every run in which nobody has the
PoolManager pay this contract and nobody forces ether in, the contract holds no
ether between transactions.  And wherever it does hold ether, however that came
in, it always will, and no settlement succeeds any more. -/
theorem no_ether_unless_pushed (P : Params) :
    (∀ s₀ s, Deployed s₀ → s₀.chain.eth P.I.this = 0 → (system P False).Reaches s₀ s →
      s.chain.eth P.I.this = 0) ∧
    ∀ pushes s t, s.chain.eth P.I.this ≠ 0 → (system P pushes).Reaches s t →
      t.chain.eth P.I.this ≠ 0 ∧
      ∀ sender orders signatures prices interactions,
        Sat ((system P pushes).around (system P pushes).Reaches)
          (settle sender P orders signatures prices interactions t) fun _ _ => False := by
  refine ⟨fun s₀ s _ hzero hreach => ?_, fun pushes s t hne hreach => ?_⟩
  · exact System.reaches_invariant (I := Empty P) (fun _ _ => Empty.outside)
      (fun m s hs => empty_entry m hs) hreach hzero
  · have hgrows : native P s ≤ native P t := Reaches.grows hreach
    have hstill : native P t ≠ 0 := by
      unfold native at hgrows ⊢
      omega
    exact ⟨hstill, fun _ _ _ _ _ => settle_stuck hstill⟩

namespace Sample

/-- Somebody takes one wei out of the PoolManager to the contract. -/
def pushed : State := { start with chain := start.chain.moveEth 103 100 1 }

theorem reaches_pushed : (system params True).Reaches start pushed :=
  .single ⟨0, rfl, Nat.le_refl _, .take trivial _ 1 (by decide) (receive_poolManager _ _)⟩

end Sample

/-- Account 5 deposits and no ether is left; one wei pushed in is there for
good. -/
theorem no_ether_unless_pushed_sample :
    Sample.deposited.chain.eth 100 = 0 ∧
      ∀ t, (system Sample.params True).Reaches Sample.pushed t → t.chain.eth 100 ≠ 0 := by
  have hether := no_ether_unless_pushed Sample.params
  refine ⟨hether.1 _ _ Sample.deployed_start (by decide) Sample.reaches_deposited, ?_⟩
  exact fun t ht => (hether.2 True _ t (by decide) ht).1

/-- One wei taken from the PoolManager to a newly deployed contract, where an
empty settlement succeeded before and reverts with `BadLegs` after: no run
removes it, and no settlement after any run succeeds. -/
theorem pushed_ether_stops_settlement :
    Deployed Sample.start ∧ (system Sample.params True).Reaches Sample.start Sample.pushed ∧
      (∃ t, (settle 2 Sample.params [] [] [] [] Sample.start).eval Sample.idle = .ok (t, [0])) ∧
      (settle 2 Sample.params [] [] [] [] Sample.pushed).eval Sample.idle =
        .error (.venue .BadLegs) ∧
      ∀ t, (system Sample.params True).Reaches Sample.pushed t → t.chain.eth 100 ≠ 0 ∧
        ∀ sender orders signatures prices interactions,
          Sat ((system Sample.params True).around (system Sample.params True).Reaches)
            (settle sender Sample.params orders signatures prices interactions t)
            fun _ _ => False := by
  refine ⟨Sample.deployed_start, Sample.reaches_pushed, ⟨_, rfl⟩, rfl, fun t ht => ?_⟩
  have hgrows : native Sample.params Sample.pushed ≤ native Sample.params t :=
    Reaches.grows ht
  have hone : native Sample.params Sample.pushed = 1 := rfl
  have hstill : native Sample.params t ≠ 0 := by omega
  exact ⟨hstill, fun _ _ _ _ _ => settle_stuck hstill⟩

end Ordo.OrdoBatch
