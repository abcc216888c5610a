import Ordo.Swap

/-!
# The float of the swap contract

The float is the contract's WETH and ether together.  During a swap it goes up
and down as the venues please; what counts is the comparison with the start once
everybody has been paid, and, for the back-run behind it, the same comparison
inside the call to itself.  `Drop v s t` says that from `s` to `t` the float went
down by at most `v` and what the owner withdrew in between.  With `v = 0` it is
what every action does, whatever is called along the way.
-/

namespace Ordo.OrdoSwapV3

open Reentrant Legs

/-- The float. -/
def held (I : Immutables) (s : State) : Nat :=
  s.chain.bal I.WETH I.this + s.chain.eth I.this

/-- What a list of withdrawals took. -/
def total (ws : List Withdrawal) : Nat := (ws.map Withdrawal.amount).sum

/-- The log grew by withdrawals of the owner. -/
def Logged (s t : State) (new : List Withdrawal) : Prop :=
  t.store.withdrawals = new ++ s.store.withdrawals ∧ ∀ w ∈ new, w.sender = w.owner

/-- The log grew, and the float went down by at most `v` and what was
withdrawn. -/
def Drop (I : Immutables) (v : Nat) (s t : State) : Prop :=
  ∃ new, Logged s t new ∧ held I s ≤ held I t + total new + v

/-- The log grew. -/
def Grown (s t : State) : Prop := ∃ new, Logged s t new

theorem total_append (ws ws' : List Withdrawal) : total (ws ++ ws') = total ws + total ws' := by
  simp [total]

theorem Logged.refl {s t : State} (h : t.store.withdrawals = s.store.withdrawals) :
    Logged s t [] :=
  ⟨h, by simp⟩

theorem Logged.trans {s t u : State} {ws ws' : List Withdrawal} (h₁ : Logged s t ws)
    (h₂ : Logged t u ws') : Logged s u (ws' ++ ws) := by
  refine ⟨by rw [h₂.1, h₁.1, List.append_assoc], fun w hw => ?_⟩
  rcases List.mem_append.mp hw with hw | hw
  · exact h₂.2 w hw
  · exact h₁.2 w hw

theorem Grown.refl {s t : State} (h : t.store.withdrawals = s.store.withdrawals) :
    Grown s t :=
  ⟨[], Logged.refl h⟩

theorem Grown.trans {s t u : State} (h₁ : Grown s t) (h₂ : Grown t u) : Grown s u := by
  obtain ⟨ws, hws⟩ := h₁
  obtain ⟨ws', hws'⟩ := h₂
  exact ⟨_, hws.trans hws'⟩

/-- Nothing was withdrawn, and the float went down by at most `v`. -/
theorem Drop.of_le {I : Immutables} {v : Nat} {s t : State}
    (h : t.store.withdrawals = s.store.withdrawals) (hle : held I s ≤ held I t + v) :
    Drop I v s t :=
  ⟨[], Logged.refl h, by simpa [total] using hle⟩

theorem Drop.refl (I : Immutables) (s : State) : Drop I 0 s s :=
  .of_le rfl (Nat.le_refl _)

theorem Drop.trans {I : Immutables} {v w : Nat} {s t u : State} (h₁ : Drop I v s t)
    (h₂ : Drop I w t u) : Drop I (v + w) s u := by
  obtain ⟨ws, hws, hle⟩ := h₁
  obtain ⟨ws', hws', hle'⟩ := h₂
  refine ⟨_, hws.trans hws', ?_⟩
  rw [total_append]
  omega

theorem Drop.grown {I : Immutables} {v : Nat} {s t : State} (h : Drop I v s t) : Grown s t := by
  obtain ⟨new, hnew, -⟩ := h
  exact ⟨new, hnew⟩

/-- A comparison at the end is as good as following the float. -/
theorem Grown.drop {I : Immutables} {v : Nat} {s t : State} (h : Grown s t)
    (hle : held I s ≤ held I t + v) : Drop I v s t := by
  obtain ⟨new, hnew⟩ := h
  exact ⟨new, hnew, by omega⟩

/-- If nothing was withdrawn, the float is no smaller. -/
theorem Drop.held_le {I : Immutables} {s t : State} (h : Drop I 0 s t)
    (hsame : t.store.withdrawals = s.store.withdrawals) : held I s ≤ held I t := by
  obtain ⟨new, hnew, hle⟩ := h
  have hnone : new = [] := by
    have hlog := hnew.1
    rw [hsame] at hlog
    exact List.self_eq_append_left.mp hlog
  subst hnone
  simpa [total] using hle

section Float

variable {I : Immutables}

theorem Drop.outside {s t : State} (h : (system I).outside s t) : Drop I 0 s t := by
  obtain ⟨hstore, hchain⟩ := h
  obtain ⟨v, -, hkeeps⟩ := hchain.keeps
  have heth := hkeeps.eth
  have hweth := hkeeps.weth
  refine .of_le (by rw [hstore]) ?_
  unfold held
  omega

/-- A call other than the router's costs the contract nothing by itself. -/
theorem Drop.around {s t : State} {q : Query} {a : Answer}
    (h : (system I).around (Drop I 0) s q t a)
    (hq : ∀ path amountIn, q ≠ .exactInput path amountIn) : Drop I 0 s t := by
  obtain ⟨s₁, s₂, hbefore, ⟨hstore, hreply⟩, hafter⟩ := h
  have hmiddle : Drop I 0 s₁ s₂ := by
    refine .of_le (by rw [hstore]) ?_
    have heth := hreply.eth_le
    have hweth : s₁.chain.bal I.WETH I.this ≤ s₂.chain.bal I.WETH I.this + 0 := by
      cases q with
      | exactInput path amountIn => exact absurd rfl (hq path amountIn)
      | take currency amount => exact Around.weth hreply
      | poolSwap key zeroForOne specified limit => exact hreply.1.weth
      | transferFrom | transfer | approve | unlock | sync | settle | relock | send =>
          exact Around.weth hreply
    unfold held
    omega
  exact (hbefore.trans hmiddle).trans hafter

/-- Any call at all only adds to the log. -/
theorem Grown.around {s t : State} {q : Query} {a : Answer}
    (h : (system I).around (Drop I 0) s q t a) : Grown s t := by
  obtain ⟨s₁, s₂, hbefore, ⟨hstore, -⟩, hafter⟩ := h
  exact (hbefore.grown.trans (Grown.refl (by rw [hstore]))).trans hafter.grown

theorem sat_onChain_grown {α : Type} (p : Op α) (s : State) :
    Sat ((system I).around (Drop I 0)) (onChain p s) fun t _ => Grown s t :=
  sat_zoom_keep (K := Grown) _ (fun _ _ => Grown.refl rfl) (fun _ _ _ => Grown.trans)
    (fun _ _ _ _ => Grown.around) s

/-- `float` reads the float. -/
theorem sat_float {E : State → Query → State → Answer → Prop} {s : State}
    {post : State → Nat → Prop} (h : post s (held I s)) : Sat E (float I s) post := by
  simp only [float, onChain, balanceOf, Prog.bind_apply, sat_bind, Prog.zoom_bind,
    Prog.zoom_read, Prog.zoom_require, Prog.zoom_pure, Code.bind_done, sat_done,
    Prog.sat_require, Prog.read_apply, Prog.sat_orRevert, addU_eq_some]
  intro _ n hn
  obtain ⟨-, rfl⟩ := hn
  exact h

/-- A token transfer costs the float at most its amount, in WETH. -/
theorem sat_payToken {s : State} {token dst : Address} {amount : Nat} :
    Sat ((system I).around (Drop I 0)) (onChain (payToken I token dst amount) s)
      fun t _ => Drop I (if token = I.WETH then amount else 0) s t := by
  by_cases htoken : token = I.WETH
  · simp only [onChain, payToken, transfer, wethTransfer, htoken, if_true, Prog.zoom_bind,
      Prog.zoom_read, Prog.zoom_require, Prog.zoom_write, Prog.zoom_pure, Code.bind_done,
      sat_bind, sat_done, Prog.sat_require, ledger]
    intro hfunds _
    refine .of_le rfl ?_
    have hmove := Chain.move_bal dst hfunds I.WETH I.this
    simp only [true_and, if_true] at hmove
    simp only [held, Chain.move_eth]
    split at hmove <;> omega
  · simp only [onChain, payToken, transfer, htoken, if_false, Prog.zoom_bind, Prog.zoom_ask,
      Prog.zoom_ofExcept, Prog.zoom_require, Code.bind_call, Code.bind_done, sat_bind,
      sat_call, Prog.sat_ofExcept, Prog.sat_require]
    intro t a hcall _ _ _
    exact Drop.around hcall (by simp)

/-- Pulling a user's tokens costs nothing. -/
theorem sat_pull {s : State} {token src : Address} {amount : Nat} :
    Sat ((system I).around (Drop I 0)) (onChain (pull I token src amount) s)
      fun t _ => Drop I 0 s t := by
  by_cases htoken : token = I.WETH
  · simp only [onChain, pull, wethPull, htoken, if_true, Prog.zoom_bind, Prog.zoom_read,
      Prog.zoom_require, Prog.zoom_write, Code.bind_done, sat_bind, sat_done,
      Prog.sat_require, ledger]
    intro hfunds
    have hbal : (spent I s.chain src amount).bal = s.chain.bal := by
      unfold spent
      split <;> rfl
    have heth : (spent I s.chain src amount).eth = s.chain.eth := by
      unfold spent
      split <;> rfl
    refine .of_le rfl ?_
    have hfunds' : amount ≤ (spent I s.chain src amount).bal I.WETH src := by
      rw [hbal]
      exact hfunds.1
    have hmove := Chain.move_bal I.this hfunds' I.WETH I.this
    simp only [true_and, if_true, hbal] at hmove
    simp only [held, Chain.move_eth, heth]
    split at hmove <;> omega
  · simp only [onChain, pull, htoken, if_false, Prog.zoom_bind, Prog.zoom_ask,
      Prog.zoom_ofExcept, Code.bind_call, Code.bind_done, sat_call, Prog.sat_ofExcept]
    intro t a hcall _ _
    exact Drop.around hcall (by simp)

/-- Wrapping moves the float from one form to the other. -/
theorem sat_wethDeposit {s : State} {amount : Nat} :
    Sat ((system I).around (Drop I 0)) (onChain (wethDeposit I amount) s)
      fun t _ => Drop I 0 s t := by
  simp only [onChain, wethDeposit, Prog.zoom_bind, Prog.zoom_read, Prog.zoom_require,
    Prog.zoom_write, Code.bind_done, sat_bind, sat_done, Prog.sat_require, ledger]
  intro hfunds
  refine .of_le rfl ?_
  simp only [held, Chain.setBal_bal, Chain.setBal_eth, and_self, if_true]
  rw [Chain.moveEth_src hfunds I.WETH_ne_this.symm]
  omega

theorem sat_wethWithdraw {s : State} {amount : Nat} :
    Sat ((system I).around (Drop I 0)) (onChain (wethWithdraw I amount) s)
      fun t _ => Drop I 0 s t := by
  simp only [onChain, wethWithdraw, Prog.zoom_bind, Prog.zoom_read, Prog.zoom_require,
    Prog.zoom_write, Code.bind_done, sat_bind, sat_done, Prog.sat_require, ledger]
  intro hfunds
  refine .of_le rfl ?_
  simp only [held, Chain.moveEth_bal, Chain.setBal_bal, and_self, if_true]
  rw [Chain.moveEth_dst (by simpa using hfunds.2) I.WETH_ne_this, Chain.setBal_eth]
  omega

/-- Ether sent out costs its amount. -/
theorem sat_send {s : State} {recipient : Address} {amount : Nat} :
    Sat ((system I).around (Drop I 0)) (onChain (send I recipient amount) s)
      fun t _ => Drop I amount s t := by
  by_cases hthis : recipient = I.this
  · simp [onChain, send, hthis]
  · by_cases hwrap : recipient = I.WETH
    · simp only [onChain, send, hwrap, I.WETH_ne_this, if_true, if_false, Prog.zoom_bind,
        Prog.zoom_read, Prog.zoom_require, Code.bind_done, sat_bind, Prog.sat_require]
      intro _
      refine sat_wethDeposit.mono fun t _ h => ?_
      obtain ⟨new, hnew, hle⟩ := h
      exact ⟨new, hnew, by omega⟩
    · simp only [onChain, send, sendPlain, payEther, hthis, hwrap, if_false, Prog.zoom_bind,
        Prog.zoom_read, Prog.zoom_require, Prog.zoom_write, Prog.zoom_ask, Code.bind_done,
        Code.bind_call, sat_bind, sat_call, sat_done, Prog.sat_require, ledger]
      intro hfunds t a hcall _
      have hpaid : Drop I amount s
          { s with chain := s.chain.moveEth I.this recipient amount } := by
        refine .of_le rfl ?_
        simp only [held, Chain.moveEth_bal]
        rw [Chain.moveEth_src hfunds (Ne.symm hthis)]
        omega
      exact hpaid.trans (Drop.around hcall (by simp))

/-- The owner's withdrawal costs what it withdraws. -/
theorem sat_withdrawOut {s : State} {recipient : Address} {amount : Nat} :
    Sat ((system I).around (Drop I 0)) (onChain (withdrawOut I recipient amount) s)
      fun t _ => Drop I amount s t := by
  simp only [onChain, withdrawOut, Prog.zoom_bind, sat_bind]
  refine sat_wethWithdraw.mono fun t _ hfirst => ?_
  refine sat_send.mono fun u _ hsecond => ?_
  simpa using hfirst.trans hsecond

theorem sat_payProfit {s : State} {recipient : Address} {nativeOut : Bool} {toUser : Nat} :
    Sat ((system I).around (Drop I 0)) (onChain (payProfit I recipient nativeOut toUser) s)
      fun t _ => Drop I toUser s t := by
  cases nativeOut with
  | false =>
      refine sat_payToken.mono fun t _ hpaid => ?_
      simpa using hpaid
  | true => exact sat_withdrawOut

/-- **A reclaim that ends leaves the float no smaller.** -/
theorem sat_reclaimFor {s : State} {sender recipient : Address} {r : Reclaim}
    {nativeOut : Bool} :
    Sat ((system I).around (Drop I 0)) (reclaimFor I sender recipient r nativeOut s)
      fun t _ => Drop I 0 s t := by
  simp only [reclaimFor, share, Prog.bind_apply, sat_bind, Prog.sat_require,
    Prog.sat_orRevert, Prog.sat_ofExcept, Prog.pure_apply, sat_done, Prog.read_apply,
    addU_eq_some, subU_eq_some]
  intro _ _ _ _ _ _ _ _ _ _
  refine sat_float ?_
  refine (sat_onChain_grown _ s).mono fun t _ hrun => ?_
  refine (sat_onChain_grown _ t).mono fun u _ hwrap => ?_
  refine sat_float fun floor hfloor hprofit profit hgain _ _ toUser hshare => ?_
  obtain ⟨-, rfl⟩ := hfloor
  obtain ⟨hle, rfl⟩ := hgain
  obtain ⟨hfit, rfl⟩ := hshare
  refine sat_payProfit.mono fun v _ hpaid => ?_
  obtain ⟨ws, hws⟩ := hrun.trans hwrap
  obtain ⟨new, hnew, hdrop⟩ := hpaid
  refine ⟨_, hws.trans hnew, ?_⟩
  rw [total_append]
  omega

/-- Run behind a swap, failed or not, it leaves the float no smaller. -/
theorem sat_tryReclaim {s : State} {recipient : Address} {r : Reclaim} {nativeOut : Bool} :
    Sat ((system I).around (Drop I 0)) (tryReclaim I recipient r nativeOut s)
      fun t _ => Drop I 0 s t := by
  by_cases hlegs : r.legs = []
  · simp only [tryReclaim, hlegs, ne_eq, not_true_eq_false, if_false, Prog.pure_apply,
      sat_done]
    exact Drop.refl I s
  · simp only [tryReclaim, hlegs, ne_eq, not_false_eq_true, if_true, Prog.bind_apply,
      Prog.attempt_apply, sat_bind]
    refine Sat.attempt ?_ fun e => ?_
    · refine sat_reclaimFor.mono fun t toUser h => ?_
      simpa using h
    · simpa using Drop.refl I s

/-- Taking the user's input costs the contract nothing. -/
theorem sat_takeInput {s : State} {sender : Address} {value : Nat} {tokenIn : Address}
    {nativeIn : Bool} {amountIn : Nat} :
    Sat ((system I).around (Drop I 0)) (takeInput I sender value tokenIn nativeIn amountIn s)
      fun t _ => Drop I 0 s t := by
  by_cases hvalue : value = 0
  · simp only [takeInput, hvalue, ne_eq, not_true_eq_false, if_false]
    exact sat_pull
  · simp only [takeInput, hvalue, ne_eq, not_false_eq_true, if_true, Prog.bind_apply,
      sat_bind, Prog.sat_require]
    exact fun _ _ => Drop.refl I s

/-- Of a route and its payments only the log is known to grow. -/
theorem sat_payRoute_grown {s : State} {legs : List Leg} {amountIn amountOutMinimum : Nat}
    {tokenOut recipient : Address} {nativeOut haveNative : Bool} :
    Sat ((system I).around (Drop I 0))
      (payRoute I legs amountIn amountOutMinimum tokenOut recipient nativeOut haveNative s)
      fun t _ => Grown s t := by
  simp only [payRoute, share, Prog.bind_apply, sat_bind, Prog.sat_require, Prog.sat_orRevert,
    Prog.pure_apply, sat_done, Prog.read_apply]
  refine (sat_onChain_grown _ s).mono fun t₁ _ hrun _ _ _ _ _ => ?_
  refine (sat_onChain_grown _ t₁).mono fun t₂ _ hdeliver => ?_
  refine (sat_onChain_grown _ t₂).mono fun t₃ _ hfee => ?_
  exact (hrun.trans hdeliver).trans hfee

/-- **A swap leaves the float no smaller**, but for the ether that came with
it. -/
theorem sat_swap {s : State} {sender : Address} {value : Nat} {legs : List Leg}
    {amountIn amountOutMinimum : Nat} {recipient : Address} {nativeOut : Bool}
    {reclaim : Reclaim} {gasleft : Nat} :
    Sat ((system I).around (Drop I 0))
      (swap sender value I legs amountIn amountOutMinimum recipient nativeOut reclaim gasleft s)
      fun t _ => Drop I value s t := by
  simp only [swap, nonReentrant, modify, Prog.bind_apply, sat_bind, Prog.sat_require,
    Prog.sat_orRevert, Prog.sat_ofExcept, Prog.pure_apply, sat_done, Prog.read_apply,
    Prog.write_apply, subU_eq_some]
  intro _ _ _
  have hlock : Drop I 0 s { s with store := s.store.lock } := .of_le rfl (Nat.le_refl _)
  refine sat_takeInput.mono fun t _ htaken => ?_
  refine sat_float fun floatBefore hbefore => ?_
  obtain ⟨hvalue, rfl⟩ := hbefore
  refine sat_payRoute_grown.mono fun t₁ _ hroute => ?_
  refine sat_float fun hfloat => ?_
  have hcompared : Drop I value t t₁ := hroute.drop (by omega)
  refine sat_tryReclaim.mono fun u _ hreclaim => ?_
  have hunlock : Drop I 0 u { u with store := u.store.unlock } := .of_le rfl (Nat.le_refl _)
  have hall := (((hlock.trans htaken).trans hcompared).trans hreclaim).trans hunlock
  simpa using hall

/-- A quote never succeeds. -/
theorem quote_reverts {E : State → Query → State → Answer → Prop} {s : State} {value : Nat}
    {legs : List Leg} {amountIn : Nat} {reclaim : Reclaim} {post : State → Unit → Prop} :
    Sat E (quote value I legs amountIn reclaim s) post := by
  simp [quote]

theorem quoteReclaim_reverts {E : State → Query → State → Answer → Prop} {s : State}
    {reclaim : Reclaim} {post : State → Unit → Prop} :
    Sat E (quoteReclaim I reclaim s) post := by
  simp [quoteReclaim]

/-- The ether a call brings is not the caller's any more. -/
theorem sat_payIn {E : State → Query → State → Answer → Prop} {s : State} {sender : Address}
    {value : Nat} (hsender : sender ≠ I.this) {post : State → Unit → Prop}
    (h : ∀ t, t.store = s.store → held I t = held I s + value → post t ()) :
    Sat E (payIn I sender value s) post := by
  simp only [payIn, Prog.bind_apply, Prog.read_apply, Prog.write_apply, Code.bind_done,
    sat_bind, sat_done, Prog.sat_require]
  intro hfunds
  refine h _ rfl ?_
  simp only [held, Chain.moveEth_bal]
  rw [Chain.moveEth_dst hfunds hsender]
  omega

/-- What came in with a call covers a drop of as much. -/
theorem Drop.paidIn {s t u : State} {value : Nat} (hstore : t.store = s.store)
    (hpaid : held I t = held I s + value) (h : Drop I value t u) : Drop I 0 s u := by
  obtain ⟨new, hnew, hle⟩ := h
  exact ⟨new, ⟨by rw [hnew.1, hstore], hnew.2⟩, by omega⟩

/-- **No action makes the float smaller, but the owner's withdrawal.** -/
theorem drop_entry (m : Msg I) (s : State) :
    Sat ((system I).around (Drop I 0)) ((system I).entry m s) fun t _ => Drop I 0 s t := by
  obtain ⟨sender, value, call, hsender⟩ := m
  cases call with
  | swap legs amountIn amountOutMinimum recipient nativeOut reclaim gasleft =>
      simp only [system, entry, swapCall, Prog.bind_apply, sat_bind, Prog.pure_apply, sat_done]
      refine sat_payIn hsender fun t hstore hpaid => ?_
      exact sat_swap.mono fun u _ h => h.paidIn hstore hpaid
  | reclaimFor recipient r nativeOut =>
      simp only [system, entry, notPayable, Prog.bind_apply, sat_bind, Prog.pure_apply,
        sat_done, Prog.sat_require]
      exact fun _ => sat_reclaimFor
  | quote legs amountIn reclaim =>
      simp only [system, entry, Prog.bind_apply, sat_bind]
      exact sat_payIn hsender fun t _ _ => quote_reverts
  | quoteReclaim reclaim =>
      simp only [system, entry, notPayable, Prog.bind_apply, sat_bind, Prog.sat_require]
      exact fun _ => quoteReclaim_reverts
  | unlockCallback => simp [system, entry]
  | fund =>
      simp only [system, entry, fund, Prog.bind_apply, sat_bind]
      refine sat_payIn hsender fun t hstore hpaid => ?_
      refine sat_wethDeposit.mono fun u _ h => ?_
      refine Drop.paidIn hstore hpaid ?_
      obtain ⟨new, hnew, hle⟩ := h
      exact ⟨new, hnew, by omega⟩
  | withdraw recipient amount =>
      simp only [system, entry, notPayable, withdraw, onlyOwner, modify, Prog.bind_apply,
        Prog.read_apply, Prog.write_apply, Code.bind_done, sat_bind, Prog.sat_require]
      intro _ howner
      refine sat_withdrawOut.mono fun t _ h => ?_
      obtain ⟨new, hnew, hle⟩ := h
      refine ⟨new ++ [⟨sender, s.store.owner, amount⟩], ⟨?_, ?_⟩, ?_⟩
      · rw [hnew.1, List.append_assoc]
        rfl
      · intro w hw
        rcases List.mem_append.mp hw with hw | hw
        · exact hnew.2 w hw
        · rw [List.mem_singleton.mp hw]
          exact howner
      · have hsame : held I { s with store := s.store.record ⟨sender, s.store.owner, amount⟩ } =
            held I s := rfl
        rw [hsame] at hle
        rw [total_append]
        simp only [total, List.map_cons, List.map_nil, List.sum_cons, List.sum_nil] at hle ⊢
        omega
  | withdrawToken token recipient amount =>
      simp only [system, entry, notPayable, withdrawToken, onlyOwner, Prog.bind_apply,
        Prog.read_apply, Code.bind_done, sat_bind, Prog.sat_require]
      intro _ _ htoken
      refine sat_payToken.mono fun t _ h => ?_
      simpa [htoken] using h
  | setProtocolBps bps =>
      simp only [system, entry, notPayable, setProtocolBps, onlyOwner, modify, Prog.bind_apply,
        Prog.read_apply, Prog.write_apply, Code.bind_done, sat_bind, sat_done,
        Prog.sat_require]
      exact fun _ _ _ => .of_le rfl (Nat.le_refl _)
  | setRouteFeeBps bps =>
      simp only [system, entry, notPayable, setRouteFeeBps, onlyOwner, modify, Prog.bind_apply,
        Prog.read_apply, Prog.write_apply, Code.bind_done, sat_bind, sat_done,
        Prog.sat_require]
      exact fun _ _ _ => .of_le rfl (Nat.le_refl _)
  | setTreasury treasury =>
      simp only [system, entry, notPayable, setTreasury, onlyOwner, modify, Prog.bind_apply,
        Prog.read_apply, Prog.write_apply, Code.bind_done, sat_bind, sat_done,
        Prog.sat_require]
      exact fun _ _ _ => .of_le rfl (Nat.le_refl _)
  | transferOwnership owner =>
      simp only [system, entry, notPayable, transferOwnership, onlyOwner, modify,
        Prog.bind_apply, Prog.read_apply, Prog.write_apply, Code.bind_done, sat_bind, sat_done,
        Prog.sat_require]
      exact fun _ _ _ => .of_le rfl (Nat.le_refl _)

theorem Reaches.drop {s t : State} (h : (system I).Reaches s t) : Drop I 0 s t :=
  System.reaches_rel (R := Drop I 0) (Drop.refl I) (fun _ _ _ h₁ h₂ => h₁.trans h₂)
    (fun _ _ => Drop.outside) drop_entry h

end Float

/-- **The float never shrinks.**  Over every run, whatever pools, hooks, tokens
and other accounts do in it, the float at the end and what the owner withdrew
are together at least the float at the start.  So a swap that succeeds, with its
reclaim or without, leaves at least the float there was before the call, the
caller's ether not counted, unless the owner withdrew in the middle of it; and so
does a reclaim by itself. -/
theorem float_never_shrinks (I : Immutables) :
    (∀ s t, (system I).Reaches s t →
      ∃ new, t.store.withdrawals = new ++ s.store.withdrawals ∧
        (∀ w ∈ new, w.sender = w.owner) ∧ held I s ≤ held I t + total new) ∧
    (∀ s sender value legs amountIn amountOutMinimum recipient nativeOut reclaim gasleft,
      sender ≠ I.this →
      Sat ((system I).around (system I).Reaches)
        (swapCall sender value I legs amountIn amountOutMinimum recipient nativeOut reclaim
          gasleft s) fun t _ =>
        t.store.withdrawals = s.store.withdrawals → held I s ≤ held I t) ∧
    ∀ s recipient r nativeOut,
      Sat ((system I).around (system I).Reaches)
        (reclaimFor I I.this recipient r nativeOut s) fun t _ =>
        t.store.withdrawals = s.store.withdrawals → held I s ≤ held I t := by
  refine ⟨fun s t h => ?_, ?_, ?_⟩
  · obtain ⟨new, hnew, hle⟩ := Reaches.drop h
    exact ⟨new, hnew.1, hnew.2, hle⟩
  · intro s sender value legs amountIn amountOutMinimum recipient nativeOut reclaim gasleft
      hsender t out hrun hsame
    have hrun' := hrun.mono (F := (system I).around (Drop I 0)) fun _ _ _ _ hcall =>
      System.around_mono (fun _ _ h => Reaches.drop h) hcall
    have hswap : Sat ((system I).around (Drop I 0))
        (swapCall sender value I legs amountIn amountOutMinimum recipient nativeOut reclaim
          gasleft s) fun t _ => Drop I 0 s t := by
      simp only [swapCall, Prog.bind_apply, sat_bind]
      refine sat_payIn hsender fun t hstore hpaid => ?_
      exact sat_swap.mono fun u _ h => h.paidIn hstore hpaid
    exact (hswap t out hrun').held_le hsame
  · intro s recipient r nativeOut t out hrun hsame
    have hrun' := hrun.mono (F := (system I).around (Drop I 0)) fun _ _ _ _ hcall =>
      System.around_mono (fun _ _ h => Reaches.drop h) hcall
    exact (sat_reclaimFor t out hrun').held_le hsame

namespace Sample

/-- Account 5 has 50 wei, the contract 30 in WETH. -/
def start : State where
  chain := {
    bal := fun token a => if token = 101 ∧ a = 100 then 30 else 0
    eth := fun a => if a = 5 ∨ a = 101 then 50 else 0
    allowance := fun _ _ => 0
    code := fun _ => false
    erc20 := fun _ => true
    accepts := fun _ _ _ => false }
  store := {
    owner := 1, treasury := 3, protocolBps := 0, routeFeeBps := 0, locked := false
    withdrawals := [] }

/-- The owner takes 20 wei out. -/
def withdrawn : State :=
  (system Ordo.Sample.immutables).exec (ledger.lift Ordo.Sample.idle)
    ⟨1, 0, .withdraw 5 20, by decide⟩ start

theorem idle_reply (s : State) (q : Query) :
    (system Ordo.Sample.immutables).reply s q (ledger.lift Ordo.Sample.idle s q).1
      (ledger.lift Ordo.Sample.idle s q).2 :=
  ⟨rfl, Ordo.Sample.idle_reply _ _ _⟩

theorem reaches_withdrawn : (system Ordo.Sample.immutables).Reaches start withdrawn :=
  System.reaches_exec idle_reply _ _

theorem withdrawn_withdrawals : withdrawn.store.withdrawals = [⟨1, 1, 20⟩] := by
  decide

/-- A V4 pool of ether and WETH, sold ether. -/
def leg : Leg := ⟨1, [], ⟨0, 101, 0, 1, 0⟩, true⟩

end Sample

/-- The owner withdrew 20 of 30 wei and at least 10 are left; a swap of 10 wei
by account 5 leaves the float alone. -/
theorem float_never_shrinks_sample :
    30 ≤ held Ordo.Sample.immutables Sample.withdrawn + 20 ∧
    Sat ((system Ordo.Sample.immutables).around (system Ordo.Sample.immutables).Reaches)
      (swapCall 5 10 Ordo.Sample.immutables [Sample.leg] 10 0 5 false ⟨[], 0, 0, 0⟩ 0
        Sample.start)
      fun t _ => t.store.withdrawals = [] → 30 ≤ held Ordo.Sample.immutables t := by
  have hfloat := float_never_shrinks Ordo.Sample.immutables
  constructor
  · obtain ⟨new, hnew, -, hle⟩ := hfloat.1 _ _ Sample.reaches_withdrawn
    have hone : new = [⟨1, 1, 20⟩] := by
      rw [Sample.withdrawn_withdrawals] at hnew
      exact (hnew.trans (List.append_nil new)).symm
    rw [hone] at hle
    exact hle
  · exact hfloat.2.1 Sample.start 5 10 [Sample.leg] 10 0 5 false ⟨[], 0, 0, 0⟩ 0 (by decide)

end Ordo.OrdoSwapV3
