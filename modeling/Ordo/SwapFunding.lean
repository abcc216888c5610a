import Ordo.LegAccounts
import Ordo.LegTwins
import Ordo.SwapFloat

/-!
# A swap that sells ether, funded in two ways

The caller may send the ether along or let the contract pull as much WETH.  The
route and the payments behind it are the same for the same money, so whatever
the second does up to the comparison of the float, the first does too.

The comparison itself is not the same.  The float before the route is sampled
after the input has been taken, less the ether that came with the call; WETH
that was pulled stays in the sample.  So a swap funded in WETH must end with the
whole input still there, and reverts after every honest route.
-/

namespace Ordo.OrdoSwapV3

open Reentrant Legs

/-- The contract when the route starts, with the ether the caller sent. -/
def etherFunded (I : Immutables) (sender : Address) (amount : Nat) (s : State) : State where
  chain := sentEther I sender amount s.chain
  store := s.store.lock

/-- The contract when the route starts, with the WETH it pulled. -/
def wethFunded (I : Immutables) (sender : Address) (amount : Nat) (s : State) : State where
  chain := pulledWeth I sender amount s.chain
  store := s.store.lock

/-- What a swap is asked to do. -/
structure Request where
  legs : List Leg
  amountIn : Nat
  amountOutMinimum : Nat
  recipient : Address
  nativeOut : Bool
  reclaim : Reclaim
  gasleft : Nat

section Funding

variable (I : Immutables) (O : Chain → Query → Chain × Answer) (sender : Address)
  (w : Request) (s : State)

/-- The swap, with `value` ether sent along. -/
def swapWith (value : Nat) : Except Error (State × (Nat × Nat)) :=
  (swapCall sender value I w.legs w.amountIn w.amountOutMinimum w.recipient w.nativeOut
    w.reclaim w.gasleft s).eval (ledger.lift O)

/-- Both ways of funding revert, or both succeed with the same output and leave
the float as it was. -/
def FundingsAgree : Prop :=
  ((∃ e, swapWith I O sender w s w.amountIn = .error e) ∧
    ∃ e, swapWith I O sender w s 0 = .error e) ∨
  ∃ t u out, swapWith I O sender w s w.amountIn = .ok (t, out) ∧
    swapWith I O sender w s 0 = .ok (u, out) ∧ held I t = held I s ∧ held I u = held I s

/-- The contract is not locked, the arguments are in order, and the route can be
run on the ether the caller sent and its output paid out. -/
def Executes : Prop :=
  s.store.locked = false ∧
  ∃ ends, checkArgs I w.legs w.recipient w.nativeOut w.reclaim w.gasleft = .ok ends ∧
    ∃ t userOut, (payRoute I w.legs w.amountIn w.amountOutMinimum ends.2.2 w.recipient
      w.nativeOut true (etherFunded I sender w.amountIn s)).eval (ledger.lift O) =
        .ok (t, userOut)

/-- The caller sells ether: it holds the amount in either form and approved it,
the route takes ether, and no reclaim runs behind it. -/
structure SellsEther : Prop where
  sender_ne_this : sender ≠ I.this
  ether : w.amountIn ≤ s.chain.eth sender
  weth : w.amountIn ≤ s.chain.bal I.WETH sender
  approved : needsAllowance I s.chain sender → w.amountIn ≤ s.chain.allowance sender I.this
  takes : ∀ l, w.legs.head? = some l → TakesEther I l
  alone : w.reclaim.legs = []
  /-- There is not so much ether that a word could not hold it. -/
  fits : held I s + w.amountIn < 2 ^ 256

end Funding

/-! ## The route -/

section Route

variable {I : Immutables} {O : Chain → Query → Chain × Answer} {sender : Address}

theorem worth_of_isEther {token : Address} (h : isEther I token = true) (amount : Nat) :
    worth I token amount = amount := by
  have hether : I.asErc20 token = I.WETH := by
    rcases (by simpa [isEther] using h : token = I.WETH ∨ token = NATIVE) with rfl | rfl
    · simp [Immutables.asErc20, I.WETH_ne_zero]
    · simp [Immutables.asErc20]
  rw [worth, if_pos hether]

theorem worth_of_not_isEther {token : Address} (h : isEther I token = false) (amount : Nat) :
    worth I token amount = 0 := by
  have hnot : token ≠ I.WETH ∧ token ≠ NATIVE := by
    simpa [isEther] using h
  rw [worth, Immutables.asErc20, if_neg hnot.2, if_neg hnot.1]

/-- A payment costs what it pays. -/
theorem spends_deliver {c : Chain} {tokenOut recipient : Address} {nativeOut haveNative : Bool}
    {amount : Nat} :
    Sat (Honest I) (deliver I tokenOut (isEther I tokenOut) nativeOut haveNative recipient
      amount c) fun c' _ => Spends I (worth I tokenOut amount) c c' := by
  cases hether : isEther I tokenOut with
  | true =>
      rw [worth_of_isEther hether]
      cases nativeOut with
      | true =>
          simp only [deliver, if_true, Prog.bind_apply, sat_bind]
          refine ether_toNative.mono fun c₁ _ hready => ?_
          refine spends_send.mono fun c₂ _ hpaid => ?_
          simpa using (Spends.of_eq hready).trans hpaid
      | false =>
          simp only [deliver, if_true, Bool.false_eq_true, if_false, Prog.bind_apply, sat_bind]
          have hwrapped : Sat (Honest I) (wrapOut I amount haveNative c) fun c' _ =>
              c'.ether I = c.ether I := by
            cases haveNative with
            | true => exact ether_wethDeposit
            | false => simp [wrapOut]
          refine hwrapped.mono fun c₁ _ hready => ?_
          refine spends_payToken.mono fun c₂ _ hpaid => ?_
          rw [if_pos rfl] at hpaid
          simpa using (Spends.of_eq hready).trans hpaid
  | false =>
      rw [worth_of_not_isEther hether]
      have hnot : tokenOut ≠ I.WETH := fun h => by simp [isEther, h] at hether
      simp only [deliver, Bool.false_eq_true, if_false, Prog.bind_apply, sat_bind,
        Prog.sat_require]
      intro _
      refine spends_payToken.mono fun c₁ _ hpaid => ?_
      rw [if_neg hnot] at hpaid
      exact hpaid

theorem spends_deliverFee {c : Chain} {tokenOut treasury : Address}
    {nativeOut haveNative : Bool} {fee : Nat} :
    Sat (Honest I) (deliverFee I tokenOut (isEther I tokenOut) nativeOut haveNative treasury
      fee c) fun c' _ => Spends I (worth I tokenOut fee) c c' := by
  by_cases hfee : fee = 0
  · subst hfee
    simp only [deliverFee, ne_eq, not_true_eq_false, if_false, Prog.pure_apply, sat_done]
    exact ⟨Nat.le_add_right _ _, Nat.le_refl _⟩
  · simp only [deliverFee, ne_eq, hfee, not_false_eq_true, if_true]
    exact spends_deliver

/-- What honest callees make of code on the ledger, they make of it inside the
contract. -/
theorem sat_onChain_honest (hhonest : ∀ c q, Honest I c q (O c q).1 (O c q).2) {α : Type}
    {p : Op α} {s : State} {post : Chain → α → Prop} (h : Sat (Honest I) (p s.chain) post) :
    Sat (fun s q t a => ledger.lift O s q = (t, a)) (onChain p s) fun t a =>
      t.store = s.store ∧ post t.chain a := by
  apply h.zoom (L := ledger) (K := fun s t : State => t.store = s.store)
  · exact fun _ _ => rfl
  · exact fun _ _ _ h₁ h₂ => h₂.trans h₁
  · intro s q t a hcall
    cases hcall
    exact ⟨rfl, hhonest _ _⟩

theorem worth_add (token : Address) (v w : Nat) :
    worth I token (v + w) = worth I token v + worth I token w := by
  unfold worth
  split <;> rfl

/-- **The user's route and its payments** cost the contract no more ether than
went in, and with nothing in, none. -/
theorem sat_payRoute (hhonest : ∀ c q, Honest I c q (O c q).1 (O c q).2) {s : State}
    {legs : List Leg} {amountIn amountOutMinimum : Nat} {tokenOut recipient : Address}
    {nativeOut haveNative : Bool} {l : Leg} (hlast : legs.getLast? = some l)
    (houtput : outputOf l = .ok tokenOut) :
    Sat (fun s q t a => ledger.lift O s q = (t, a))
      (payRoute I legs amountIn amountOutMinimum tokenOut recipient nativeOut haveNative s)
      fun t _ => t.store = s.store ∧ Trade I s.chain t.chain amountIn 0 ∧
        (amountIn = 0 → t.chain.ether I = s.chain.ether I) := by
  simp only [payRoute, share, Prog.bind_apply, sat_bind, Prog.sat_require, Prog.sat_orRevert,
    Prog.pure_apply, sat_done, Prog.read_apply, subU_eq_some]
  refine (sat_onChain_honest hhonest (trade_run hlast houtput)).mono fun t₁ out hrun => ?_
  intro product _ userOut hshare _
  refine (sat_onChain_honest hhonest spends_deliver).mono fun t₂ _ hpaid => ?_
  refine (sat_onChain_honest hhonest spends_deliverFee).mono fun t₃ _ hfee => ?_
  obtain ⟨hstore₁, htrade, hnothing⟩ := hrun
  have hspent := hpaid.2.trans hfee.2
  have hsplit := worth_add (I := I) tokenOut userOut (product / 10000)
  have hwhole : userOut + product / 10000 = out.1 := by omega
  rw [hwhole] at hsplit
  have hall := htrade.trans hspent.trade
  refine ⟨(hfee.1.trans hpaid.1).trans hstore₁, ⟨?_, hall.fits⟩, fun hzero => ?_⟩
  · have hcovers := hall.covers
    omega
  · obtain ⟨hout, hsame⟩ := hnothing hzero
    have hworth := worth_le (I := I) tokenOut out.1
    unfold Spends at hspent
    omega

/-- The payments do not look at what their payer has left. -/
theorem steady_deliver (hsender : sender ≠ I.this) (hblind : Blind I sender O)
    (tokenOut : Address) (etherOut nativeOut haveNative : Bool) (recipient : Address)
    (amount : Nat) : Steady O (Twin I sender)
      (deliver I tokenOut etherOut nativeOut haveNative recipient amount) := by
  unfold deliver
  split
  · split
    · apply (steady_toNative hsender amount haveNative).bind
      exact fun _ => steady_send hsender hblind recipient amount
    · have hwrap : Steady O (Twin I sender) (wrapOut I amount haveNative) := by
        unfold wrapOut
        split
        · exact steady_wethDeposit hsender amount
        · exact steady_pure _
      exact hwrap.bind fun _ => steady_payToken hsender hblind _ _ _
  · exact (steady_require _ _).bind fun _ => steady_payToken hsender hblind _ _ _

theorem steady_deliverFee (hsender : sender ≠ I.this) (hblind : Blind I sender O)
    (tokenOut : Address) (etherOut nativeOut haveNative : Bool) (treasury : Address)
    (fee : Nat) : Steady O (Twin I sender)
      (deliverFee I tokenOut etherOut nativeOut haveNative treasury fee) := by
  unfold deliverFee
  split
  · exact steady_deliver hsender hblind _ _ _ _ _ _
  · exact steady_pure _

theorem related_store {R : Chain → Chain → Prop} {s t : State} (h : ledger.Related R s t) :
    s.store = t.store := by
  have hstore := congrArg State.store h.2
  exact hstore

/-- **What a route and its payments do with pulled WETH, they do with ether that
was sent.** -/
theorem mirrors_payRoute (hblind : Blind I sender O) {s : State} {legs : List Leg}
    {amountIn amountOutMinimum : Nat} {tokenOut recipient : Address} {nativeOut : Bool}
    (hsender : sender ≠ I.this) (heth : amountIn ≤ s.chain.eth sender)
    (hweth : amountIn ≤ s.chain.bal I.WETH sender)
    (htakes : ∀ l, legs.head? = some l → TakesEther I l) :
    Mirrors (ledger.lift O) (ledger.Related (Twin I sender))
      (payRoute I legs amountIn amountOutMinimum tokenOut recipient nativeOut true
        (etherFunded I sender amountIn s))
      (payRoute I legs amountIn amountOutMinimum tokenOut recipient nativeOut false
        (wethFunded I sender amountIn s)) := by
  have hrun := mirrors_run (O := O) hsender hblind heth hweth htakes
  have hstart : ledger.set (etherFunded I sender amountIn s)
      (ledger.get (wethFunded I sender amountIn s)) = wethFunded I sender amountIn s := rfl
  simp only [payRoute, Prog.bind_apply, Prog.read_apply, Code.bind_done]
  apply (hrun.zoom (f := Error.venue) hstart).bind
  intro s₁ t₁ out hrel₁
  have hstore₁ : s₁.store = t₁.store := related_store hrel₁
  rw [hstore₁]
  have hshare : Steady (ledger.lift O) (ledger.Related (Twin I sender))
      (share out.1 t₁.store.routeFeeBps) :=
    (steady_orRevert _ _).bind fun _ => steady_pure _
  apply (hshare s₁ t₁ hrel₁).bind
  intro s₂ t₂ fee hrel₂
  apply (steady_orRevert (subU out.1 fee) Error.Panic s₂ t₂ hrel₂).bind
  intro s₃ t₃ userOut hrel₃
  apply (mirrors_require hrel₃ id).bind
  intro s₄ t₄ _ hrel₄
  have hdeliver := (steady_deliver hsender hblind tokenOut (isEther I tokenOut) nativeOut out.2
    recipient userOut).zoom (L := ledger) (f := Error.venue)
  apply (hdeliver s₄ t₄ hrel₄).bind
  intro s₅ t₅ _ hrel₅
  have hstore₅ : s₅.store = t₅.store := related_store hrel₅
  rw [hstore₅]
  have hfee := (steady_deliverFee hsender hblind tokenOut (isEther I tokenOut) nativeOut out.2
    t₅.store.treasury fee).zoom (L := ledger) (f := Error.venue)
  apply (hfee s₅ t₅ hrel₅).bind
  intro s₆ t₆ _ hrel₆
  exact mirrors_done userOut hrel₆

end Route

/-! ## The swap -/

/-- What the argument checks say about the ends of the route. -/
theorem checkArgs_ok {I : Immutables} {legs : List Leg} {recipient : Address}
    {nativeOut : Bool} {reclaim : Reclaim} {gasleft : Nat} {ends : Address × Bool × Address}
    (h : checkArgs I legs recipient nativeOut reclaim gasleft = .ok ends) :
    ∃ firstLeg lastLeg, legs.head? = some firstLeg ∧ legs.getLast? = some lastLeg ∧
      inputOf firstLeg = .ok (ends.1, ends.2.1) ∧ outputOf lastLeg = .ok ends.2.2 := by
  unfold checkArgs at h
  split at h
  · cases h
  · split at h
    · next firstLeg lastLeg hfirst hlast =>
        split at h
        · cases h
        · split at h
          · next input tokenOut hin hout =>
              split at h
              · cases h
              · cases h
                exact ⟨firstLeg, lastLeg, hfirst, hlast, hin, hout⟩
          · cases h
          · cases h
    · cases h

section Swap

variable {I : Immutables} {O : Chain → Query → Chain × Answer} {sender : Address}
  {w : Request} {s : State}

/-- The float can be read while it fits in a word. -/
theorem float_eq {s : State} (h : held I s < 2 ^ 256) : float I s = .done s (held I s) := by
  have hfits : addU (s.chain.bal I.WETH I.this) (s.chain.eth I.this) = some (held I s) := by
    rw [addU_eq_some]
    exact ⟨h, rfl⟩
  simp [float, onChain, balanceOf, ledger, hfits]

theorem moveEth_zero (c : Chain) (src dst : Address) : c.moveEth src dst 0 = c := by
  have hsame : moved c.eth src dst 0 = c.eth := by
    funext a
    have hmove := moved_apply (f := c.eth) dst (Nat.zero_le (c.eth src)) a
    split at hmove <;> split at hmove <;> omega
  rw [Chain.moveEth, hsame]

theorem held_etherFunded (hsender : sender ≠ I.this) {amount : Nat}
    (h : amount ≤ s.chain.eth sender) :
    held I (etherFunded I sender amount s) = held I s + amount := by
  simp only [held, etherFunded, sentEther, Chain.moveEth_bal]
  rw [Chain.moveEth_dst h hsender]
  omega

theorem held_wethFunded (hsender : sender ≠ I.this) {amount : Nat}
    (h : amount ≤ s.chain.bal I.WETH sender) :
    held I (wethFunded I sender amount s) = held I s + amount := by
  have hpulled := pulledWeth_bal h I.WETH I.this
  rw [if_neg (fun hthis => hsender hthis.2.symm), if_pos ⟨rfl, rfl⟩] at hpulled
  have hether : (pulledWeth I sender amount s.chain).eth I.this = s.chain.eth I.this :=
    pulledWeth_eth I.this
  simp only [held, wethFunded]
  omega

/-- Funded in ether, the swap reaches its route with that ether. -/
theorem executes_of_ether (hne : w.amountIn ≠ 0) {t : State} {out : Nat × Nat}
    (h : swapWith I O sender w s w.amountIn = .ok (t, out)) : Executes I O sender w s := by
  refine Sat.eval (?_ : Sat _ _ fun _ _ => Executes I O sender w s) h
  simp only [swapCall, swap, payIn, nonReentrant, modify, takeInput, hne, ne_eq,
    not_false_eq_true, if_true, Prog.bind_apply, Prog.read_apply, Prog.write_apply,
    Code.bind_done, sat_bind, sat_done, Prog.sat_require, Prog.sat_ofExcept, Prog.pure_apply]
  intro _ hlocked ends hends _ _
  refine sat_float ?_
  simp only [Prog.sat_orRevert]
  intro _ _
  refine (sat_eval _ _).mono fun t₁ userOut hroute => ?_
  have hexec : Executes I O sender w s :=
    ⟨hlocked, ends, hends, t₁, userOut, by simpa [etherFunded, sentEther] using hroute⟩
  refine ((sat_true _).mpr trivial).mono fun _ _ _ _ => ?_
  exact ((sat_true _).mpr trivial).mono fun _ _ _ => hexec

/-- The input of a swap that sells ether is pulled in WETH. -/
theorem sat_pulled {E : State → Query → State → Answer → Prop} {tokenIn : Address}
    {nativeIn : Bool} {amount : Nat} (htakes : tokenIn = I.WETH ∨ nativeIn = true)
    {post : State → Unit → Prop}
    (h : amount ≤ s.chain.bal I.WETH sender →
      post { s with chain := pulledWeth I sender amount s.chain } ()) :
    Sat E (takeInput I sender 0 tokenIn nativeIn amount s) post := by
  have htoken : (if nativeIn then I.WETH else tokenIn) = I.WETH := by
    rcases htakes with rfl | rfl
    · exact ite_self _
    · rfl
  simp only [takeInput, ne_eq, not_true_eq_false, if_false, htoken, onChain, pull, wethPull,
    if_true, Prog.zoom_bind, Prog.zoom_read, Prog.zoom_require, Prog.zoom_write,
    Code.bind_done, sat_bind, sat_done, Prog.sat_require, ledger]
  exact fun hfunds => h hfunds.1

/-- Funded in WETH, the swap reaches its route with the WETH it pulled, and ends,
whoever acts in it, with all of that still there. -/
theorem sat_wethSwap (E : State → Query → State → Answer → Prop)
    (hsells : SellsEther I sender w s) (reached : Prop)
    (hreached : ∀ ends, s.store.locked = false →
      checkArgs I w.legs w.recipient w.nativeOut w.reclaim w.gasleft = .ok ends →
      Sat E (payRoute I w.legs w.amountIn w.amountOutMinimum ends.2.2 w.recipient w.nativeOut
        false (wethFunded I sender w.amountIn s)) fun _ _ => reached) :
    Sat E (swapCall sender 0 I w.legs w.amountIn w.amountOutMinimum w.recipient w.nativeOut
      w.reclaim w.gasleft s) fun t _ => held I s + w.amountIn ≤ held I t ∧ reached := by
  simp only [swapCall, swap, payIn, nonReentrant, modify, moveEth_zero, Prog.bind_apply,
    Prog.read_apply, Prog.write_apply, Code.bind_done, sat_bind, sat_done, Prog.sat_require,
    Prog.sat_ofExcept, Prog.pure_apply]
  intro _ hlocked ends hends
  obtain ⟨firstLeg, lastLeg, hfirst, -, hinput, -⟩ := checkArgs_ok hends
  refine sat_pulled (hsells.takes firstLeg hfirst _ hinput) fun hweth => ?_
  refine sat_float ?_
  simp only [Prog.sat_orRevert, subU_eq_some]
  intro floatBefore hbefore
  obtain ⟨-, rfl⟩ := hbefore
  refine (hreached ends hlocked hends).mono fun t₁ userOut hroute => ?_
  refine sat_float fun hfloat => ?_
  have hheld := held_wethFunded (I := I) hsells.sender_ne_this hweth
  simp only [tryReclaim, hsells.alone, ne_eq, not_true_eq_false, if_false, Prog.pure_apply,
    sat_done]
  refine ⟨?_, hroute⟩
  simp only [held, wethFunded] at hheld hfloat ⊢
  omega

/-- Whatever the swap does up to its comparison when it is funded in WETH, it
does when it is funded in ether. -/
theorem executes_of_weth (hsells : SellsEther I sender w s) (hblind : Blind I sender O)
    {t : State} {out : Nat × Nat} (h : swapWith I O sender w s 0 = .ok (t, out)) :
    Executes I O sender w s := by
  have hswap := sat_wethSwap (fun s q t a => ledger.lift O s q = (t, a)) hsells
    (Executes I O sender w s) fun ends hlocked hends => by
      refine (sat_eval _ _).mono fun t₁ userOut hroute => ?_
      obtain ⟨t₂, hother, -⟩ := mirrors_payRoute hblind hsells.sender_ne_this hsells.ether
        hsells.weth hsells.takes _ _ hroute
      exact ⟨hlocked, ends, hends, t₂, userOut, hother⟩
  exact (hswap.eval h).2

/-- Funded in ether, a swap whose route can be run and paid for succeeds. -/
theorem ether_of_executes (hsells : SellsEther I sender w s)
    (hhonest : ∀ c q, Honest I c q (O c q).1 (O c q).2) (hne : w.amountIn ≠ 0)
    (h : Executes I O sender w s) :
    ∃ t out, swapWith I O sender w s w.amountIn = .ok (t, out) := by
  obtain ⟨hlocked, ends, hends, t, userOut, hroute⟩ := h
  obtain ⟨firstLeg, lastLeg, hfirst, hlast, hinput, houtput⟩ := checkArgs_ok hends
  have htakes := hsells.takes firstLeg hfirst _ hinput
  have hheld := held_etherFunded (I := I) hsells.sender_ne_this hsells.ether
  have hfits : held I (etherFunded I sender w.amountIn s) < 2 ^ 256 := by
    rw [hheld]
    exact hsells.fits
  obtain ⟨-, htrade, -⟩ := (sat_payRoute hhonest hlast houtput).eval hroute
  have hcovers : held I (etherFunded I sender w.amountIn s) + 0 ≤ held I t + w.amountIn :=
    htrade.covers
  have hafter : held I t < 2 ^ 256 := htrade.fits hfits
  have hbefore : subU (held I (etherFunded I sender w.amountIn s)) w.amountIn =
      some (held I s) := by
    rw [subU_eq_some]
    omega
  have hkept : held I s ≤ held I t := by omega
  refine ⟨{ t with store := t.store.unlock }, (userOut, 0), ?_⟩
  have hstart : ({ chain := s.chain.moveEth sender I.this w.amountIn
                   store := s.store.lock } : State) = etherFunded I sender w.amountIn s := rfl
  unfold swapWith swapCall payIn swap nonReentrant modify takeInput
  simp [Code.eval_bind, Except.bind, hsells.ether, hlocked, hends, hne, htakes, hstart,
    float_eq hfits, hbefore, hroute, float_eq hafter, hkept, tryReclaim, hsells.alone]

/-- With nothing in, the two are one and the same swap, and it leaves the float
as it was. -/
theorem held_of_nothing (hsells : SellsEther I sender w s)
    (hhonest : ∀ c q, Honest I c q (O c q).1 (O c q).2) (hzero : w.amountIn = 0) {t : State}
    {out : Nat × Nat} (h : swapWith I O sender w s 0 = .ok (t, out)) :
    held I t = held I s := by
  refine Sat.eval (?_ : Sat _ _ fun t _ => held I t = held I s) h
  simp only [swapCall, swap, payIn, nonReentrant, modify, moveEth_zero, Prog.bind_apply,
    Prog.read_apply, Prog.write_apply, Code.bind_done, sat_bind, sat_done, Prog.sat_require,
    Prog.sat_ofExcept, Prog.pure_apply]
  intro _ _ ends hends
  obtain ⟨firstLeg, lastLeg, hfirst, hlast, hinput, houtput⟩ := checkArgs_ok hends
  refine sat_pulled (hsells.takes firstLeg hfirst _ hinput) fun hweth => ?_
  refine sat_float ?_
  simp only [Prog.sat_orRevert]
  intro _ _
  refine (sat_payRoute hhonest hlast houtput).mono fun t₁ userOut hroute => ?_
  refine sat_float fun _ => ?_
  simp only [tryReclaim, hsells.alone, ne_eq, not_true_eq_false, if_false, Prog.pure_apply,
    sat_done]
  have hheld := held_wethFunded (I := I) hsells.sender_ne_this hsells.weth
  have hsame := hroute.2.2 hzero
  simp only [held, wethFunded, Chain.ether] at hheld hsame ⊢
  omega

/-- **When the two fundings agree.**  Whatever honest venues the route runs on,
a swap that sells ether comes to the same with either funding just when nothing
goes in or the route cannot be run and paid for, so that both revert. -/
theorem fundings_agree_iff (hsells : SellsEther I sender w s) (hblind : Blind I sender O)
    (hhonest : ∀ c q, Honest I c q (O c q).1 (O c q).2) :
    FundingsAgree I O sender w s ↔ w.amountIn = 0 ∨ ¬ Executes I O sender w s := by
  constructor
  · intro hagree
    by_contra hboth
    obtain ⟨hne, hexec⟩ := not_or.mp hboth
    have hexec := not_not.mp hexec
    obtain ⟨t, out, hether⟩ := ether_of_executes hsells hhonest hne hexec
    rcases hagree with ⟨⟨e, hfails⟩, -⟩ | ⟨t', u, out', -, hweth, -, hfloat⟩
    · rw [hether] at hfails
      cases hfails
    · have hswap := sat_wethSwap (fun s q t a => ledger.lift O s q = (t, a)) hsells True
        fun _ _ _ => (sat_true _).mpr trivial
      have hkept := (hswap.eval hweth).1
      omega
  · intro hcond
    by_cases hzero : w.amountIn = 0
    · cases hrun : swapWith I O sender w s 0 with
      | error e => exact Or.inl ⟨⟨e, by rw [hzero]; exact hrun⟩, e, hrun⟩
      | ok r =>
          have hheld := held_of_nothing hsells hhonest hzero hrun
          exact Or.inr ⟨r.1, r.1, r.2, by rw [hzero]; exact hrun, hrun, hheld, hheld⟩
    · have hnot := hcond.resolve_left hzero
      left
      constructor
      · cases hrun : swapWith I O sender w s w.amountIn with
        | error e => exact ⟨e, rfl⟩
        | ok r => exact absurd (executes_of_ether hzero hrun) hnot
      · cases hrun : swapWith I O sender w s 0 with
        | error e => exact ⟨e, rfl⟩
        | ok r => exact absurd (executes_of_weth hsells hblind hrun) hnot

end Swap

/-! ## A market of one pool -/

namespace Sample

/-- No ether changes hands, and what does is worth none. -/
theorem ether_given (c : Chain) (token src dst : Address) (amount : Nat) (answer : Answer) :
    (Sample.given c token src dst amount answer).1.ether Ordo.Sample.immutables =
        c.ether Ordo.Sample.immutables ∧
      ((Sample.given c token src dst amount answer).2 ≠ .fail →
        worth Ordo.Sample.immutables token amount = 0) := by
  unfold Sample.given
  split
  · next hgiven =>
      have hne : (101 : Address) ≠ token := hgiven.2.1.symm
      constructor
      · simp [Chain.ether, Chain.move, Ordo.Sample.immutables, Function.update_of_ne hne]
      · intro _
        simp [worth, Immutables.asErc20, NATIVE, hgiven.1, Ordo.Sample.immutables, hgiven.2.1]
  · exact ⟨rfl, fun hok => absurd rfl hok⟩

theorem honest_market (c : Chain) (q : Query) :
    Honest Ordo.Sample.immutables c q (Sample.market c q).1 (Sample.market c q).2 := by
  cases q with
  | exactInput path amountIn => exact ⟨id, fun _ _ _ _ _ h => by cases h⟩
  | poolSwap key zeroForOne specified limit =>
      exact ⟨id, rfl, fun delta hdelta _ => by rw [Sample.dIn_traded hdelta]⟩
  | take currency amount =>
      obtain ⟨hsame, hworth⟩ := ether_given c currency 103 100 amount .empty
      exact ⟨hsame.trans_lt, fun hok => hsame.trans (by rw [hworth hok]; rfl)⟩
  | transfer token dst amount =>
      obtain ⟨hsame, -⟩ := ether_given c token 100 dst amount (.bool true)
      exact ⟨hsame.trans_lt, hsame⟩
  | transferFrom token src dst amount =>
      obtain ⟨hsame, -⟩ := ether_given c token src dst amount (.bool true)
      exact ⟨hsame.trans_lt, hsame⟩
  | approve | unlock | sync | settle | relock | send => exact ⟨id, rfl⟩

theorem twin_given {c d : Chain} (h : Twin Ordo.Sample.immutables 5 c d)
    (token src dst : Address) (amount : Nat) (answer : Answer) :
    (Sample.given c token src dst amount answer).2 =
        (Sample.given d token src dst amount answer).2 ∧
      Twin Ordo.Sample.immutables 5 (Sample.given c token src dst amount answer).1
        (Sample.given d token src dst amount answer).1 := by
  by_cases htoken : token ≠ 0 ∧ token ≠ 101
  · have hnot : ¬ (token = 101 ∧ src = 5) := fun hweth => htoken.2 hweth.1
    have hsame : c.bal token src = d.bal token src := h.bal token src hnot
    unfold Sample.given
    rw [hsame]
    split
    · next hgiven => exact ⟨rfl, h.move dst hnot hgiven.2.2⟩
    · exact ⟨rfl, h⟩
  · have hno (c : Chain) : Sample.given c token src dst amount answer = (c, .fail) :=
      if_neg fun hgiven => htoken ⟨hgiven.1, hgiven.2.1⟩
    rw [hno c, hno d]
    exact ⟨rfl, h⟩

theorem blind_market : Blind Ordo.Sample.immutables 5 Sample.market := by
  intro c d q h
  cases q with
  | take currency amount => exact twin_given h _ _ _ _ _
  | transfer token dst amount => exact twin_given h _ _ _ _ _
  | transferFrom token src dst amount => exact twin_given h _ _ _ _ _
  | poolSwap | approve | exactInput | unlock | sync | settle | relock | send =>
      exact ⟨rfl, h⟩

/-- Account 5 has 50 wei and 50 in WETH, all approved; the float is 30 in WETH,
and the PoolManager has token 200. -/
def opened : State where
  chain := {
    bal := fun token a =>
      if token = 101 then (if a = 100 then 30 else if a = 5 then 50 else 0)
      else if token = 200 ∧ a = 103 then 1000 else 0
    eth := fun a => if a = 5 then 50 else if a = 101 then 80 else 0
    allowance := fun _ _ => 50
    code := fun _ => false
    erc20 := fun _ => true
    accepts := fun _ _ _ => false }
  store := start.store

/-- Ten wei for token 200. -/
def request : Request where
  legs := [⟨1, [], ⟨0, 200, 0, 1, 0⟩, true⟩]
  amountIn := 10
  amountOutMinimum := 10
  recipient := 5
  nativeOut := false
  reclaim := ⟨[], 0, 0, 0⟩
  gasleft := 0

theorem sells_request (n : Nat) (hn : n ≤ 50) :
    SellsEther Ordo.Sample.immutables 5 { request with amountIn := n } opened where
  sender_ne_this := by decide
  ether := hn
  weth := hn
  approved := fun _ => hn
  takes l hl input hinput := by
    cases hl
    cases hinput
    exact Or.inr rfl
  alone := rfl
  fits := by
    have hheld : held Ordo.Sample.immutables opened = 30 := rfl
    simp only
    omega

end Sample

/-- Ten wei of ether buy ten of token 200, and as much WETH reverts: the two
fundings disagree.  Nothing at all is swapped alike with either. -/
theorem fundings_agree_iff_sample :
    ¬ FundingsAgree Ordo.Sample.immutables Sample.market 5 Sample.request Sample.opened ∧
      FundingsAgree Ordo.Sample.immutables Sample.market 5
        { Sample.request with amountIn := 0 } Sample.opened := by
  constructor
  · have hiff := fundings_agree_iff (Sample.sells_request 10 (by decide)) Sample.blind_market
      Sample.honest_market
    intro hagree
    rcases hiff.mp hagree with hzero | hnot
    · exact absurd hzero (by decide)
    · exact hnot ⟨rfl, (0, true, 200), rfl, _, 10, rfl⟩
  · have hiff := fundings_agree_iff (Sample.sells_request 0 (by decide)) Sample.blind_market
      Sample.honest_market
    exact hiff.mpr (Or.inl rfl)

/-- The caller holds and approved the amount and the pool is honest; the swap
funded in ether succeeds, and funded in WETH it reverts with `FloatTouched`,
having found 30 of float after the route and 40, the input among them, before. -/
theorem pulled_weth_is_refused :
    SellsEther Ordo.Sample.immutables 5 Sample.request Sample.opened ∧
      Blind Ordo.Sample.immutables 5 Sample.market ∧
      (∀ c q, Honest Ordo.Sample.immutables c q (Sample.market c q).1 (Sample.market c q).2) ∧
      (∃ t, swapWith Ordo.Sample.immutables Sample.market 5 Sample.request Sample.opened 10 =
        .ok (t, (10, 0)) ∧ held Ordo.Sample.immutables t = 30) ∧
      swapWith Ordo.Sample.immutables Sample.market 5 Sample.request Sample.opened 0 =
        .error (.FloatTouched 40 30) ∧
      ¬ FundingsAgree Ordo.Sample.immutables Sample.market 5 Sample.request Sample.opened := by
  have hether : ∃ t, swapWith Ordo.Sample.immutables Sample.market 5 Sample.request
      Sample.opened 10 = .ok (t, (10, 0)) ∧ held Ordo.Sample.immutables t = 30 :=
    ⟨_, rfl, rfl⟩
  have hweth : swapWith Ordo.Sample.immutables Sample.market 5 Sample.request Sample.opened 0 =
      .error (.FloatTouched 40 30) := rfl
  refine ⟨Sample.sells_request 10 (by decide), Sample.blind_market, Sample.honest_market, hether,
    hweth, ?_⟩
  intro hagree
  rcases hagree with ⟨⟨e, hfails⟩, -⟩ | ⟨t, u, out, -, hok, -, -⟩
  · obtain ⟨t, hok, -⟩ := hether
    have hboth := hok.symm.trans hfails
    cases hboth
  · rw [hweth] at hok
    cases hok

end Ordo.OrdoSwapV3
