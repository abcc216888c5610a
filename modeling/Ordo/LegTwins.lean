import Ordo.Reentrant.Mirror
import Ordo.Legs

/-!
# The same legs for the same money

Two ledgers are twins when they differ only in what one account, the payer, has
left of its ether and its WETH, in the allowance it gave, and in how much ether
lies behind WETH.  The legs, and the payments of what they produce, never look
at any of these but the last, which they only ask to be enough.  So from twins
they do the same, as long as those they call do not look either.
-/

namespace Ordo

open Reentrant Legs V4Swap

/-- Ledgers alike but for the payer's own ether, WETH and allowance; the first
has no less ether behind WETH. -/
structure Twin (I : Immutables) (payer : Address) (c d : Chain) : Prop where
  bal : ∀ token a, ¬ (token = I.WETH ∧ a = payer) → c.bal token a = d.bal token a
  eth : ∀ a, a ≠ payer → a ≠ I.WETH → c.eth a = d.eth a
  reserve : d.eth I.WETH ≤ c.eth I.WETH
  allowance : ∀ owner spender, ¬ (owner = payer ∧ spender = I.this) →
    c.allowance owner spender = d.allowance owner spender
  code : c.code = d.code
  erc20 : c.erc20 = d.erc20
  accepts : c.accepts = d.accepts

/-- Those called do the same from twins. -/
def Blind (I : Immutables) (payer : Address) (O : Chain → Query → Chain × Answer) : Prop :=
  ∀ c d q, Twin I payer c d →
    (O c q).2 = (O d q).2 ∧ Twin I payer (O c q).1 (O d q).1

section Twin

variable {I : Immutables} {payer : Address} {c d : Chain}

theorem Twin.weth_this (h : Twin I payer c d) (hpayer : payer ≠ I.this) :
    c.bal I.WETH I.this = d.bal I.WETH I.this :=
  h.bal _ _ fun hthis => hpayer hthis.2.symm

theorem Twin.eth_this (h : Twin I payer c d) (hpayer : payer ≠ I.this) :
    c.eth I.this = d.eth I.this :=
  h.eth _ hpayer.symm I.WETH_ne_this.symm

theorem Twin.setBal (h : Twin I payer c d) (token a : Address) (v : Nat) :
    Twin I payer (c.setBal token a v) (d.setBal token a v) where
  bal x b hx := by rw [Chain.setBal_bal, Chain.setBal_bal, h.bal x b hx]
  eth := h.eth
  reserve := h.reserve
  allowance := h.allowance
  code := h.code
  erc20 := h.erc20
  accepts := h.accepts

theorem Twin.setAllowance (h : Twin I payer c d) (owner spender : Address) (v : Nat) :
    Twin I payer (c.setAllowance owner spender v) (d.setAllowance owner spender v) where
  bal := h.bal
  eth := h.eth
  reserve := h.reserve
  allowance x y hx := by
    rw [Chain.setAllowance_allowance, Chain.setAllowance_allowance, h.allowance x y hx]
  code := h.code
  erc20 := h.erc20
  accepts := h.accepts

theorem Twin.move (h : Twin I payer c d) {token src : Address} (dst : Address) {v : Nat}
    (hsrc : ¬ (token = I.WETH ∧ src = payer)) (hv : v ≤ d.bal token src) :
    Twin I payer (c.move token src dst v) (d.move token src dst v) where
  bal x a hx := by
    have hv' : v ≤ c.bal token src := by rw [h.bal token src hsrc]; exact hv
    have hc := Chain.move_bal dst hv' x a
    have hd := Chain.move_bal dst hv x a
    rw [h.bal x a hx] at hc
    omega
  eth := h.eth
  reserve := h.reserve
  allowance := h.allowance
  code := h.code
  erc20 := h.erc20
  accepts := h.accepts

/-- Both have what the second can spare. -/
theorem Twin.moveEth (h : Twin I payer c d) {src : Address} (dst : Address) {v : Nat}
    (hc : v ≤ c.eth src) (hd : v ≤ d.eth src) :
    Twin I payer (c.moveEth src dst v) (d.moveEth src dst v) where
  bal := h.bal
  eth a ha hweth := by
    have hcm := Chain.moveEth_eth dst hc a
    have hdm := Chain.moveEth_eth dst hd a
    rw [h.eth a ha hweth] at hcm
    omega
  reserve := by
    have hcm := Chain.moveEth_eth dst hc I.WETH
    have hdm := Chain.moveEth_eth dst hd I.WETH
    have hreserve := h.reserve
    omega
  allowance := h.allowance
  code := h.code
  erc20 := h.erc20
  accepts := h.accepts

end Twin

section Steady

variable {I : Immutables} {payer : Address} {O : Chain → Query → Chain × Answer}

theorem steady_wethDeposit (hpayer : payer ≠ I.this) (amount : Nat) :
    Steady O (Twin I payer) (wethDeposit I amount) := by
  apply steady_guarded
  intro c d h hd
  have hc : amount ≤ c.eth I.this := by
    rw [h.eth_this hpayer]
    exact hd
  have hmove := h.moveEth I.WETH hc hd
  rw [h.weth_this hpayer]
  exact ⟨hc, hmove.setBal _ _ _⟩

theorem steady_wethWithdraw (hpayer : payer ≠ I.this) (amount : Nat) :
    Steady O (Twin I payer) (wethWithdraw I amount) := by
  apply steady_guarded
  intro c d h hd
  have hreserve : amount ≤ c.eth I.WETH := hd.2.trans h.reserve
  have hset := h.setBal I.WETH I.this (d.bal I.WETH I.this - amount)
  rw [h.weth_this hpayer]
  exact ⟨⟨hd.1, hreserve⟩, hset.moveEth I.this hreserve hd.2⟩

theorem steady_wethTransfer (hpayer : payer ≠ I.this) (dst : Address) (amount : Nat) :
    Steady O (Twin I payer) (wethTransfer I dst amount) := by
  apply steady_guarded
  intro c d h hd
  rw [h.weth_this hpayer]
  exact ⟨hd, h.move dst (fun hthis => hpayer hthis.2.symm) hd⟩

theorem steady_payEther (hpayer : payer ≠ I.this) (dst : Address) (amount : Nat)
    (e : VenueError) : Steady O (Twin I payer) (payEther I dst amount e) := by
  apply steady_guarded
  intro c d h hd
  have hc : amount ≤ c.eth I.this := by
    rw [h.eth_this hpayer]
    exact hd
  exact ⟨hc, h.moveEth dst hc hd⟩

theorem steady_ask (hblind : Blind I payer O) (q : Query) :
    Steady O (Twin I payer) (Prog.ask q : Op Answer) := by
  intro c d h
  have hsame := hblind c d q h
  exact mirrors_ask hsame.1 hsame.2

/-- A call whose answer is only read. -/
theorem steady_asked {α : Type} (hblind : Blind I payer O) (q : Query)
    (read : Answer → Except VenueError α) :
    Steady O (Twin I payer) (Prog.ask q >>= fun a => Prog.ofExcept (read a) : Op α) :=
  (steady_ask hblind q).bind fun _ => steady_ofExcept _

theorem steady_approve (hblind : Blind I payer O) (token : Address) (amount : Nat) :
    Steady O (Twin I payer) (approve I token amount) := by
  unfold approve
  split
  · intro c d h
    exact mirrors_done () (h.setAllowance _ _ _)
  · exact steady_asked hblind _ _

theorem steady_transfer (hpayer : payer ≠ I.this) (hblind : Blind I payer O)
    (token dst : Address) (amount : Nat) :
    Steady O (Twin I payer) (transfer I token dst amount) := by
  unfold transfer
  split
  · exact (steady_wethTransfer hpayer dst amount).bind fun _ => steady_pure _
  · exact steady_asked hblind _ _

theorem steady_payToken (hpayer : payer ≠ I.this) (hblind : Blind I payer O)
    (token dst : Address) (amount : Nat) :
    Steady O (Twin I payer) (payToken I token dst amount) :=
  (steady_transfer hpayer hblind token dst amount).bind fun _ => steady_require _ _

theorem steady_send (hpayer : payer ≠ I.this) (hblind : Blind I payer O)
    (recipient : Address) (amount : Nat) :
    Steady O (Twin I payer) (send I recipient amount) := by
  unfold send
  split
  · exact steady_revert _
  · split
    · have hwrap := steady_wethDeposit (O := O) hpayer amount
      apply steady_checked _ hwrap
      intro c d h hd
      rw [h.eth_this hpayer]
      exact hd
    · have hpaid := steady_payEther (O := O) hpayer recipient amount .TransferFailed
      exact hpaid.bind fun _ => (steady_ask hblind _).bind fun _ => steady_require _ _

/-! ## Legs -/

theorem steady_pay (hpayer : payer ≠ I.this) (hblind : Blind I payer O)
    (currency : Address) (amount : Nat) :
    Steady O (Twin I payer) (pay I currency amount) := by
  unfold pay
  split
  · exact (steady_payEther hpayer _ _ _).bind fun _ => steady_asked hblind _ _
  · have hsync := steady_asked hblind (.sync currency) succeeded
    have htransfer := steady_transfer hpayer hblind currency I.poolManager amount
    apply Steady.bind (steady_ask hblind _)
    intro synced
    apply Steady.bind (steady_ofExcept _)
    intro _
    exact htransfer.bind fun _ => steady_asked hblind _ _

theorem steady_payOwed (hpayer : payer ≠ I.this) (hblind : Blind I payer O)
    (currency : Address) (d : Int) : Steady O (Twin I payer) (payOwed I currency d) := by
  unfold payOwed
  split
  · exact (steady_require _ _).bind fun _ => steady_pay hpayer hblind _ _
  · exact steady_pure _

theorem steady_takeOwed (hblind : Blind I payer O) (currency : Address) (out : Nat) :
    Steady O (Twin I payer) (takeOwed currency out) := by
  unfold takeOwed
  split
  · exact steady_asked hblind _ _
  · exact steady_pure _

theorem steady_unlockCallback (hpayer : payer ≠ I.this) (hblind : Blind I payer O)
    (key : PoolKey) (zeroForOne : Bool) (amountIn minOut : Nat) :
    Steady O (Twin I payer) (unlockCallback I key zeroForOne amountIn minOut) := by
  unfold unlockCallback
  apply Steady.bind (steady_orRevert _ _)
  intro specified
  apply Steady.bind (steady_ask hblind _)
  intro answer
  apply Steady.bind (steady_ofExcept _)
  intro delta
  apply Steady.bind (steady_require _ _)
  intro _
  apply Steady.bind (steady_payOwed hpayer hblind _ _)
  intro _
  exact (steady_takeOwed hblind _ _).bind fun _ => steady_pure _

theorem steady_swapExactIn (hpayer : payer ≠ I.this) (hblind : Blind I payer O)
    (key : PoolKey) (zeroForOne : Bool) (amountIn minOut : Nat) :
    Steady O (Twin I payer) (swapExactIn I key zeroForOne amountIn minOut) := by
  unfold swapExactIn
  split
  · exact steady_pure _
  · apply Steady.bind (steady_ask hblind _)
    intro unlocked
    apply Steady.bind (steady_ofExcept _)
    intro _
    apply Steady.bind (steady_unlockCallback hpayer hblind _ _ _ _)
    intro out
    apply Steady.bind (steady_ask hblind _)
    intro relocked
    exact (steady_ofExcept _).bind fun _ => steady_pure _

theorem steady_toErc20 (hpayer : payer ≠ I.this) (token : Address) (amount : Nat)
    (haveNative : Bool) : Steady O (Twin I payer) (toErc20 I token amount haveNative) := by
  unfold toErc20
  split
  · exact (steady_require _ _).bind fun _ => steady_wethDeposit hpayer amount
  · exact steady_pure _

theorem steady_toNative (hpayer : payer ≠ I.this) (amount : Nat) (haveNative : Bool) :
    Steady O (Twin I payer) (toNative I amount haveNative) := by
  unfold toNative
  split
  · exact steady_pure _
  · exact steady_wethWithdraw hpayer amount

theorem steady_runVenue (hpayer : payer ≠ I.this) (hblind : Blind I payer O) (l : Leg)
    (amount : Nat) (haveNative : Bool) :
    Steady O (Twin I payer) (runVenue I l amount haveNative) := by
  unfold runVenue
  split
  · apply Steady.bind (steady_ofExcept _)
    intro tokenIn
    apply Steady.bind (steady_toErc20 hpayer _ _ _)
    intro _
    apply Steady.bind (steady_approve hblind _ _)
    intro _
    apply Steady.bind (steady_ask hblind _)
    intro answer
    exact (steady_ofExcept _).bind fun _ => steady_pure _
  · split
    · have hprepare : Steady O (Twin I payer)
          (prepareV4 I (currencyIn l.key l.zeroForOne) amount haveNative) := by
        unfold prepareV4
        split
        · exact steady_toNative hpayer amount haveNative
        · exact steady_toErc20 hpayer _ amount haveNative
      apply hprepare.bind
      intro _
      exact (steady_swapExactIn hpayer hblind _ _ _ _).bind fun _ => steady_pure _
    · exact steady_revert _

theorem steady_runFrom (hpayer : payer ≠ I.this) (hblind : Blind I payer O)
    (legs : List Leg) (index : Nat) (holding : Address) (amount : Nat) (haveNative : Bool) :
    Steady O (Twin I payer) (runFrom I index holding legs amount haveNative) := by
  induction legs generalizing index holding amount haveNative with
  | nil => exact steady_pure _
  | cons l legs ih =>
      unfold runFrom
      apply Steady.bind (steady_ofExcept _)
      intro input
      apply Steady.bind (steady_require _ _)
      intro _
      apply Steady.bind (steady_runVenue hpayer hblind l amount haveNative)
      intro held
      exact (steady_ofExcept _).bind fun _ => ih _ _ _ _

end Steady

/-! ## The same money, sent or pulled -/

section Funding

variable {I : Immutables} {payer : Address} {c : Chain} {amount : Nat}

/-- The ledger after `payer` sent the contract ether. -/
def sentEther (I : Immutables) (payer : Address) (amount : Nat) (c : Chain) : Chain :=
  c.moveEth payer I.this amount

/-- The ledger after the contract pulled WETH from `payer`. -/
def pulledWeth (I : Immutables) (payer : Address) (amount : Nat) (c : Chain) : Chain :=
  (spent I c payer amount).move I.WETH payer I.this amount

theorem pulledWeth_bal (hweth : amount ≤ c.bal I.WETH payer) (x a : Address) :
    ((pulledWeth I payer amount c).bal x a : Int) =
      c.bal x a - (if x = I.WETH ∧ a = payer then amount else 0) +
        (if x = I.WETH ∧ a = I.this then amount else 0) := by
  have hfunds : amount ≤ (spent I c payer amount).bal I.WETH payer := by
    rw [spent_bal]
    exact hweth
  have hmove := Chain.move_bal I.this hfunds x a
  rw [spent_bal] at hmove
  exact hmove

theorem pulledWeth_eth (a : Address) : (pulledWeth I payer amount c).eth a = c.eth a := by
  unfold pulledWeth
  rw [Chain.move_eth, spent_eth]

theorem pulledWeth_same (I : Immutables) (payer : Address) (amount : Nat) (c : Chain) :
    (pulledWeth I payer amount c).code = c.code ∧
      (pulledWeth I payer amount c).erc20 = c.erc20 ∧
      (pulledWeth I payer amount c).accepts = c.accepts := by
  unfold pulledWeth spent
  split <;> exact ⟨rfl, rfl, rfl⟩

/-- Ether that was sent and wrapped is WETH that was pulled. -/
theorem twin_deposited (heth : amount ≤ c.eth payer) (hweth : amount ≤ c.bal I.WETH payer)
    (hpayer : payer ≠ I.this) :
    Twin I payer
      (((sentEther I payer amount c).moveEth I.this I.WETH amount).setBal I.WETH I.this
        ((sentEther I payer amount c).bal I.WETH I.this + amount))
      (pulledWeth I payer amount c) := by
  have hthis : amount ≤ (sentEther I payer amount c).eth I.this := by
    rw [sentEther, Chain.moveEth_dst heth hpayer]
    omega
  have hether (a : Address) := Chain.moveEth_eth I.WETH hthis a
  have hsent (a : Address) : ((sentEther I payer amount c).eth a : Int) =
      c.eth a - (if a = payer then amount else 0) + (if a = I.this then amount else 0) :=
    Chain.moveEth_eth I.this heth a
  constructor
  · intro x a hx
    have hpulled := pulledWeth_bal hweth x a
    rw [Chain.setBal_bal]
    split
    · next hwrapped =>
        obtain ⟨rfl, rfl⟩ := hwrapped
        rw [if_neg hx, if_pos ⟨rfl, rfl⟩] at hpulled
        simp only [sentEther, Chain.moveEth_bal]
        omega
    · next hwrapped =>
        rw [if_neg hx, if_neg hwrapped] at hpulled
        simp only [sentEther, Chain.moveEth_bal]
        omega
  · intro a hpay hreserve
    have hfirst := hsent a
    have hsecond := hether a
    rw [if_neg hreserve] at hsecond
    rw [if_neg hpay] at hfirst
    rw [Chain.setBal_eth, pulledWeth_eth]
    omega
  · have hfirst := hsent I.WETH
    have hsecond := hether I.WETH
    rw [if_neg I.WETH_ne_this] at hfirst hsecond
    rw [if_pos rfl] at hsecond
    rw [Chain.setBal_eth, pulledWeth_eth]
    split at hfirst <;> omega
  · intro owner spender hne
    exact (spent_allowance I c payer amount hne).symm
  · exact (pulledWeth_same I payer amount c).1.symm
  · exact (pulledWeth_same I payer amount c).2.1.symm
  · exact (pulledWeth_same I payer amount c).2.2.symm

/-- WETH that was pulled and unwrapped is ether that was sent. -/
theorem twin_withdrawn (heth : amount ≤ c.eth payer) (hweth : amount ≤ c.bal I.WETH payer)
    (hreserve : amount ≤ (pulledWeth I payer amount c).eth I.WETH) :
    Twin I payer (sentEther I payer amount c)
      (((pulledWeth I payer amount c).setBal I.WETH I.this
        ((pulledWeth I payer amount c).bal I.WETH I.this - amount)).moveEth I.WETH I.this
          amount) := by
  have hether (a : Address) := Chain.moveEth_eth
    (c := (pulledWeth I payer amount c).setBal I.WETH I.this
      ((pulledWeth I payer amount c).bal I.WETH I.this - amount)) I.this hreserve a
  have hsent (a : Address) : ((sentEther I payer amount c).eth a : Int) =
      c.eth a - (if a = payer then amount else 0) + (if a = I.this then amount else 0) :=
    Chain.moveEth_eth I.this heth a
  constructor
  · intro x a hx
    have hpulled := pulledWeth_bal hweth x a
    rw [Chain.moveEth_bal, Chain.setBal_bal]
    split
    · next hwrapped =>
        obtain ⟨rfl, rfl⟩ := hwrapped
        rw [if_neg hx, if_pos ⟨rfl, rfl⟩] at hpulled
        simp only [sentEther, Chain.moveEth_bal]
        omega
    · next hwrapped =>
        rw [if_neg hx, if_neg hwrapped] at hpulled
        simp only [sentEther, Chain.moveEth_bal]
        omega
  · intro a hpay hne
    have hfirst := hsent a
    have hsecond := hether a
    rw [if_neg hne, Chain.setBal_eth, pulledWeth_eth] at hsecond
    rw [if_neg hpay] at hfirst
    omega
  · have hfirst := hsent I.WETH
    have hsecond := hether I.WETH
    rw [if_pos rfl, if_neg I.WETH_ne_this, Chain.setBal_eth, pulledWeth_eth] at hsecond
    rw [if_neg I.WETH_ne_this] at hfirst
    split at hfirst <;> omega
  · intro owner spender hne
    exact (spent_allowance I c payer amount hne).symm
  · exact (pulledWeth_same I payer amount c).1.symm
  · exact (pulledWeth_same I payer amount c).2.1.symm
  · exact (pulledWeth_same I payer amount c).2.2.symm

/-- The leg takes ether, in either form. -/
def TakesEther (I : Immutables) (l : Leg) : Prop :=
  ∀ input, inputOf l = .ok input → input.1 = I.WETH ∨ input.2 = true

variable {O : Chain → Query → Chain × Answer}

/-- A leg that wants WETH gets it from both. -/
theorem mirrors_toErc20 (heth : amount ≤ c.eth payer) (hweth : amount ≤ c.bal I.WETH payer)
    (hpayer : payer ≠ I.this) :
    Mirrors O (Twin I payer) (toErc20 I I.WETH amount true (sentEther I payer amount c))
      (toErc20 I I.WETH amount false (pulledWeth I payer amount c)) := by
  have hfunds : amount ≤ (sentEther I payer amount c).eth I.this := by
    rw [sentEther, Chain.moveEth_dst heth hpayer]
    omega
  have hwraps : toErc20 I I.WETH amount true (sentEther I payer amount c) =
      .done (((sentEther I payer amount c).moveEth I.this I.WETH amount).setBal I.WETH I.this
        ((sentEther I payer amount c).bal I.WETH I.this + amount)) () := by
    simp [toErc20, wethDeposit, hfunds]
  rw [hwraps]
  exact mirrors_done () (twin_deposited heth hweth hpayer)

/-- A leg that wants ether gets it from both. -/
theorem mirrors_toNative (heth : amount ≤ c.eth payer)
    (hweth : amount ≤ c.bal I.WETH payer) :
    Mirrors O (Twin I payer) (toNative I amount true (sentEther I payer amount c))
      (toNative I amount false (pulledWeth I payer amount c)) := by
  intro t a heval
  have hwithdraw : Sat (fun s q t a => O s q = (t, a))
      (toNative I amount false (pulledWeth I payer amount c)) fun t _ =>
        Twin I payer (sentEther I payer amount c) t := by
    simp only [toNative, wethWithdraw, Bool.false_eq_true, if_false, Prog.bind_apply,
      Prog.read_apply, Prog.write_apply, Code.bind_done, sat_bind, sat_done, Prog.sat_require]
    exact fun hfunds => twin_withdrawn heth hweth hfunds.2
  exact ⟨sentEther I payer amount c, rfl, hwithdraw.eval heval⟩

/-- The first leg, with the ether that was sent or the WETH that was pulled. -/
theorem mirrors_firstLeg (hpayer : payer ≠ I.this) (hblind : Blind I payer O)
    (heth : amount ≤ c.eth payer) (hweth : amount ≤ c.bal I.WETH payer) {l : Leg}
    (hinput : TakesEther I l) :
    Mirrors O (Twin I payer) (runVenue I l amount true (sentEther I payer amount c))
      (runVenue I l amount false (pulledWeth I payer amount c)) := by
  have hprepared := mirrors_toErc20 (O := O) heth hweth hpayer
  by_cases hv3 : l.venue = 0
  · simp only [runVenue, runV3, hv3, if_true, Prog.bind_apply]
    cases hfirst : first l.path with
    | error e => exact mirrors_revert _ _
    | ok token =>
        have htoken : token = I.WETH := by
          have hends := hinput (token, false) (by simp [inputOf, hv3, hfirst, Except.map])
          simpa using hends
        subst htoken
        simp only [Prog.ofExcept_ok, Code.bind_done]
        apply hprepared.bind
        intro s t _ htwin
        apply (steady_approve hblind I.WETH amount s t htwin).bind
        intro s₁ t₁ _ htwin₁
        have hrest := (steady_asked hblind (.exactInput l.path amount) returnedWord).bind
          fun out => steady_pure (ε := VenueError) (out, false)
        exact hrest s₁ t₁ htwin₁
  · by_cases hv4 : l.venue = 1
    · have hends := hinput (currencyIn l.key l.zeroForOne,
        decide (currencyIn l.key l.zeroForOne = NATIVE)) (by simp [inputOf, hv4])
      have hready : Mirrors O (Twin I payer)
          (prepareV4 I (currencyIn l.key l.zeroForOne) amount true
            (sentEther I payer amount c))
          (prepareV4 I (currencyIn l.key l.zeroForOne) amount false
            (pulledWeth I payer amount c)) := by
        by_cases hnative : currencyIn l.key l.zeroForOne = NATIVE
        · simp only [prepareV4, hnative, if_true]
          exact mirrors_toNative heth hweth
        · have hwrapped : currencyIn l.key l.zeroForOne = I.WETH := by
            simpa [hnative] using hends
          simp only [prepareV4, hwrapped, I.WETH_ne_zero, if_false]
          exact hprepared
      simp only [runVenue, runV4, hv4, if_true, if_false, one_ne_zero, Prog.bind_apply]
      apply hready.bind
      intro s t _ htwin
      apply (steady_swapExactIn hpayer hblind _ _ _ _ s t htwin).bind
      intro s₁ t₁ _ htwin₁
      exact mirrors_done _ htwin₁
    · simp only [runVenue, hv3, hv4, if_false]
      exact mirrors_revert _ _

/-- **The same legs for the same money**: what a route does with WETH that was
pulled from its payer, it does with ether the payer sent. -/
theorem mirrors_run (hpayer : payer ≠ I.this) (hblind : Blind I payer O)
    (heth : amount ≤ c.eth payer) (hweth : amount ≤ c.bal I.WETH payer) {legs : List Leg}
    (hinput : ∀ l, legs.head? = some l → TakesEther I l) :
    Mirrors O (Twin I payer) (run I legs amount true (sentEther I payer amount c))
      (run I legs amount false (pulledWeth I payer amount c)) := by
  cases legs with
  | nil => exact mirrors_revert _ _
  | cons l rest =>
      have htakes := hinput l rfl
      simp only [run, runFrom, Prog.bind_apply]
      cases hends : inputOf l with
      | error e => exact mirrors_revert _ _
      | ok input =>
          simp only [Prog.ofExcept_ok, Code.bind_done, Prog.require_of]
          apply (mirrors_firstLeg hpayer hblind heth hweth htakes).bind
          intro s t held htwin
          have hrest := (steady_ofExcept (ε := VenueError) (outputOf l)).bind fun produced =>
            steady_runFrom hpayer hblind rest (0 + 1) (I.asErc20 produced) held.1 held.2
          exact hrest s t htwin

end Funding

end Ordo
