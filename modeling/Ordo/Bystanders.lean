import Ordo.Legs
import Mathlib.Algebra.Group.Pi.Basic
import Mathlib.Algebra.Group.Int.Defs

/-!
# What a contract's calls do to everybody else

The ledger is compared before and after for every account but the contract and
the venues; of the wrapper's own ether nothing is said, since it moves with
every wrap.  Tokens are standard: a transfer that is answered as such moves what
it says between its two ends.  Callees other than tokens leave everybody else
alone.

Then a route changes nothing for anybody else, and a pull or a payment changes
one account.
-/

namespace Ordo

open Reentrant Legs V4Swap

/-- Balances of every token and of ether, for those who are neither venues nor
the contract, changed by `d` and `e`. -/
structure Changed (I : Immutables) (V : Set Address) (d : Address → Address → Int)
    (e : Address → Int) (c c' : Chain) : Prop where
  bal : ∀ token a, a ∉ V → a ≠ I.this → (c'.bal token a : Int) = c.bal token a + d token a
  eth : ∀ a, a ∉ V → a ≠ I.this → a ≠ I.WETH → (c'.eth a : Int) = c.eth a + e a

/-- Nothing changed for anybody else. -/
abbrev Aside (I : Immutables) (V : Set Address) : Chain → Chain → Prop := Changed I V 0 0

/-- One account gets `v` of a token. -/
def paid (token dst : Address) (v : Nat) (x a : Address) : Int :=
  (if x = token ∧ a = dst then v else 0 : Nat)

/-- One account gets `v` of ether. -/
def paidEther (dst : Address) (v : Nat) (a : Address) : Int := (if a = dst then v else 0 : Nat)

/-- What standard tokens, and callees that keep to themselves, do. -/
def Plain (I : Immutables) (V : Set Address) (c : Chain) (q : Query) (c' : Chain)
    (a : Answer) : Prop :=
  match q with
  | .transferFrom token src dst amount => accepted a = .ok () →
      amount ≤ c.bal token src ∧ c'.bal = (c.move token src dst amount).bal ∧ c'.eth = c.eth
  | .transfer token dst amount => ∀ b, a = .bool b →
      if b then
        amount ≤ c.bal token I.this ∧ c'.bal = (c.move token I.this dst amount).bal ∧
          c'.eth = c.eth
      else c'.bal = c.bal ∧ c'.eth = c.eth
  | _ => Aside I V c c'

section Changed

variable {I : Immutables} {V : Set Address} {c c₁ c₂ : Chain}
  {d d' : Address → Address → Int} {e e' : Address → Int}

theorem Changed.refl (c : Chain) : Aside I V c c :=
  ⟨fun _ _ _ _ => by simp, fun _ _ _ _ => by simp⟩

theorem Changed.trans (h : Changed I V d e c c₁) (h' : Changed I V d' e' c₁ c₂) :
    Changed I V (d + d') (e + e') c c₂ where
  bal x a hV hthis := by
    have hfirst := h.bal x a hV hthis
    have hsecond := h'.bal x a hV hthis
    simp only [Pi.add_apply]
    omega
  eth a hV hthis hweth := by
    have hfirst := h.eth a hV hthis hweth
    have hsecond := h'.eth a hV hthis hweth
    simp only [Pi.add_apply]
    omega

theorem Changed.congr (h : Changed I V d e c c₁) (hd : d = d') (he : e = e') :
    Changed I V d' e' c c₁ := by
  rw [← hd, ← he]
  exact h

/-- Two steps that change nothing change nothing. -/
theorem Aside.trans (h : Aside I V c c₁) (h' : Aside I V c₁ c₂) : Aside I V c c₂ :=
  (Changed.trans h h').congr (add_zero (0 : Address → Address → Int))
    (add_zero (0 : Address → Int))

/-- Only balances are compared. -/
theorem Changed.of_same (hbal : c₁.bal = c.bal) (heth : c₁.eth = c.eth) : Aside I V c c₁ :=
  ⟨fun _ _ _ _ => by simp [hbal], fun _ _ _ _ => by simp [heth]⟩

/-- The contract pays out in a token. -/
theorem changed_pay {token : Address} (dst : Address) {v : Nat}
    (hv : v ≤ c.bal token I.this) (hbal : c₁.bal = (c.move token I.this dst v).bal)
    (heth : c₁.eth = c.eth) : Changed I V (paid token dst v) 0 c c₁ where
  bal x a _ hthis := by
    have hmove := Chain.move_bal dst hv x a
    rw [if_neg fun h => hthis h.2] at hmove
    rw [hbal, hmove, paid]
    omega
  eth a _ _ _ := by simp [heth]

/-- The contract pulls a token. -/
theorem changed_pull {token src : Address} {v : Nat} (hv : v ≤ c.bal token src)
    (hbal : c₁.bal = (c.move token src I.this v).bal) (heth : c₁.eth = c.eth) :
    Changed I V (-paid token src v) 0 c c₁ where
  bal x a _ hthis := by
    have hmove := Chain.move_bal I.this hv x a
    have hnot : ¬ (x = token ∧ a = I.this) := fun h => hthis h.2
    rw [if_neg hnot] at hmove
    rw [hbal, hmove, Pi.neg_apply, Pi.neg_apply, paid]
    omega
  eth a _ _ _ := by simp [heth]

/-- A payment to a venue is nobody else's. -/
theorem Changed.to_venue {token dst : Address} {v : Nat} (hdst : dst ∈ V)
    (h : Changed I V (paid token dst v) 0 c c₁) : Aside I V c c₁ where
  bal x a hV hthis := by
    have hpaid := h.bal x a hV hthis
    have hnot : ¬ (x = token ∧ a = dst) := fun hx => hV (hx.2 ▸ hdst)
    rw [paid, if_neg hnot] at hpaid
    exact hpaid
  eth := h.eth

theorem aside_wethDeposit {E : Chain → Query → Chain → Answer → Prop} {amount : Nat} :
    Sat E (wethDeposit I amount c) fun c' _ => Aside I V c c' := by
  simp only [wethDeposit, Prog.bind_apply, Prog.read_apply, Prog.write_apply, Code.bind_done,
    sat_bind, sat_done, Prog.sat_require]
  intro hfunds
  constructor
  · intro x a _ hthis
    rw [Chain.setBal_bal, if_neg fun h => hthis h.2]
    simp
  · intro a _ hthis hweth
    rw [Chain.setBal_eth, Chain.moveEth_other hfunds hthis hweth]
    simp

theorem aside_wethWithdraw {E : Chain → Query → Chain → Answer → Prop} {amount : Nat} :
    Sat E (wethWithdraw I amount c) fun c' _ => Aside I V c c' := by
  simp only [wethWithdraw, Prog.bind_apply, Prog.read_apply, Prog.write_apply, Code.bind_done,
    sat_bind, sat_done, Prog.sat_require]
  intro hfunds
  constructor
  · intro x a _ hthis
    rw [Chain.moveEth_bal, Chain.setBal_bal, if_neg fun h => hthis h.2]
    simp
  · intro a _ hthis hweth
    rw [Chain.moveEth_other (by simpa using hfunds.2) hweth hthis, Chain.setBal_eth]
    simp

/-- Calls to others than tokens, whose answer is only read. -/
theorem aside_asked {α : Type} {q : Query} {read : Answer → Except VenueError α}
    (hq : ∀ c c' a, Plain I V c q c' a → Aside I V c c') :
    Sat (Plain I V) ((Prog.ask q >>= fun a => Prog.ofExcept (read a) : Op α) c)
      fun c' _ => Aside I V c c' := by
  simp only [Prog.bind_apply, Prog.ask_apply, Code.bind_call, Code.bind_done, sat_call,
    Prog.sat_ofExcept]
  exact fun c' a hcall _ _ => hq _ _ _ hcall

theorem aside_approve {token : Address} {amount : Nat} :
    Sat (Plain I V) (approve I token amount c) fun c' _ => Aside I V c c' := by
  unfold approve
  split
  · simp only [Prog.write_apply, sat_done]
    exact Changed.of_same rfl rfl
  · exact aside_asked fun _ _ _ h => h

/-- A transfer pays its amount if it says so, and nothing if not. -/
theorem changed_transfer {token dst : Address} {amount : Nat} :
    Sat (Plain I V) (transfer I token dst amount c) fun c' ok =>
      Changed I V (if ok then paid token dst amount else 0) 0 c c' := by
  by_cases htoken : token = I.WETH
  · simp only [transfer, wethTransfer, htoken, if_true, Prog.bind_apply, Prog.read_apply,
      Prog.write_apply, Prog.pure_apply, Code.bind_done, sat_bind, sat_done, Prog.sat_require]
    exact fun hfunds => changed_pay dst hfunds rfl rfl
  · simp only [transfer, htoken, if_false, Prog.bind_apply, Prog.ask_apply, Code.bind_call,
      Code.bind_done, sat_call, Prog.sat_ofExcept, returned_eq_ok]
    intro c' a hcall ok hok
    have heffect := hcall ok hok
    cases ok with
    | true => exact changed_pay dst heffect.1 heffect.2.1 heffect.2.2
    | false => exact Changed.of_same heffect.1 heffect.2

/-- A payment in a token. -/
theorem changed_payToken {token dst : Address} {amount : Nat} :
    Sat (Plain I V) (payToken I token dst amount c) fun c' _ =>
      Changed I V (paid token dst amount) 0 c c' := by
  simp only [payToken, Prog.bind_apply, sat_bind, Prog.sat_require]
  refine changed_transfer.mono fun c' ok hpaid hok => ?_
  rw [if_pos hok] at hpaid
  exact hpaid

/-- A user's tokens are pulled. -/
theorem changed_pullToken {token src : Address} {amount : Nat} :
    Sat (Plain I V) (pull I token src amount c) fun c' _ =>
      Changed I V (-paid token src amount) 0 c c' := by
  by_cases htoken : token = I.WETH
  · simp only [pull, wethPull, htoken, if_true, Prog.bind_apply, Prog.read_apply,
      Prog.write_apply, Code.bind_done, sat_bind, sat_done, Prog.sat_require]
    intro hfunds
    have hbal := spent_bal I c src amount
    refine changed_pull hfunds.1 ?_ (spent_eth I c src amount)
    simp only [Chain.move, hbal]
  · simp only [pull, htoken, if_false, Prog.bind_apply, Prog.ask_apply, Code.bind_call,
      Code.bind_done, sat_call, Prog.sat_ofExcept]
    intro c' a hcall _ hok
    obtain ⟨hfunds, hbal, heth⟩ := hcall hok
    exact changed_pull hfunds hbal heth

/-- Ether is sent. -/
theorem changed_payEther {E : Chain → Query → Chain → Answer → Prop} {dst : Address}
    {amount : Nat} {err : VenueError} :
    Sat E (payEther I dst amount err c) fun c' _ =>
      Changed I V 0 (paidEther dst amount) c c' := by
  simp only [payEther, Prog.bind_apply, Prog.read_apply, Prog.write_apply, Code.bind_done,
    sat_bind, sat_done, Prog.sat_require]
  intro hfunds
  constructor
  · intro x a _ _
    simp
  · intro a _ hthis _
    have hmove := Chain.moveEth_eth dst hfunds a
    rw [if_neg hthis] at hmove
    rw [hmove, paidEther]
    omega

theorem changed_send {recipient : Address} {amount : Nat} :
    Sat (Plain I V) (send I recipient amount c) fun c' _ =>
      Changed I V 0 (paidEther recipient amount) c c' := by
  by_cases hthis : recipient = I.this
  · simp [send, hthis]
  · by_cases hwrap : recipient = I.WETH
    · simp only [send, hwrap, I.WETH_ne_this, if_true, if_false, Prog.bind_apply,
        Prog.read_apply, Code.bind_done, sat_bind, Prog.sat_require]
      intro _
      refine (aside_wethDeposit (V := V)).mono fun c' _ haside => ⟨haside.bal, ?_⟩
      -- the wrapper's own ether is not looked at
      intro a hV hthis' hweth
      have hsame := haside.eth a hV hthis' hweth
      rw [paidEther, if_neg hweth]
      exact hsame
    · simp only [send, sendPlain, hthis, hwrap, if_false, Prog.bind_apply, Prog.ask_apply,
        Code.bind_call, Code.bind_done, sat_bind, sat_call, Prog.sat_require]
      refine (changed_payEther (V := V)).mono fun c₁ _ hpaid => ?_
      intro c₂ a hcall _
      exact (hpaid.trans hcall).congr (add_zero _) (add_zero _)

/-! ## Legs -/

theorem aside_pay (hpm : I.poolManager ∈ V) {currency : Address} {amount : Nat} :
    Sat (Plain I V) (pay I currency amount c) fun c' _ => Aside I V c c' := by
  unfold pay
  split
  · simp only [Prog.bind_apply, sat_bind, Prog.ask_apply, sat_call, sat_done,
      Prog.sat_ofExcept]
    refine (changed_payEther (V := V)).mono fun c₁ _ hpaid => ?_
    intro c₂ a hcall _ _
    have haside : Aside I V c c₁ := by
      refine ⟨hpaid.bal, fun a hV hthis hweth => ?_⟩
      have hsame := hpaid.eth a hV hthis hweth
      have hnot : a ≠ I.poolManager := fun h => hV (h ▸ hpm)
      rw [paidEther, if_neg hnot] at hsame
      exact hsame
    exact haside.trans hcall
  · simp only [Prog.bind_apply, sat_bind, Prog.ask_apply, sat_call, sat_done,
      Prog.sat_ofExcept]
    intro c₁ a hsync _ _
    refine changed_transfer.mono fun c₂ ok hpaid => ?_
    intro c₃ b hsettle _ _
    have haside : Aside I V c₁ c₂ := by
      cases ok with
      | true => exact hpaid.to_venue hpm
      | false => exact hpaid
    exact (Aside.trans hsync haside).trans hsettle

theorem aside_payOwed (hpm : I.poolManager ∈ V) {currency : Address} {delta : Int} :
    Sat (Plain I V) (payOwed I currency delta c) fun c' _ => Aside I V c c' := by
  unfold payOwed
  split
  · simp only [Prog.bind_apply, sat_bind, Prog.sat_require]
    exact fun _ => aside_pay hpm
  · simpa using Changed.refl c

theorem aside_takeOwed {currency : Address} {out : Nat} :
    Sat (Plain I V) (takeOwed currency out c) fun c' _ => Aside I V c c' := by
  unfold takeOwed
  split
  · exact aside_asked fun _ _ _ h => h
  · simpa using Changed.refl c

theorem aside_swapExactIn (hpm : I.poolManager ∈ V) {key : PoolKey} {zeroForOne : Bool}
    {amountIn minOut : Nat} :
    Sat (Plain I V) (swapExactIn I key zeroForOne amountIn minOut c) fun c' _ =>
      Aside I V c c' := by
  by_cases hzero : amountIn = 0
  · simpa [swapExactIn, hzero] using Changed.refl c
  · simp only [swapExactIn, unlockCallback, hzero, if_false, Prog.bind_apply, sat_bind,
      Prog.ask_apply, sat_call, sat_done, Prog.sat_ofExcept, Prog.sat_orRevert,
      Prog.sat_require, Prog.pure_apply]
    intro c₁ _ hunlock _ _ specified _ c₂ answer hswap delta _ _
    refine (aside_payOwed hpm).mono fun c₃ _ hpaid => ?_
    refine aside_takeOwed.mono fun c₄ _ htaken => ?_
    intro c₅ _ hrelock _ _
    have hopen := Aside.trans hunlock hswap
    exact ((hopen.trans hpaid).trans htaken).trans hrelock

theorem aside_toErc20 {token : Address} {amount : Nat} {haveNative : Bool} :
    Sat (Plain I V) (toErc20 I token amount haveNative c) fun c' _ => Aside I V c c' := by
  cases haveNative with
  | false => simpa [toErc20] using Changed.refl c
  | true =>
      simp only [toErc20, if_true, Prog.bind_apply, sat_bind, Prog.sat_require]
      exact fun _ => aside_wethDeposit

theorem aside_toNative {amount : Nat} {haveNative : Bool} :
    Sat (Plain I V) (toNative I amount haveNative c) fun c' _ => Aside I V c c' := by
  cases haveNative with
  | false => exact aside_wethWithdraw
  | true => simpa [toNative] using Changed.refl c

theorem aside_runVenue (hpm : I.poolManager ∈ V) {l : Leg} {amount : Nat}
    {haveNative : Bool} :
    Sat (Plain I V) (runVenue I l amount haveNative c) fun c' _ => Aside I V c c' := by
  by_cases hv3 : l.venue = 0
  · simp only [runVenue, runV3, hv3, if_true, Prog.bind_apply, Prog.ask_apply, Code.bind_call,
      Code.bind_done, Prog.pure_apply, sat_bind, sat_call, sat_done, Prog.sat_ofExcept]
    intro token _
    refine aside_toErc20.mono fun c₁ _ hwrapped => ?_
    refine aside_approve.mono fun c₂ _ happroved => ?_
    intro c₃ a hcall _ _
    exact (hwrapped.trans happroved).trans hcall
  · by_cases hv4 : l.venue = 1
    · simp only [runVenue, runV4, hv4, if_true, if_false, one_ne_zero, Prog.bind_apply,
        sat_bind, Prog.pure_apply, sat_done]
      have hprepare : Sat (Plain I V)
          (prepareV4 I (currencyIn l.key l.zeroForOne) amount haveNative c) fun c' _ =>
            Aside I V c c' := by
        unfold prepareV4
        split
        · exact aside_toNative
        · exact aside_toErc20
      refine hprepare.mono fun c₁ _ hready => ?_
      refine (aside_swapExactIn hpm).mono fun c₂ out hswap => ?_
      exact hready.trans hswap
    · simp [runVenue, hv3, hv4]

theorem aside_runFrom (hpm : I.poolManager ∈ V) {legs : List Leg} {index amount : Nat}
    {holding : Address} {haveNative : Bool} :
    Sat (Plain I V) (runFrom I index holding legs amount haveNative c) fun c' _ =>
      Aside I V c c' := by
  induction legs generalizing c index amount holding haveNative with
  | nil => simpa [runFrom] using Changed.refl c
  | cons l legs ih =>
      simp only [runFrom, Prog.bind_apply, sat_bind, Prog.sat_ofExcept, Prog.sat_require]
      intro _ _ _
      refine (aside_runVenue hpm).mono fun c₁ held hleg => ?_
      intro produced _
      exact ih.mono fun c₂ _ hrest => hleg.trans hrest

/-- **A route is nobody else's business.** -/
theorem aside_run (hpm : I.poolManager ∈ V) {legs : List Leg} {amount : Nat}
    {haveNative : Bool} :
    Sat (Plain I V) (run I legs amount haveNative c) fun c' _ => Aside I V c c' := by
  cases legs with
  | nil => simp [run]
  | cons l legs =>
      simp only [run, Prog.bind_apply, sat_bind, Prog.sat_ofExcept]
      intro _ _
      exact aside_runFrom hpm

end Changed

end Ordo
