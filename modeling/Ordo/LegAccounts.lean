import Ordo.Legs

/-!
# What a route does to the contract's ether

Ether is counted in both of its forms.  When the venues are honest, the router
taking what it is told to and paying what it says, the PoolManager taking no
more than it is told to and paying what is taken from it, a route costs the
contract no more ether than goes in and brings no less than it says comes out.
A route of nothing brings nothing and changes nothing.
-/

namespace Ordo

open Reentrant Legs V4Swap

/-- The contract's ether, as WETH and as itself. -/
def Chain.ether (I : Immutables) (c : Chain) : Nat := c.bal I.WETH I.this + c.eth I.this

/-- What an amount of a token is in ether: all of it, or nothing. -/
def worth (I : Immutables) (token : Address) (amount : Nat) : Nat :=
  if I.asErc20 token = I.WETH then amount else 0

/-- What honest callees do to the contract's ether.  There is not so much ether
that a word could not hold it. -/
def Honest (I : Immutables) (c : Chain) (q : Query) (c' : Chain) (a : Answer) : Prop :=
  (c.ether I < 2 ^ 256 → c'.ether I < 2 ^ 256) ∧
  match q with
  | .exactInput path amountIn => ∀ tokenIn tokenOut out, first path = .ok tokenIn →
      last path = .ok tokenOut → a = .word out →
        c'.ether I + worth I tokenIn amountIn = c.ether I + worth I tokenOut out ∧
          (amountIn = 0 → out = 0)
  | .poolSwap _ zeroForOne specified _ => c'.ether I = c.ether I ∧
      ∀ delta, a = .int delta → specified < 0 → -dIn zeroForOne delta ≤ -specified
  | .take currency amount => a ≠ .fail → c'.ether I = c.ether I + worth I currency amount
  | _ => c'.ether I = c.ether I

/-- From `c` to `c'` the contract paid at most `spent` and got at least `got`. -/
structure Trade (I : Immutables) (c c' : Chain) (spent got : Nat) : Prop where
  covers : c.ether I + got ≤ c'.ether I + spent
  fits : c.ether I < 2 ^ 256 → c'.ether I < 2 ^ 256

/-- From `c` to `c'` the contract paid at most `spent`, and got nothing. -/
def Spends (I : Immutables) (spent : Nat) (c c' : Chain) : Prop :=
  c.ether I ≤ c'.ether I + spent ∧ c'.ether I ≤ c.ether I

section Accounts

variable {I : Immutables} {c c₁ c₂ : Chain}

theorem Trade.refl (c : Chain) : Trade I c c 0 0 := ⟨Nat.le_refl _, id⟩

theorem Trade.of_eq (h : c₁.ether I = c.ether I) : Trade I c c₁ 0 0 :=
  ⟨by omega, by omega⟩

theorem Trade.trans {s g s' g' : Nat} (h : Trade I c c₁ s g) (h' : Trade I c₁ c₂ s' g') :
    Trade I c c₂ (s + s') (g + g') where
  covers := by
    have hfirst := h.covers
    have hsecond := h'.covers
    omega
  fits hc := h'.fits (h.fits hc)

theorem Spends.of_eq (h : c₁.ether I = c.ether I) : Spends I 0 c c₁ := ⟨by omega, by omega⟩

theorem Spends.trade {spent : Nat} (h : Spends I spent c c₁) : Trade I c c₁ spent 0 :=
  ⟨h.1, fun hc => by have hle := h.2; omega⟩

theorem Spends.trans {s s' : Nat} (h : Spends I s c c₁) (h' : Spends I s' c₁ c₂) :
    Spends I (s + s') c c₂ := by
  unfold Spends at *
  omega

theorem ether_wethDeposit {E : Chain → Query → Chain → Answer → Prop} {amount : Nat} :
    Sat E (wethDeposit I amount c) fun c' _ => c'.ether I = c.ether I := by
  simp only [wethDeposit, Prog.bind_apply, Prog.read_apply, Prog.write_apply, Code.bind_done,
    sat_bind, sat_done, Prog.sat_require]
  intro hfunds
  simp only [Chain.ether, Chain.setBal_bal, Chain.setBal_eth, and_self, if_true]
  rw [Chain.moveEth_src hfunds I.WETH_ne_this.symm]
  omega

theorem ether_wethWithdraw {E : Chain → Query → Chain → Answer → Prop} {amount : Nat} :
    Sat E (wethWithdraw I amount c) fun c' _ => c'.ether I = c.ether I := by
  simp only [wethWithdraw, Prog.bind_apply, Prog.read_apply, Prog.write_apply, Code.bind_done,
    sat_bind, sat_done, Prog.sat_require]
  intro hfunds
  simp only [Chain.ether, Chain.moveEth_bal, Chain.setBal_bal, and_self, if_true]
  rw [Chain.moveEth_dst (by simpa using hfunds.2) I.WETH_ne_this, Chain.setBal_eth]
  omega

theorem ether_toErc20 {E : Chain → Query → Chain → Answer → Prop} {token : Address}
    {amount : Nat} {haveNative : Bool} :
    Sat E (toErc20 I token amount haveNative c) fun c' _ => c'.ether I = c.ether I := by
  cases haveNative with
  | false => simp [toErc20]
  | true =>
      simp only [toErc20, if_true, Prog.bind_apply, sat_bind, Prog.sat_require]
      exact fun _ => ether_wethDeposit

theorem ether_toNative {E : Chain → Query → Chain → Answer → Prop} {amount : Nat}
    {haveNative : Bool} :
    Sat E (toNative I amount haveNative c) fun c' _ => c'.ether I = c.ether I := by
  cases haveNative with
  | false => exact ether_wethWithdraw
  | true => simp [toNative]

/-- Calls that are neither trades nor takes leave the contract's ether alone. -/
theorem ether_asked {α : Type} {q : Query} {read : Answer → Except VenueError α}
    (hq : ∀ c c' a, Honest I c q c' a → c'.ether I = c.ether I) :
    Sat (Honest I) ((Prog.ask q >>= fun a => Prog.ofExcept (read a) : Op α) c)
      fun c' _ => c'.ether I = c.ether I := by
  simp only [Prog.bind_apply, Prog.ask_apply, Code.bind_call, Code.bind_done, sat_call,
    Prog.sat_ofExcept]
  exact fun c' a hcall _ _ => hq _ _ _ hcall

theorem ether_approve {token : Address} {amount : Nat} :
    Sat (Honest I) (approve I token amount c) fun c' _ => c'.ether I = c.ether I := by
  unfold approve
  split
  · simp [Chain.ether]
  · exact ether_asked fun _ _ _ hcall => hcall.2

theorem spends_transfer {token dst : Address} {amount : Nat} :
    Sat (Honest I) (transfer I token dst amount c) fun c' _ =>
      Spends I (if token = I.WETH then amount else 0) c c' := by
  by_cases htoken : token = I.WETH
  · simp only [transfer, wethTransfer, htoken, if_true, Prog.bind_apply, Prog.read_apply,
      Prog.write_apply, Prog.pure_apply, Code.bind_done, sat_bind, sat_done, Prog.sat_require]
    intro hfunds
    have hmove := Chain.move_bal dst hfunds I.WETH I.this
    simp only [true_and, if_true] at hmove
    unfold Spends
    simp only [Chain.ether, Chain.move_eth]
    split at hmove <;> omega
  · simp only [transfer, htoken, if_false]
    refine (ether_asked fun _ _ _ hcall => hcall.2).mono fun c' _ hsame => ?_
    exact Spends.of_eq hsame

theorem spends_payToken {token dst : Address} {amount : Nat} :
    Sat (Honest I) (payToken I token dst amount c) fun c' _ =>
      Spends I (if token = I.WETH then amount else 0) c c' := by
  simp only [payToken, Prog.bind_apply, sat_bind, Prog.sat_require]
  exact spends_transfer.mono fun _ _ hpaid _ => hpaid

theorem spends_payEther {E : Chain → Query → Chain → Answer → Prop} {dst : Address}
    {amount : Nat} {e : VenueError} (hdst : dst ≠ I.this) :
    Sat E (payEther I dst amount e c) fun c' _ => Spends I amount c c' := by
  simp only [payEther, Prog.bind_apply, Prog.read_apply, Prog.write_apply, Code.bind_done,
    sat_bind, sat_done, Prog.sat_require]
  intro hfunds
  unfold Spends
  simp only [Chain.ether, Chain.moveEth_bal]
  rw [Chain.moveEth_src hfunds hdst.symm]
  omega

theorem spends_send {recipient : Address} {amount : Nat} :
    Sat (Honest I) (send I recipient amount c) fun c' _ => Spends I amount c c' := by
  by_cases hthis : recipient = I.this
  · simp [send, hthis]
  · by_cases hwrap : recipient = I.WETH
    · simp only [send, hwrap, I.WETH_ne_this, if_true, if_false, Prog.bind_apply,
        Prog.read_apply, Code.bind_done, sat_bind, Prog.sat_require]
      intro _
      refine ether_wethDeposit.mono fun c' _ hsame => ?_
      unfold Spends
      omega
    · simp only [send, sendPlain, hthis, hwrap, if_false, Prog.bind_apply, Prog.ask_apply,
        Code.bind_call, Code.bind_done, sat_bind, sat_call, Prog.sat_require]
      refine (spends_payEther hthis).mono fun c₁ _ hpaid => ?_
      intro c₂ a hcall _
      exact hpaid.trans (Spends.of_eq hcall.2)

/-! ## Legs -/

theorem worth_le (token : Address) (amount : Nat) : worth I token amount ≤ amount := by
  unfold worth
  split <;> omega

theorem worth_NATIVE (amount : Nat) : worth I NATIVE amount = amount := by
  simp [worth, Immutables.asErc20]

/-- The pool is paid at most what it was told to take. -/
theorem trade_payOwed {currency : Address} {d : Int} {amount : Nat}
    (hle : (-d).toNat ≤ amount) :
    Sat (Honest I) (payOwed I currency d c) fun c' _ =>
      Trade I c c' (worth I currency amount) 0 := by
  by_cases hd : d < 0
  · simp only [payOwed, pay, hd, if_true, Prog.bind_apply, sat_bind, Prog.sat_require]
    intro _
    by_cases hnative : currency = NATIVE
    · simp only [hnative, if_true, worth_NATIVE, Prog.bind_apply, Prog.ask_apply,
        Code.bind_call, Code.bind_done, sat_bind, sat_call, Prog.sat_ofExcept]
      refine (spends_payEther I.poolManager_ne_this).mono fun c₁ _ hpaid => ?_
      intro c₂ a hcall _ _
      have htrade := hpaid.trade.trans (Trade.of_eq hcall.2)
      exact ⟨by have hcovers := htrade.covers; omega, htrade.fits⟩
    · simp only [hnative, if_false, Prog.bind_apply, Prog.ask_apply, Code.bind_call,
        Code.bind_done, sat_bind, sat_call, Prog.sat_ofExcept]
      intro c₁ a hsync _ _
      refine spends_transfer.mono fun c₂ _ hpaid => ?_
      intro c₃ b hsettle _ _
      have htrade := ((Trade.of_eq hsync.2).trans hpaid.trade).trans (Trade.of_eq hsettle.2)
      have hspent : (if currency = I.WETH then (-d).toNat else 0) ≤ worth I currency amount := by
        simp only [worth, Immutables.asErc20, hnative, if_false]
        split <;> omega
      exact ⟨by have hcovers := htrade.covers; omega, htrade.fits⟩
  · simp only [payOwed, hd, if_false, Prog.pure_apply, sat_done]
    exact ⟨by omega, id⟩

theorem trade_takeOwed {currency : Address} {out : Nat} :
    Sat (Honest I) (takeOwed currency out c) fun c' _ =>
      Trade I c c' 0 (worth I currency out) := by
  by_cases hout : 0 < out
  · simp only [takeOwed, hout, if_true, Prog.bind_apply, Prog.ask_apply, Code.bind_call,
      Code.bind_done, sat_call, Prog.sat_ofExcept]
    intro c' a hcall _ hok
    exact ⟨(hcall.2 ((succeeded_eq_ok a).mp hok)).ge, hcall.1⟩
  · have hzero : out = 0 := by omega
    simp only [takeOwed, hout, if_false, Prog.pure_apply, sat_done]
    have hworth := worth_le (I := I) currency out
    exact ⟨by omega, id⟩

theorem trade_swapExactIn {key : PoolKey} {zeroForOne : Bool} {amountIn minOut : Nat} :
    Sat (Honest I) (swapExactIn I key zeroForOne amountIn minOut c) fun c' out =>
      Trade I c c' (worth I (currencyIn key zeroForOne) amountIn)
          (worth I (currencyOut key zeroForOne) out) ∧
        (amountIn = 0 → out = 0 ∧ c'.ether I = c.ether I) := by
  by_cases hzero : amountIn = 0
  · subst hzero
    rw [swapExactIn, if_pos rfl, Prog.pure_apply, sat_done]
    have hworth := worth_le (I := I) (currencyOut key zeroForOne) 0
    exact ⟨⟨by omega, id⟩, fun _ => ⟨rfl, rfl⟩⟩
  · have hnot (out : Nat) (c' : Chain) : amountIn = 0 → out = 0 ∧ c'.ether I = c.ether I :=
      fun h => absurd h hzero
    rw [swapExactIn, if_neg hzero]
    simp only [unlockCallback, Prog.bind_apply, sat_bind, Prog.ask_apply, sat_call, sat_done,
      Prog.sat_ofExcept, Prog.sat_orRevert, Prog.sat_require, Prog.pure_apply,
      returnedInt_eq_ok]
    intro c₁ _ hunlock _ _ specified hspecified c₂ answer hswap delta hdelta _
    have hle : (-dIn zeroForOne delta).toNat ≤ amountIn :=
      owed_le hspecified hzero (hswap.2.2 delta hdelta)
    refine (trade_payOwed hle).mono fun c₃ _ hpaid => ?_
    refine trade_takeOwed.mono fun c₄ _ htaken => ?_
    intro c₅ _ hrelock _ _
    have hopen := (Trade.of_eq hunlock.2).trans (Trade.of_eq hswap.2.1)
    have htrade := ((hopen.trans hpaid).trans htaken).trans (Trade.of_eq hrelock.2)
    exact ⟨⟨by have hcovers := htrade.covers; omega, htrade.fits⟩, hnot _ _⟩

/-- **One leg.** -/
theorem trade_runVenue {l : Leg} {amount : Nat} {haveNative : Bool} {input : Address × Bool}
    {produced : Address} (hinput : inputOf l = .ok input) (houtput : outputOf l = .ok produced) :
    Sat (Honest I) (runVenue I l amount haveNative c) fun c' held =>
      Trade I c c' (worth I input.1 amount) (worth I produced held.1) ∧
        (amount = 0 → held.1 = 0 ∧ c'.ether I = c.ether I) := by
  by_cases hv3 : l.venue = 0
  · simp only [runVenue, runV3, hv3, if_true, Prog.bind_apply, Prog.ask_apply, Code.bind_call,
      Code.bind_done, Prog.pure_apply, sat_bind, sat_call, sat_done, Prog.sat_ofExcept]
    intro token htoken
    refine ether_toErc20.mono fun c₁ _ hwrapped => ?_
    refine ether_approve.mono fun c₂ _ happroved => ?_
    intro c₃ a hcall out hout
    have ha : a = .word out := (returnedWord_eq_ok a out).mp hout
    have hin : input.1 = token := by
      simp only [inputOf, hv3, if_true, htoken, Except.map, Except.ok.injEq] at hinput
      rw [← hinput]
    have hpath : last l.path = .ok produced := by simpa [outputOf, hv3] using houtput
    have hready := (Trade.of_eq hwrapped).trans (Trade.of_eq happroved)
    obtain ⟨heq, hnothing⟩ := hcall.2 token produced out htoken hpath ha
    have hworth := worth_le (I := I) produced out
    rw [hin]
    refine ⟨⟨?_, fun hc => hcall.1 (hready.fits hc)⟩, fun hzero => ?_⟩
    · omega
    · have hout := hnothing hzero
      have hspent := worth_le (I := I) token amount
      exact ⟨hout, by omega⟩
  · by_cases hv4 : l.venue = 1
    · have hin : input.1 = currencyIn l.key l.zeroForOne := by
        simp only [inputOf, hv4, if_true, one_ne_zero, if_false, Except.ok.injEq] at hinput
        rw [← hinput]
      have hout : produced = currencyOut l.key l.zeroForOne := by
        simp only [outputOf, hv4, if_true, one_ne_zero, if_false, Except.ok.injEq] at houtput
        exact houtput.symm
      simp only [runVenue, runV4, hv4, if_true, if_false, one_ne_zero, Prog.bind_apply,
        sat_bind, Prog.pure_apply, sat_done]
      have hprepare : Sat (Honest I)
          (prepareV4 I (currencyIn l.key l.zeroForOne) amount haveNative c) fun c' _ =>
            c'.ether I = c.ether I := by
        unfold prepareV4
        split
        · exact ether_toNative
        · exact ether_toErc20
      refine hprepare.mono fun c₁ _ hready => ?_
      refine trade_swapExactIn.mono fun c₂ out hswap => ?_
      rw [hin, hout]
      have htrade := (Trade.of_eq hready).trans hswap.1
      refine ⟨⟨by have hcovers := htrade.covers; omega, htrade.fits⟩, fun hzero => ?_⟩
      have hnothing := hswap.2 hzero
      exact ⟨hnothing.1, by omega⟩
    · simp [runVenue, hv3, hv4]

/-- Ether is held as WETH between legs, whatever the next leg calls it. -/
theorem asErc20_input {l : Leg} {input : Address × Bool} (h : inputOf l = .ok input) :
    asErc20 I input.1 input.2 = I.asErc20 input.1 := by
  by_cases hv3 : l.venue = 0
  · rw [inputOf, if_pos hv3] at h
    cases hfirst : first l.path with
    | error e => simp [hfirst, Except.map] at h
    | ok token =>
        simp only [hfirst, Except.map, Except.ok.injEq] at h
        subst h
        simp [asErc20, Immutables.asErc20]
  · by_cases hv4 : l.venue = 1
    · simp only [inputOf, hv4, one_ne_zero, if_true, if_false, Except.ok.injEq] at h
      subst h
      simp [asErc20, Immutables.asErc20]
    · simp [inputOf, hv3, hv4] at h

/-- **A chain of legs**: what is held goes in, the last leg's output comes
out. -/
theorem trade_runFrom {legs : List Leg} {index amount : Nat} {holding : Address}
    {haveNative : Bool} {l : Leg} {tokenOut : Address} (hlast : legs.getLast? = some l)
    (houtput : outputOf l = .ok tokenOut) :
    Sat (Honest I) (runFrom I index holding legs amount haveNative c) fun c' held =>
      Trade I c c' (if holding = I.WETH then amount else 0) (worth I tokenOut held.1) ∧
        (amount = 0 → held.1 = 0 ∧ c'.ether I = c.ether I) := by
  induction legs generalizing c index amount holding haveNative with
  | nil => cases hlast
  | cons first legs ih =>
      simp only [runFrom, Prog.bind_apply, sat_bind, Prog.sat_ofExcept, Prog.sat_require]
      intro input hinput hholding
      rw [asErc20_input hinput] at hholding
      subst hholding
      cases hproduced : outputOf first with
      | error e => exact ((sat_true _).mpr trivial).mono fun _ _ _ _ h => by cases h
      | ok produced =>
          refine (trade_runVenue hinput hproduced).mono fun c₁ held hleg => ?_
          intro _ hp
          cases hp
          cases legs with
          | nil =>
              cases hlast
              have hsame : produced = tokenOut := Except.ok.inj (hproduced.symm.trans houtput)
              subst hsame
              simp only [runFrom, Prog.pure_apply, sat_done]
              exact hleg
          | cons second legs =>
              have hrest : (second :: legs).getLast? = some l := by
                rw [List.getLast?_cons_cons] at hlast
                exact hlast
              refine (ih hrest).mono fun c₂ out hrun => ?_
              have htrade := hleg.1.trans hrun.1
              have hmiddle : (if I.asErc20 produced = I.WETH then held.1 else 0) =
                worth I produced held.1 := rfl
              have hfirst : (if I.asErc20 input.1 = I.WETH then amount else 0) =
                worth I input.1 amount := rfl
              refine ⟨⟨?_, htrade.fits⟩, fun hzero => ?_⟩
              · have hcovers := htrade.covers
                omega
              · obtain ⟨hheld, hsame⟩ := hleg.2 hzero
                obtain ⟨hout, hsame'⟩ := hrun.2 hheld
                exact ⟨hout, hsame'.trans hsame⟩

/-- **A route** costs no more ether than goes in and brings what it says. -/
theorem trade_run {legs : List Leg} {amount : Nat} {haveNative : Bool} {l : Leg}
    {tokenOut : Address} (hlast : legs.getLast? = some l)
    (houtput : outputOf l = .ok tokenOut) :
    Sat (Honest I) (run I legs amount haveNative c) fun c' held =>
      Trade I c c' amount (worth I tokenOut held.1) ∧
        (amount = 0 → held.1 = 0 ∧ c'.ether I = c.ether I) := by
  cases legs with
  | nil => cases hlast
  | cons first legs =>
      simp only [run, Prog.bind_apply, sat_bind, Prog.sat_ofExcept]
      intro input _
      refine (trade_runFrom hlast houtput).mono fun c' held hrun => ?_
      refine ⟨⟨?_, hrun.1.fits⟩, hrun.2⟩
      have hcovers := hrun.1.covers
      split at hcovers <;> omega

end Accounts

end Ordo
