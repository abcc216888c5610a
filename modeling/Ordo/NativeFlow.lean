import Ordo.Surroundings

/-!
# The ether that runs through a chain of legs

A contract that runs legs holds some ether of its own, and the running amount
on top of it when that is in ether.  No leg eats into the first: what is wrapped
or paid is the running amount or less, since a pool takes no more than it was
told to.  `Spare I base amount haveNative c` says that `base` is there besides
the running amount; every piece of the runner keeps it.
-/

namespace Ordo

open Reentrant Legs V4Swap

/-- What a call brings in ether at once. -/
def inflow : Query → Answer → Nat
  | .take currency amount, a => if currency = NATIVE ∧ a ≠ .fail then amount else 0
  | _, _ => 0

/-- Nobody takes the contract's ether, `take` brings what it says, and a swap
takes no more than it was told to. -/
def Funded (I : Immutables) (c : Chain) (q : Query) (c' : Chain) (a : Answer) : Prop :=
  c.eth I.this + inflow q a ≤ c'.eth I.this ∧
    ∀ key zeroForOne specified limit delta, q = .poolSwap key zeroForOne specified limit →
      a = .int delta → specified < 0 → -dIn zeroForOne delta ≤ -specified

/-- `base` is there besides the running amount. -/
def Spare (I : Immutables) (base amount : Nat) (haveNative : Bool) (c : Chain) : Prop :=
  base + (if haveNative then amount else 0) ≤ c.eth I.this

theorem Reply.funded {I : Immutables} {c c' : Chain} {q : Query} {a : Answer}
    (h : Reply I c q c' a) : Funded I c q c' a := by
  cases q with
  | exactInput path amountIn =>
      obtain ⟨v, -, h⟩ := h
      exact ⟨h.eth.ge, by simp⟩
  | take currency amount => exact ⟨(Around.eth h).ge, by simp⟩
  | poolSwap key zeroForOne specified limit =>
      refine ⟨h.1.eth.ge, ?_⟩
      intro _ _ _ _ delta hq ha hspecified
      cases hq
      exact h.2 delta ha hspecified
  | transferFrom | transfer | approve | unlock | sync | settle | relock | send =>
      exact ⟨(Around.eth h).ge, by simp⟩

/-- Others around a call only add to it. -/
theorem Funded.around {I : Immutables} {c₁ c₂ c₃ c₄ : Chain} {q : Query} {a : Answer}
    (h₁ : c₁.eth I.this ≤ c₂.eth I.this) (h : Funded I c₂ q c₃ a)
    (h₂ : c₃.eth I.this ≤ c₄.eth I.this) : Funded I c₁ q c₄ a := by
  obtain ⟨hin, hswap⟩ := h
  exact ⟨by omega, hswap⟩

section Flow

variable {I : Immutables} {c : Chain} {base : Nat}

theorem sat_wethDeposit {E : Chain → Query → Chain → Answer → Prop} {amount : Nat}
    {post : Chain → Unit → Prop}
    (h : amount ≤ c.eth I.this →
      post ((c.moveEth I.this I.WETH amount).setBal I.WETH I.this
        (c.bal I.WETH I.this + amount)) ()) :
    Sat E (wethDeposit I amount c) post := by
  simpa [wethDeposit] using h

theorem sat_wethWithdraw {E : Chain → Query → Chain → Answer → Prop} {amount : Nat}
    {post : Chain → Unit → Prop}
    (h : amount ≤ c.bal I.WETH I.this → amount ≤ c.eth I.WETH →
      post ((c.setBal I.WETH I.this (c.bal I.WETH I.this - amount)).moveEth I.WETH I.this
        amount) ()) :
    Sat E (wethWithdraw I amount c) post := by
  simpa [wethWithdraw] using h

/-- Wrapping spends ether. -/
theorem spare_wethDeposit {amount : Nat} (h : base + amount ≤ c.eth I.this) :
    Sat (Funded I) (wethDeposit I amount c) fun c' _ => base ≤ c'.eth I.this := by
  refine sat_wethDeposit fun hfunds => ?_
  rw [Chain.setBal_eth, Chain.moveEth_src hfunds I.WETH_ne_this.symm]
  omega

/-- Unwrapping brings ether. -/
theorem spare_wethWithdraw {amount : Nat} (h : base ≤ c.eth I.this) :
    Sat (Funded I) (wethWithdraw I amount c) fun c' _ => base + amount ≤ c'.eth I.this := by
  refine sat_wethWithdraw fun _ hfunds => ?_
  rw [Chain.moveEth_dst (by simpa using hfunds) I.WETH_ne_this, Chain.setBal_eth]
  omega

/-- A call whose answer is only checked. -/
theorem spare_ask {α : Type} {q : Query} {read : Answer → Except VenueError α}
    (h : base ≤ c.eth I.this) :
    Sat (Funded I) ((Prog.ask q >>= fun a => Prog.ofExcept (read a) : Op α) c)
      fun c' _ => base ≤ c'.eth I.this := by
  simp only [Prog.bind_apply, Prog.ask_apply, Code.bind_call, Code.bind_done, sat_call,
    Prog.sat_ofExcept]
  intro c' a hcall _ _
  have hin := hcall.1
  omega

/-- Token transfers move no ether. -/
theorem spare_transfer {token dst : Address} {amount : Nat} (h : base ≤ c.eth I.this) :
    Sat (Funded I) (transfer I token dst amount c) fun c' _ => base ≤ c'.eth I.this := by
  by_cases htoken : token = I.WETH
  · simp only [transfer, wethTransfer, htoken, if_true, Prog.bind_apply, Prog.read_apply,
      Prog.write_apply, Prog.pure_apply, Code.bind_done, sat_bind, sat_done, Prog.sat_require]
    exact fun _ => h
  · simp only [transfer, htoken, if_false]
    exact spare_ask h

theorem spare_payToken {token dst : Address} {amount : Nat} (h : base ≤ c.eth I.this) :
    Sat (Funded I) (payToken I token dst amount c) fun c' _ => base ≤ c'.eth I.this := by
  simp only [payToken, Prog.bind_apply, sat_bind, Prog.sat_require]
  exact (spare_transfer h).mono fun _ _ hafter _ => hafter

theorem spare_pull {token src : Address} {amount : Nat} (h : base ≤ c.eth I.this) :
    Sat (Funded I) (pull I token src amount c) fun c' _ => base ≤ c'.eth I.this := by
  by_cases htoken : token = I.WETH
  · simp only [pull, wethPull, htoken, if_true, Prog.bind_apply, Prog.read_apply,
      Prog.write_apply, Code.bind_done, sat_bind, sat_done, Prog.sat_require]
    intro _
    unfold spent
    split <;> exact h
  · simp only [pull, htoken, if_false]
    exact spare_ask h

theorem spare_approve {token : Address} {amount : Nat} (h : base ≤ c.eth I.this) :
    Sat (Funded I) (approve I token amount c) fun c' _ => base ≤ c'.eth I.this := by
  by_cases htoken : token = I.WETH
  · simp only [approve, htoken, if_true, Prog.write_apply, sat_done]
    exact h
  · simp only [approve, htoken, if_false]
    exact spare_ask h

/-- Ether sent out is spent. -/
theorem spare_send {recipient : Address} {amount : Nat} (h : base + amount ≤ c.eth I.this) :
    Sat (Funded I) (send I recipient amount c) fun c' _ => base ≤ c'.eth I.this := by
  by_cases hthis : recipient = I.this
  · simp [send, hthis]
  · by_cases hwrap : recipient = I.WETH
    · simp only [send, hwrap, I.WETH_ne_this, if_true, if_false, Prog.bind_apply,
        Prog.read_apply, Code.bind_done, sat_bind, Prog.sat_require]
      exact fun _ => spare_wethDeposit h
    · simp only [send, sendPlain, payEther, hthis, hwrap, if_false, Prog.bind_apply,
        Prog.read_apply, Prog.write_apply, Prog.ask_apply, Code.bind_done, Code.bind_call,
        sat_bind, sat_call, sat_done, Prog.sat_require]
      intro hfunds c' a hcall _
      have hin := hcall.1
      rw [Chain.moveEth_src hfunds (Ne.symm hthis)] at hin
      omega

/-! ## Legs -/

/-- The pool is paid out of the running amount. -/
theorem spare_payOwed {currency : Address} {d : Int} {amountIn : Nat}
    (h : base + (if currency = NATIVE then amountIn else 0) ≤ c.eth I.this)
    (hle : (-d).toNat ≤ amountIn) :
    Sat (Funded I) (payOwed I currency d c) fun c' _ => base ≤ c'.eth I.this := by
  by_cases hd : d < 0
  · simp only [payOwed, pay, hd, if_true, Prog.bind_apply, sat_bind, Prog.sat_require]
    intro _
    by_cases hnative : currency = NATIVE
    · simp only [hnative, if_true, payEther, Prog.bind_apply, Prog.read_apply,
        Prog.write_apply, Prog.ask_apply, Code.bind_done, Code.bind_call, sat_bind, sat_call,
        sat_done, Prog.sat_require, Prog.sat_ofExcept] at h ⊢
      intro hfunds c' a hcall _ _
      have hin := hcall.1
      rw [Chain.moveEth_src hfunds I.poolManager_ne_this.symm] at hin
      omega
    · simp only [hnative, if_false, Prog.bind_apply, sat_bind] at h ⊢
      have hbase : base ≤ c.eth I.this := by omega
      simp only [Prog.ask_apply, sat_call, sat_done, Prog.sat_ofExcept]
      intro c₁ a hsync _ _
      have hin := hsync.1
      have hleft : base ≤ c₁.eth I.this := by omega
      refine (spare_transfer hleft).mono ?_
      intro c₂ _ htransfer c₃ a' hsettle _ _
      have hin' := hsettle.1
      omega
  · simp only [payOwed, hd, if_false, Prog.pure_apply, sat_done]
    omega

/-- What is taken in ether joins the running amount. -/
theorem spare_takeOwed {currency : Address} {out : Nat} (h : base ≤ c.eth I.this) :
    Sat (Funded I) (takeOwed currency out c) fun c' _ =>
      base + (if currency = NATIVE then out else 0) ≤ c'.eth I.this := by
  by_cases hout : 0 < out
  · simp only [takeOwed, hout, if_true, Prog.bind_apply, Prog.ask_apply, Code.bind_call,
      Code.bind_done, sat_call, Prog.sat_ofExcept]
    intro c' a hcall _ hok
    have hin := hcall.1
    have hfail : a ≠ .fail := by
      intro hfail
      simp [succeeded, hfail] at hok
    simp only [inflow, hfail, ne_eq, not_false_eq_true, and_true] at hin
    omega
  · have hzero : out = 0 := by omega
    simpa [takeOwed, hzero] using h

theorem spare_swapExactIn {key : PoolKey} {zeroForOne : Bool} {amountIn : Nat}
    (h : base + (if currencyIn key zeroForOne = NATIVE then amountIn else 0) ≤
      c.eth I.this) :
    Sat (Funded I) (swapExactIn I key zeroForOne amountIn 0 c) fun c' out =>
      base + (if currencyOut key zeroForOne = NATIVE then out else 0) ≤ c'.eth I.this := by
  by_cases hzero : amountIn = 0
  · simp only [swapExactIn, hzero, if_true, Prog.pure_apply, sat_done, ite_self] at h ⊢
    exact h
  · simp only [swapExactIn, unlockCallback, hzero, if_false, Prog.bind_apply, sat_bind,
      Prog.ask_apply, sat_call, sat_done, Prog.sat_ofExcept, Prog.sat_orRevert,
      Prog.sat_require, Prog.pure_apply]
    intro c₁ _ hunlock _ _ specified hspecified c₂ answer hswap delta hdelta _
    have hin₁ := hunlock.1
    have hin₂ := hswap.1
    have hle : (-dIn zeroForOne delta).toNat ≤ amountIn := by
      refine owed_le hspecified hzero ?_
      refine hswap.2 key zeroForOne specified _ delta rfl ?_
      cases answer with
      | int i =>
          simp only [returnedInt, Except.ok.injEq] at hdelta
          rw [hdelta]
      | fail | empty | bool | word => simp [returnedInt] at hdelta
    have hfunds : base + (if currencyIn key zeroForOne = NATIVE then amountIn else 0) ≤
        c₂.eth I.this := by omega
    refine (spare_payOwed hfunds hle).mono ?_
    intro c₃ _ hpaid
    refine (spare_takeOwed hpaid).mono ?_
    intro c₄ _ htaken c₅ _ hrelock _ _
    have hin₅ := hrelock.1
    omega

theorem spare_runVenue {l : Leg} {amount : Nat} {haveNative : Bool}
    (h : Spare I base amount haveNative c) :
    Sat (Funded I) (runVenue I l amount haveNative c) fun c' held =>
      Spare I base held.1 held.2 c' := by
  have hwrap (token : Address) : Sat (Funded I) (toErc20 I token amount haveNative c)
      fun c' _ => base ≤ c'.eth I.this := by
    cases haveNative with
    | false =>
        simp only [Spare, toErc20, Bool.false_eq_true, if_false, Prog.pure_apply,
          sat_done] at h ⊢
        exact h
    | true =>
        simp only [Spare, toErc20, if_true, Prog.bind_apply, sat_bind,
          Prog.sat_require] at h ⊢
        exact fun _ => spare_wethDeposit h
  by_cases hv3 : l.venue = 0
  · simp only [runVenue, runV3, hv3, if_true, Prog.bind_apply, sat_bind, Prog.sat_ofExcept]
    intro token _
    refine (hwrap token).mono ?_
    intro c₁ _ hbase
    refine (spare_approve hbase).mono ?_
    intro c₂ _ happroved
    simp only [Prog.ask_apply, sat_call, sat_done, Prog.pure_apply, Spare,
      Bool.false_eq_true, if_false]
    intro c₃ a hcall _ _
    have hin := hcall.1
    omega
  · by_cases hv4 : l.venue = 1
    · simp only [runVenue, runV4, hv4, if_true, if_false, one_ne_zero, Prog.bind_apply,
        sat_bind, Prog.pure_apply, sat_done]
      have hprepare : Sat (Funded I)
          (prepareV4 I (currencyIn l.key l.zeroForOne) amount haveNative c) fun c' _ =>
            base + (if currencyIn l.key l.zeroForOne = NATIVE then amount else 0) ≤
              c'.eth I.this := by
        by_cases hnative : currencyIn l.key l.zeroForOne = NATIVE
        · simp only [prepareV4, hnative, if_true]
          cases haveNative with
          | false =>
              simp only [Spare, toNative, Bool.false_eq_true, if_false] at h ⊢
              exact spare_wethWithdraw h
          | true =>
              simp only [Spare, toNative, if_true, Prog.pure_apply, sat_done] at h ⊢
              exact h
        · simp only [prepareV4, hnative, if_false]
          exact hwrap _
      refine hprepare.mono ?_
      intro c₁ _ hready
      refine (spare_swapExactIn hready).mono ?_
      intro c₂ out hout
      simpa [Spare] using hout
    · simp [runVenue, hv3, hv4]

/-- **No leg eats into what is spare.** -/
theorem spare_runFrom {legs : List Leg} {index amount : Nat} {holding : Address}
    {haveNative : Bool} (h : Spare I base amount haveNative c) :
    Sat (Funded I) (runFrom I index holding legs amount haveNative c) fun c' held =>
      Spare I base held.1 held.2 c' := by
  induction legs generalizing c index amount holding haveNative with
  | nil =>
      simp only [runFrom, Prog.pure_apply, sat_done]
      exact h
  | cons l legs ih =>
      simp only [runFrom, Prog.bind_apply, sat_bind, Prog.sat_ofExcept, Prog.sat_require]
      intro _ _ _
      refine (spare_runVenue h).mono ?_
      intro c₁ held hheld produced _
      exact ih hheld

theorem spare_run {legs : List Leg} {amount : Nat} {haveNative : Bool}
    (h : Spare I base amount haveNative c) :
    Sat (Funded I) (run I legs amount haveNative c) fun c' held =>
      Spare I base held.1 held.2 c' := by
  cases legs with
  | nil => simp [run]
  | cons l legs =>
      simp only [run, Prog.bind_apply, sat_bind, Prog.sat_ofExcept]
      intro _ _
      exact spare_runFrom h

end Flow

end Ordo
