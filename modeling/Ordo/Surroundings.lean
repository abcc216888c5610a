import Ordo.Legs

/-!
# What the surroundings can do to a swapping contract

The contract's tokens leave only by its own transfers and by what the router
takes, within the allowance, while it runs an `exactInput` the contract asked
for: the router takes from whoever called it.  Ether leaves only by the
contract's own calls; it comes in from WETH and the PoolManager, which pays out
what is taken.  Nothing else is known about pools, hooks, tokens and other
accounts: what they hold, what they answer and what else they change is open.

A swap never takes more than it was told to: the PoolManager's exact-input rule.
-/

namespace Ordo

open Reentrant

/-- The contract's own share of the ledger may have lost `outflow` of its WETH,
and has gained `inflow` of ether. -/
structure Around (I : Immutables) (inflow outflow : Nat) (c c' : Chain) : Prop where
  eth : c'.eth I.this = c.eth I.this + inflow
  weth : c.bal I.WETH I.this ≤ c'.bal I.WETH I.this + outflow
  allowance : c'.allowance I.this I.ROUTER ≤ c.allowance I.this I.ROUTER

/-- Others took nothing from the contract, and paid it no ether. -/
abbrev Untouched (I : Immutables) : Chain → Chain → Prop := Around I 0 0

/-- What others do on their own.  If `pushes`, they may also pay the contract
ether through the PoolManager, whose sender `receive` accepts, or force it in. -/
inductive Outside (I : Immutables) (pushes : Prop) : Chain → Chain → Prop
  | calm {c c' : Chain} (h : Untouched I c c') : Outside I pushes c c'
  | take (hpush : pushes) (c : Chain) (v : Nat) (hv : v ≤ c.eth I.poolManager)
      (hreceive : receive I I.poolManager c = .done c ()) :
      Outside I pushes c (c.moveEth I.poolManager I.this v)
  | force (hpush : pushes) (c : Chain) (src : Address) (v : Nat) (hsrc : src ≠ I.this)
      (hv : v ≤ c.eth src) : Outside I pushes c (c.moveEth src I.this v)

/-- What a callee does at once, and what it may answer. -/
def Reply (I : Immutables) (c : Chain) (q : Query) (c' : Chain) (a : Answer) : Prop :=
  match q with
  | .exactInput _ _ => ∃ v ≤ c.allowance I.this I.ROUTER, Around I 0 v c c'
  | .take currency amount =>
      Around I (if currency = NATIVE ∧ a ≠ .fail then amount else 0) 0 c c'
  | .poolSwap _ zeroForOne specified _ => Untouched I c c' ∧
      ∀ delta, a = .int delta → specified < 0 → -V4Swap.dIn zeroForOne delta ≤ -specified
  | _ => Untouched I c c'

theorem Around.refl (I : Immutables) (c : Chain) : Untouched I c c :=
  ⟨rfl, Nat.le_refl _, Nat.le_refl _⟩

/-- Losing nothing twice is losing nothing. -/
theorem Around.trans {I : Immutables} {c₁ c₂ c₃ : Chain} {v₁ v₂ w₁ w₂ : Nat}
    (h₁ : Around I v₁ w₁ c₁ c₂) (h₂ : Around I v₂ w₂ c₂ c₃) :
    Around I (v₁ + v₂) (w₁ + w₂) c₁ c₃ where
  eth := by
    have h := h₁.eth
    have h' := h₂.eth
    omega
  weth := by
    have h := h₁.weth
    have h' := h₂.weth
    omega
  allowance := h₂.allowance.trans h₁.allowance

/-- Whatever others do on their own, the contract keeps its WETH and its
ether. -/
theorem Outside.keeps {I : Immutables} {pushes : Prop} {c c' : Chain}
    (h : Outside I pushes c c') : ∃ v, (v = 0 ∨ pushes) ∧ Around I v 0 c c' := by
  have hpaid (src : Address) (v : Nat) (hsrc : src ≠ I.this) (hv : v ≤ c.eth src) :
      Around I v 0 c (c.moveEth src I.this v) := by
    refine ⟨?_, Nat.le_refl _, Nat.le_refl _⟩
    have hmove := Chain.moveEth_eth I.this hv I.this
    rw [if_neg hsrc.symm, if_pos rfl] at hmove
    omega
  cases h with
  | calm h => exact ⟨0, Or.inl rfl, h⟩
  | take hpush _ v hv _ => exact ⟨v, Or.inr hpush, hpaid _ v I.poolManager_ne_this hv⟩
  | force hpush _ src v hsrc hv => exact ⟨v, Or.inr hpush, hpaid src v hsrc hv⟩

/-- No reply takes ether from the contract. -/
theorem Reply.eth_le {I : Immutables} {c c' : Chain} {q : Query} {a : Answer}
    (h : Reply I c q c' a) : c.eth I.this ≤ c'.eth I.this := by
  cases q with
  | exactInput path amountIn =>
      obtain ⟨v, -, h⟩ := h
      exact h.eth.ge
  | take currency amount =>
      have heth := Around.eth h
      omega
  | poolSwap key zeroForOne specified limit => exact h.1.eth.ge
  | transferFrom | transfer | approve | unlock | sync | settle | relock | send =>
      exact (Around.eth h).ge

/-! ## Sample surroundings -/

namespace Sample

/-- The contract is account 100; WETH, the router and the PoolManager follow. -/
def immutables : Immutables where
  this := 100
  WETH := 101
  ROUTER := 102
  poolManager := 103
  WETH_ne_this := by decide
  ROUTER_ne_this := by decide
  poolManager_ne_this := by decide
  WETH_ne_zero := by decide
  ROUTER_ne_zero := by decide
  poolManager_ne_zero := by decide

/-- Callees take the ether they are sent and do nothing else. -/
def idle (c : Chain) : Query → Chain × Answer
  | .send _ _ => (c, .empty)
  | _ => (c, .fail)

theorem idle_reply (I : Immutables) (c : Chain) (q : Query) :
    Reply I c q (idle c q).1 (idle c q).2 := by
  cases q with
  | exactInput path amountIn => exact ⟨0, Nat.zero_le _, Around.refl _ _⟩
  | poolSwap key zeroForOne specified limit =>
      exact ⟨Around.refl _ _, fun _ h => by cases h⟩
  | take currency amount => simpa [Reply, idle] using Around.refl I c
  | transferFrom | transfer | approve | unlock | sync | settle | relock | send =>
      exact Around.refl _ _

/-- Some of a token other than ether changes hands, if it is there. -/
def given (c : Chain) (token src dst : Address) (amount : Nat) (answer : Answer) :
    Chain × Answer :=
  if token ≠ 0 ∧ token ≠ 101 ∧ amount ≤ c.bal token src then
    (c.move token src dst amount, answer)
  else (c, .fail)

theorem given_cases (c : Chain) (token src dst : Address) (amount : Nat) (answer : Answer) :
    (token ≠ 0 ∧ token ≠ 101 ∧ amount ≤ c.bal token src) ∧
        given c token src dst amount answer = (c.move token src dst amount, answer) ∨
      given c token src dst amount answer = (c, .fail) := by
  by_cases h : token ≠ 0 ∧ token ≠ 101 ∧ amount ≤ c.bal token src
  · exact Or.inl ⟨h, if_pos h⟩
  · exact Or.inr (if_neg h)

/-- A pool that gives one wei of its second currency for one of its first. -/
def traded (zeroForOne : Bool) (specified : Int) : Answer :=
  if zeroForOne = true ∧ -2 ^ 127 < specified ∧ specified < 0 then
    .int (specified * 2 ^ 128 - specified)
  else .fail

/-- That pool, in a PoolManager and among tokens that do as they should. -/
def market (c : Chain) : Query → Chain × Answer
  | .poolSwap _ zeroForOne specified _ => (c, traded zeroForOne specified)
  | .take currency amount => given c currency 103 100 amount .empty
  | .transfer token dst amount => given c token 100 dst amount (.bool true)
  | .transferFrom token src dst amount => given c token src dst amount (.bool true)
  | .unlock => (c, .empty)
  | .sync _ => (c, .empty)
  | .settle _ => (c, .empty)
  | .relock => (c, .empty)
  | .send _ _ => (c, .empty)
  | _ => (c, .fail)

theorem dIn_traded {zeroForOne : Bool} {specified delta : Int}
    (h : traded zeroForOne specified = .int delta) :
    V4Swap.dIn zeroForOne delta = specified := by
  unfold traded at h
  split at h
  · next hrange =>
      obtain ⟨rfl, hlow, hneg⟩ := hrange
      cases h
      have hhigh : (specified * 2 ^ 128 - specified) / 2 ^ 128 = specified := by omega
      simp only [V4Swap.dIn, if_true, hhigh, V4Swap.toI128]
      split <;> omega
  · cases h

end Sample

end Ordo
