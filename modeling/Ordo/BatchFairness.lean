import Ordo.BatchOnce
import Ordo.Bystanders
import Ordo.Reentrant.Mirror

/-!
# What a settlement does to every account

When tokens are standard and callees keep to themselves, the ledger after a
settlement follows from the orders and the prices alone, but for the venues and
the contract: every seller whose order is not escrowed pays what the order
sells, every receiver gets what the prices give, the treasury gets the fees, and
nobody else is touched.

The contract itself is a different matter.  Of the tokens that are listed, WETH
always among them, it ends with what it had, less the escrow it used.  Whatever
else it may hold an interaction can spend.
-/

namespace Ordo.OrdoBatch

open Reentrant

/-- The clearing price of a token is the first that is listed for it; ether is
WETH. -/
def clearingPrice (I : Immutables) (prices : List Price) (token : Address) : Option Nat :=
  (prices.find? fun p => decide (I.asErc20 p.token = token)).map Price.price

/-- An order gets what the clearing prices give for it, rounded down, and no less
than its minimum. -/
def Bought (I : Immutables) (prices : List Price) (o : Order) (amount : Nat) : Prop :=
  ∃ sellPrice buyPrice, clearingPrice I prices o.sellToken = some sellPrice ∧
    clearingPrice I prices (I.asErc20 o.buyToken) = some buyPrice ∧
    amount = o.sellAmount * sellPrice / buyPrice ∧ o.minBuyAmount ≤ amount

/-- What is sold and bought of a token, in all fills together. -/
def volume (I : Immutables) (x : Address) (fills : List (Order × Nat)) : Nat :=
  (fills.map fun f => (if f.1.sellToken = x then f.1.sellAmount else 0) +
    (if I.asErc20 f.1.buyToken = x then f.2 else 0)).sum

/-- What is pulled from the owners of orders that are not escrowed. -/
def pulled (P : Params) (st : Store) (orders : List Order) (x a : Address) : Int :=
  (orders.map fun o => if st.escrowed (P.orderHash o) = 0 then
    paid o.sellToken o.owner o.sellAmount x a else 0).sum

/-- What receivers get in tokens. -/
def bought (fills : List (Order × Nat)) (x a : Address) : Int :=
  (fills.map fun f => if f.1.buyToken = NATIVE then 0
    else paid f.1.buyToken f.1.recipient f.2 x a).sum

/-- What receivers get in ether. -/
def boughtEther (fills : List (Order × Nat)) (a : Address) : Int :=
  (fills.map fun f => if f.1.buyToken = NATIVE then paidEther f.1.recipient f.2 a
    else 0).sum

/-- What the treasury gets. -/
def feesPaid (treasury : Address) (fees : List (Address × Nat)) (x a : Address) : Int :=
  (fees.map fun f => paid f.1 treasury f.2 x a).sum

/-- The fee of a token, in all its listings together. -/
def feeOf (x : Address) (fees : List (Address × Nat)) : Nat :=
  (fees.map fun f => if f.1 = x then f.2 else 0).sum

/-- The escrow that orders use. -/
def escrowUsed (P : Params) (st : Store) (orders : List Order) : Nat :=
  (orders.map fun o => st.escrowed (P.orderHash o)).sum

/-- What a settlement of `orders` at `prices` did between `s` and `t`. -/
structure Settled (P : Params) (V : Set Address) (prices : List Price) (orders : List Order)
    (s t : State) (buys : List Nat) (fees : List (Address × Nat)) : Prop where
  bought : List.Forall₂ (Bought P.I prices) orders buys
  escrow : ∀ o ∈ orders, s.store.escrowed (P.orderHash o) = 0 ∨
    s.store.escrowed (P.orderHash o) = o.sellAmount ∧ t.store.escrowed (P.orderHash o) = 0
  fee : ∀ x, feeOf x fees ≤ volume P.I x (orders.zip buys) * s.store.maxFeeBps / 10000
  others : Changed P.I V
    (-pulled P s.store orders + OrdoBatch.bought (orders.zip buys) +
      feesPaid s.store.treasury fees)
    (boughtEther (orders.zip buys)) s.chain t.chain
  own : s.store.treasury ≠ P.I.this → ∀ p ∈ watched P.I prices,
    t.chain.bal p.1 P.I.this + (if p.1 = P.I.WETH then escrowUsed P s.store orders else 0) =
      s.chain.bal p.1 P.I.this

/-- Callees are plain and leave the contract's storage alone. -/
def plainly (P : Params) (V : Set Address) (s : State) (q : Query) (t : State) (a : Answer) :
    Prop :=
  t.store = s.store ∧ Plain P.I V s.chain q t.chain a

section Fairness

variable {P : Params} {V : Set Address} {prices : List Price}

theorem sat_onChain_plainly {α : Type} {p : Op α} {s : State} {post : Chain → α → Prop}
    (h : Sat (Plain P.I V) (p s.chain) post) :
    Sat (plainly P V) (onChain p s) fun t a => t.store = s.store ∧ post t.chain a :=
  sat_onChain_store h fun _ _ _ _ hcall => hcall

/-! ## Prices and volumes -/

theorem priceOf_listed {I : Immutables} {rows : List Row} {token : Address} {v : Nat}
    (hpairs : rows.map (fun r => (r.token, r.px)) = listed I prices)
    (hpriced : ∀ p ∈ prices, p.price ≠ 0) (h : priceOf rows token = .ok v) :
    clearingPrice I prices token = some v := by
  induction rows generalizing prices with
  | nil => cases h
  | cons r rows ih =>
      cases prices with
      | nil => cases hpairs
      | cons p prices =>
          simp only [listed, List.map_cons, List.cons.injEq, Prod.mk.injEq] at hpairs
          obtain ⟨⟨htoken, hpx⟩, hrest⟩ := hpairs
          have hprice : r.px ≠ 0 := by
            rw [hpx]
            exact hpriced p List.mem_cons_self
          by_cases hfirst : r.token = token
          · rw [priceOf, if_pos ⟨hfirst, hprice⟩] at h
            cases h
            simp [clearingPrice, ← htoken, hfirst, hpx]
          · rw [priceOf, if_neg fun hboth => hfirst hboth.1] at h
            have hlater := ih hrest (fun p hp => hpriced p (List.mem_cons_of_mem _ hp)) h
            simpa [clearingPrice, ← htoken, hfirst] using hlater

/-- **One price for a token**: whatever order asks, the price is the clearing
price. -/
theorem priceOf_eq {I : Immutables} {rows : List Row} {token : Address} {v : Nat}
    (hlists : Lists I prices rows) (h : priceOf rows token = .ok v) :
    clearingPrice I prices token = some v := by
  have hpairs := hlists.pairs
  unfold watched at hpairs
  split at hpairs
  · exact priceOf_listed hpairs hlists.priced h
  · cases rows with
    | nil => cases hpairs
    | cons r rows =>
        simp only [List.map_cons, List.cons.injEq, Prod.mk.injEq] at hpairs
        rw [priceOf, if_neg fun hboth => hboth.2 hpairs.1.2] at h
        exact priceOf_listed hpairs.2 hlists.priced h

theorem Lists.of_fixed {I : Immutables} {rows rows' : List Row} (h : Lists I prices rows)
    (hfixed : rows'.map Row.fixed = rows.map Row.fixed) : Lists I prices rows' :=
  ⟨(map_of_fixed hfixed _ fun _ => rfl).trans h.pairs, h.priced⟩

/-- The volume the rows carry for a token, in all its listings together. -/
def rowsVolume (x : Address) (rows : List Row) : Nat :=
  (rows.map fun r => if r.token = x then r.volume else 0).sum

theorem rowsVolume_addVolume {rows rows' : List Row} {token : Address} {amount : Nat}
    (h : addVolume rows token amount = .ok rows') (x : Address) :
    rowsVolume x rows' = rowsVolume x rows + (if token = x then amount else 0) := by
  induction rows generalizing rows' with
  | nil => cases h
  | cons r rows ih =>
      obtain ⟨ht, -, rfl⟩ | ⟨-, rest, hrest, rfl⟩ := addVolume_cons h
      · by_cases hx : token = x
        · simp only [rowsVolume, List.map_cons, List.sum_cons, ht, hx, if_true]
          omega
        · simp [rowsVolume, ht, hx]
      · have hmore := ih hrest
        simp only [rowsVolume, List.map_cons, List.sum_cons] at hmore ⊢
        omega

theorem Fill.volume {strict : Bool} {s : State} {o : Order} {b b' : Batch}
    {sellPrice buyPrice : Nat} (h : Fill P strict s o b b' sellPrice buyPrice) (x : Address) :
    rowsVolume x b'.rows = rowsVolume x b.rows +
      OrdoBatch.volume P.I x [(o, o.sellAmount * sellPrice / buyPrice)] := by
  obtain ⟨sold, hsold, hrows⟩ := h.rows
  rw [rowsVolume_addVolume hrows, rowsVolume_addVolume hsold]
  simp [OrdoBatch.volume, Nat.add_assoc]

/-! ## The orders -/

theorem pulled_append (st : Store) (done : List Order) (o : Order) :
    pulled P st (done ++ [o]) = pulled P st done + pulled P st [o] := by
  funext x a
  simp [pulled]

/-- The loop over the orders of a batch that began in `s` with the rows `rows`:
`done` are filled. -/
structure Prepared (P : Params) (V : Set Address) (prices : List Price) (rows : List Row)
    (s : State) (done : List Order) (t : State) (b : Batch) : Prop where
  nonces : ∀ o ∈ done, t.store.nonceUsed o.owner o.nonce = true
  escrowed : ∀ h, t.store.escrowed h =
    if h ∈ done.map P.orderHash then 0 else s.store.escrowed h
  total : t.store.escrowTotal = s.store.escrowTotal
  treasury : t.store.treasury = s.store.treasury
  maxFeeBps : t.store.maxFeeBps = s.store.maxFeeBps
  rows : b.rows.map Row.fixed = rows.map Row.fixed
  consumed : b.escrowConsumed = escrowUsed P s.store done
  bought : List.Forall₂ (Bought P.I prices) done b.buyAmounts
  volume : ∀ x, rowsVolume x b.rows = OrdoBatch.volume P.I x (done.zip b.buyAmounts)
  chain : Changed P.I V (-pulled P s.store done) 0 s.chain t.chain

/-- What is left when an order is taken: its nonce is used, its escrow too, and
no setting is touched. -/
theorem filling_store (o : Order) (s : State) :
    (filling P true o s).store.treasury = s.store.treasury ∧
      (filling P true o s).store.maxFeeBps = s.store.maxFeeBps ∧
      (filling P true o s).store.nonceUsed =
        (s.store.useNonce o.owner o.nonce).nonceUsed := by
  simp only [filling, released]
  split <;> exact ⟨rfl, rfl, rfl⟩

theorem Prepared.step {rows : List Row} {s t u : State} {done : List Order} {o : Order}
    {b b' : Batch} {sellPrice buyPrice : Nat} (hlists : Lists P.I prices rows)
    (h : Prepared P V prices rows s done t b)
    (hhash : ∀ o' ∈ done, P.orderHash o' = P.orderHash o → o' = o)
    (hfill : Fill P true t o b b' sellPrice buyPrice)
    (hfund : if t.store.escrowed (P.orderHash o) = 0 then
        u.store = (filling P true o t).store ∧
          Changed P.I V (-paid o.sellToken o.owner o.sellAmount) 0 t.chain u.chain
      else u = filling P true o t) :
    Prepared P V prices rows s (done ++ [o]) u b' := by
  -- the nonce tells the order from those already filled, and so does its hash
  have hnew : P.orderHash o ∉ done.map P.orderHash := by
    intro hmem
    obtain ⟨o', ho', heq⟩ := List.mem_map.mp hmem
    have hused := h.nonces o' ho'
    rw [hhash o' ho' heq, (hfill.fresh rfl).2] at hused
    cases hused
  have hesc : t.store.escrowed (P.orderHash o) = s.store.escrowed (P.orderHash o) := by
    rw [h.escrowed, if_neg hnew]
  have hstore : u.store = (filling P true o t).store := by
    split at hfund
    · exact hfund.1
    · rw [hfund]
  have hpulled : Changed P.I V (-pulled P s.store [o]) 0 t.chain u.chain := by
    rw [hesc] at hfund
    split at hfund
    · next hzero =>
        refine hfund.2.congr ?_ rfl
        funext x a
        simp [pulled, hzero]
    · next hne =>
        have hnothing : -pulled P s.store [o] = 0 := by
          funext x a
          simp [pulled, hne]
        rw [hnothing, hfund]
        exact Changed.of_same rfl rfl
  obtain ⟨htreasury, hmax, hnonces⟩ := filling_store (P := P) o t
  have hlists' := hlists.of_fixed h.rows
  constructor
  · intro o' ho'
    rw [hstore, hnonces]
    rcases List.mem_append.mp ho' with ho' | ho'
    · exact Store.useNonce_mono (h.nonces o' ho')
    · rw [List.mem_singleton.mp ho']
      exact Store.useNonce_self _ _ _
  · intro k
    rw [hstore, filling, released_escrowed, taken_escrowed, List.map_append, List.map_singleton]
    by_cases hk : k = P.orderHash o
    · simp [hk]
    · rw [Function.update_of_ne hk, h.escrowed]
      simp [hk]
  · rw [hstore, filling, released_escrowTotal, taken_escrowTotal]
    exact h.total
  · rw [hstore, htreasury]
    exact h.treasury
  · rw [hstore, hmax]
    exact h.maxFeeBps
  · exact hfill.fixed.trans h.rows
  · rw [hfill.consumed, h.consumed, hesc]
    simp [escrowUsed]
  · rw [hfill.amounts]
    refine List.rel_append h.bought (.cons ⟨sellPrice, buyPrice, ?_, ?_, rfl, ?_⟩ .nil)
    · exact priceOf_eq hlists' hfill.sell
    · exact priceOf_eq hlists' hfill.buy
    · exact hfill.limit rfl
  · intro x
    have hlength := h.bought.length_eq
    rw [hfill.volume, h.volume, hfill.amounts, List.zip_append hlength]
    simp [OrdoBatch.volume]
  · have hboth := h.chain.trans hpulled
    refine hboth.congr ?_ (add_zero _)
    rw [pulled_append, neg_add]

theorem sat_pull_plainly (o : Order) (s : State) :
    Sat (plainly P V) (onChain (pull P.I o.sellToken o.owner o.sellAmount) s) fun t _ =>
      t.store = s.store ∧
        Changed P.I V (-paid o.sellToken o.owner o.sellAmount) 0 s.chain t.chain :=
  sat_onChain_plainly changed_pullToken

/-- **All orders of a batch.** -/
theorem sat_prepare {s : State} {orders : List Order} {signatures : List Bytes}
    (hlength : orders.length = signatures.length)
    (hhash : ∀ o ∈ orders, ∀ o' ∈ orders, P.orderHash o' = P.orderHash o → o' = o) :
    Sat (plainly P V) (prepare P orders signatures prices true s) fun t b =>
      ∃ rows, Opened P s.chain rows ∧ Lists P.I prices rows ∧
        Prepared P V prices rows s orders t b := by
  simp only [prepare, Prog.bind_apply, sat_bind]
  refine (sat_openRows prices).mono fun t rows hrows => ?_
  obtain ⟨rfl, hopen, hlists⟩ := hrows
  have hstart : Prepared P V prices rows t [] t ⟨rows, [], 0⟩ := by
    have hnone : -pulled P t.store [] = 0 := by
      funext x a
      simp [pulled]
    constructor
    · simp
    · simp
    · rfl
    · rfl
    · rfl
    · rfl
    · rfl
    · exact .nil
    · intro x
      have hzero : ∀ r ∈ rows, (if r.token = x then r.volume else 0) = 0 := fun r hr => by
        simp [hopen.volume r hr]
      simp [rowsVolume, volume, List.map_congr_left hzero]
    · rw [hnone]
      exact Changed.refl _
  have hfills := sat_fillAll_done (P := P) (E := plainly P V) true (orders.zip signatures)
    (fun done u b => (∀ o ∈ done, o ∈ orders) ∧ Prepared P V prices rows t done u b)
    (K := fun o u v => v.store = u.store ∧
      Changed P.I V (-paid o.sellToken o.owner o.sellAmount) 0 u.chain v.chain)
    (fun os _ u => sat_pull_plainly os.1 u)
    (fun os hos done u v b b' sellPrice buyPrice hinv hfill hfund => ?_) []
    ⟨by simp, hstart⟩
  · refine hfills.mono fun u b hprepared => ?_
    rw [List.nil_append, List.map_fst_zip hlength.le] at hprepared
    exact ⟨rows, hopen, hlists, hprepared.2⟩
  · have hmem : os.1 ∈ orders := (List.of_mem_zip hos).1
    refine ⟨fun o ho => ?_, hinv.2.step hlists ?_ hfill hfund⟩
    · rcases List.mem_append.mp ho with ho | ho
      · exact hinv.1 o ho
      · rw [List.mem_singleton.mp ho]
        exact hmem
    · exact fun o' ho' heq => hhash os.1 hmem o' (hinv.1 o' ho') heq

/-! ## Payments -/

theorem Changed.of_eq {d d' : Address → Address → Int} {e e' : Address → Int} {c c' : Chain}
    (h : Changed P.I V d e c c') (hd : ∀ x a, d x a = d' x a) (he : ∀ a, e a = e' a) :
    Changed P.I V d' e' c c' :=
  h.congr (funext fun x => funext (hd x)) (funext he)

/-- One buy. -/
theorem changed_payOne {c : Chain} {o : Order} {amount : Nat} :
    Sat (Plain P.I V) (payOne P.I o amount c) fun c' _ =>
      Changed P.I V (bought [(o, amount)]) (boughtEther [(o, amount)]) c c' := by
  by_cases hnative : o.buyToken = NATIVE
  · simp only [payOne, hnative, if_true, Prog.bind_apply, sat_bind]
    refine (aside_wethWithdraw (V := V)).mono fun c₁ _ hunwrapped => ?_
    refine changed_send.mono fun c₂ _ hsent => ?_
    refine Changed.of_eq (Changed.trans hunwrapped hsent) (fun x a => ?_) fun a => ?_
    · simp [bought, hnative]
    · simp [boughtEther, hnative]
  · simp only [payOne, hnative, if_false]
    refine changed_payToken.mono fun c₁ _ hpaid => ?_
    refine Changed.of_eq hpaid (fun x a => ?_) fun a => ?_
    · simp [bought, hnative]
    · simp [boughtEther, hnative]

/-- **All buys.** -/
theorem changed_payAll {c : Chain} {fills : List (Order × Nat)} :
    Sat (Plain P.I V) (pay P.I fills c) fun c' _ =>
      Changed P.I V (bought fills) (boughtEther fills) c c' := by
  induction fills generalizing c with
  | nil =>
      simp only [pay, Prog.pure_apply, sat_done]
      exact Changed.of_eq (Changed.refl c) (by simp [bought]) (by simp [boughtEther])
  | cons f fills ih =>
      obtain ⟨o, amount⟩ := f
      simp only [pay, Prog.bind_apply, sat_bind]
      refine changed_payOne.mono fun c₁ _ hfirst => ?_
      refine ih.mono fun c₂ _ hrest => ?_
      refine Changed.of_eq (hfirst.trans hrest) (fun x a => ?_) fun a => ?_
      · simp [bought]
      · simp [boughtEther]

/-- **The interactions** are nobody else's business. -/
theorem aside_interact (hpm : P.I.poolManager ∈ V) {c : Chain} {xs : List Interaction} :
    Sat (Plain P.I V) (interact P.I xs c) fun c' _ => Aside P.I V c c' := by
  induction xs generalizing c with
  | nil =>
      simp only [interact, Prog.pure_apply, sat_done]
      exact Changed.refl c
  | cons x xs ih =>
      simp only [interact, Prog.bind_apply, sat_bind, Prog.sat_require]
      intro _
      refine (aside_run hpm).mono fun c₁ out hrun => ?_
      have hwrap : Sat (Plain P.I V) (wrapOut P.I out.1 out.2 c₁) fun c' _ =>
          Aside P.I V c₁ c' := by
        unfold wrapOut
        split
        · exact aside_wethDeposit
        · simpa using Changed.refl c₁
      refine hwrap.mono fun c₂ _ hwrapped => ?_
      exact ih.mono fun c₃ _ hrest => (hrun.trans hwrapped).trans hrest

/-! ## Fees -/

/-- A fee is the treasury's, and costs the contract that much of that token. -/
theorem changed_sendFee {c : Chain} {token dst : Address} {fee : Nat} :
    Sat (Plain P.I V) (sendFee P.I token dst fee c) fun c' _ =>
      Changed P.I V (paid token dst fee) 0 c c' ∧
        (∀ x, x ≠ token → c'.bal x P.I.this = c.bal x P.I.this) ∧
        (dst ≠ P.I.this → c'.bal token P.I.this + fee = c.bal token P.I.this) := by
  have hmoved (c' : Chain) (hfunds : fee ≤ c.bal token P.I.this)
      (hbal : c'.bal = (c.move token P.I.this dst fee).bal) (heth : c'.eth = c.eth) :
      Changed P.I V (paid token dst fee) 0 c c' ∧
        (∀ x, x ≠ token → c'.bal x P.I.this = c.bal x P.I.this) ∧
        (dst ≠ P.I.this → c'.bal token P.I.this + fee = c.bal token P.I.this) := by
    refine ⟨changed_pay dst hfunds hbal heth, fun x hx => ?_, fun hdst => ?_⟩
    · have hmove := Chain.move_bal dst hfunds x P.I.this
      simp only [hx, false_and, if_false] at hmove
      rw [hbal]
      omega
    · have hmove := Chain.move_bal dst hfunds token P.I.this
      simp only [true_and, if_true, hdst.symm, if_false] at hmove
      rw [hbal]
      omega
  by_cases hfee : fee = 0
  · subst hfee
    rw [sendFee, if_neg (not_not.mpr rfl), Prog.pure_apply, sat_done]
    refine ⟨Changed.of_eq (Changed.refl c) (fun x a => ?_) fun _ => rfl, fun _ _ => rfl,
      fun _ => rfl⟩
    simp [paid]
  · by_cases htoken : token = P.I.WETH
    · simp only [sendFee, payToken, transfer, wethTransfer, hfee, htoken, ne_eq,
        not_false_eq_true, if_true, Prog.bind_apply, Prog.read_apply, Prog.write_apply,
        Prog.pure_apply, Code.bind_done, sat_bind, sat_done, Prog.sat_require] at hmoved ⊢
      exact fun hfunds _ => hmoved _ hfunds rfl rfl
    · simp only [sendFee, payToken, transfer, hfee, htoken, ne_eq, not_false_eq_true, if_true,
        if_false, Prog.bind_apply, Prog.ask_apply, Code.bind_call, Code.bind_done, sat_bind,
        sat_call, Prog.sat_ofExcept, Prog.sat_require, returned_eq_ok]
      intro c' a hcall ok hok htrue
      have heffect := hcall ok hok
      rw [if_pos htrue] at heffect
      exact hmoved c' heffect.1 heffect.2.1 heffect.2.2

/-- One listing: the fee is within the cap, and the contract is left with what is
expected of it. -/
theorem fair_takeFee {s : State} {r : Row} {consumed : Nat} :
    Sat (plainly P V) (takeFee P consumed r s) fun t fee => t.store = s.store ∧
      Changed P.I V (paid r.token s.store.treasury fee) 0 s.chain t.chain ∧
      fee ≤ r.volume * s.store.maxFeeBps / 10000 ∧
      (∀ x, x ≠ r.token → t.chain.bal x P.I.this = s.chain.bal x P.I.this) ∧
      (s.store.treasury ≠ P.I.this →
        expected P.I consumed r = some (t.chain.bal r.token P.I.this)) := by
  simp only [takeFee, Prog.bind_apply, sat_bind, Prog.sat_orRevert]
  intro expected hexpected
  refine sat_balanceOf fun _ => ?_
  simp only [Prog.read_apply, Prog.sat_require, Prog.pure_apply, sat_done, mulU_eq_some]
  intro hloss product hproduct hcap
  obtain ⟨-, rfl⟩ := hproduct
  refine (sat_onChain_plainly changed_sendFee).mono fun t _ hpaid => ?_
  obtain ⟨hstore, hchanged, hothers, hown⟩ := hpaid
  refine ⟨hstore, hchanged, Nat.not_lt.mp hcap, hothers, fun htreasury => ?_⟩
  have hleft := hown htreasury
  rw [hexpected]
  congr 1
  omega

/-- **All listings.** -/
theorem fair_takeFees {s : State} {rows : List Row} {consumed : Nat} :
    Sat (plainly P V) (takeFees P consumed rows s) fun t fees => t.store = s.store ∧
      Changed P.I V (feesPaid s.store.treasury ((rows.map Row.token).zip fees)) 0 s.chain
        t.chain ∧
      (∀ x, feeOf x ((rows.map Row.token).zip fees) ≤
        rowsVolume x rows * s.store.maxFeeBps / 10000) ∧
      (s.store.treasury ≠ P.I.this → ∀ x e,
        (∀ r ∈ rows, r.token = x → ∀ v, expected P.I consumed r = some v → v = e) →
        s.chain.bal x P.I.this = e ∨ x ∈ rows.map Row.token →
        t.chain.bal x P.I.this = e) := by
  induction rows generalizing s with
  | nil =>
      simp only [takeFees, Prog.pure_apply, sat_done]
      refine ⟨trivial, Changed.of_eq (Changed.refl _) ?_ fun _ => rfl, fun x => ?_, ?_⟩
      · simp [feesPaid]
      · simp [feeOf]
      · intro _ x e _ h
        simpa using h
  | cons r rows ih =>
      simp only [takeFees, Prog.bind_apply, sat_bind, Prog.pure_apply, sat_done]
      refine fair_takeFee.mono fun t fee hfirst => ?_
      obtain ⟨hstore, hchanged, hcap, hothers, hown⟩ := hfirst
      refine ih.mono fun u fees hrest => ?_
      rw [hstore] at hrest
      obtain ⟨hstore', hchanged', hcaps, howns⟩ := hrest
      refine ⟨hstore', Changed.of_eq (hchanged.trans hchanged') ?_ fun _ => rfl, fun x => ?_,
        fun htreasury x e hsame hx => ?_⟩
      · intro x a
        simp [feesPaid]
      · have hlater := hcaps x
        simp only [feeOf, rowsVolume, List.map_cons, List.zip_cons_cons, List.sum_cons] at hlater ⊢
        rw [Nat.add_mul]
        have hthis : (if r.token = x then fee else 0) ≤
            (if r.token = x then r.volume else 0) * s.store.maxFeeBps / 10000 := by
          split
          · exact hcap
          · exact Nat.zero_le _
        omega
      · refine howns htreasury x e (fun r' hr' => hsame r' (List.mem_cons_of_mem _ hr')) ?_
        by_cases htoken : r.token = x
        · left
          subst htoken
          exact hsame r List.mem_cons_self rfl _ (hown htreasury)
        · rw [List.map_cons, List.mem_cons] at hx
          rcases hx with hx | hx | hx
          · left
            rw [hothers x (Ne.symm htoken)]
            exact hx
          · exact absurd hx.symm htoken
          · exact Or.inr hx

/-! ## The settlement -/

/-- An order with something escrowed is escrowed in full. -/
theorem Sound.escrowed_eq {s : State} {orders : List Order} (hs : Sound P s)
    (hhash : NoCollision P (orders.map Entry.filled ++ s.store.journal)) {o : Order}
    (ho : o ∈ orders) (hesc : s.store.escrowed (P.orderHash o) ≠ 0) :
    s.store.escrowed (P.orderHash o) = o.sellAmount := by
  have hmem : Entry.filled o ∈ orders.map Entry.filled ++ s.store.journal :=
    List.mem_append_left _ (List.mem_map_of_mem ho)
  have hsub : ∀ e ∈ Entry.filled o :: s.store.journal,
      e ∈ orders.map Entry.filled ++ s.store.journal := by
    intro e he
    rcases List.mem_cons.mp he with rfl | he
    · exact hmem
    · exact List.mem_append_right _ he
  have hcollision : NoCollision P (.filled o :: s.store.journal) :=
    fun e he e' he' => hhash e (hsub e he) e' (hsub e' he')
  exact (hs.deposit_eq rfl hcollision hesc).2

/-- **A settlement**, from a state that is sound and solvent. -/
theorem fair_settle (hpm : P.I.poolManager ∈ V) {s : State} {sender : Address}
    {orders : List Order} {signatures : List Bytes} {interactions : List Interaction}
    (hsound : Sound P s) (hsolvent : Solvent P s)
    (hhash : NoCollision P (orders.map Entry.filled ++ s.store.journal)) :
    Sat (plainly P V) (settle sender P orders signatures prices interactions s) fun t _ =>
      ∃ buys fees, Settled P V prices orders s t buys fees := by
  simp only [settle, nonReentrant, modify, checkAndTakeFee, Prog.bind_apply,
    Prog.read_apply, Prog.write_apply, Code.bind_done, sat_bind, sat_done, Prog.sat_require,
    Prog.pure_apply, Prog.sat_orRevert, subU_eq_some]
  intro _ _ hlength
  have hsame : ∀ o ∈ orders, ∀ o' ∈ orders, P.orderHash o' = P.orderHash o → o' = o :=
    fun o ho o' ho' heq => hhash (.filled o')
      (List.mem_append_left _ (List.mem_map_of_mem ho')) (.filled o)
      (List.mem_append_left _ (List.mem_map_of_mem ho)) o' o rfl rfl heq
  refine (sat_prepare hlength hsame).mono fun t b hprepared => ?_
  obtain ⟨rows, hopen, hlists, hprep⟩ := hprepared
  intro total htotal
  obtain ⟨hused, rfl⟩ := htotal
  refine (sat_onChain_plainly (aside_interact hpm)).mono fun u _ hinteract => ?_
  refine (sat_onChain_plainly changed_payAll).mono fun v _ hpay => ?_
  refine fair_takeFees.mono fun w fees hfees => ?_
  intro _
  obtain ⟨hstore₁, hroutes⟩ := hinteract
  obtain ⟨hstore₂, hbuys⟩ := hpay
  obtain ⟨hstore₃, hfee, hcaps, hown⟩ := hfees
  have hlater : v.store = t.store.setTotal (t.store.escrowTotal - b.escrowConsumed) :=
    hstore₂.trans hstore₁
  have htreasury : v.store.treasury = s.store.treasury := by
    rw [hlater]
    exact hprep.treasury
  have hmax : v.store.maxFeeBps = s.store.maxFeeBps := by
    rw [hlater]
    exact hprep.maxFeeBps
  rw [htreasury] at hfee hown
  refine ⟨b.buyAmounts, (b.rows.map Row.token).zip fees, hprep.bought, fun o ho => ?_,
    fun x => ?_, ?_, fun hne p hp => ?_⟩
  · by_cases hesc : s.store.escrowed (P.orderHash o) = 0
    · exact Or.inl hesc
    · refine Or.inr ⟨hsound.escrowed_eq hhash ho hesc, ?_⟩
      have hgone := hprep.escrowed (P.orderHash o)
      rw [if_pos (List.mem_map_of_mem ho)] at hgone
      simp only [Store.unlock, hstore₃, hlater, Store.setTotal]
      exact hgone
  · have hcap := hcaps x
    rw [hmax, hprep.volume] at hcap
    exact hcap
  · have hall := ((hprep.chain.trans hroutes).trans hbuys).trans hfee
    refine Changed.of_eq hall (fun x a => ?_) fun a => ?_
    · simp [pulled, Store.lock]
    · simp
  · have hrow : p.1 ∈ b.rows.map Row.token := by
      have htokens := congrArg (List.map Prod.fst) (hlists.of_fixed hprep.rows).pairs
      rw [List.map_map] at htokens
      have hmem := List.mem_map_of_mem (f := Prod.fst) hp
      rw [← htokens] at hmem
      exact hmem
    have hbacked : b.escrowConsumed ≤ s.chain.bal P.I.WETH P.I.this := by
      rw [hprep.total] at hused
      exact hused.trans hsolvent.2
    have hleft := hown hne p.1 (if p.1 = P.I.WETH then
        s.chain.bal p.1 P.I.this - b.escrowConsumed else s.chain.bal p.1 P.I.this)
      (fun r hr htoken v hv => ?_) (Or.inr hrow)
    · have hconsumed : b.escrowConsumed = escrowUsed P s.store orders := hprep.consumed
      rw [← hconsumed]
      split at hleft
      · next hweth =>
          rw [hweth] at hleft ⊢
          simp only [if_true]
          omega
      · next hweth => simpa [hweth] using hleft
    · obtain ⟨r', hr', hsame', -, hbefore⟩ := mem_of_fixed hprep.rows hr
      have hopened := hopen.before r' hr'
      rw [hsame', hbefore, htoken] at hopened
      rw [expected, htoken, hopened] at hv
      split at hv
      · next hweth =>
          rw [if_pos hweth]
          exact (subU_eq_some.mp hv).2
      · next hweth =>
          rw [if_neg hweth]
          exact (Option.some.inj hv).symm

end Fairness

/-- **Fairness.**  Among standard tokens and callees that keep to themselves, and
from every state a run can reach, a settlement that succeeds fills every order
at the one clearing price of each token and no worse than its minimum; the
ledger of everybody but the venues and the contract changes by what the orders
pay and get and by the fees, and by nothing else; fees are within the cap for
every token; and of the tokens it watches the contract keeps what it had, less
the escrow of the orders. -/
theorem settlement_is_fair (P : Params) (pushes : Prop) (V : Set Address)
    (hpm : P.I.poolManager ∈ V) {s₀ s : State} (hinit : Deployed s₀)
    (hs : (system P pushes).Reaches s₀ s) (sender : Address) (orders : List Order)
    (signatures : List Bytes) (prices : List Price) (interactions : List Interaction)
    (hhash : NoCollision P (orders.map Entry.filled ++ s.store.journal)) :
    Sat (plainly P V) (settle sender P orders signatures prices interactions s) fun t _ =>
      ∃ buys fees, Settled P V prices orders s t buys fees := by
  have hjournal : NoCollision P s.store.journal := hhash.suffix (List.suffix_append _ _)
  have hsound : Sound P s := (Reaches.follows hs).sound (fun _ => hinit.sound) hjournal
  have hsolvent : Solvent P s :=
    (Reaches.respects hs).solvent hinit.unlocked hinit.solvent
  exact fair_settle hpm hsound hsolvent hhash

/-! ## A market -/

namespace Sample

theorem plain_market (c : Chain) (q : Query) :
    Plain Ordo.Sample.immutables {103} c q (Sample.market c q).1 (Sample.market c q).2 := by
  cases q with
  | transferFrom token src dst amount =>
      change Plain _ _ _ _ (Sample.given c token src dst amount (.bool true)).1
        (Sample.given c token src dst amount (.bool true)).2
      rcases Sample.given_cases c token src dst amount (.bool true) with ⟨hfunds, h⟩ | h
      · rw [h]
        exact fun _ => ⟨hfunds.2.2, rfl, rfl⟩
      · rw [h]
        exact fun hok => by cases hok
  | transfer token dst amount =>
      change Plain _ _ _ _ (Sample.given c token 100 dst amount (.bool true)).1
        (Sample.given c token 100 dst amount (.bool true)).2
      rcases Sample.given_cases c token 100 dst amount (.bool true) with ⟨hfunds, h⟩ | h
      · rw [h]
        intro b hb
        cases hb
        exact ⟨hfunds.2.2, rfl, rfl⟩
      · rw [h]
        exact fun _ hb => by cases hb
  | take currency amount =>
      change Aside _ _ _ (Sample.given c currency 103 100 amount .empty).1
      rcases Sample.given_cases c currency 103 100 amount .empty with ⟨hfunds, h⟩ | h
      · rw [h]
        constructor
        · intro x a hvenue hthis
          have hmove := Chain.move_bal 100 hfunds.2.2 x a
          have hsrc : ¬ (x = currency ∧ a = 103) := fun h => hvenue h.2
          have hdst : ¬ (x = currency ∧ a = 100) := fun h => hthis h.2
          rw [if_neg hsrc, if_neg hdst] at hmove
          simpa using hmove
        · simp
      · rw [h]
        exact Changed.refl c
  | poolSwap | approve | exactInput | unlock | sync | settle | relock | send =>
      exact Changed.refl c

theorem plainly_market (s : State) (q : Query) (t : State) (a : Answer)
    (h : ledger.lift Sample.market s q = (t, a)) : plainly params {103} s q t a := by
  cases h
  exact ⟨rfl, plain_market _ _⟩

/-- Account 5 has deposited its order, and the PoolManager has token 200. -/
def stocked : State := { deposited with chain := deposited.chain.setBal 200 103 1000 }

theorem reaches_stocked : (system params False).Reaches start stocked :=
  reaches_deposited.tail ⟨0, rfl, Nat.le_refl _, .calm ⟨rfl, Nat.le_refl _, Nat.le_refl _⟩⟩

theorem stocked_noCollision :
    NoCollision params ([order].map Entry.filled ++ stocked.store.journal) := by
  have hjournal : stocked.store.journal = [.deposited order] := by decide
  rw [hjournal]
  intro e he e' he' o o' ho ho' _
  simp only [List.map_cons, List.map_nil, List.cons_append, List.nil_append, List.mem_cons,
    List.not_mem_nil, or_false] at he he'
  rcases he with rfl | rfl <;> rcases he' with rfl | rfl <;> cases ho <;> cases ho' <;> rfl

/-- WETH into a pool for token 200. -/
def interaction : Interaction := ⟨[⟨1, [], ⟨101, 200, 0, 1, 0⟩, true⟩], 20⟩

/-- The contract holds some of token 300, which nobody lists. -/
def stray : State :=
  { start with chain := (start.chain.setBal 300 100 10).setBal 400 103 1000 }

/-- Token 300 into a pool for token 400. -/
def raid : Interaction := ⟨[⟨1, [], ⟨300, 400, 0, 1, 0⟩, true⟩], 10⟩

end Sample

/-- The deposited order is filled on a pool, at one for one. -/
theorem settlement_is_fair_sample :
    ∃ t buys fees, (settle 2 Sample.params [Sample.order] [[]] [⟨101, 1⟩, ⟨200, 1⟩]
        [Sample.interaction] Sample.stocked).eval (ledger.lift Sample.market) =
          .ok (t, [0, 0]) ∧
      Settled Sample.params {103} [⟨101, 1⟩, ⟨200, 1⟩] [Sample.order] Sample.stocked t buys
        fees := by
  have hfair := settlement_is_fair Sample.params False {103} (Set.mem_singleton _)
    Sample.deployed_start Sample.reaches_stocked 2 [Sample.order] [[]] [⟨101, 1⟩, ⟨200, 1⟩]
    [Sample.interaction] Sample.stocked_noCollision
  have hrun : ((settle 2 Sample.params [Sample.order] [[]] [⟨101, 1⟩, ⟨200, 1⟩]
      [Sample.interaction] Sample.stocked).eval (ledger.lift Sample.market)).map Prod.snd =
        .ok [0, 0] := by decide +kernel
  obtain ⟨⟨t, fees⟩, heval, rfl⟩ := map_eq_ok.mp hrun
  have hplain := (runs_graph_iff.mpr heval).mono Sample.plainly_market
  obtain ⟨buys, fees, hsettled⟩ := hfair t [0, 0] hplain
  exact ⟨t, buys, fees, heval, hsettled⟩

/-- What the contract holds of a token that is not listed is not watched: an
interaction can spend it. -/
theorem stray_tokens_can_be_spent :
    Deployed Sample.stray ∧ ∃ t, (settle 2 Sample.params [] [] [] [Sample.raid]
        Sample.stray).eval (ledger.lift Sample.market) = .ok (t, [0]) ∧
      ¬ ∀ token a, a ≠ 103 → a ≠ Sample.stray.store.treasury →
        t.chain.bal token a = Sample.stray.chain.bal token a := by
  have hrun : ((settle 2 Sample.params [] [] [] [Sample.raid] Sample.stray).eval
      (ledger.lift Sample.market)).map (fun r => (r.1.chain.bal 300 100, r.2)) =
        .ok (0, [0]) := by decide +kernel
  obtain ⟨⟨t, fees⟩, heval, hafter⟩ := map_eq_ok.mp hrun
  obtain ⟨hspent, rfl⟩ := Prod.mk.inj hafter
  refine ⟨⟨1, 2, 3, 50, rfl⟩, t, heval, fun hsame => ?_⟩
  have hkept : t.chain.bal 300 100 = 10 := hsame 300 100 (by decide) (by decide)
  exact absurd (Eq.trans (Eq.symm hkept) hspent) (by decide)

end Ordo.OrdoBatch
