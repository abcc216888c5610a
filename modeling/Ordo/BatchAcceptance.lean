import Ordo.BatchSimulate
import Ordo.BatchSolve

/-!
# The solver's check and the contract's

`acceptable` looks at the report of `simulate` and decides whether `settle` would pass
its checks.  It looks at the two tokens of the pair.  The contract looks at every token
that it lists, among them WETH on a pair without it, and counts what the orders of the
batch pay back to the contract itself.

`accepted_passes` says what is left open: with the rest within the caps, a report that
the solver accepts is a settlement that passes the checks on tokens.
-/

namespace Ordo

namespace Solver

open OrdoBatch (Order Params Price Interaction First Agrees Acceptable Faithful Fits Seen
  owedOf paidBack volume simulate_eq_report passes_of_acceptable reported_of_settled)

/-- The report of a simulation, as the solver reads it. -/
def ofReport (tokens : List Address) (delta : List Int) (owed buys : List Nat) : SimResult where
  tokens := (tokens.zip (delta.zip owed)).map fun p => ⟨p.1, p.2.1, p.2.2⟩
  buyAmounts := buys.map fun v => (v : Int)

/-- What the solver does not look at is within the contract's caps: tokens that are not
of the pair, and tokens that the orders pay back to the contract. -/
def RestKept (P : Params) (maxFeeBps : Nat) (batch : PairBatch P.I.WETH) (tokens : List Address)
    (delta : List Int) (owed buys : List Nat) : Prop :=
  ∀ (i : Nat) (x : Address) (d : Int) (o : Nat), First tokens i x → delta[i]? = some d →
    owed[i]? = some o →
    x ≠ batch.a ∧ x ≠ batch.b ∨ paidBack P.I x ((allOrders batch).zip buys) ≠ 0 →
      0 ≤ d - o + paidBack P.I x ((allOrders batch).zip buys) ∧
        d - o + paidBack P.I x ((allOrders batch).zip buys) ≤
          (volume P.I x ((allOrders batch).zip buys) * maxFeeBps / 10000 : Nat)

section Check

variable {WETH : Address} {batch : PairBatch WETH}

theorem acceptable_eq_ok {sim : SimResult} {maxFeeBps : Int} :
    acceptable batch sim maxFeeBps = .ok () ↔
      ∀ r ∈ sim.tokens, acceptToken batch maxFeeBps r = .ok () := forM_eq_ok

theorem mem_ofReport {tokens : List Address} {delta : List Int} {owed buys : List Nat} {i : Nat}
    {x : Address} {d : Int} {o : Nat} (hx : tokens[i]? = some x) (hd : delta[i]? = some d)
    (ho : owed[i]? = some o) : (⟨x, d, o⟩ : Moved) ∈ (ofReport tokens delta owed buys).tokens := by
  have hzip : (tokens.zip (delta.zip owed))[i]? = some (x, d, o) := by
    rw [List.getElem?_zip_eq_some]
    exact ⟨hx, List.getElem?_zip_eq_some.mpr ⟨hd, ho⟩⟩
  exact List.mem_map.mpr ⟨(x, d, o), List.mem_of_getElem? hzip, rfl⟩

/-- A token of the pair that passes is not short, and its fee is within the cap. -/
theorem acceptToken_ok {r : Moved} {maxFeeBps : Int} (hpair : r.token = batch.a ∨ r.token = batch.b)
    (h : acceptToken batch maxFeeBps r = .ok ()) :
    r.owed ≤ r.delta ∧ r.delta - r.owed ≤ feeCap batch maxFeeBps r := by
  unfold acceptToken at h
  split at h
  next hother =>
    rcases hpair with ha | hb
    · exact absurd ha hother.1
    · exact absurd hb hother.2
  split at h
  · cases h
  next hshort =>
    split at h
    · cases h
    next hfee => exact ⟨not_lt.mp hshort, not_lt.mp hfee⟩

end Check

section Volume

variable {P : Params}

/-- The contract's volume is what is sold of a token plus what is owed of it. -/
theorem volume_eq (x : Address) (orders : List Order) : ∀ buys : List Nat,
    buys.length = orders.length → (∀ o ∈ orders, o.sellToken ≠ NATIVE) →
    (volume P.I x (orders.zip buys) : Int) =
      sold (orders.filter fun o => asToken P.I.WETH o.sellToken = x) +
        owedOf P.I x (orders.zip buys) := by
  induction orders with
  | nil => exact fun _ _ _ => rfl
  | cons o orders ih =>
      intro buys hlength hnative
      cases buys with
      | nil => cases hlength
      | cons v buys =>
          have hrest := ih buys (Nat.succ.inj hlength)
            fun o' ho' => hnative o' (List.mem_cons_of_mem _ ho')
          have htoken : asToken P.I.WETH o.sellToken = o.sellToken :=
            if_neg (hnative o List.mem_cons_self)
          simp only [List.zip_cons_cons, volume, owedOf, List.map_cons, List.sum_cons] at hrest ⊢
          rw [List.filter_cons, htoken]
          by_cases hsells : o.sellToken = x
          · simp only [hsells, decide_true, if_true, sold, List.map_cons, List.sum_cons,
              Nat.cast_add] at hrest ⊢
            omega
          · simp only [hsells, decide_false, Bool.false_eq_true, if_false, Nat.cast_add] at hrest ⊢
            omega

/-- A token with a clearing price is not ether, which is priced as WETH. -/
theorem ne_native_of_priced {prices : List Price} {token : Address} {v : Nat}
    (h : OrdoBatch.clearingPrice P.I prices token = some v) : token ≠ NATIVE := by
  obtain ⟨p, hp, -⟩ := Option.map_eq_some_iff.mp h
  have hfound := List.find?_some hp
  have htoken : P.I.asErc20 p.token = token := of_decide_eq_true hfound
  rw [← htoken, Immutables.asErc20]
  split
  · exact P.I.WETH_ne_zero
  · assumption

/-- Orders of a batch that could be prepared sell tokens. -/
theorem sat_prepare_named {E : OrdoBatch.State → Ordo.Query → OrdoBatch.State → Answer → Prop}
    (hE : ∀ s q t a, E s q t a → t.store = s.store) {s : OrdoBatch.State} {orders : List Order}
    {signatures : List Bytes} (hlength : orders.length = signatures.length)
    {prices : List Price} {strict : Bool} :
    Reentrant.Sat E (OrdoBatch.prepare P orders signatures prices strict s) fun _ b =>
      b.buyAmounts.length = orders.length ∧ ∀ o ∈ orders, o.sellToken ≠ NATIVE := by
  simp only [OrdoBatch.prepare, Reentrant.Prog.bind_apply, Reentrant.sat_bind]
  refine (OrdoBatch.sat_openRows prices).mono fun t rows hrows => ?_
  obtain ⟨-, hopen, hlists⟩ := hrows
  have hstart : OrdoBatch.Counted P rows [] ⟨rows, [], 0⟩ := by
    refine ⟨rfl, rfl, fun r hr => ?_, fun i r hr => ?_⟩
    · rw [hopen.volume r hr]
      exact Nat.two_pow_pos 256
    · rw [hopen.volume r (List.mem_of_getElem? hr)]
      simp [volume]
  have hfills := OrdoBatch.sat_fillAll_done (P := P) (E := E) (s := t) strict
    (orders.zip signatures)
    (fun done _ b => OrdoBatch.Counted P rows done b ∧ ∀ o ∈ done, o.sellToken ≠ NATIVE)
    (K := fun _ u v => v.store = u.store)
    (fun os _ u => OrdoBatch.sat_onChain_same hE _ u)
    (fun os _ done u v b b' sellPrice buyPrice hinv hfill _ => ?_) []
    (show _ ∧ _ from ⟨hstart, fun o ho => absurd ho List.not_mem_nil⟩)
  · refine hfills.mono fun u b hcounted => ?_
    rw [List.nil_append, List.map_fst_zip hlength.le] at hcounted
    exact ⟨hcounted.1.length, hcounted.2⟩
  · refine ⟨hinv.1.step hfill, fun o ho => ?_⟩
    rcases List.mem_append.mp ho with ho | ho
    · exact hinv.2 o ho
    · rw [List.mem_singleton.mp ho]
      exact ne_native_of_priced (OrdoBatch.priceOf_eq (hlists.of_fixed hinv.1.rows) hfill.sell)

end Volume

section Accepted

variable {P : Params} {O : Chain → Ordo.Query → Chain × Answer} {s u v : OrdoBatch.State}
  {batch : PairBatch P.I.WETH} {prices : List Price} {interactions : List Interaction}
  {b : OrdoBatch.Batch} {delta : List Int} {owed : List Nat} {maxFeeBps : Nat}

/-- **What the solver accepts**, with the rest kept, the contract accepts. -/
theorem acceptable_of_accepted
    (hseen : Seen P O (allOrders batch) prices interactions s u v b delta owed)
    (haccept : acceptable batch
      (ofReport (b.rows.map OrdoBatch.Row.token) delta owed b.buyAmounts) maxFeeBps = .ok ())
    (hrest : RestKept P maxFeeBps batch (b.rows.map OrdoBatch.Row.token) delta owed
      b.buyAmounts) :
    Acceptable P maxFeeBps ((allOrders batch).zip b.buyAmounts)
      (b.rows.map OrdoBatch.Row.token) delta owed := by
  intro i x d o hx hd ho
  by_cases hcase : x ≠ batch.a ∧ x ≠ batch.b ∨
      paidBack P.I x ((allOrders batch).zip b.buyAmounts) ≠ 0
  · exact hrest i x d o hx hd ho hcase
  obtain ⟨hpair, hback⟩ := not_or.mp hcase
  have hback := not_not.mp hback
  have hpair : x = batch.a ∨ x = batch.b := by
    by_contra hnone
    obtain ⟨ha, hb⟩ := not_or.mp hnone
    exact hpair ⟨ha, hb⟩
  have hpasses := acceptable_eq_ok.mp haccept ⟨x, d, o⟩ (mem_ofReport hx.1 hd ho)
  obtain ⟨hlow, hhigh⟩ := acceptToken_ok (r := ⟨x, d, o⟩) hpair hpasses
  -- what the report owes of a first listing is all that is owed of the token
  obtain ⟨-, howedAt⟩ := OrdoBatch.sumOwed_first (by simp) hseen.owed
  have howed : o = owedOf P.I x ((allOrders batch).zip b.buyAmounts) := by
    have hlisted := hx.1
    have hsum := howedAt i x 0 hx.1 (by
      rw [List.getElem?_map, hlisted]
      rfl)
    rw [if_pos hx.2, Nat.zero_add, ho] at hsum
    exact Option.some.inj hsum
  obtain ⟨hlength, hnative⟩ := (sat_prepare_named OrdoBatch.lift_store (by simp)).eval
    hseen.prepared
  have hvolume := volume_eq (P := P) x (allOrders batch) b.buyAmounts hlength hnative
  have hcap : feeCap batch maxFeeBps ⟨x, d, o⟩ =
      (volume P.I x ((allOrders batch).zip b.buyAmounts) * maxFeeBps / 10000 : Nat) := by
    have hsum : sold ((allOrders batch).filter fun p => asToken P.I.WETH p.sellToken = x) + o =
        (volume P.I x ((allOrders batch).zip b.buyAmounts) : Int) := by
      rw [hvolume, howed]
    rw [feeCap, hsum, ← Nat.cast_mul, Int.tdiv_eq_ediv_of_nonneg (Int.natCast_nonneg _)]
    rfl
  rw [hcap] at hhigh
  rw [hback]
  exact ⟨by simpa using hlow, by simpa using hhigh⟩

end Accepted

/-- **The solver's acceptance and the contract's.**  Venues answer `simulate` and `settle`
alike, tokens are standard and balances fit an `int256`.  When the solver accepts the
report, the settlement passes its checks on all tokens if the rest is kept and no token
is listed twice, or the contract is not its own treasury; and it succeeds only if the
rest is kept. -/
theorem accepted_passes (P : Params) (O : Chain → Ordo.Query → Chain × Answer)
    (hO : ∀ c q, Faithful P.I c q (O c q).1 (O c q).2) (s : OrdoBatch.State) (sender : Address)
    (batch : PairBatch P.I.WETH) (signatures : List Bytes) (prices : List Price)
    (interactions : List Interaction) (hfits : Fits P O (allOrders batch) prices interactions s)
    {tokens : List Address} {delta : List Int} {owed buys : List Nat}
    (hreport : (OrdoBatch.simulate P (allOrders batch) prices interactions s).eval
      (OrdoBatch.ledger.lift O) = .error (.SimResult tokens delta owed buys))
    (haccept : acceptable batch (ofReport tokens delta owed buys) s.store.maxFeeBps = .ok ()) :
    (RestKept P s.store.maxFeeBps batch tokens delta owed buys →
      tokens.Nodup ∨ s.store.treasury ≠ P.I.this →
      ∀ e, (OrdoBatch.settle sender P (allOrders batch) signatures prices interactions s).eval
        (OrdoBatch.ledger.lift O) = .error e → ¬ e.tokenCheck) ∧
    ∀ t fees,
      (OrdoBatch.settle sender P (allOrders batch) signatures prices interactions s).eval
        (OrdoBatch.ledger.lift O) = .ok (t, fees) →
      RestKept P s.store.maxFeeBps batch tokens delta owed buys := by
  constructor
  · intro hrest honce
    obtain ⟨u, v, b, hseen, rfl, rfl⟩ := simulate_eq_report.mp hreport
    exact passes_of_acceptable hO hfits hseen honce (acceptable_of_accepted hseen haccept hrest)
  · intro t fees hsettle
    obtain ⟨u, v, b, delta', owed', hseen, -, hagrees, hcap⟩ :=
      reported_of_settled hO hfits hsettle
    have hsame := hreport.symm.trans (simulate_eq_report.mpr ⟨u, v, b, hseen, rfl, rfl⟩)
    simp only [Except.error.injEq, OrdoBatch.Error.SimResult.injEq] at hsame
    obtain ⟨rfl, rfl, rfl, rfl⟩ := hsame
    intro i x d o hx hd ho _
    have hlt : i < fees.length := by
      rw [hagrees.lengths.2.2]
      exact (List.getElem?_eq_some_iff.mp hx.1).1
    have hf := List.getElem?_eq_getElem hlt
    have hfee := hagrees.first i x d o _ hx hd ho hf
    have hle := hcap i x _ hx hf
    rw [← hfee]
    exact ⟨Int.natCast_nonneg _, Int.ofNat_le.mpr hle⟩

/-! ### Reports on the market -/

/-- The deposited order alone. -/
def depositBatch : PairBatch OrdoBatch.Sample.params.I.WETH where
  a := 101
  b := 200
  sellA := [OrdoBatch.Sample.order]
  sellB := []
  sellsA := by decide
  sellsB := by decide

theorem accepted_passes_sample :
    acceptable depositBatch (ofReport [101, 200] [0, 20] [0, 20] [20])
        OrdoBatch.Sample.stocked.store.maxFeeBps = .ok () ∧
      ∀ e, (OrdoBatch.settle 2 OrdoBatch.Sample.params (allOrders depositBatch) [[]]
        [⟨101, 1⟩, ⟨200, 1⟩] [OrdoBatch.Sample.interaction] OrdoBatch.Sample.stocked).eval
          (OrdoBatch.ledger.lift Ordo.Sample.market) = .error e → ¬ e.tokenCheck := by
  have hrun : ((OrdoBatch.simulate OrdoBatch.Sample.params [OrdoBatch.Sample.order]
      [⟨101, 1⟩, ⟨200, 1⟩] [OrdoBatch.Sample.interaction] OrdoBatch.Sample.stocked).eval
        (OrdoBatch.ledger.lift Ordo.Sample.market)).map Prod.snd =
          .error (.SimResult [101, 200] [0, 20] [0, 20] [20]) := by decide +kernel
  have hreport := Reentrant.map_eq_error hrun
  have haccept : acceptable depositBatch (ofReport [101, 200] [0, 20] [0, 20] [20])
      OrdoBatch.Sample.stocked.store.maxFeeBps = .ok () := by decide +kernel
  have hback : ∀ x, paidBack OrdoBatch.Sample.params.I x
      ((allOrders depositBatch).zip [20]) = 0 := by
    intro x
    rw [paidBack]
    rfl
  refine ⟨haccept, (accepted_passes OrdoBatch.Sample.params Ordo.Sample.market
    OrdoBatch.Sample.faithful_market OrdoBatch.Sample.stocked 2 depositBatch [[]]
    [⟨101, 1⟩, ⟨200, 1⟩] [OrdoBatch.Sample.interaction] OrdoBatch.Sample.fits_stocked hreport
    haccept).1 (fun i x d o hx _ _ hcase => ?_) (Or.inl (by decide))⟩
  -- both tokens are of the pair, and nothing is paid back
  have hmem := List.mem_of_getElem? hx.1
  rcases hcase with ⟨hne, hne'⟩ | hsome
  · rcases List.mem_cons.mp hmem with rfl | hmem
    · exact absurd rfl hne
    · exact absurd (List.mem_singleton.mp hmem) hne'
  · exact absurd (hback x) hsome

/-- Bytes hash to the last of them: the deposited order to 7, a sale to 0. -/
def hashing : Params :=
  { OrdoBatch.Sample.params with keccak := fun bytes => Fin.ofNat _ (bytes.getLastD 0).toNat }

/-- The market, where the contract may pay with WETH too. -/
def wethMarket (c : Chain) : Ordo.Query → Chain × Answer
  | .transfer token dst amount =>
      if token = 101 ∧ amount ≤ c.bal 101 100 then (c.move 101 100 dst amount, .bool true)
      else Ordo.Sample.market c (.transfer token dst amount)
  | q => Ordo.Sample.market c q

/-- The deposit is escrowed, account 6 has token 200 and the PoolManager token 300. -/
def guarded : OrdoBatch.State :=
  { OrdoBatch.Sample.deposited with
    chain := (OrdoBatch.Sample.deposited.chain.setBal 200 6 1000).setBal 300 103 1000 }

/-- Account 6 sells 800 of token 200. -/
def saleBatch (more : List Order)
    (hmore : ∀ o ∈ more, asToken OrdoBatch.Sample.params.I.WETH o.sellToken = 200) :
    PairBatch OrdoBatch.Sample.params.I.WETH where
  a := 200
  b := 300
  sellA := OrdoBatch.Sample.sale 0 800 1 :: more
  sellB := []
  sellsA := List.forall_mem_cons.mpr ⟨by decide, hmore⟩
  sellsB := by decide

/-- `amount` of a token into a pool for token 300. -/
def trade (token : Address) (amount : Nat) : Interaction :=
  ⟨[⟨1, [], ⟨token, 300, 0, 1, 0⟩, true⟩], amount⟩

/-- Two reports that the solver accepts for settlements that the contract refuses: one
spends 4 wei of the escrow, one sells the contract 8 of the token that it pays with. -/
theorem accepted_fails :
    (((OrdoBatch.simulate hashing (allOrders (saleBatch [] (by decide)))
        [⟨200, 1⟩, ⟨300, 1⟩] [trade 200 800, trade 101 4] guarded).eval
          (OrdoBatch.ledger.lift wethMarket)).map Prod.snd =
            .error (.SimResult [101, 200, 300] [-4, 0, 804] [0, 0, 800] [800]) ∧
      acceptable (saleBatch [] (by decide))
        (ofReport [101, 200, 300] [-4, 0, 804] [0, 0, 800] [800]) guarded.store.maxFeeBps =
          .ok () ∧
      ((OrdoBatch.settle 2 hashing (allOrders (saleBatch [] (by decide)))
        [OrdoBatch.Sample.signed] [⟨200, 1⟩, ⟨300, 1⟩] [trade 200 800, trade 101 4]
        guarded).eval (OrdoBatch.ledger.lift wethMarket)).map Prod.snd =
          .error (.ContractLostFunds 101 20 16)) ∧
    (((OrdoBatch.simulate OrdoBatch.Sample.params
        (allOrders (saleBatch [OrdoBatch.Sample.sale 100 8 2] (by decide)))
        [⟨200, 1⟩, ⟨300, 1⟩] [trade 200 808] OrdoBatch.Sample.crowded).eval
          (OrdoBatch.ledger.lift Ordo.Sample.market)).map Prod.snd =
            .error (.SimResult [101, 200, 300] [0, 0, 808] [0, 0, 808] [800, 8]) ∧
      acceptable (saleBatch [OrdoBatch.Sample.sale 100 8 2] (by decide))
        (ofReport [101, 200, 300] [0, 0, 808] [0, 0, 808] [800, 8])
        OrdoBatch.Sample.crowded.store.maxFeeBps = .ok () ∧
      ((OrdoBatch.settle 2 OrdoBatch.Sample.params
        (allOrders (saleBatch [OrdoBatch.Sample.sale 100 8 2] (by decide)))
        [OrdoBatch.Sample.signed, OrdoBatch.Sample.signed] [⟨200, 1⟩, ⟨300, 1⟩]
        [trade 200 808] OrdoBatch.Sample.crowded).eval
          (OrdoBatch.ledger.lift Ordo.Sample.market)).map Prod.snd =
            .error (.FeeAboveCap 300 8 4)) := by
  refine ⟨⟨?_, ?_, ?_⟩, ?_, ?_, ?_⟩ <;> decide +kernel

end Solver

end Ordo
