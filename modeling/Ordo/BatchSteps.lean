import Ordo.Batch

/-!
# What the batch contract's functions do, once

The results about the batch contract all go through the same code with another
property in hand.  Here that code is unfolded once.  `sat_entry` lists what a
call can be: a deposit, a refund, a cancelled nonce, a settlement, a sweep, or a
change of a setting.  `sat_fill` and `sat_fillAll` are one order and all orders
of a batch: what the storage is when the order's money is asked for, what was
checked, and what the batch remembers; what happens while the money is pulled
is left to a relation `K` of the reader's choice.
-/

namespace Ordo.OrdoBatch

open Reentrant

variable {P : Params} {E : State → Query → State → Answer → Prop}

/-- The storage when a settlement takes an order. -/
def taken (strict : Bool) (o : Order) (st : Store) : Store :=
  if strict then (st.useNonce o.owner o.nonce).record (.filled o) else st

/-- The storage when an order's escrow is used. -/
def released (P : Params) (o : Order) (st : Store) : Store :=
  if st.escrowed (P.orderHash o) ≠ 0 then
    (st.setEscrow (P.orderHash o) 0).record (.consumed o)
  else st

/-- The state in which an order's money is asked for. -/
def filling (P : Params) (strict : Bool) (o : Order) (s : State) : State :=
  { s with store := released P o (taken strict o s.store) }

@[simp] theorem taken_escrowed (strict : Bool) (o : Order) (st : Store) :
    (taken strict o st).escrowed = st.escrowed := by
  cases strict <;> rfl

@[simp] theorem taken_escrowTotal (strict : Bool) (o : Order) (st : Store) :
    (taken strict o st).escrowTotal = st.escrowTotal := by
  cases strict <;> rfl

@[simp] theorem taken_locked (strict : Bool) (o : Order) (st : Store) :
    (taken strict o st).locked = st.locked := by
  cases strict <;> rfl

@[simp] theorem released_escrowTotal (o : Order) (st : Store) :
    (released P o st).escrowTotal = st.escrowTotal := by
  unfold released
  split <;> rfl

@[simp] theorem released_locked (o : Order) (st : Store) :
    (released P o st).locked = st.locked := by
  unfold released
  split <;> rfl

/-- Used or not, nothing is escrowed for the order afterwards. -/
@[simp] theorem released_escrowed (o : Order) (st : Store) :
    (released P o st).escrowed = Function.update st.escrowed (P.orderHash o) 0 := by
  unfold released
  split
  · rfl
  · next h =>
      have hzero : st.escrowed (P.orderHash o) = 0 := not_not.mp h
      rw [← hzero, Function.update_eq_self]

/-- What one order adds to a batch, and what was checked. -/
structure Fill (P : Params) (strict : Bool) (s : State) (o : Order) (b b' : Batch)
    (sellPrice buyPrice : Nat) : Prop where
  amount : o.sellAmount ≠ 0
  tokens : o.sellToken ≠ P.I.asErc20 o.buyToken
  fresh : strict = true → s.now ≤ o.validTo ∧ s.store.nonceUsed o.owner o.nonce = false
  sell : priceOf b.rows o.sellToken = .ok sellPrice
  buy : priceOf b.rows (P.I.asErc20 o.buyToken) = .ok buyPrice
  limit : strict = true → o.minBuyAmount ≤ o.sellAmount * sellPrice / buyPrice
  amounts : b'.buyAmounts = b.buyAmounts ++ [o.sellAmount * sellPrice / buyPrice]
  consumed : b'.escrowConsumed = b.escrowConsumed + s.store.escrowed (P.orderHash o)
  rows : ∃ sold, addVolume b.rows o.sellToken o.sellAmount = .ok sold ∧
    addVolume sold (P.I.asErc20 o.buyToken) (o.sellAmount * sellPrice / buyPrice) =
      .ok b'.rows

/-- What holds of code on the ledger holds inside the contract. -/
theorem sat_onChain {F : Chain → Query → Chain → Answer → Prop} {α : Type} {p : Op α}
    {s : State} {post : Chain → α → Prop} (h : Sat F (p s.chain) post)
    (hcall : ∀ t q u a, E t q u a → F t.chain q u.chain a) :
    Sat E (onChain p s) fun t a => post t.chain a :=
  (h.zoom (L := ledger) (f := Error.venue) (E := E) (K := fun _ _ => True)
    (fun _ _ => trivial) (fun _ _ _ _ _ => trivial)
    (fun t q u a hE => ⟨trivial, hcall t q u a hE⟩) s).mono fun _ _ h => h.2

/-- The same where nobody changes the storage, which code on the ledger then does
not either. -/
theorem sat_onChain_store {F : Chain → Query → Chain → Answer → Prop} {α : Type} {p : Op α}
    {s : State} {post : Chain → α → Prop} (h : Sat F (p s.chain) post)
    (hcall : ∀ t q u a, E t q u a → u.store = t.store ∧ F t.chain q u.chain a) :
    Sat E (onChain p s) fun t a => t.store = s.store ∧ post t.chain a := by
  apply h.zoom (L := ledger) (K := fun s t : State => t.store = s.store)
  · exact fun _ _ => rfl
  · exact fun _ _ _ h₁ h₂ => h₂.trans h₁
  · exact fun _ _ _ _ hE => hcall _ _ _ _ hE

section Bodies

variable {s : State}

/-- An order's nonce and escrow are marked before any call. -/
theorem sat_take {strict : Bool} {o : Order} {post : State → Unit → Prop}
    (h : (strict = true → s.now ≤ o.validTo ∧ s.store.nonceUsed o.owner o.nonce = false) →
      post { s with store := taken strict o s.store } ()) :
    Sat E (take P strict o s) post := by
  cases strict with
  | false =>
      simp only [take, Prog.ite_apply, Bool.false_eq_true, if_false, Prog.pure_apply, sat_done]
      exact h (by simp)
  | true =>
      simp only [take, Prog.ite_apply, if_true, Prog.bind_apply, Prog.read_apply,
        Code.bind_done, sat_bind, Prog.sat_require, modify, Prog.write_apply, sat_done]
      intro htime hnonce
      exact h fun _ => ⟨Nat.not_lt.mp htime, hnonce⟩

/-- An order's money is its escrow, all of it, or is pulled from its owner. -/
theorem sat_fund {K : State → State → Prop} {strict : Bool} {o : Order} {sig : Bytes}
    (hpull : ∀ t, Sat E (onChain (pull P.I o.sellToken o.owner o.sellAmount) t)
      fun u _ => K t u) :
    Sat E (fund P strict o sig s) fun t esc =>
      (if s.store.escrowed (P.orderHash o) = 0 then
        K { s with store := released P o s.store } t
      else t = { s with store := released P o s.store }) ∧
        esc = s.store.escrowed (P.orderHash o) := by
  by_cases hesc : s.store.escrowed (P.orderHash o) = 0
  · simp only [fund, Prog.bind_apply, Prog.read_apply, Code.bind_done, Prog.ite_apply, hesc,
      ne_eq, not_true_eq_false, if_false, if_true, sat_bind, Prog.sat_require,
      Prog.pure_apply, sat_done, and_true, released]
    intro _
    exact hpull s
  · simp only [fund, Prog.bind_apply, Prog.read_apply, Code.bind_done, Prog.ite_apply, hesc,
      ne_eq, not_false_eq_true, if_true, if_false, modify, Prog.write_apply, Prog.pure_apply,
      sat_done, and_true, released]

/-- **One order.** -/
theorem sat_fill {K : State → State → Prop} {strict : Bool} {o : Order} {sig : Bytes}
    {b : Batch}
    (hpull : ∀ t, Sat E (onChain (pull P.I o.sellToken o.owner o.sellAmount) t)
      fun u _ => K t u) :
    Sat E (fill P strict o sig b s) fun t b' =>
      (if s.store.escrowed (P.orderHash o) = 0 then K (filling P strict o s) t
      else t = filling P strict o s) ∧
        ∃ sellPrice buyPrice, Fill P strict s o b b' sellPrice buyPrice := by
  simp only [fill, Prog.bind_apply, sat_bind, Prog.sat_require]
  intro hamount htokens
  refine sat_take fun hfresh => ?_
  refine (sat_fund hpull).mono ?_
  intro t esc hfund
  obtain ⟨hK, hesc⟩ := hfund
  simp only [Prog.sat_orRevert, Prog.sat_ofExcept, addU_eq_some, mulU_eq_some, divU_eq_some,
    Prog.pure_apply, sat_done]
  intro consumed hconsumed sellPrice hsell product hproduct buyPrice hbuy buyAmount hbuyAmount
    hlimit sold hsold rows hrows
  obtain ⟨-, rfl⟩ := hconsumed
  obtain ⟨-, rfl⟩ := hproduct
  obtain ⟨-, rfl⟩ := hbuyAmount
  rw [taken_escrowed] at hK
  refine ⟨hK, sellPrice, buyPrice, ?_⟩
  exact {
    amount := hamount, tokens := htokens, fresh := hfresh, sell := hsell, buy := hbuy
    limit := fun h => Nat.not_lt.mp (hlimit h)
    amounts := rfl
    consumed := by simp [hesc]
    rows := ⟨sold, hsold, hrows⟩ }

/-- **All orders**, one after the other: `done` are those already filled. -/
theorem sat_fillAll_done (strict : Bool) (orders : List (Order × Bytes))
    (Inv : List Order → State → Batch → Prop) {K : Order → State → State → Prop}
    (hpull : ∀ os ∈ orders, ∀ t,
      Sat E (onChain (pull P.I os.1.sellToken os.1.owner os.1.sellAmount) t)
        fun u _ => K os.1 t u)
    (hstep : ∀ os ∈ orders, ∀ done s t b b' sellPrice buyPrice, Inv done s b →
      Fill P strict s os.1 b b' sellPrice buyPrice →
      (if s.store.escrowed (P.orderHash os.1) = 0 then K os.1 (filling P strict os.1 s) t
      else t = filling P strict os.1 s) → Inv (done ++ [os.1]) t b')
    (done : List Order) {b : Batch} (hinv : Inv done s b) :
    Sat E (fillAll P strict orders b s) (Inv (done ++ orders.map Prod.fst)) := by
  induction orders generalizing s b done with
  | nil =>
      simp only [fillAll, Prog.pure_apply, sat_done, List.map_nil, List.append_nil]
      exact hinv
  | cons os orders ih =>
      obtain ⟨o, sig⟩ := os
      simp only [fillAll, Prog.bind_apply, sat_bind]
      refine (sat_fill (hpull _ List.mem_cons_self)).mono ?_
      intro t b' hfill
      obtain ⟨hK, sellPrice, buyPrice, hfill⟩ := hfill
      have hnext := hstep _ List.mem_cons_self _ _ _ _ _ _ _ hinv hfill hK
      have hrest := ih (fun os hos => hpull os (List.mem_cons_of_mem _ hos))
        (fun os hos => hstep os (List.mem_cons_of_mem _ hos)) _ hnext
      rw [List.append_assoc] at hrest
      exact hrest

/-- What each order keeps, all of them keep. -/
theorem sat_fillAll (strict : Bool) (orders : List (Order × Bytes))
    (Inv : State → Batch → Prop) {K : State → State → Prop} (hrefl : ∀ s, K s s)
    (hpull : ∀ os ∈ orders, ∀ t,
      Sat E (onChain (pull P.I os.1.sellToken os.1.owner os.1.sellAmount) t) fun u _ => K t u)
    (hstep : ∀ os ∈ orders, ∀ s t b b' sellPrice buyPrice, Inv s b →
      Fill P strict s os.1 b b' sellPrice buyPrice → K (filling P strict os.1 s) t → Inv t b')
    {b : Batch} (hinv : Inv s b) :
    Sat E (fillAll P strict orders b s) Inv := by
  refine sat_fillAll_done strict orders (fun _ => Inv) (K := fun _ => K) hpull ?_ [] hinv
  intro os hos _ s t b b' sellPrice buyPrice hinv hfill hK
  refine hstep os hos s t b b' sellPrice buyPrice hinv hfill ?_
  split at hK
  · exact hK
  · rw [hK]
    exact hrefl _

/-- The rows a batch opens with: the balances now, WETH among them. -/
structure Opened (P : Params) (c : Chain) (rows : List Row) : Prop where
  before : ∀ r ∈ rows, r.before = c.bal r.token P.I.this
  volume : ∀ r ∈ rows, r.volume = 0
  weth : ∃ r ∈ rows, r.token = P.I.WETH

theorem sat_balanceOf {token : Address} {post : State → Nat → Prop}
    (h : (token = P.I.WETH ∨ s.chain.erc20 token = true) →
      post s (s.chain.bal token P.I.this)) :
    Sat E (onChain (balanceOf P.I token) s) post := by
  simpa [onChain, balanceOf, ledger] using h

/-- Tokens with their prices, as the rows of a batch list them. -/
def listed (I : Immutables) (prices : List Price) : List (Address × Nat) :=
  prices.map fun p => (I.asErc20 p.token, p.price)

/-- The same with WETH in front if no price names it: watched, but not priced. -/
def watched (I : Immutables) (prices : List Price) : List (Address × Nat) :=
  if I.WETH ∈ prices.map (fun p => I.asErc20 p.token) then listed I prices
  else (I.WETH, 0) :: listed I prices

/-- The rows of a batch list its prices, none of them zero. -/
structure Lists (I : Immutables) (prices : List Price) (rows : List Row) : Prop where
  pairs : rows.map (fun r => (r.token, r.px)) = watched I prices
  priced : ∀ p ∈ prices, p.price ≠ 0

theorem sat_watchAll (prices : List Price) :
    Sat E (watchAll P prices s) fun t rows => t = s ∧
      rows.map (fun r => (r.token, r.px)) = listed P.I prices ∧
      (∀ r ∈ rows, r.before = s.chain.bal r.token P.I.this ∧ r.volume = 0) ∧
      ∀ p ∈ prices, p.price ≠ 0 := by
  induction prices with
  | nil => simp [watchAll, listed]
  | cons p prices ih =>
      simp only [watchAll, watch, Prog.bind_apply, sat_bind, Prog.sat_require]
      intro hprice
      refine sat_balanceOf fun _ => ?_
      simp only [Prog.pure_apply, sat_done]
      refine ih.mono ?_
      intro t rows h
      obtain ⟨rfl, hpairs, hrows, hpriced⟩ := h
      refine ⟨rfl, by simp [listed, hpairs], ?_, ?_⟩
      · intro r hr
        rcases List.mem_cons.mp hr with rfl | hr
        · exact ⟨rfl, rfl⟩
        · exact hrows r hr
      · intro p' hp'
        rcases List.mem_cons.mp hp' with rfl | hp'
        · exact hprice
        · exact hpriced p' hp'

theorem sat_openRows (prices : List Price) :
    Sat E (openRows P prices s) fun t rows =>
      t = s ∧ Opened P s.chain rows ∧ Lists P.I prices rows := by
  by_cases hweth : P.I.WETH ∈ prices.map (fun p => P.I.asErc20 p.token)
  · simp only [openRows, Prog.ite_apply, hweth, if_true]
    refine (sat_watchAll prices).mono ?_
    intro t rows h
    obtain ⟨ht, hpairs, hrows, hpriced⟩ := h
    have hlists : Lists P.I prices rows := ⟨by rw [hpairs, watched, if_pos hweth], hpriced⟩
    have htokens := congrArg (List.map Prod.fst) hpairs
    simp only [listed, List.map_map, Function.comp_def] at htokens
    rw [← htokens] at hweth
    exact ⟨ht, ⟨fun r hr => (hrows r hr).1, fun r hr => (hrows r hr).2,
      List.mem_map.mp hweth⟩, hlists⟩
  · simp only [openRows, Prog.ite_apply, hweth, if_false, Prog.bind_apply, sat_bind]
    refine sat_balanceOf fun _ => ?_
    refine (sat_watchAll prices).mono ?_
    intro t rows h
    obtain ⟨ht, hpairs, hrows, hpriced⟩ := h
    simp only [Prog.pure_apply, sat_done]
    refine ⟨ht, ⟨?_, ?_, ?_⟩, ⟨?_, hpriced⟩⟩
    · intro r hr
      rcases List.mem_cons.mp hr with rfl | hr
      · rfl
      · exact (hrows r hr).1
    · intro r hr
      rcases List.mem_cons.mp hr with rfl | hr
      · rfl
      · exact (hrows r hr).2
    · exact ⟨_, List.mem_cons_self, rfl⟩
    · rw [List.map_cons, hpairs, watched, if_neg hweth]

end Bodies

/-- What of a row stays through a batch: all but its volume. -/
def Row.fixed (r : Row) : Row := { r with volume := 0 }

/-- Volume goes to the row at hand or, for another token, into the rest. -/
theorem addVolume_cons {r : Row} {rows rows' : List Row} {token : Address} {amount : Nat}
    (h : addVolume (r :: rows) token amount = .ok rows') :
    (r.token = token ∧ r.volume + amount < 2 ^ 256 ∧
        rows' = { r with volume := r.volume + amount } :: rows) ∨
      (r.token ≠ token ∧ ∃ rest, addVolume rows token amount = .ok rest ∧ rows' = r :: rest) := by
  rw [addVolume] at h
  by_cases ht : r.token = token
  · rw [if_pos ht] at h
    cases hv : addU r.volume amount with
    | none => simp [hv] at h
    | some v =>
        obtain ⟨hfits, rfl⟩ := addU_eq_some.mp hv
        rw [hv] at h
        cases h
        exact Or.inl ⟨ht, hfits, rfl⟩
  · rw [if_neg ht] at h
    cases hrest : addVolume rows token amount with
    | error e => simp [hrest, Except.map] at h
    | ok rest =>
        rw [hrest] at h
        cases h
        exact Or.inr ⟨ht, rest, rfl, rfl⟩

/-- Adding volume changes nothing else. -/
theorem addVolume_fixed {rows rows' : List Row} {token : Address} {amount : Nat}
    (h : addVolume rows token amount = .ok rows') :
    rows'.map Row.fixed = rows.map Row.fixed := by
  induction rows generalizing rows' with
  | nil => cases h
  | cons r rows ih =>
      obtain ⟨-, -, rfl⟩ | ⟨-, rest, hrest, rfl⟩ := addVolume_cons h
      · rfl
      · rw [List.map_cons, List.map_cons, ih hrest]

/-- Rows that are the same but for their volumes agree on what does not look at
those. -/
theorem map_of_fixed {α : Type} {rows rows' : List Row}
    (h : rows'.map Row.fixed = rows.map Row.fixed) (f : Row → α)
    (hf : ∀ r, f r.fixed = f r) : rows'.map f = rows.map f := by
  have hmap := congrArg (List.map f) h
  simpa only [List.map_map, Function.comp_def, hf] using hmap

/-- Each of the one rows is among the others, but for its volume. -/
theorem mem_of_fixed {rows rows' : List Row} (h : rows'.map Row.fixed = rows.map Row.fixed)
    {r : Row} (hr : r ∈ rows') :
    ∃ r' ∈ rows, r'.token = r.token ∧ r'.px = r.px ∧ r'.before = r.before := by
  have hfixed := List.mem_map_of_mem (f := Row.fixed) hr
  rw [h] at hfixed
  obtain ⟨r', hr', heq⟩ := List.mem_map.mp hfixed
  simp only [Row.fixed, Row.mk.injEq] at heq
  exact ⟨r', hr', heq.1, heq.2.1, heq.2.2.1⟩

/-- All but the volumes of the rows stays through a batch. -/
theorem Fill.fixed {strict : Bool} {s : State} {o : Order} {b b' : Batch}
    {sellPrice buyPrice : Nat} (h : Fill P strict s o b b' sellPrice buyPrice) :
    b'.rows.map Row.fixed = b.rows.map Row.fixed := by
  obtain ⟨sold, hsold, hrows⟩ := h.rows
  rw [addVolume_fixed hrows, addVolume_fixed hsold]

/-! ## Calls -/

/-- The state after a deposit. -/
def State.deposit (P : Params) (s : State) (sender : Address) (o : Order) : State where
  chain := ((s.chain.moveEth sender P.I.this o.sellAmount).moveEth P.I.this P.I.WETH
    o.sellAmount).setBal P.I.WETH P.I.this (s.chain.bal P.I.WETH P.I.this + o.sellAmount)
  store := (((s.store.setEscrow (P.orderHash o) o.sellAmount).setTotal
    (s.store.escrowTotal + o.sellAmount)).record (.deposited o))
  now := s.now

/-- What a deposit was checked for. -/
structure DepositChecks (P : Params) (s : State) (sender : Address) (o : Order) : Prop where
  unlocked : s.store.locked = false
  owner : o.owner = sender
  weth : o.sellToken = P.I.WETH
  amount : o.sellAmount ≠ 0
  time : s.now ≤ o.validTo
  nonce : s.store.nonceUsed o.owner o.nonce = false
  empty : s.store.escrowed (P.orderHash o) = 0
  funds : o.sellAmount ≤ s.chain.eth sender

/-- The state a refund pays from. -/
def State.refunding (P : Params) (s : State) (o : Order) : State :=
  { s with store := ((s.store.lock.setEscrow (P.orderHash o) 0).setTotal
      (s.store.escrowTotal - s.store.escrowed (P.orderHash o))).record (.refunded o) }

/-- What a refund pays with. -/
def refundOut (P : Params) (o : Order) (amount : Nat) : Op Unit := do
  wethWithdraw P.I amount
  send P.I o.owner amount

/-- Unlock the storage. -/
def State.unlock (s : State) : State := { s with store := s.store.unlock }

/-- The storage changes no result looks at. -/
structure SameOrders (st st' : Store) : Prop where
  nonceUsed : st'.nonceUsed = st.nonceUsed
  escrowed : st'.escrowed = st.escrowed
  escrowTotal : st'.escrowTotal = st.escrowTotal
  locked : st'.locked = st.locked
  journal : st'.journal = st.journal

/-- **All a call can be.** -/
theorem sat_entry {s : State} (m : Msg P.I) {post : State → Unit → Prop}
    (hdeposit : ∀ o, DepositChecks P s m.sender o → post (s.deposit P m.sender o) ())
    (hrefund : ∀ o, s.store.locked = false → s.store.escrowed (P.orderHash o) ≠ 0 →
      o.validTo < s.now → s.store.escrowed (P.orderHash o) ≤ s.store.escrowTotal →
      Sat E (onChain (refundOut P o (s.store.escrowed (P.orderHash o))) (s.refunding P o))
        fun t _ => post t.unlock ())
    (hcancel : ∀ nonce, post { s with
      store := (s.store.useNonce m.sender nonce).record (.cancelled m.sender nonce) } ())
    (hsettle : ∀ orders signatures prices interactions,
      Sat E (settle m.sender P orders signatures prices interactions s) fun t _ => post t ())
    (hset : ∀ st, SameOrders s.store st → post { s with store := st } ())
    (hsweep : ∀ token recipient bal, s.store.owner = m.sender →
      surplus P s.store token (s.chain.bal token P.I.this) = some bal →
      Sat E (onChain (sendFee P.I token recipient bal) s) post) :
    Sat E (entry P m s) post := by
  obtain ⟨sender, value, call, hsender⟩ := m
  cases call with
  | depositOrder o =>
      simp only [entry, payIn, depositOrder, nonReentrant, modify, onChain, wethDeposit, ledger,
        Prog.bind_apply, Prog.read_apply, Prog.write_apply, Prog.pure_apply, Code.bind_done,
        sat_bind, sat_done, Prog.sat_require, Prog.sat_orRevert, addU_eq_some, Prog.zoom_bind,
        Prog.zoom_read, Prog.zoom_require, Prog.zoom_write]
      intro hfunds hunlocked hmatch htime hnonce hempty _ total htotal
      obtain ⟨-, rfl⟩ := htotal
      simp only [ne_eq, not_or, not_not] at hmatch
      obtain ⟨howner, hweth, hamount, hpos⟩ := hmatch
      subst hamount
      have hpost := hdeposit o ⟨hunlocked, howner, hweth, hpos, Nat.not_lt.mp htime, hnonce,
        hempty, hfunds⟩
      simpa [State.deposit, Store.record, Store.setTotal, Store.setEscrow, Store.unlock,
        Store.lock, hunlocked] using hpost
  | refund o =>
      simp only [entry, notPayable, refund, nonReentrant, modify, Prog.bind_apply,
        Prog.read_apply, Prog.write_apply, Prog.pure_apply, Code.bind_done, sat_bind, sat_done,
        Prog.sat_require, Prog.sat_orRevert, subU_eq_some]
      intro _ hunlocked hesc htime total htotal
      obtain ⟨hle, rfl⟩ := htotal
      have hout := hrefund o hunlocked hesc (Nat.not_le.mp htime) hle
      simp only [refundOut, onChain, Prog.zoom_bind, sat_bind] at hout
      exact hout
  | cancel nonce =>
      simp only [entry, notPayable, cancel, modify, Prog.bind_apply, Prog.write_apply, sat_bind,
        sat_done, Prog.sat_require]
      exact fun _ => hcancel nonce
  | settle orders signatures prices interactions =>
      simp only [entry, notPayable, Prog.bind_apply, Prog.pure_apply, sat_bind, sat_done,
        Prog.sat_require]
      exact fun _ => hsettle orders signatures prices interactions
  | simulate orders prices interactions =>
      simp [entry, notPayable, simulate]
  | unlockCallback => simp [entry]
  | setSolver solver =>
      simp only [entry, notPayable, setSolver, onlyOwner, modify, Prog.bind_apply,
        Prog.read_apply, Prog.write_apply, Code.bind_done, sat_bind, sat_done,
        Prog.sat_require]
      exact fun _ _ _ => hset _ ⟨rfl, rfl, rfl, rfl, rfl⟩
  | setTreasury treasury =>
      simp only [entry, notPayable, setTreasury, onlyOwner, modify, Prog.bind_apply,
        Prog.read_apply, Prog.write_apply, Code.bind_done, sat_bind, sat_done,
        Prog.sat_require]
      exact fun _ _ _ => hset _ ⟨rfl, rfl, rfl, rfl, rfl⟩
  | setMaxFeeBps bps =>
      simp only [entry, notPayable, setMaxFeeBps, onlyOwner, modify, Prog.bind_apply,
        Prog.read_apply, Prog.write_apply, Code.bind_done, sat_bind, sat_done,
        Prog.sat_require]
      exact fun _ _ _ => hset _ ⟨rfl, rfl, rfl, rfl, rfl⟩
  | transferOwnership owner =>
      simp only [entry, notPayable, transferOwnership, onlyOwner, modify, Prog.bind_apply,
        Prog.read_apply, Prog.write_apply, Code.bind_done, sat_bind, sat_done,
        Prog.sat_require]
      exact fun _ _ _ => hset _ ⟨rfl, rfl, rfl, rfl, rfl⟩
  | sweep token recipient =>
      simp only [entry, notPayable, sweep, onlyOwner, Prog.bind_apply, Prog.read_apply,
        Code.bind_done, sat_bind, Prog.sat_require]
      intro _ howner _
      refine sat_balanceOf fun _ => ?_
      simp only [Prog.sat_orRevert]
      intro bal hbal
      exact hsweep token recipient bal howner.symm hbal

end Ordo.OrdoBatch
