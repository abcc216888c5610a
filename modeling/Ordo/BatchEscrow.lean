import Ordo.BatchSteps
import Ordo.Custody

/-!
# The escrow of the batch contract

What is escrowed under all hashes together is `escrowTotal`, and the contract
holds at least that much WETH whenever no call of it is running.  Inside a
settlement neither is true all the time: escrow is released before the total
comes down, and the interactions may spend any WETH the router was approved
for.  What carries the proof is that nobody else can touch the escrow while the
contract is locked (`Respects`), and that the balance of WETH, always watched,
is compared at the end with what it was at the start.
-/

namespace Ordo.OrdoBatch

open Reentrant Custody

/-- The contract's WETH. -/
def weth (P : Params) (s : State) : Nat := s.chain.bal P.I.WETH P.I.this

/-- A book of what is escrowed, but for `v` of the total. -/
def Booked (st : Store) (v : Nat) : Prop :=
  ∃ b : Book Bytes32, b.owed = st.escrowed ∧ b.held + v = st.escrowTotal ∧ b.spare = 0

/-- The escrow adds up and is there. -/
def Solvent (P : Params) (s : State) : Prop :=
  Booked s.store 0 ∧ s.store.escrowTotal ≤ weth P s

theorem Booked.total_eq {st : Store} (h : Booked st 0) :
    st.escrowTotal = ∑ hash, st.escrowed hash := by
  obtain ⟨b, howed, hheld, hspare⟩ := h
  have hb := b.balanced
  rw [howed, hspare] at hb
  omega

/-- What is escrowed under a free hash joins the total. -/
theorem Booked.deposit {st : Store} (h : Booked st 0) {hash : Bytes32} (v : Nat)
    (hempty : st.escrowed hash = 0) :
    Booked ((st.setEscrow hash v).setTotal (st.escrowTotal + v)) 0 := by
  obtain ⟨b, howed, hheld, hspare⟩ := h
  refine ⟨b.credit hash v, ?_, ?_, hspare⟩
  · simp [Book.credit, howed, hempty, Store.setEscrow, Store.setTotal]
  · simp only [Book.credit, Store.setTotal]
    omega

/-- What was escrowed under a hash is released: the total is to come down. -/
theorem Booked.release {st st' : Store} {v : Nat} (h : Booked st v) (hash : Bytes32)
    (hescrowed : st'.escrowed = Function.update st.escrowed hash 0)
    (htotal : st'.escrowTotal = st.escrowTotal) :
    Booked st' (v + st.escrowed hash) := by
  obtain ⟨b, howed, hheld, hspare⟩ := h
  have hfits := b.owed_le_held hash
  refine ⟨b.debit hash (b.owed hash) (Nat.le_refl _), ?_, ?_, hspare⟩
  · simp [Book.debit, howed, hescrowed]
  · simp only [Book.debit, howed, htotal] at hfits ⊢
    omega

/-- The total comes down by what was released. -/
theorem Booked.lower {st : Store} {v : Nat} (h : Booked st v) :
    Booked (st.setTotal (st.escrowTotal - v)) 0 := by
  obtain ⟨b, howed, hheld, hspare⟩ := h
  exact ⟨b, howed, by simp only [Store.setTotal]; omega, hspare⟩

/-- No more was released than there was. -/
theorem Booked.consumed_le {st : Store} {v : Nat} (h : Booked st v) :
    v ≤ st.escrowTotal := by
  obtain ⟨b, -, hheld, -⟩ := h
  omega

theorem Booked.congr {st st' : Store} {v : Nat} (h : Booked st v)
    (hescrowed : st'.escrowed = st.escrowed) (htotal : st'.escrowTotal = st.escrowTotal) :
    Booked st' v := by
  obtain ⟨b, howed, hheld, hspare⟩ := h
  exact ⟨b, by rw [howed, hescrowed], by rw [hheld, htotal], hspare⟩

/-! ## What others respect -/

/-- While the contract is locked the escrow stays as it is. -/
def Held (s t : State) : Prop :=
  s.store.locked = true → t.store.locked = true ∧ t.store.escrowed = s.store.escrowed ∧
    t.store.escrowTotal = s.store.escrowTotal

/-- While the contract is locked the escrow stays as it is, and stays backed. -/
def Kept (P : Params) (s t : State) : Prop :=
  Held s t ∧ (s.store.locked = true → s.store.escrowTotal ≤ weth P s →
    t.store.escrowTotal ≤ weth P t)

/-- What every action does: it keeps the escrow while the contract is locked,
and its solvency while it is not. -/
structure Respects (P : Params) (s t : State) : Prop where
  locked : t.store.locked = s.store.locked
  kept : Kept P s t
  solvent : s.store.locked = false → Solvent P s → Solvent P t

theorem Held.refl (s : State) : Held s s := fun h => ⟨h, rfl, rfl⟩

theorem Held.trans {s t u : State} (h₁ : Held s t) (h₂ : Held t u) : Held s u := by
  intro hlock
  obtain ⟨hlock', hescrowed, htotal⟩ := h₁ hlock
  obtain ⟨hlock'', hescrowed', htotal'⟩ := h₂ hlock'
  exact ⟨hlock'', hescrowed'.trans hescrowed, htotal'.trans htotal⟩

theorem Kept.trans {P : Params} {s t u : State} (h₁ : Kept P s t) (h₂ : Kept P t u) :
    Kept P s u := by
  refine ⟨h₁.1.trans h₂.1, fun hlock hbacked => ?_⟩
  exact h₂.2 (h₁.1 hlock).1 (h₁.2 hlock hbacked)

theorem Respects.refl (P : Params) (s : State) : Respects P s s :=
  ⟨rfl, ⟨Held.refl s, fun _ h => h⟩, fun _ h => h⟩

theorem Respects.trans {P : Params} {s t u : State} (h₁ : Respects P s t)
    (h₂ : Respects P t u) : Respects P s u where
  locked := h₂.locked.trans h₁.locked
  kept := h₁.kept.trans h₂.kept
  solvent hlock hs := h₂.solvent (h₁.locked.trans hlock) (h₁.solvent hlock hs)

/-- Whoever leaves the orders alone and takes no WETH respects the escrow. -/
theorem Respects.of_le {P : Params} {s t : State} (hlocked : t.store.locked = s.store.locked)
    (hescrowed : t.store.escrowed = s.store.escrowed)
    (htotal : t.store.escrowTotal = s.store.escrowTotal) (hweth : weth P s ≤ weth P t) :
    Respects P s t := by
  refine ⟨hlocked, ⟨fun h => ⟨hlocked.trans h, hescrowed, htotal⟩, fun _ h => ?_⟩,
    fun _ h => ⟨h.1.congr hescrowed htotal, ?_⟩⟩
  · omega
  · have := h.2
    omega

section Settle

variable {P : Params} {pushes : Prop}

theorem Respects.outside {s t : State} (h : (system P pushes).outside s t) :
    Respects P s t := by
  obtain ⟨hstore, -, hchain⟩ := h
  obtain ⟨v, -, hkeeps⟩ := hchain.keeps
  exact .of_le (by rw [hstore]) (by rw [hstore]) (by rw [hstore]) hkeeps.weth

/-- A call other than the router's, with everybody else around. -/
theorem Respects.around {s t : State} {q : Query} {a : Answer}
    (h : (system P pushes).around (Respects P) s q t a)
    (hq : ∀ path amountIn, q ≠ .exactInput path amountIn) : Respects P s t := by
  obtain ⟨s₁, s₂, hbefore, ⟨hstore, -, hreply⟩, hafter⟩ := h
  have hweth : weth P s₁ ≤ weth P s₂ := by
    cases q with
    | exactInput path amountIn => exact absurd rfl (hq path amountIn)
    | take currency amount => exact Around.weth hreply
    | poolSwap key zeroForOne specified limit => exact hreply.1.weth
    | transferFrom | transfer | approve | unlock | sync | settle | relock | send =>
        exact Around.weth hreply
  have hmiddle : Respects P s₁ s₂ :=
    .of_le (by rw [hstore]) (by rw [hstore]) (by rw [hstore]) hweth
  exact (hbefore.trans hmiddle).trans hafter

/-- Any call at all leaves the escrow of a locked contract as it is. -/
theorem Held.around {s t : State} {q : Query} {a : Answer}
    (h : (system P pushes).around (Respects P) s q t a) : Held s t := by
  obtain ⟨s₁, s₂, hbefore, ⟨hstore, -, -⟩, hafter⟩ := h
  have hmiddle : Held s₁ s₂ := fun hlock => by
    rw [hstore]
    exact ⟨hlock, rfl, rfl⟩
  exact (hbefore.kept.1.trans hmiddle).trans hafter.kept.1

/-- Code on the ledger leaves the escrow of a locked contract as it is. -/
theorem sat_onChain_held {α : Type} (p : Op α) (s : State) :
    Sat ((system P pushes).around (Respects P)) (onChain p s) fun t _ => Held s t :=
  sat_zoom_keep (K := Held) _ (fun t _ => Held.refl t) (fun _ _ _ => Held.trans)
    (fun _ _ _ _ h => Held.around h) s

/-- A payment in a token costs the contract at most that much WETH. -/
theorem sat_sendFee {s : State} {token dst : Address} {fee : Nat} :
    Sat ((system P pushes).around (Respects P)) (onChain (sendFee P.I token dst fee) s)
      fun t _ => Respects P s t ∨
        (token = P.I.WETH ∧ t.store = s.store ∧ weth P s ≤ weth P t + fee) := by
  by_cases hfee : fee = 0
  · simp [onChain, sendFee, hfee]
    exact Or.inl (Respects.refl P s)
  · by_cases htoken : token = P.I.WETH
    · simp only [onChain, sendFee, payToken, transfer, wethTransfer, hfee, htoken, ne_eq,
        not_false_eq_true, if_true, Prog.zoom_bind, Prog.zoom_read, Prog.zoom_require,
        Prog.zoom_write, Prog.zoom_pure, Code.bind_done, sat_bind, sat_done,
        Prog.sat_require, ledger]
      intro hfunds _
      refine Or.inr ⟨trivial, trivial, ?_⟩
      have hmove := Chain.move_bal dst hfunds P.I.WETH P.I.this
      simp only [true_and, if_true] at hmove
      unfold weth
      dsimp only
      split at hmove <;> omega
    · simp only [onChain, sendFee, payToken, transfer, hfee, htoken, ne_eq, not_false_eq_true,
        if_true, if_false, Prog.zoom_bind, Prog.zoom_ask, Prog.zoom_ofExcept, Prog.zoom_require,
        Code.bind_call, Code.bind_done, sat_bind, sat_call, Prog.sat_ofExcept, Prog.sat_require]
      intro t a hcall _ _ _
      exact Or.inl (Respects.around hcall (by simp))

/-! ## A settlement -/

/-- What is left of the escrow was there when the rows were opened. -/
def Watched (P : Params) (s : State) (consumed : Nat) (r : Row) : Prop :=
  r.token = P.I.WETH → s.store.escrowTotal + consumed ≤ r.before

/-- One listed token is checked: the escrow stays as it is and, if it was
backed or the token is WETH, is backed after the fee. -/
theorem sat_takeFee {s : State} {r : Row} {consumed : Nat} (hlock : s.store.locked = true) :
    Sat ((system P pushes).around (Respects P)) (takeFee P consumed r s) fun t _ =>
      Held s t ∧ (Watched P s consumed r →
        s.store.escrowTotal ≤ weth P s ∨ r.token = P.I.WETH →
        t.store.escrowTotal ≤ weth P t) := by
  simp only [takeFee, Prog.bind_apply, sat_bind, Prog.sat_orRevert]
  intro expected hexpected
  refine sat_balanceOf fun _ => ?_
  simp only [Prog.read_apply, Prog.sat_require, Prog.pure_apply, sat_done]
  intro hloss product _ _
  refine sat_sendFee.mono ?_
  intro t _ h
  rcases h with h | ⟨htoken, hstore, hweth⟩
  · refine ⟨h.kept.1, fun hrow hbacked => h.kept.2 hlock ?_⟩
    rcases hbacked with hbacked | htoken
    · exact hbacked
    · simp only [OrdoBatch.expected, htoken, if_true, subU_eq_some] at hexpected
      have hfunds := hrow htoken
      simp only [htoken] at hloss
      unfold weth
      omega
  · refine ⟨fun hl => by rw [hstore]; exact ⟨hl, rfl, rfl⟩, fun hrow _ => ?_⟩
    simp only [OrdoBatch.expected, htoken, if_true, subU_eq_some] at hexpected
    have hfunds := hrow htoken
    simp only [htoken] at hloss hweth
    rw [hstore]
    unfold weth at hweth ⊢
    omega

theorem sat_takeFees {s : State} {rows : List Row} {consumed : Nat}
    (hlock : s.store.locked = true) :
    Sat ((system P pushes).around (Respects P)) (takeFees P consumed rows s) fun t _ =>
      Held s t ∧ ((∀ r ∈ rows, Watched P s consumed r) →
        (s.store.escrowTotal ≤ weth P s ∨ ∃ r ∈ rows, r.token = P.I.WETH) →
        t.store.escrowTotal ≤ weth P t) := by
  induction rows generalizing s with
  | nil =>
      simp only [takeFees, Prog.pure_apply, sat_done]
      refine ⟨Held.refl s, fun _ h => ?_⟩
      rcases h with h | ⟨r, hr, -⟩
      · exact h
      · cases hr
  | cons r rows ih =>
      simp only [takeFees, Prog.bind_apply, sat_bind, Prog.pure_apply, sat_done]
      refine (sat_takeFee hlock).mono ?_
      intro t _ hfirst
      obtain ⟨hheld, hbacked⟩ := hfirst
      obtain ⟨hlock', -, htotal⟩ := hheld hlock
      refine (ih hlock').mono ?_
      intro u _ hlater
      refine ⟨hheld.trans hlater.1, fun hrows h => hlater.2 ?_ ?_⟩
      · intro r hr htoken
        rw [htotal]
        exact hrows r (List.mem_cons_of_mem _ hr) htoken
      · have hrow := hrows r List.mem_cons_self
        rcases h with h | ⟨r', hr', htoken⟩
        · exact Or.inl (hbacked hrow (Or.inl h))
        · rcases List.mem_cons.mp hr' with rfl | hr'
          · exact Or.inl (hbacked hrow (Or.inr htoken))
          · exact Or.inr ⟨r', hr', htoken⟩

/-- The invariant of the loop over the orders of a batch that began in `s` with
the rows `rows`. -/
structure Filling (s : State) (hashes : List Bytes32) (rows : List Row) (t : State)
    (b : Batch) : Prop where
  locked : t.store.locked = true
  booked : Booked s.store 0 → Booked t.store b.escrowConsumed
  total : t.store.escrowTotal = s.store.escrowTotal
  others : ∀ h, h ∉ hashes → t.store.escrowed h = s.store.escrowed h
  rows : b.rows.map Row.fixed = rows.map Row.fixed

theorem Filling.step {s t u : State} {hashes : List Bytes32} {rows : List Row} {o : Order}
    {b b' : Batch} {strict : Bool} {sellPrice buyPrice : Nat}
    (h : Filling s hashes rows t b) (ho : P.orderHash o ∈ hashes)
    (hfill : Fill P strict t o b b' sellPrice buyPrice)
    (hheld : Held (filling P strict o t) u) : Filling s hashes rows u b' := by
  obtain ⟨hlock, hescrowed, htotal⟩ := hheld (by simpa [filling] using h.locked)
  simp only [filling, released_escrowed, released_escrowTotal, taken_escrowed,
    taken_escrowTotal] at hescrowed htotal
  refine ⟨hlock, fun hs => ?_, htotal.trans h.total, fun k hk => ?_, hfill.fixed.trans h.rows⟩
  · rw [hfill.consumed]
    exact (h.booked hs).release (P.orderHash o) hescrowed htotal
  · have hne : k ≠ P.orderHash o := fun heq => hk (heq ▸ ho)
    rw [hescrowed, Function.update_of_ne hne]
    exact h.others k hk

/-- A row of the batch was opened with the balance of its token. -/
theorem Filling.before {s t : State} {hashes : List Bytes32} {rows : List Row} {b : Batch}
    {c : Chain} (h : Filling s hashes rows t b) (hopen : Opened P c rows) {r : Row}
    (hr : r ∈ b.rows) : r.before = c.bal r.token P.I.this := by
  obtain ⟨r', hr', htoken, -, hbefore⟩ := mem_of_fixed h.rows hr
  rw [← htoken, ← hbefore]
  exact hopen.before r' hr'

/-- WETH is among the rows of the batch. -/
theorem Filling.watches {s t : State} {hashes : List Bytes32} {rows : List Row} {b : Batch}
    {c : Chain} (h : Filling s hashes rows t b) (hopen : Opened P c rows) :
    ∃ r ∈ b.rows, r.token = P.I.WETH := by
  obtain ⟨r, hr, htoken⟩ := hopen.weth
  obtain ⟨r', hr', hsame, -, -⟩ := mem_of_fixed h.rows.symm hr
  exact ⟨r', hr', hsame.trans htoken⟩

/-- **A settlement keeps the escrow.**  It ends unlocked and solvent if it
began so, and releases nothing but the escrow of its own orders. -/
theorem sat_settle {s : State} {sender : Address} {orders : List Order}
    {signatures : List Bytes} {prices : List Price} {interactions : List Interaction} :
    Sat ((system P pushes).around (Respects P))
      (settle sender P orders signatures prices interactions s) fun t _ =>
        s.store.locked = false ∧ t.store.locked = false ∧ (Solvent P s → Solvent P t) ∧
          ∀ h, h ∉ orders.map P.orderHash → t.store.escrowed h = s.store.escrowed h := by
  simp only [settle, nonReentrant, modify, prepare, checkAndTakeFee, Prog.bind_apply,
    Prog.read_apply, Prog.write_apply, Code.bind_done, sat_bind, sat_done, Prog.sat_require,
    Prog.pure_apply, Prog.sat_orRevert, subU_eq_some]
  intro hunlocked _ _
  refine (sat_openRows prices).mono ?_
  intro t rows hopen
  obtain ⟨rfl, hopen, -⟩ := hopen
  have hstart : Filling s (orders.map P.orderHash) rows { s with store := s.store.lock }
      ⟨rows, [], 0⟩ :=
    ⟨rfl, fun h => h.congr rfl rfl, rfl, fun _ _ => rfl, rfl⟩
  have hfills := sat_fillAll (P := P) (E := (system P pushes).around (Respects P)) true
    (orders.zip signatures) (Filling s (orders.map P.orderHash) rows) Held.refl
    (fun os _ t => sat_onChain_held _ t)
    (fun os hos _ _ _ _ _ _ hinv hfill hheld => Filling.step hinv
      (List.mem_map_of_mem (List.of_mem_zip hos).1) hfill hheld) hstart
  refine hfills.mono ?_
  intro t b hfilled total htotal
  obtain ⟨-, rfl⟩ := htotal
  -- the interactions and the payments: only the escrow is known to stay
  refine (sat_onChain_held _ _).mono ?_
  intro u _ hinteract
  obtain ⟨hlock₁, hescrowed₁, htotal₁⟩ := hinteract hfilled.locked
  refine (sat_onChain_held _ _).mono ?_
  intro v _ hpay
  obtain ⟨hlock₂, hescrowed₂, htotal₂⟩ := hpay hlock₁
  have hnow : v.store.escrowTotal = s.store.escrowTotal - b.escrowConsumed := by
    rw [htotal₂, htotal₁]
    simp only [Store.setTotal, hfilled.total]
  refine (sat_takeFees hlock₂).mono ?_
  intro w _ hfees _
  obtain ⟨hlock₃, hescrowed₃, htotal₃⟩ := hfees.1 hlock₂
  have hsame : w.store.escrowed = t.store.escrowed :=
    (hescrowed₃.trans hescrowed₂).trans hescrowed₁
  refine ⟨hunlocked, rfl, fun hsolvent => ⟨?_, hfees.2 ?_ (Or.inr (hfilled.watches hopen))⟩,
    fun h hh => ?_⟩
  · exact (hfilled.booked hsolvent.1).lower.congr hsame
      ((htotal₃.trans htotal₂).trans htotal₁)
  · intro r hr htoken
    have hbefore : r.before = s.chain.bal r.token P.I.this := hfilled.before hopen hr
    have hconsumed := (hfilled.booked hsolvent.1).consumed_le
    have hbacked := hsolvent.2
    rw [htoken] at hbefore
    rw [hfilled.total] at hconsumed
    unfold weth at hbacked
    omega
  · exact (congrFun hsame h).trans (hfilled.others h hh)

/-! ## Every action -/

/-- Ether sent out costs no WETH, whatever the recipient does. -/
theorem sat_send {s : State} {recipient : Address} {amount : Nat} :
    Sat ((system P pushes).around (Respects P)) (onChain (send P.I recipient amount) s)
      fun t _ => Kept P s t := by
  by_cases hthis : recipient = P.I.this
  · simp [onChain, send, hthis]
  · by_cases hwrap : recipient = P.I.WETH
    · simp only [onChain, send, wethDeposit, hwrap, P.I.WETH_ne_this, if_true, if_false,
        Prog.zoom_bind, Prog.zoom_read, Prog.zoom_require, Prog.zoom_write, Code.bind_done,
        sat_bind, sat_done, Prog.sat_require, ledger]
      intro _ _
      refine Respects.kept (.of_le rfl rfl rfl ?_)
      simp [weth, Chain.setBal_bal]
    · simp only [onChain, send, sendPlain, payEther, hthis, hwrap, if_false, Prog.zoom_bind,
        Prog.zoom_read, Prog.zoom_require, Prog.zoom_write, Prog.zoom_ask, Code.bind_done,
        Code.bind_call, sat_bind, sat_call, sat_done, Prog.sat_require, ledger]
      intro _ t a hcall _
      have hpaid : Respects P s
          { s with chain := s.chain.moveEth P.I.this recipient amount } :=
        .of_le rfl rfl rfl (Nat.le_refl _)
      exact (hpaid.trans (Respects.around hcall (by simp))).kept

/-- A refund pays out no more than it took off the total. -/
theorem sat_refundOut {s : State} {o : Order} {amount : Nat}
    (hlock : s.store.locked = true) (hbacked : s.store.escrowTotal + amount ≤ weth P s) :
    Sat ((system P pushes).around (Respects P)) (onChain (refundOut P o amount) s)
      fun t _ => Held s t ∧ t.store.escrowTotal ≤ weth P t := by
  simp only [onChain, refundOut, wethWithdraw, Prog.zoom_bind, Prog.zoom_read,
    Prog.zoom_require, Prog.zoom_write, Code.bind_done, sat_bind, sat_done, Prog.sat_require,
    ledger]
  intro _
  refine sat_send.mono ?_
  intro t _ hkept
  refine ⟨hkept.1, hkept.2 hlock ?_⟩
  simp only [weth, Chain.moveEth_bal, Chain.setBal_bal, and_self, if_true]
  unfold weth at hbacked
  omega

/-- **Every action respects the escrow.** -/
theorem respects_entry (m : Msg P.I) (s : State) :
    Sat ((system P pushes).around (Respects P)) ((system P pushes).entry m s)
      fun t _ => Respects P s t := by
  refine sat_entry m ?_ ?_ ?_ ?_ ?_ ?_
  · intro o hdeposit
    have hlock := hdeposit.unlocked
    refine ⟨rfl, ⟨?_, ?_⟩, fun _ hs => ⟨hs.1.deposit _ hdeposit.empty, ?_⟩⟩
    · intro h
      simp [hlock] at h
    · intro h
      simp [hlock] at h
    · have hbacked := hs.2
      simp only [weth, State.deposit, Chain.setBal_bal, and_self, if_true, Store.record,
        Store.setTotal] at hbacked ⊢
      omega
  · intro o hlock hesc htime hle
    by_cases hs : Solvent P s
    · refine (sat_refundOut rfl ?_).mono ?_
      · have hbacked := hs.2
        simp only [State.refunding, Store.record, Store.setTotal, weth] at hbacked ⊢
        omega
      · intro t _ hout
        obtain ⟨hheld, hbacked⟩ := hout
        obtain ⟨-, hescrowed, htotal⟩ := hheld rfl
        refine ⟨hlock.symm, ⟨?_, ?_⟩, fun _ _ => ⟨?_, hbacked⟩⟩
        · intro h
          simp [hlock] at h
        · intro h
          simp [hlock] at h
        · have hreleased : Booked (s.store.setEscrow (P.orderHash o) 0)
              (0 + s.store.escrowed (P.orderHash o)) := hs.1.release (P.orderHash o) rfl rfl
          rw [Nat.zero_add] at hreleased
          exact hreleased.lower.congr hescrowed htotal
    · refine (sat_true _).mpr trivial |>.mono ?_
      intro t _ _
      refine ⟨hlock.symm, ⟨?_, ?_⟩, fun _ h => absurd h hs⟩
      · intro h
        simp [hlock] at h
      · intro h
        simp [hlock] at h
  · intro nonce
    exact .of_le rfl rfl rfl (Nat.le_refl _)
  · intro orders signatures prices interactions
    refine sat_settle.mono ?_
    intro t _ hsettle
    obtain ⟨hlock, hunlocked, hsolvent, -⟩ := hsettle
    refine ⟨hunlocked.trans hlock.symm, ⟨?_, ?_⟩, fun _ => hsolvent⟩
    · intro h
      simp [hlock] at h
    · intro h
      simp [hlock] at h
  · intro st hsame
    exact .of_le hsame.locked hsame.escrowed hsame.escrowTotal (Nat.le_refl _)
  · intro token recipient bal _ hbal
    refine sat_sendFee.mono ?_
    intro t _ h
    rcases h with h | ⟨htoken, hstore, hweth⟩
    · exact h
    · -- what is swept is what is not escrowed
      simp only [surplus, htoken, if_true, subU_eq_some] at hbal
      have hleft : s.store.escrowTotal ≤ weth P t := by
        unfold weth at hweth ⊢
        omega
      refine ⟨by rw [hstore], ⟨?_, ?_⟩, fun _ hs => ?_⟩
      · intro h
        rw [hstore]
        exact ⟨h, rfl, rfl⟩
      · intro _ _
        rw [hstore]
        exact hleft
      · refine ⟨?_, ?_⟩
        · rw [hstore]
          exact hs.1
        · rw [hstore]
          exact hleft

/-- Every run respects the escrow. -/
theorem Reaches.respects {s t : State} (h : (system P pushes).Reaches s t) :
    Respects P s t :=
  System.reaches_rel (Respects.refl P) (fun _ _ _ => Respects.trans)
    (fun _ _ => Respects.outside) respects_entry h

end Settle

/-- What the constructor leaves when it does not revert. -/
theorem constructor_ok {owner solver treasury : Address} {maxFeeBps : Nat} {st : Store}
    (h : constructor owner solver treasury maxFeeBps = .ok st) :
    maxFeeBps ≤ MAX_FEE_BPS_CEILING ∧ st = {
      owner, solver, treasury, maxFeeBps
      nonceUsed := fun _ _ => false, escrowed := fun _ => 0, escrowTotal := 0
      locked := false, journal := [] } := by
  unfold constructor at h
  split at h
  · cases h
  · split at h
    · cases h
    · next hbps =>
        cases h
        exact ⟨Nat.not_lt.mp hbps, rfl⟩

theorem Deployed.solvent {P : Params} {s : State} (h : Deployed s) : Solvent P s := by
  obtain ⟨owner, solver, treasury, maxFeeBps, hstore⟩ := h
  obtain ⟨-, hstore⟩ := constructor_ok hstore
  refine ⟨⟨Book.empty 0, ?_, ?_, rfl⟩, ?_⟩
  · rw [hstore]
    rfl
  · rw [hstore]
    rfl
  · rw [hstore]
    exact Nat.zero_le _

theorem Deployed.unlocked {s : State} (h : Deployed s) : s.store.locked = false := by
  obtain ⟨owner, solver, treasury, maxFeeBps, hstore⟩ := h
  obtain ⟨-, hstore⟩ := constructor_ok hstore
  rw [hstore]

/-- **Escrow solvency.**  After every run, whatever venues, tokens, solvers and
everybody else did in it, the total is the sum of what is escrowed and is there
in WETH.  A settlement, whatever the solver chose and whoever acts during it,
leaves what is escrowed under every hash that is not one of its orders'. -/
theorem escrow_is_backed (P : Params) (pushes : Prop) {s₀ s : State} (hinit : Deployed s₀)
    (hs : (system P pushes).Reaches s₀ s) :
    s.store.escrowTotal = ∑ h, s.store.escrowed h ∧
      s.store.escrowTotal ≤ s.chain.bal P.I.WETH P.I.this ∧
      ∀ sender orders signatures prices interactions,
        Sat ((system P pushes).around (system P pushes).Reaches)
          (settle sender P orders signatures prices interactions s) fun t _ =>
            (∀ h, h ∉ orders.map P.orderHash → t.store.escrowed h = s.store.escrowed h) ∧
            t.store.escrowTotal = (∑ h, t.store.escrowed h) ∧
            t.store.escrowTotal ≤ t.chain.bal P.I.WETH P.I.this := by
  have hsolvent : Solvent P s :=
    (Reaches.respects hs).solvent hinit.unlocked hinit.solvent
  refine ⟨hsolvent.1.total_eq, hsolvent.2, ?_⟩
  intro sender orders signatures prices interactions t fees hrun
  have hrun' := hrun.mono (F := (system P pushes).around (Respects P)) fun _ _ _ _ hcall =>
    System.around_mono (fun _ _ h => Reaches.respects h) hcall
  obtain ⟨-, -, hkeeps, hothers⟩ := sat_settle t fees hrun'
  have hafter := hkeeps hsolvent
  exact ⟨hothers, hafter.1.total_eq, hafter.2⟩

/-! ## A run -/

namespace Sample

/-- Everything hashes to 7; every signature is account 6's. -/
def params : Params where
  I := Ordo.Sample.immutables
  DOMAIN_SEPARATOR := 0
  ORDER_TYPEHASH := 0
  keccak := fun _ => 7
  ecrecover := fun _ _ _ _ => 6

/-- Callees take the ether they are sent and do nothing else. -/
def idle : State → Query → State × Answer := ledger.lift Ordo.Sample.idle

/-- Account 5 and the PoolManager have 50 wei each. -/
def start : State where
  chain := {
    bal := fun _ _ => 0
    eth := fun a => if a = 5 ∨ a = 103 then 50 else 0
    allowance := fun _ _ => 0
    code := fun _ => false
    erc20 := fun _ => true
    accepts := fun _ _ _ => false }
  store := {
    owner := 1, solver := 2, treasury := 3, maxFeeBps := 50
    nonceUsed := fun _ _ => false, escrowed := fun _ => 0, escrowTotal := 0
    locked := false, journal := [] }
  now := 10

theorem deployed_start : Deployed start := ⟨1, 2, 3, 50, rfl⟩

/-- Account 5 sells 20 wei for token 200. -/
def order : Order where
  owner := 5
  receiver := 0
  sellToken := 101
  buyToken := 200
  sellAmount := 20
  minBuyAmount := 1
  validTo := 100
  nonce := 1
  appData := 7

theorem owner_ne : order.owner ≠ params.I.this := by decide

def deposited : State :=
  (system params False).exec idle ⟨5, 20, .depositOrder order, owner_ne⟩ start

theorem idle_reply (s : State) (q : Query) :
    (system params False).reply s q (idle s q).1 (idle s q).2 :=
  ⟨rfl, rfl, Ordo.Sample.idle_reply _ _ _⟩

theorem reaches_deposited : (system params False).Reaches start deposited :=
  System.reaches_exec idle_reply _ _

end Sample

/-- The deposit of account 5 is escrowed and there. -/
theorem escrow_is_backed_sample :
    20 = (∑ h, Sample.deposited.store.escrowed h) ∧
      20 ≤ Sample.deposited.chain.bal 101 100 := by
  have hbacked := escrow_is_backed Sample.params False Sample.deployed_start
    Sample.reaches_deposited
  exact ⟨hbacked.1, hbacked.2.1⟩

end Ordo.OrdoBatch
