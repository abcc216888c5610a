import Ordo.BatchFairness

/-!
# What `simulate` says about `settle`

`simulate` prepares the batch without asking about signatures, times, nonces and
limits, runs the interactions and reports how every listed token moved and what
the buyers are owed of it.  `settle` then pays the buyers and takes what is left
as the fee.  When venues answer both alike, tokens are standard and those who
are paid give the contract nothing back, the two fit: of the first listing of a
token, the fee is what moved less what is owed, plus what the orders of the batch
pay back to the contract itself; of any later listing nothing is owed and
nothing taken.
-/

namespace Ordo.OrdoBatch

open Reentrant

/-- Listing `i` is the first of the token `x`. -/
def First (tokens : List Address) (i : Nat) (x : Address) : Prop :=
  tokens[i]? = some x ∧ x ∉ tokens.take i

/-- Listing `i` repeats the token `x`. -/
def Again (tokens : List Address) (i : Nat) (x : Address) : Prop :=
  tokens[i]? = some x ∧ x ∈ tokens.take i

/-- What the buyers of a token are owed of it; ether is owed in WETH. -/
def owedOf (I : Immutables) (x : Address) (fills : List (Order × Nat)) : Nat :=
  (fills.map fun f => if I.asErc20 f.1.buyToken = x then f.2 else 0).sum

/-- The contract pays itself: a token it sends to itself, or ether it sends to
WETH, which wraps it. -/
def PaysBack (I : Immutables) (o : Order) : Prop :=
  if o.buyToken = NATIVE then o.recipient = I.WETH else o.recipient = I.this

instance (I : Immutables) (o : Order) : Decidable (PaysBack I o) :=
  if h : o.buyToken = NATIVE then decidable_of_iff (o.recipient = I.WETH) (by simp [PaysBack, h])
  else decidable_of_iff (o.recipient = I.this) (by simp [PaysBack, h])

/-- What comes back to the contract out of what its buyers are owed. -/
def paidBack (I : Immutables) (x : Address) (fills : List (Order × Nat)) : Nat :=
  owedOf I x (fills.filter fun f => PaysBack I f.1)

/-- Standard transfers out of the contract, and recipients of ether who leave the
contract's tokens alone. -/
def Faithful (I : Immutables) (c : Chain) (q : Query) (c' : Chain) (a : Answer) : Prop :=
  match q with
  | .transfer token dst amount => a = .bool true →
      amount ≤ c.bal token I.this ∧ c'.erc20 = c.erc20 ∧
        ∀ x, c'.bal x I.this = (c.move token I.this dst amount).bal x I.this
  | .send _ _ => a ≠ .fail → c'.erc20 = c.erc20 ∧ ∀ x, c'.bal x I.this = c.bal x I.this
  | _ => True

/-- The checks at the end of a settlement that look at a token. -/
def Error.tokenCheck : Error → Prop
  | .ContractLostFunds _ _ _ => True
  | .FeeAboveCap _ _ _ => True
  | _ => False

/-- Errors other than those and the report of a simulation. -/
def Error.common : Error → Prop
  | .ContractLostFunds _ _ _ => False
  | .FeeAboveCap _ _ _ => False
  | .SimResult _ _ _ _ => False
  | _ => True

theorem Error.common.not_tokenCheck {e : Error} (h : e.common) : ¬ e.tokenCheck := by
  intro hcheck
  cases e with
  | ContractLostFunds => exact h
  | FeeAboveCap => exact h
  | _ => exact hcheck

section Lists

variable {P : Params}

/-! ## Volumes and debts, listing by listing -/

/-- Volume goes to the first listing of its token. -/
theorem addVolume_first {rows rows' : List Row} {token : Address} {amount : Nat}
    (h : addVolume rows token amount = .ok rows') {i : Nat} {r' : Row}
    (hi : rows'[i]? = some r') :
    ∃ r, rows[i]? = some r ∧ r.token = r'.token ∧
      r'.volume = r.volume +
        if r'.token = token ∧ r'.token ∉ (rows.map Row.token).take i then amount else 0 := by
  induction rows generalizing rows' i with
  | nil => cases h
  | cons r rows ih =>
      obtain ⟨ht, -, rfl⟩ | ⟨ht, rest, hrest, rfl⟩ := addVolume_cons h
      · cases i with
        | zero =>
            cases hi
            exact ⟨r, rfl, rfl, by simp [ht]⟩
        | succ i =>
            refine ⟨r', hi, rfl, ?_⟩
            rw [if_neg]
            · rfl
            · intro hboth
              exact hboth.2 (by simp [ht, hboth.1])
      · cases i with
        | zero =>
            cases hi
            exact ⟨r', rfl, rfl, by simp [ht]⟩
        | succ i =>
            obtain ⟨r₀, hr₀, htoken, hvolume⟩ := ih hrest hi
            refine ⟨r₀, hr₀, htoken, ?_⟩
            rw [hvolume]
            by_cases htok : r'.token = token
            · simp [htok, Ne.symm ht]
            · simp [htok]

/-- No listing carries more than a word. -/
theorem addVolume_lt {rows rows' : List Row} {token : Address} {amount : Nat}
    (h : addVolume rows token amount = .ok rows') (hlt : ∀ r ∈ rows, r.volume < 2 ^ 256) :
    ∀ r ∈ rows', r.volume < 2 ^ 256 := by
  induction rows generalizing rows' with
  | nil => cases h
  | cons r rows ih =>
      have hrows := fun r' hr' => hlt r' (List.mem_cons_of_mem r hr')
      obtain ⟨-, hfits, rfl⟩ | ⟨-, rest, hrest, rfl⟩ := addVolume_cons h
      · intro r' hr'
        rcases List.mem_cons.mp hr' with rfl | hr'
        · exact hfits
        · exact hrows r' hr'
      · intro r' hr'
        rcases List.mem_cons.mp hr' with rfl | hr'
        · exact hlt _ List.mem_cons_self
        · exact ih hrest hrows r' hr'

/-- A debt goes to the first listing of its token. -/
theorem addOwed_first {tokens : List Address} {owed owed' : List Nat} {token : Address}
    {amount : Nat} (hlength : owed.length = tokens.length)
    (h : addOwed tokens owed token amount = some owed') :
    owed'.length = tokens.length ∧ ∀ i x v, tokens[i]? = some x → owed[i]? = some v →
      owed'[i]? = some (v + if x = token ∧ x ∉ tokens.take i then amount else 0) := by
  induction tokens generalizing owed owed' with
  | nil =>
      cases h
      exact ⟨hlength, by simp⟩
  | cons t tokens ih =>
      cases owed with
      | nil => cases hlength
      | cons v owed =>
          have hlength' : owed.length = tokens.length := Nat.succ.inj hlength
          by_cases ht : t = token
          · simp only [addOwed, ht, if_true, Option.map_eq_some_iff, addU_eq_some] at h
            obtain ⟨sum, ⟨-, rfl⟩, rfl⟩ := h
            refine ⟨by simpa using hlength', fun i x w hx hw => ?_⟩
            cases i with
            | zero =>
                cases hx
                cases hw
                simp [ht]
            | succ i =>
                have hnot : ¬ (x = token ∧ x ∉ (t :: tokens).take (i + 1)) := fun hboth =>
                  hboth.2 (by simp [ht, hboth.1])
                rw [if_neg hnot]
                exact hw
          · simp only [addOwed, ht, if_false, Option.map_eq_some_iff] at h
            obtain ⟨rest, hrest, rfl⟩ := h
            obtain ⟨hlen, hall⟩ := ih hlength' hrest
            refine ⟨by simpa using hlen, fun i x w hx hw => ?_⟩
            cases i with
            | zero =>
                cases hx
                cases hw
                simp [ht]
            | succ i =>
                have hlater := hall i x w hx hw
                rw [List.getElem?_cons_succ, hlater]
                by_cases hx' : x = token
                · simp [hx', Ne.symm ht]
                · simp [hx']

/-- There is room for a debt if there is at the first listing. -/
theorem addOwed_fits {tokens : List Address} {owed : List Nat} {token : Address}
    {amount : Nat}
    (hfits : ∀ i v, First tokens i token → owed[i]? = some v → v + amount < 2 ^ 256) :
    ∃ owed', addOwed tokens owed token amount = some owed' := by
  induction tokens generalizing owed with
  | nil => exact ⟨owed, by simp [addOwed]⟩
  | cons t tokens ih =>
      cases owed with
      | nil => exact ⟨[], rfl⟩
      | cons v owed =>
          by_cases ht : t = token
          · have hroom := hfits 0 v ⟨by simp [ht], by simp⟩ rfl
            refine ⟨(v + amount) :: owed, ?_⟩
            rw [addOwed, if_pos ht, addU_eq_some.mpr ⟨hroom, rfl⟩]
            rfl
          · have hrest : ∃ rest, addOwed tokens owed token amount = some rest :=
              ih fun i w hfirst hw =>
                hfits (i + 1) w ⟨hfirst.1, by simpa [Ne.symm ht] using hfirst.2⟩ hw
            obtain ⟨rest, hrest⟩ := hrest
            exact ⟨v :: rest, by simp [addOwed, ht, hrest]⟩

theorem owedOf_cons (I : Immutables) (x : Address) (o : Order) (amount : Nat)
    (fills : List (Order × Nat)) :
    owedOf I x ((o, amount) :: fills) =
      (if I.asErc20 o.buyToken = x then amount else 0) + owedOf I x fills := by
  simp [owedOf]

/-- All debts, at the first listings. -/
theorem sumOwed_first {I : Immutables} {tokens : List Address} {fills : List (Order × Nat)}
    {owed owed' : List Nat} (hlength : owed.length = tokens.length)
    (h : sumOwed I tokens fills owed = some owed') :
    owed'.length = tokens.length ∧ ∀ i x v, tokens[i]? = some x → owed[i]? = some v →
      owed'[i]? = some (v + if x ∉ tokens.take i then owedOf I x fills else 0) := by
  induction fills generalizing owed with
  | nil =>
      cases h
      refine ⟨hlength, fun i x v _ hv => ?_⟩
      simpa [owedOf] using hv
  | cons f fills ih =>
      obtain ⟨o, amount⟩ := f
      simp only [sumOwed, Option.bind_eq_some_iff] at h
      obtain ⟨mid, hmid, hrest⟩ := h
      obtain ⟨hlen, hfirst⟩ := addOwed_first hlength hmid
      obtain ⟨hlen', hall⟩ := ih hlen hrest
      refine ⟨hlen', fun i x v hx hv => ?_⟩
      rw [hall i x _ hx (hfirst i x v hx hv), owedOf_cons]
      by_cases hx' : x = I.asErc20 o.buyToken
      · subst hx'
        by_cases hnew : I.asErc20 o.buyToken ∈ tokens.take i
        · simp [hnew]
        · simp [hnew, Nat.add_assoc]
      · simp [hx', Ne.symm hx']

theorem sumOwed_fits {I : Immutables} {tokens : List Address} {fills : List (Order × Nat)}
    {owed : List Nat} (hlength : owed.length = tokens.length)
    (hfits : ∀ i x v, First tokens i x → owed[i]? = some v →
      v + owedOf I x fills < 2 ^ 256) :
    ∃ owed', sumOwed I tokens fills owed = some owed' := by
  induction fills generalizing owed with
  | nil => exact ⟨owed, rfl⟩
  | cons f fills ih =>
      obtain ⟨o, amount⟩ := f
      have hroom : ∀ i v, First tokens i (I.asErc20 o.buyToken) → owed[i]? = some v →
          v + amount < 2 ^ 256 := by
        intro i v hfirst hv
        have htotal := hfits i _ v hfirst hv
        rw [owedOf_cons, if_pos rfl] at htotal
        omega
      obtain ⟨mid, hmid⟩ := addOwed_fits hroom
      obtain ⟨hlen, hfirst⟩ := addOwed_first hlength hmid
      obtain ⟨owed', howed⟩ := ih hlen fun i x v hx hv => by
        obtain ⟨w, hw⟩ : ∃ w, owed[i]? = some w := by
          have hlt : i < tokens.length := (List.getElem?_eq_some_iff.mp hx.1).1
          exact ⟨_, List.getElem?_eq_getElem (by omega)⟩
        have htotal := hfits i x w hx hw
        have hsum := hfirst i x w hx.1 hw
        rw [hv] at hsum
        simp only [hx.2, not_false_eq_true, and_true, Option.some.injEq] at hsum
        rw [owedOf_cons] at htotal
        by_cases hx' : x = I.asErc20 o.buyToken
        · rw [if_pos hx'] at hsum
          rw [if_pos hx'.symm] at htotal
          omega
        · rw [if_neg hx'] at hsum
          rw [if_neg (Ne.symm hx')] at htotal
          omega
      exact ⟨owed', by simp [sumOwed, hmid, howed]⟩

/-- The rows of a batch whose `done` orders are filled: they list the tokens they
opened with, and the first listing of each token carries all its volume. -/
structure Counted (P : Params) (rows : List Row) (done : List Order) (b : Batch) : Prop where
  rows : b.rows.map Row.fixed = rows.map Row.fixed
  length : b.buyAmounts.length = done.length
  fits : ∀ r ∈ b.rows, r.volume < 2 ^ 256
  volume : ∀ i r, b.rows[i]? = some r → r.volume =
    if r.token ∉ (b.rows.map Row.token).take i then
      OrdoBatch.volume P.I r.token (done.zip b.buyAmounts) else 0

theorem Counted.step {rows : List Row} {done : List Order} {s : State} {o : Order}
    {b b' : Batch} {strict : Bool} {sellPrice buyPrice : Nat} (h : Counted P rows done b)
    (hfill : Fill P strict s o b b' sellPrice buyPrice) :
    Counted P rows (done ++ [o]) b' := by
  obtain ⟨sold, hsold, hrows⟩ := hfill.rows
  refine ⟨hfill.fixed.trans h.rows, ?_, ?_, fun i r hr => ?_⟩
  · rw [hfill.amounts, List.length_append, List.length_append, h.length]
    rfl
  · exact addVolume_lt hrows (addVolume_lt hsold h.fits)
  · obtain ⟨r₁, hr₁, htoken₁, hvolume₁⟩ := addVolume_first hrows hr
    obtain ⟨r₀, hr₀, htoken₀, hvolume₀⟩ := addVolume_first hsold hr₁
    have hsame := map_of_fixed (addVolume_fixed hsold) Row.token fun _ => rfl
    have hsame' := map_of_fixed hfill.fixed Row.token fun _ => rfl
    have hbefore := h.volume i r₀ hr₀
    rw [htoken₀, htoken₁] at hbefore
    rw [htoken₁] at hvolume₀
    rw [hsame] at hvolume₁
    rw [hsame', hvolume₁, hvolume₀, hbefore, hfill.amounts, List.zip_append h.length.symm]
    by_cases hnew : r.token ∈ (b.rows.map Row.token).take i
    · simp [hnew]
    · simp only [hnew, not_false_eq_true, and_true, if_true, OrdoBatch.volume, List.map_append,
        List.sum_append, List.zip_cons_cons, List.zip_nil_right, List.map_cons, List.map_nil,
        List.sum_cons, List.sum_nil, Nat.add_zero, Nat.add_assoc, eq_comm]

/-- What is owed of a token is part of its volume. -/
theorem owedOf_le_volume (I : Immutables) (x : Address) (fills : List (Order × Nat)) :
    owedOf I x fills ≤ volume I x fills := by
  induction fills with
  | nil => exact Nat.le_refl _
  | cons f fills ih =>
      simp only [owedOf, volume, List.map_cons, List.sum_cons] at ih ⊢
      omega

end Lists

/-! ## One preparation for both -/

/-- The states agree on all that a preparation without checks looks at. -/
structure Alike (s t : State) : Prop where
  chain : s.chain = t.chain
  escrowed : s.store.escrowed = t.store.escrowed

section Prepare

variable {P : Params} {O : Chain → Query → Chain × Answer}

theorem steady_onChain {α : Type} (p : Op α) :
    Steady (ledger.lift O) Alike (onChain p) :=
  steady_zoom_same (fun _ _ h => h.chain) fun _ _ _ h => ⟨rfl, h.escrowed⟩

theorem steady_watchAll (prices : List Price) :
    Steady (ledger.lift O) Alike (watchAll P prices) := by
  induction prices with
  | nil => exact steady_pure _
  | cons p prices ih =>
      refine Steady.bind ?_ fun r => Steady.bind ih fun rows => steady_pure _
      refine Steady.bind (steady_require _ _) fun _ => ?_
      exact Steady.bind (steady_onChain _) fun before => steady_pure _

theorem steady_openRows (prices : List Price) :
    Steady (ledger.lift O) Alike (openRows P prices) := by
  unfold openRows
  split
  · exact steady_watchAll prices
  · refine Steady.bind (steady_onChain _) fun before => ?_
    exact Steady.bind (steady_watchAll prices) fun rows => steady_pure _

/-- Taking an order touches nothing the other side looks at. -/
theorem mirrors_take {s t : State} (h : Alike s t) (o : Order) :
    Mirrors (ledger.lift O) Alike (take P false o s) (take P true o t) := by
  intro u a heval
  have hmarked : Sat (fun s q t a => ledger.lift O s q = (t, a)) (take P true o t)
      fun u _ => Alike s u := sat_take fun _ => ⟨h.chain, h.escrowed⟩
  exact ⟨s, rfl, hmarked.eval heval⟩

theorem mirrors_fund {s t : State} (h : Alike s t) (o : Order) (sig : Bytes) :
    Mirrors (ledger.lift O) Alike (fund P false o [] s) (fund P true o sig t) := by
  simp only [fund, Prog.bind_apply, Prog.read_apply, Code.bind_done, Prog.ite_apply, ← h.chain,
    ← h.escrowed]
  split
  · exact mirrors_done _ ⟨h.chain, by simp [Store.setEscrow, Store.record, h.escrowed]⟩
  · refine Mirrors.bind (mirrors_require h fun _ hfalse => by cases hfalse) fun s' t' _ h' => ?_
    refine Mirrors.bind (steady_onChain _ s' t' h') fun s'' t'' _ h'' => ?_
    exact mirrors_done _ h''

theorem mirrors_fill {s t : State} (h : Alike s t) (o : Order) (sig : Bytes) (b : Batch) :
    Mirrors (ledger.lift O) Alike (fill P false o [] b s) (fill P true o sig b t) := by
  unfold fill
  refine Mirrors.bind (mirrors_require h id) fun s t _ h => ?_
  refine Mirrors.bind (mirrors_require h id) fun s t _ h => ?_
  refine Mirrors.bind (mirrors_take h o) fun s t _ h => ?_
  refine Mirrors.bind (mirrors_fund h o sig) fun s t esc h => ?_
  refine Mirrors.bind (mirrors_orRevert h) fun s t consumed h => ?_
  refine Mirrors.bind (mirrors_ofExcept h) fun s t sellPrice h => ?_
  refine Mirrors.bind (mirrors_orRevert h) fun s t product h => ?_
  refine Mirrors.bind (mirrors_ofExcept h) fun s t buyPrice h => ?_
  refine Mirrors.bind (mirrors_orRevert h) fun s t buyAmount h => ?_
  refine Mirrors.bind (mirrors_require h fun _ hfalse => by cases hfalse) fun s t _ h => ?_
  refine Mirrors.bind (mirrors_ofExcept h) fun s t sold h => ?_
  exact Mirrors.bind (mirrors_ofExcept h) fun s t rows h => mirrors_done _ h

theorem mirrors_fillAll {s t : State} (h : Alike s t) {orders : List Order}
    {signatures : List Bytes} (hlength : orders.length = signatures.length) (b : Batch) :
    Mirrors (ledger.lift O) Alike
      (fillAll P false (orders.zip (orders.map fun _ => [])) b s)
      (fillAll P true (orders.zip signatures) b t) := by
  induction orders generalizing s t signatures b with
  | nil => exact mirrors_done _ h
  | cons o orders ih =>
      cases signatures with
      | nil => cases hlength
      | cons sig signatures =>
          refine Mirrors.bind (mirrors_fill h o sig b) fun s t b h => ?_
          exact ih h (Nat.succ.inj hlength) b

/-- **Whatever a settlement prepares, a simulation prepares**: the same batch, on
the same ledger. -/
theorem mirrors_prepare {s t : State} (h : Alike s t) {orders : List Order}
    {signatures : List Bytes} (hlength : orders.length = signatures.length)
    (prices : List Price) :
    Mirrors (ledger.lift O) Alike
      (prepare P orders (orders.map fun _ => []) prices false s)
      (prepare P orders signatures prices true t) :=
  (steady_openRows prices s t h).bind fun _ _ rows h => mirrors_fillAll h hlength ⟨rows, [], 0⟩

end Prepare

/-! ## What the contract keeps -/

/-- The contract's tokens after paying out `d` and getting back `e` of each, among
the same tokens. -/
structure PaidOut (I : Immutables) (d e : Address → Nat) (c c' : Chain) : Prop where
  erc20 : c'.erc20 = c.erc20
  bal : ∀ x, c'.bal x I.this + d x = c.bal x I.this + e x

section Keeps

variable {P : Params} {I : Immutables} {c : Chain}

/-- A token sent out, which is not lost when it is sent to the contract itself. -/
theorem kept_payToken {token dst : Address} {amount : Nat} :
    Sat (Faithful I) (payToken I token dst amount c) fun c' _ =>
      PaidOut I (fun x => if token = x then amount else 0)
        (fun x => if token = x ∧ dst = I.this then amount else 0) c c' := by
  have hmoved (c' : Chain) (hfunds : amount ≤ c.bal token I.this) (herc20 : c'.erc20 = c.erc20)
      (hbal : ∀ x, c'.bal x I.this = (c.move token I.this dst amount).bal x I.this) :
      PaidOut I (fun x => if token = x then amount else 0)
        (fun x => if token = x ∧ dst = I.this then amount else 0) c c' := by
    refine ⟨herc20, fun x => ?_⟩
    have hmove := Chain.move_bal dst hfunds x I.this
    rw [← hbal] at hmove
    simp only [eq_comm (a := x), and_true, eq_comm (a := I.this)] at hmove
    by_cases hx : token = x
    · by_cases hdst : dst = I.this <;> simp [hx, hdst] at hmove ⊢ <;> omega
    · simp [hx] at hmove ⊢
      omega
  by_cases htoken : token = I.WETH
  · simp only [payToken, transfer, wethTransfer, htoken, if_true, Prog.bind_apply,
      Prog.read_apply, Prog.write_apply, Prog.pure_apply, Code.bind_done, sat_bind, sat_done,
      Prog.sat_require] at hmoved ⊢
    exact fun hfunds _ => hmoved _ hfunds rfl fun _ => rfl
  · simp only [payToken, transfer, htoken, if_false, Prog.bind_apply, Prog.ask_apply,
      Code.bind_call, Code.bind_done, sat_bind, sat_call, Prog.sat_ofExcept, Prog.sat_require,
      returned_eq_ok]
    intro c' a hcall ok hok htrue
    rw [htrue] at hok
    obtain ⟨hfunds, herc20, hbal⟩ := hcall hok
    exact hmoved c' hfunds herc20 hbal

/-- Ether sent out leaves the contract's tokens alone, unless it is sent to WETH. -/
theorem kept_send {recipient : Address} {amount : Nat} :
    Sat (Faithful I) (send I recipient amount c) fun c' _ =>
      PaidOut I 0 (fun x => if x = I.WETH ∧ recipient = I.WETH then amount else 0) c c' := by
  by_cases hthis : recipient = I.this
  · simp [send, hthis]
  · by_cases hwrap : recipient = I.WETH
    · simp only [send, wethDeposit, hwrap, I.WETH_ne_this, if_true, if_false, Prog.bind_apply,
        Prog.read_apply, Prog.write_apply, Code.bind_done, sat_bind, sat_done,
        Prog.sat_require, and_true]
      intro _ _
      refine ⟨rfl, fun x => ?_⟩
      rw [Chain.setBal_bal]
      by_cases hx : x = I.WETH <;> simp [hx]
    · simp only [send, sendPlain, payEther, hthis, hwrap, if_false, Prog.bind_apply,
        Prog.read_apply, Prog.write_apply, Prog.ask_apply, Code.bind_call, Code.bind_done,
        sat_bind, sat_done, sat_call, Prog.sat_require, and_false]
      intro _ c' a hcall ha
      obtain ⟨herc20, hbal⟩ := hcall ha
      exact ⟨herc20, fun x => by rw [hbal x]; rfl⟩

theorem PaidOut.trans {d d' e e' : Address → Nat} {c₁ c₂ : Chain} (h : PaidOut I d e c c₁)
    (h' : PaidOut I d' e' c₁ c₂) : PaidOut I (d + d') (e + e') c c₂ := by
  refine ⟨h'.erc20.trans h.erc20, fun x => ?_⟩
  have hfirst := h.bal x
  have hsecond := h'.bal x
  simp only [Pi.add_apply]
  omega

theorem kept_payOne {o : Order} {amount : Nat} :
    Sat (Faithful I) (payOne I o amount c) fun c' _ =>
      PaidOut I (fun x => owedOf I x [(o, amount)]) (fun x => paidBack I x [(o, amount)]) c c' := by
  by_cases hnative : o.buyToken = NATIVE
  · simp only [payOne, wethWithdraw, hnative, if_true, Prog.bind_apply, Prog.read_apply,
      Prog.write_apply, Code.bind_done, sat_bind, sat_done, Prog.sat_require]
    intro hfunds
    refine kept_send.mono fun c' _ hkept => ⟨hkept.erc20, fun x => ?_⟩
    have hbal := hkept.bal x
    rw [Chain.moveEth_bal, Chain.setBal_bal] at hbal
    by_cases hback : o.recipient = I.WETH
    · by_cases hx : x = I.WETH
      · simp [owedOf, paidBack, PaysBack, Immutables.asErc20, hnative, hback, hx] at hbal ⊢
        omega
      · simp [owedOf, paidBack, PaysBack, Immutables.asErc20, hnative, hback, hx, Ne.symm hx]
          at hbal ⊢
        omega
    · by_cases hx : x = I.WETH
      · simp [owedOf, paidBack, PaysBack, Immutables.asErc20, hnative, hback, hx] at hbal ⊢
        omega
      · simp [owedOf, paidBack, PaysBack, Immutables.asErc20, hnative, hback, hx, Ne.symm hx]
          at hbal ⊢
        omega
  · simp only [payOne, hnative, if_false]
    refine kept_payToken.mono fun c' _ hkept => ⟨hkept.erc20, fun x => ?_⟩
    have hbal := hkept.bal x
    by_cases hback : o.recipient = I.this
    · simp [owedOf, paidBack, PaysBack, Immutables.asErc20, hnative, hback] at hbal ⊢
      omega
    · simp [owedOf, paidBack, PaysBack, Immutables.asErc20, hnative, hback] at hbal ⊢
      omega

theorem paidBack_cons (x : Address) (f : Order × Nat) (fills : List (Order × Nat)) :
    paidBack I x (f :: fills) = paidBack I x [f] + paidBack I x fills := by
  by_cases hback : PaysBack I f.1 <;> simp [paidBack, owedOf, hback]

/-- **What the buyers are owed goes out**, and what they pay back comes in. -/
theorem kept_pay {fills : List (Order × Nat)} :
    Sat (Faithful I) (pay I fills c) fun c' _ =>
      PaidOut I (fun x => owedOf I x fills) (fun x => paidBack I x fills) c c' := by
  induction fills generalizing c with
  | nil =>
      simp only [pay, Prog.pure_apply, sat_done]
      exact ⟨rfl, fun x => by simp [owedOf, paidBack]⟩
  | cons f fills ih =>
      obtain ⟨o, amount⟩ := f
      simp only [pay, Prog.bind_apply, sat_bind]
      refine kept_payOne.mono fun c₁ _ hfirst => ?_
      refine ih.mono fun c₂ _ hrest => ?_
      have hboth := hfirst.trans hrest
      refine ⟨hboth.erc20, fun x => ?_⟩
      have hbal := hboth.bal x
      rw [paidBack_cons]
      simp only [Pi.add_apply, owedOf, List.map_cons, List.map_nil, List.sum_cons,
        List.sum_nil] at hbal ⊢
      omega

/-- A fee leaves unless the contract is its own treasury. -/
theorem kept_sendFee {token dst : Address} {fee : Nat} :
    Sat (Faithful I) (sendFee I token dst fee c) fun c' _ =>
      c'.erc20 = c.erc20 ∧ (∀ x, x ≠ token → c'.bal x I.this = c.bal x I.this) ∧
        (dst ≠ I.this → c'.bal token I.this + fee = c.bal token I.this) := by
  by_cases hfee : fee = 0
  · simp [sendFee, hfee]
  · simp only [sendFee, hfee, ne_eq, not_false_eq_true, if_true]
    refine kept_payToken.mono fun c' _ hkept => ⟨hkept.erc20, fun x hx => ?_, fun hdst => ?_⟩
    · have hbal := hkept.bal x
      simpa [Ne.symm hx] using hbal
    · have hbal := hkept.bal token
      simpa [hdst] using hbal

end Keeps

/-! ## Fees -/

/-- Callees are faithful and leave the contract's storage alone. -/
def faithfully (P : Params) (s : State) (q : Query) (t : State) (a : Answer) : Prop :=
  t.store = s.store ∧ Faithful P.I s.chain q t.chain a

section Fees

variable {P : Params} {O : Chain → Query → Chain × Answer}

/-- `IERC20(token).balanceOf` answers. -/
def Readable (P : Params) (c : Chain) (token : Address) : Prop :=
  token = P.I.WETH ∨ c.erc20 token = true

theorem sat_onChain_faithfully {α : Type} {p : Op α} {s : State} {post : Chain → α → Prop}
    (h : Sat (Faithful P.I) (p s.chain) post) :
    Sat (faithfully P) (onChain p s) fun t a => t.store = s.store ∧ post t.chain a :=
  sat_onChain_store h fun _ _ _ _ hcall => hcall

/-- What is left of one token above what is expected is its fee. -/
theorem kept_takeFee {s : State} {r : Row} {consumed : Nat} :
    Sat (faithfully P) (takeFee P consumed r s) fun t fee => t.store = s.store ∧
      t.chain.erc20 = s.chain.erc20 ∧ Readable P s.chain r.token ∧
      (∃ e, expected P.I consumed r = some e ∧ e + fee = s.chain.bal r.token P.I.this) ∧
      fee ≤ r.volume * s.store.maxFeeBps / 10000 ∧
      (∀ x, x ≠ r.token → t.chain.bal x P.I.this = s.chain.bal x P.I.this) ∧
      (s.store.treasury ≠ P.I.this →
        t.chain.bal r.token P.I.this + fee = s.chain.bal r.token P.I.this) := by
  simp only [takeFee, Prog.bind_apply, sat_bind, Prog.sat_orRevert]
  intro e hexpected
  refine sat_balanceOf fun hreadable => ?_
  simp only [Prog.read_apply, Prog.sat_require, Prog.pure_apply, sat_done, mulU_eq_some]
  intro hloss product hproduct hcap
  obtain ⟨-, rfl⟩ := hproduct
  refine (sat_onChain_faithfully kept_sendFee).mono fun t _ hpaid => ?_
  obtain ⟨hstore, herc20, hothers, hown⟩ := hpaid
  exact ⟨hstore, herc20, hreadable, ⟨e, hexpected, by omega⟩, Nat.not_lt.mp hcap, hothers, hown⟩

/-- **The fees of all listings**: the first listing of a token takes what is left
of it, and none takes more than its own cap. -/
theorem kept_takeFees {s : State} {rows : List Row} {consumed : Nat} :
    Sat (faithfully P) (takeFees P consumed rows s) fun _ fees => fees.length = rows.length ∧
      (∀ r ∈ rows, Readable P s.chain r.token ∧ ∃ e, expected P.I consumed r = some e) ∧
      ∀ i r f, rows[i]? = some r → fees[i]? = some f →
        f ≤ r.volume * s.store.maxFeeBps / 10000 ∧
        (r.token ∉ (rows.map Row.token).take i →
          ∃ e, expected P.I consumed r = some e ∧ e + f = s.chain.bal r.token P.I.this) := by
  induction rows generalizing s with
  | nil => simp [takeFees]
  | cons r rows ih =>
      simp only [takeFees, Prog.bind_apply, sat_bind, Prog.pure_apply, sat_done]
      refine kept_takeFee.mono fun t fee hfirst => ?_
      obtain ⟨hstore, herc20, hreadable, hexpected, hcap, hothers, -⟩ := hfirst
      refine ih.mono fun u fees hrest => ?_
      obtain ⟨hlength, hreads, hall⟩ := hrest
      rw [hstore] at hall
      refine ⟨by simp [hlength], ?_, fun i r' f hr hf => ?_⟩
      · intro r' hr'
        rcases List.mem_cons.mp hr' with rfl | hr'
        · exact ⟨hreadable, hexpected.imp fun _ h => h.1⟩
        · have hlater := hreads r' hr'
          unfold Readable at hlater ⊢
          rwa [herc20] at hlater
      · cases i with
        | zero =>
            cases hr
            cases hf
            exact ⟨hcap, fun _ => hexpected⟩
        | succ i =>
            obtain ⟨hcap', hkeeps⟩ := hall i r' f hr hf
            refine ⟨hcap', fun hnew => ?_⟩
            simp only [List.map_cons, List.take_succ_cons, List.mem_cons, not_or] at hnew
            obtain ⟨e, he, hsum⟩ := hkeeps hnew.2
            exact ⟨e, he, by rw [hsum, hothers _ hnew.1]⟩

/-- A listing passes its checks in `s`. -/
def Passes (P : Params) (consumed : Nat) (s : State) (r : Row) : Prop :=
  ∀ e, expected P.I consumed r = some e → e ≤ s.chain.bal r.token P.I.this ∧
    s.chain.bal r.token P.I.this - e ≤ r.volume * s.store.maxFeeBps / 10000

theorem reverts_takeFee {s : State} {r : Row} {consumed : Nat} (h : Passes P consumed s r) :
    Reverts (ledger.lift O) (fun e => ¬ e.tokenCheck) (takeFee P consumed r s) := by
  refine Reverts.bind (reverts_orRevert _ fun _ => id) fun t e he => ?_
  obtain ⟨hexpected, rfl⟩ := eval_orRevert_eq_ok.mp he
  refine Reverts.bind (reverts_zoom (fun _ => id) _) fun u after hafter => ?_
  have hread : Sat (fun s q t a => ledger.lift O s q = (t, a))
      (onChain (balanceOf P.I r.token) t) fun u after =>
        u = t ∧ after = t.chain.bal r.token P.I.this := by
    simp [onChain, balanceOf, ledger]
  obtain ⟨rfl, rfl⟩ := hread.eval hafter
  obtain ⟨hkept, hcap⟩ := h e hexpected
  refine Reverts.bind (reverts_require _ fun hloss => ?_) fun v _ hv => ?_
  · exact absurd (Nat.not_lt.mpr hkept) hloss
  obtain ⟨-, rfl⟩ := eval_require_eq_ok.mp hv
  refine Reverts.bind (reverts_done _ _) fun w s' hs' => ?_
  cases hs'
  refine Reverts.bind (reverts_orRevert _ fun _ => id) fun w product hproduct => ?_
  obtain ⟨hproduct, rfl⟩ := eval_orRevert_eq_ok.mp hproduct
  obtain ⟨-, rfl⟩ := mulU_eq_some.mp hproduct
  refine Reverts.bind (reverts_require _ fun hover => ?_) fun w _ _ => ?_
  · exact absurd (Nat.not_lt.mpr hcap) hover
  refine Reverts.bind (reverts_zoom (fun _ => id) _) fun w _ _ => ?_
  exact reverts_done _ _

/-- **All checks pass** if those of first listings do: a later listing finds what
is expected, its token having just paid its fee. -/
theorem reverts_takeFees (hO : ∀ c q, Faithful P.I c q (O c q).1 (O c q).2) {s : State}
    {rows : List Row} {consumed : Nat}
    (hbefore : ∀ r ∈ rows, ∀ r' ∈ rows, r'.token = r.token → r'.before = r.before)
    (hagain : (rows.map Row.token).Nodup ∨ s.store.treasury ≠ P.I.this)
    (hpasses : ∀ i r, rows[i]? = some r → r.token ∉ (rows.map Row.token).take i →
      Passes P consumed s r) :
    Reverts (ledger.lift O) (fun e => ¬ e.tokenCheck) (takeFees P consumed rows s) := by
  induction rows generalizing s with
  | nil => exact reverts_done _ _
  | cons r rows ih =>
      refine Reverts.bind (reverts_takeFee (hpasses 0 r rfl (by simp))) fun t fee hfee => ?_
      obtain ⟨hstore, -, -, ⟨e, he, hfee⟩, -, hothers, hown⟩ :=
        kept_takeFee.eval_of (fun s q => ⟨rfl, hO s.chain q⟩) hfee
      have hrest : Reverts (ledger.lift O) (fun e => ¬ e.tokenCheck)
          (takeFees P consumed rows t) := by
        refine ih (fun r₁ h₁ r₂ h₂ => hbefore r₁ (List.mem_cons_of_mem _ h₁) r₂
          (List.mem_cons_of_mem _ h₂)) ?_ fun i r' hr' hnew e' he' => ?_
        · rw [hstore]
          exact hagain.imp (fun h => (List.nodup_cons.mp h).2) id
        · have hmem := List.mem_of_getElem? hr'
          rw [hstore]
          by_cases htoken : r'.token = r.token
          · -- the token has paid its fee, and the contract is not its own treasury
            have htreasury : s.store.treasury ≠ P.I.this := by
              refine hagain.resolve_left fun hnodup => (List.nodup_cons.mp hnodup).1 ?_
              rw [← htoken]
              exact List.mem_map_of_mem hmem
            have hsame := hbefore r List.mem_cons_self r' (List.mem_cons_of_mem _ hmem) htoken
            have hexp : expected P.I consumed r' = expected P.I consumed r := by
              simp only [expected, htoken, hsame]
            rw [hexp, he] at he'
            cases he'
            have hleft := hown htreasury
            rw [htoken]
            omega
          · rw [hothers _ htoken]
            refine hpasses (i + 1) r' hr' ?_ e' he'
            simp only [List.map_cons, List.take_succ_cons, List.mem_cons, not_or]
            exact ⟨htoken, hnew⟩
      exact hrest.bind fun u fees _ => reverts_done _ _

end Fees

/-! ## The report -/

section Report

variable {P : Params} {O : Chain → Query → Chain × Answer}

theorem addVolume_error {rows : List Row} {token : Address} {amount : Nat} {e : Error}
    (h : addVolume rows token amount = .error e) : e.common := by
  induction rows with
  | nil =>
      cases h
      trivial
  | cons r rows ih =>
      by_cases ht : r.token = token
      · cases hv : addU r.volume amount with
        | none =>
            simp only [addVolume, ht, if_true, hv, Except.error.injEq] at h
            rw [← h]
            trivial
        | some v => simp [addVolume, ht, hv] at h
      · cases hrest : addVolume rows token amount with
        | error e' =>
            simp only [addVolume, ht, if_false, hrest, Except.map, Except.error.injEq] at h
            rw [h] at hrest
            exact ih hrest
        | ok rest => simp [addVolume, ht, hrest, Except.map] at h

theorem priceOf_error {rows : List Row} {token : Address} {e : Error}
    (h : priceOf rows token = .error e) : e.common := by
  induction rows with
  | nil =>
      cases h
      trivial
  | cons r rows ih =>
      rw [priceOf] at h
      split at h
      · cases h
      · exact ih h

theorem reverts_onChain {α : Type} (p : Op α) (s : State) :
    Reverts (ledger.lift O) Error.common (onChain p s) :=
  reverts_zoom (fun _ => trivial) s

theorem reverts_watchAll (prices : List Price) (s : State) :
    Reverts (ledger.lift O) Error.common (watchAll P prices s) := by
  induction prices generalizing s with
  | nil => exact reverts_done _ _
  | cons p prices ih =>
      have hwatch : Reverts (ledger.lift O) Error.common (watch P p s) := by
        refine Reverts.bind (reverts_require _ fun _ => trivial) fun t _ _ => ?_
        exact Reverts.bind (reverts_onChain _ _) fun u before _ => reverts_done _ _
      refine Reverts.bind hwatch fun t r _ => ?_
      exact Reverts.bind (ih t) fun u rows _ => reverts_done _ _

theorem reverts_openRows (prices : List Price) (s : State) :
    Reverts (ledger.lift O) Error.common (openRows P prices s) := by
  unfold openRows
  split
  · exact reverts_watchAll prices s
  · refine Reverts.bind (reverts_onChain _ _) fun t before _ => ?_
    exact Reverts.bind (reverts_watchAll prices t) fun u rows _ => reverts_done _ _

theorem reverts_take (strict : Bool) (o : Order) (s : State) :
    Reverts (ledger.lift O) Error.common (take P strict o s) := by
  unfold take
  split
  · refine Reverts.bind (reverts_done _ _) fun t s' _ => ?_
    refine Reverts.bind (reverts_require _ fun _ => trivial) fun u _ _ => ?_
    exact Reverts.bind (reverts_require _ fun _ => trivial) fun v _ _ => reverts_done _ _
  · exact reverts_done _ _

theorem reverts_fund (strict : Bool) (o : Order) (sig : Bytes) (s : State) :
    Reverts (ledger.lift O) Error.common (fund P strict o sig s) := by
  simp only [fund, Prog.bind_apply, Prog.read_apply, Code.bind_done, Prog.ite_apply]
  split
  · exact Reverts.bind (reverts_done _ _) fun t _ _ => reverts_done _ _
  · refine Reverts.bind (reverts_require _ fun _ => trivial) fun t _ _ => ?_
    exact Reverts.bind (reverts_onChain _ _) fun u _ _ => reverts_done _ _

theorem reverts_fill (strict : Bool) (o : Order) (sig : Bytes) (b : Batch) (s : State) :
    Reverts (ledger.lift O) Error.common (fill P strict o sig b s) := by
  unfold fill
  refine Reverts.bind (reverts_require _ fun _ => trivial) fun t _ _ => ?_
  refine Reverts.bind (reverts_require _ fun _ => trivial) fun t _ _ => ?_
  refine Reverts.bind (reverts_take strict o t) fun t _ _ => ?_
  refine Reverts.bind (reverts_fund strict o sig t) fun t esc _ => ?_
  refine Reverts.bind (reverts_orRevert _ fun _ => trivial) fun t consumed _ => ?_
  refine Reverts.bind (reverts_ofExcept _ fun _ => priceOf_error) fun t sellPrice _ => ?_
  refine Reverts.bind (reverts_orRevert _ fun _ => trivial) fun t product _ => ?_
  refine Reverts.bind (reverts_ofExcept _ fun _ => priceOf_error) fun t buyPrice _ => ?_
  refine Reverts.bind (reverts_orRevert _ fun _ => trivial) fun t buyAmount _ => ?_
  refine Reverts.bind (reverts_require _ fun _ => trivial) fun t _ _ => ?_
  refine Reverts.bind (reverts_ofExcept _ fun _ => addVolume_error) fun t sold _ => ?_
  refine Reverts.bind (reverts_ofExcept _ fun _ => addVolume_error) fun t rows _ => ?_
  exact reverts_done _ _

theorem reverts_prepare (strict : Bool) (orders : List Order) (signatures : List Bytes)
    (prices : List Price) (s : State) :
    Reverts (ledger.lift O) Error.common (prepare P orders signatures prices strict s) := by
  have hfills (fills : List (Order × Bytes)) (b : Batch) (t : State) :
      Reverts (ledger.lift O) Error.common (fillAll P strict fills b t) := by
    induction fills generalizing b t with
    | nil => exact reverts_done _ _
    | cons f fills ih =>
        exact Reverts.bind (reverts_fill strict f.1 f.2 b t) fun u b' _ => ih b' u
  exact Reverts.bind (reverts_openRows prices s) fun t rows _ => hfills _ _ t

theorem reverts_rowDeltas (consumed : Nat) (rows : List Row) (s : State) :
    Reverts (ledger.lift O) Error.common (rowDeltas P consumed rows s) := by
  induction rows generalizing s with
  | nil => exact reverts_done _ _
  | cons r rows ih =>
      have hrow : Reverts (ledger.lift O) Error.common (rowDelta P consumed r s) := by
        refine Reverts.bind (reverts_orRevert _ fun _ => trivial) fun t e _ => ?_
        refine Reverts.bind (reverts_onChain _ _) fun u now _ => ?_
        exact reverts_orRevert _ fun _ => trivial
      refine Reverts.bind hrow fun t delta _ => ?_
      exact Reverts.bind (ih t) fun u deltas _ => reverts_done _ _

/-- What a simulation had in hand when it made its report. -/
structure Seen (P : Params) (O : Chain → Query → Chain × Answer) (orders : List Order)
    (prices : List Price) (interactions : List Interaction) (s : State) (u v : State)
    (b : Batch) (delta : List Int) (owed : List Nat) : Prop where
  prepared : (prepare P orders (orders.map fun _ => []) prices false s).eval (ledger.lift O) =
    .ok (u, b)
  interacted : (onChain (interact P.I interactions) u).eval (ledger.lift O) = .ok (v, ())
  delta : (rowDeltas P b.escrowConsumed b.rows v).eval (ledger.lift O) = .ok (v, delta)
  owed : sumOwed P.I (b.rows.map Row.token) (orders.zip b.buyAmounts)
    ((b.rows.map Row.token).map fun _ => 0) = some owed

/-- How the reported balance changes come about. -/
theorem sat_rowDeltas {E : State → Query → State → Answer → Prop} {s : State}
    {rows : List Row} {consumed : Nat} :
    Sat E (rowDeltas P consumed rows s) fun t delta => t = s ∧ delta.length = rows.length ∧
      ∀ (i : Nat) (r : Row) (d : Int), rows[i]? = some r → delta[i]? = some d →
        ∃ e, expected P.I consumed r = some e ∧
        subI (toI256 (s.chain.bal r.token P.I.this)) (toI256 e) = some d := by
  induction rows with
  | nil => simp [rowDeltas]
  | cons r rows ih =>
      simp only [rowDeltas, rowDelta, Prog.bind_apply, sat_bind, Prog.sat_orRevert]
      intro e he
      refine sat_balanceOf fun _ => ?_
      intro d hd
      refine ih.mono fun t deltas hrest => ?_
      obtain ⟨rfl, hlength, hall⟩ := hrest
      simp only [Prog.pure_apply, sat_done]
      refine ⟨trivial, by simp [hlength], fun i r' d' hr hd' => ?_⟩
      cases i with
      | zero =>
          cases hr
          cases hd'
          exact ⟨e, he, hd⟩
      | succ i => exact hall i r' d' hr hd'

theorem rowDeltas_eval {s : State} {rows : List Row} {consumed : Nat}
    (h : ∀ r ∈ rows, Readable P s.chain r.token ∧ s.chain.bal r.token P.I.this < 2 ^ 255 ∧
      ∃ e, expected P.I consumed r = some e ∧ e < 2 ^ 255) :
    ∃ delta, (rowDeltas P consumed rows s).eval (ledger.lift O) = .ok (s, delta) := by
  induction rows with
  | nil => exact ⟨[], rfl⟩
  | cons r rows ih =>
      obtain ⟨hreadable, hbal, e, he, hlt⟩ := h r List.mem_cons_self
      obtain ⟨deltas, hdeltas⟩ := ih fun r' hr' => h r' (List.mem_cons_of_mem _ hr')
      have hread : (onChain (balanceOf P.I r.token) s).eval (ledger.lift O) =
          .ok (s, s.chain.bal r.token P.I.this) := by
        have hcond : r.token = P.I.WETH ∨ s.chain.erc20 r.token = true := hreadable
        simp [onChain, balanceOf, ledger, hcond]
      have hsub := subI_toI256 hbal hlt
      refine ⟨((s.chain.bal r.token P.I.this : Int) - e) :: deltas, ?_⟩
      simp [rowDeltas, rowDelta, Code.eval_bind, Except.bind, he, hread, hsub, hdeltas]

/-- **The report**, and all it stands on. -/
theorem simulate_eq_report {orders : List Order} {prices : List Price}
    {interactions : List Interaction} {s : State} {tokens : List Address} {delta : List Int}
    {owed buys : List Nat} :
    (simulate P orders prices interactions s).eval (ledger.lift O) =
        .error (.SimResult tokens delta owed buys) ↔
      ∃ u v b, Seen P O orders prices interactions s u v b delta owed ∧
        tokens = b.rows.map Row.token ∧ buys = b.buyAmounts := by
  constructor
  · intro h
    simp only [simulate, Prog.bind_apply, Code.eval_bind] at h
    cases hprepare : (prepare P orders (orders.map fun _ => []) prices false s).eval
        (ledger.lift O) with
    | error e =>
        rw [hprepare] at h
        cases h
        exact (reverts_prepare _ _ _ _ _ _ hprepare).elim
    | ok r =>
        obtain ⟨u, b⟩ := r
        rw [hprepare] at h
        simp only [Except.bind] at h
        cases hinteract : (onChain (interact P.I interactions) u).eval (ledger.lift O) with
        | error e =>
            rw [hinteract] at h
            cases h
            exact (reverts_onChain _ _ _ hinteract).elim
        | ok r =>
            obtain ⟨v, x⟩ := r
            rw [hinteract] at h
            simp only at h
            cases hdelta : (rowDeltas P b.escrowConsumed b.rows v).eval (ledger.lift O) with
            | error e =>
                rw [hdelta] at h
                cases h
                exact (reverts_rowDeltas _ _ _ _ hdelta).elim
            | ok r =>
                obtain ⟨w, deltas⟩ := r
                obtain ⟨rfl, -, -⟩ := sat_rowDeltas.eval hdelta
                rw [hdelta] at h
                cases howed : sumOwed P.I (b.rows.map Row.token) (orders.zip b.buyAmounts)
                    ((b.rows.map Row.token).map fun _ => 0) with
                | none =>
                    simp only [howed, Prog.orRevert_none, Code.eval_revert,
                      Except.error.injEq, reduceCtorEq] at h
                | some owed' =>
                    simp only [howed, Prog.orRevert_some, Code.eval_done, Prog.revert_apply,
                      Code.eval_revert, Except.error.injEq, Error.SimResult.injEq] at h
                    obtain ⟨rfl, rfl, rfl, rfl⟩ := h
                    exact ⟨u, w, b, ⟨hprepare, hinteract, hdelta, howed⟩, rfl, rfl⟩
  · intro h
    obtain ⟨u, v, b, hseen, rfl, rfl⟩ := h
    simp only [simulate, Prog.bind_apply, Code.eval_bind, hseen.prepared, Except.bind,
      hseen.interacted, hseen.delta, hseen.owed, Prog.orRevert_some, Code.eval_done,
      Prog.revert_apply, Code.eval_revert]

/-! ## Agreement -/

/-- Code on the ledger leaves the storage alone when callees do. -/
theorem sat_onChain_same {E : State → Query → State → Answer → Prop}
    (hE : ∀ s q t a, E s q t a → t.store = s.store) {α : Type} (p : Op α) (s : State) :
    Sat E (onChain p s) fun t _ => t.store = s.store :=
  sat_zoom_keep (K := fun u v : State => v.store = u.store) _ (fun _ _ => rfl)
    (fun _ _ _ h₁ h₂ => h₂.trans h₁) hE s

theorem lift_store (s : State) (q : Query) (t : State) (a : Answer)
    (h : ledger.lift O s q = (t, a)) : t.store = s.store := by
  cases h
  rfl

/-- What the strict preparation of a settlement comes to. -/
theorem sat_prepare_counted {E : State → Query → State → Answer → Prop}
    (hE : ∀ s q t a, E s q t a → t.store = s.store) {s : State} {orders : List Order}
    {signatures : List Bytes} (hlength : orders.length = signatures.length)
    {prices : List Price} :
    Sat E (prepare P orders signatures prices true s) fun t b =>
      t.store.treasury = s.store.treasury ∧ t.store.maxFeeBps = s.store.maxFeeBps ∧
        ∃ rows, Opened P s.chain rows ∧ Lists P.I prices rows ∧ Counted P rows orders b := by
  simp only [prepare, Prog.bind_apply, sat_bind]
  refine (sat_openRows prices).mono fun t rows hrows => ?_
  obtain ⟨rfl, hopen, hlists⟩ := hrows
  have hstart : Counted P rows [] ⟨rows, [], 0⟩ := by
    refine ⟨rfl, rfl, fun r hr => ?_, fun i r hr => ?_⟩
    · rw [hopen.volume r hr]
      exact Nat.two_pow_pos 256
    · rw [hopen.volume r (List.mem_of_getElem? hr)]
      simp [volume]
  have hfills := sat_fillAll_done (P := P) (E := E) true (orders.zip signatures)
    (fun done u b => u.store.treasury = t.store.treasury ∧
      u.store.maxFeeBps = t.store.maxFeeBps ∧ Counted P rows done b)
    (K := fun _ u v => v.store = u.store)
    (fun os _ u => sat_onChain_same hE _ u)
    (fun os _ done u v b b' sellPrice buyPrice hinv hfill hfund => ?_) []
    (show _ ∧ _ ∧ _ from ⟨rfl, rfl, hstart⟩)
  · refine hfills.mono fun u b hcounted => ?_
    rw [List.nil_append, List.map_fst_zip hlength.le] at hcounted
    exact ⟨hcounted.1, hcounted.2.1, rows, hopen, hlists, hcounted.2.2⟩
  · have hstore : v.store = (filling P true os.1 u).store := by
      split at hfund
      · exact hfund
      · rw [hfund]
    obtain ⟨htreasury, hmax, -⟩ := filling_store (P := P) os.1 u
    rw [hstore, htreasury, hmax]
    exact ⟨hinv.1, hinv.2.1, hinv.2.2.step hfill⟩

/-- The report of a simulation is borne out, listing by listing, by the fees a
settlement of the same orders took. -/
structure Agrees (P : Params) (fills : List (Order × Nat)) (tokens : List Address)
    (delta : List Int) (owed fees : List Nat) : Prop where
  lengths : delta.length = tokens.length ∧ owed.length = tokens.length ∧
    fees.length = tokens.length
  first : ∀ (i : Nat) (x : Address) (d : Int) (o f : Nat), First tokens i x →
    delta[i]? = some d → owed[i]? = some o → fees[i]? = some f →
      (f : Int) = d - o + paidBack P.I x fills
  again : ∀ (i : Nat) (x : Address), Again tokens i x → owed[i]? = some 0 ∧ fees[i]? = some 0

/-- What the report promises to keep of every token is not negative and within
the cap on its volume. -/
def Acceptable (P : Params) (maxFeeBps : Nat) (fills : List (Order × Nat))
    (tokens : List Address) (delta : List Int) (owed : List Nat) : Prop :=
  ∀ (i : Nat) (x : Address) (d : Int) (o : Nat), First tokens i x → delta[i]? = some d →
    owed[i]? = some o → 0 ≤ d - o + paidBack P.I x fills ∧
      d - o + paidBack P.I x fills ≤ (volume P.I x fills * maxFeeBps / 10000 : Nat)

/-- No balance a simulation reads is too large for an `int256`. -/
def Fits (P : Params) (O : Chain → Query → Chain × Answer) (orders : List Order)
    (prices : List Price) (interactions : List Interaction) (s : State) : Prop :=
  ∀ u b v, (prepare P orders (orders.map fun _ => []) prices false s).eval (ledger.lift O) =
      .ok (u, b) →
    (onChain (interact P.I interactions) u).eval (ledger.lift O) = .ok (v, ()) →
    ∀ r ∈ b.rows, r.before < 2 ^ 255 ∧ v.chain.bal r.token P.I.this < 2 ^ 255

theorem expected_le {r : Row} {consumed e : Nat} (h : expected P.I consumed r = some e) :
    e ≤ r.before := by
  unfold expected at h
  split at h
  · have hsub := (subU_eq_some.mp h).2
    omega
  · cases h
    exact Nat.le_refl _

theorem first_row {rows : List Row} {i : Nat} {x : Address}
    (h : (rows.map Row.token)[i]? = some x) : ∃ r, rows[i]? = some r ∧ r.token = x := by
  rw [List.getElem?_map, Option.map_eq_some_iff] at h
  exact h

/-- **If the settlement succeeds**, the simulation reports its fees. -/
theorem reported_of_settled (hO : ∀ c q, Faithful P.I c q (O c q).1 (O c q).2) {s : State}
    {sender : Address} {orders : List Order} {signatures : List Bytes} {prices : List Price}
    {interactions : List Interaction} (hfits : Fits P O orders prices interactions s)
    {t : State} {fees : List Nat}
    (h : (settle sender P orders signatures prices interactions s).eval (ledger.lift O) =
      .ok (t, fees)) :
    ∃ u v b delta owed, Seen P O orders prices interactions s u v b delta owed ∧
      b.rows.map Row.token = (watched P.I prices).map Prod.fst ∧
      Agrees P (orders.zip b.buyAmounts) (b.rows.map Row.token) delta owed fees ∧
      ∀ i x f, First (b.rows.map Row.token) i x → fees[i]? = some f →
        f ≤ volume P.I x (orders.zip b.buyAmounts) * s.store.maxFeeBps / 10000 := by
  refine Sat.eval (?_ : Sat _ _ fun _ fees => ∃ u v b delta owed,
    Seen P O orders prices interactions s u v b delta owed ∧
      b.rows.map Row.token = (watched P.I prices).map Prod.fst ∧
      Agrees P (orders.zip b.buyAmounts) (b.rows.map Row.token) delta owed fees ∧
      ∀ i x f, First (b.rows.map Row.token) i x → fees[i]? = some f →
        f ≤ volume P.I x (orders.zip b.buyAmounts) * s.store.maxFeeBps / 10000) h
  simp only [settle, nonReentrant, modify, checkAndTakeFee, Prog.bind_apply,
    Prog.read_apply, Prog.write_apply, Code.bind_done, sat_bind, sat_done, Prog.sat_require,
    Prog.pure_apply, Prog.sat_orRevert, subU_eq_some]
  intro _ _ hlength
  refine ((sat_eval _ _).and (sat_prepare_counted lift_store hlength)).mono fun t₁ b hprep => ?_
  obtain ⟨hprepared, -, hmax, rows, hopen, hlists, hcounted⟩ := hprep
  intro total htotal
  obtain ⟨-, rfl⟩ := htotal
  refine (sat_eval _ _).mono fun t₂ _ hinteracted => ?_
  have hstore₂ := (sat_onChain_same lift_store _ _).eval hinteracted
  refine ((sat_onChain_faithfully kept_pay).graph fun s q => ⟨rfl, hO s.chain q⟩).mono
    fun t₃ _ hpaid => ?_
  refine (kept_takeFees.graph fun s q => ⟨rfl, hO s.chain q⟩).mono fun t₄ fees hfees _ => ?_
  obtain ⟨hstore, herc20, hpaid⟩ := hpaid
  obtain ⟨hcount, hreads, hfee⟩ := hfees
  -- the simulation prepares the same batch and sees the same ledger
  have hstart : Alike s { s with store := s.store.lock } := ⟨rfl, rfl⟩
  obtain ⟨u, hsim, halike⟩ := mirrors_prepare hstart hlength prices _ _ hprepared
  have hmid : Alike u
      { t₁ with store := t₁.store.setTotal (t₁.store.escrowTotal - b.escrowConsumed) } :=
    ⟨halike.chain, halike.escrowed⟩
  obtain ⟨v, hsees, hsame⟩ := steady_onChain (interact P.I interactions) u _ hmid _ _
    hinteracted
  have hsmall := hfits u b v hsim hsees
  have htokens : b.rows.map Row.token = (watched P.I prices).map Prod.fst := by
    have hpairs := congrArg (List.map Prod.fst) (hlists.of_fixed hcounted.rows).pairs
    rwa [List.map_map] at hpairs
  have hpossible : ∀ r ∈ b.rows, Readable P v.chain r.token ∧
      v.chain.bal r.token P.I.this < 2 ^ 255 ∧
      ∃ e, expected P.I b.escrowConsumed r = some e ∧ e < 2 ^ 255 := by
    intro r hr
    obtain ⟨hreadable, e, he⟩ := hreads r hr
    refine ⟨?_, (hsmall r hr).2, e, he, (expected_le he).trans_lt (hsmall r hr).1⟩
    unfold Readable at hreadable ⊢
    rwa [hsame.chain, ← herc20]
  obtain ⟨delta, hdelta⟩ := rowDeltas_eval (O := O) hpossible
  obtain ⟨-, hdeltas, hmoved⟩ := sat_rowDeltas.eval hdelta
  have hroom : ∀ i x w, First (b.rows.map Row.token) i x →
      ((b.rows.map Row.token).map fun _ => 0)[i]? = some w →
      w + owedOf P.I x (orders.zip b.buyAmounts) < 2 ^ 256 := by
    intro i x w hx hw
    obtain ⟨r, hr, rfl⟩ := first_row hx.1
    have hvolume := hcounted.volume i r hr
    rw [if_pos hx.2] at hvolume
    have hlt := hcounted.fits r (List.mem_of_getElem? hr)
    have hle := owedOf_le_volume P.I r.token (orders.zip b.buyAmounts)
    have hzero : w = 0 := by
      rw [List.getElem?_map, Option.map_eq_some_iff] at hw
      obtain ⟨_, -, rfl⟩ := hw
      rfl
    omega
  obtain ⟨owed, howed⟩ := sumOwed_fits (by simp) hroom
  obtain ⟨howedLength, howedAt⟩ := sumOwed_first (by simp) howed
  refine ⟨u, v, b, delta, owed, ⟨hsim, hsees, hdelta, howed⟩, htokens, ⟨?_, ?_, ?_⟩, ?_⟩
  · simp [hdeltas, howedLength, hcount]
  · intro i x d o f hx hd ho hf
    obtain ⟨r, hr, rfl⟩ := first_row hx.1
    have howed' := howedAt i r.token 0 hx.1 (by simp [hr])
    rw [ho, if_pos hx.2, Nat.zero_add] at howed'
    obtain ⟨e, he, hsum⟩ := (hfee i r f hr hf).2 hx.2
    obtain ⟨e', he', hsub⟩ := hmoved i r d hr hd
    rw [he] at he'
    cases he'
    have hmem := List.mem_of_getElem? hr
    rw [subI_toI256 (hsmall r hmem).2 ((expected_le he).trans_lt (hsmall r hmem).1)] at hsub
    have hbal := hpaid r.token
    rw [← hsame.chain] at hbal
    cases hsub
    cases howed'
    omega
  · intro i x hx
    obtain ⟨r, hr, rfl⟩ := first_row hx.1
    refine ⟨?_, ?_⟩
    · have howed' := howedAt i r.token 0 hx.1 (by simp [hr])
      rwa [if_neg (not_not.mpr hx.2)] at howed'
    · have hlt : i < fees.length := by
        rw [hcount]
        exact (List.getElem?_eq_some_iff.mp hr).1
      have hf := List.getElem?_eq_getElem hlt
      have hcap := (hfee i r _ hr hf).1
      have hvolume := hcounted.volume i r hr
      rw [if_neg (not_not.mpr hx.2)] at hvolume
      rw [hvolume, Nat.zero_mul, Nat.zero_div, Nat.le_zero] at hcap
      rw [hf, hcap]
  · intro i x f hx hf
    obtain ⟨r, hr, rfl⟩ := first_row hx.1
    have hcap := (hfee i r f hr hf).1
    have hvolume := hcounted.volume i r hr
    rw [if_pos hx.2] at hvolume
    have hmax₃ : t₃.store.maxFeeBps = s.store.maxFeeBps := by
      rw [hstore, hstore₂]
      exact hmax
    rw [hvolume, hmax₃] at hcap
    exact hcap

/-- **If the report is acceptable**, the settlement passes its checks. -/
theorem passes_of_acceptable (hO : ∀ c q, Faithful P.I c q (O c q).1 (O c q).2) {s u v : State}
    {b : Batch} {sender : Address} {orders : List Order} {signatures : List Bytes}
    {prices : List Price} {interactions : List Interaction} {delta : List Int}
    {owed : List Nat} (hfits : Fits P O orders prices interactions s)
    (hseen : Seen P O orders prices interactions s u v b delta owed)
    (hagain : (b.rows.map Row.token).Nodup ∨ s.store.treasury ≠ P.I.this)
    (haccept : Acceptable P s.store.maxFeeBps (orders.zip b.buyAmounts)
      (b.rows.map Row.token) delta owed) :
    Reverts (ledger.lift O) (fun e => ¬ e.tokenCheck)
      (settle sender P orders signatures prices interactions s) := by
  have hcommon (e : Error) (h : e.common) : ¬ e.tokenCheck := h.not_tokenCheck
  simp only [settle, nonReentrant, modify, checkAndTakeFee, Prog.bind_apply,
    Prog.read_apply, Prog.write_apply, Code.bind_done]
  refine Reverts.bind (reverts_require _ fun _ => id) fun t _ ht => ?_
  obtain ⟨-, rfl⟩ := eval_require_eq_ok.mp ht
  refine Reverts.bind ?_ fun _ _ _ => reverts_done _ _
  refine Reverts.bind (reverts_require _ fun _ => id) fun t' _ ht' => ?_
  obtain ⟨-, rfl⟩ := eval_require_eq_ok.mp ht'
  refine Reverts.bind (reverts_require _ fun _ => id) fun t' _ ht' => ?_
  obtain ⟨hlength, rfl⟩ := eval_require_eq_ok.mp ht'
  refine Reverts.bind ((reverts_prepare _ _ _ _ _).mono hcommon) fun t₁ b' hprepared => ?_
  -- the settlement prepares what the simulation did
  have hstart : Alike t { t with store := t.store.lock } := ⟨rfl, rfl⟩
  obtain ⟨u', hsim, halike⟩ := mirrors_prepare hstart hlength prices _ _ hprepared
  obtain ⟨htreasury, hmax, rows, hopen, hlists, hcounted⟩ :=
    (sat_prepare_counted lift_store hlength).eval hprepared
  rw [hseen.prepared] at hsim
  cases hsim
  refine Reverts.bind (reverts_orRevert _ fun _ => id) fun t' total htotal => ?_
  obtain ⟨-, rfl⟩ := eval_orRevert_eq_ok.mp htotal
  refine Reverts.bind ((reverts_onChain _ _).mono hcommon) fun t₂ _ hinteracted => ?_
  have hmid : Alike u { t' with store := t'.store.setTotal total } :=
    ⟨halike.chain, halike.escrowed⟩
  obtain ⟨v', hsees, hsame⟩ := steady_onChain (interact P.I interactions) u _ hmid _ _
    hinteracted
  rw [hseen.interacted] at hsees
  cases hsees
  have hstore₂ := (sat_onChain_same lift_store _ _).eval hinteracted
  refine Reverts.bind ((reverts_onChain _ _).mono hcommon) fun t₃ _ hpaid => ?_
  obtain ⟨hstore₃, -, hbal⟩ :=
    (sat_onChain_faithfully kept_pay).eval_of (fun s q => ⟨rfl, hO s.chain q⟩) hpaid
  have hstore : t₃.store = t'.store.setTotal total := hstore₃.trans hstore₂
  have htreasury₃ : t₃.store.treasury = t.store.treasury := by
    rw [hstore]
    exact htreasury
  have hmax₃ : t₃.store.maxFeeBps = t.store.maxFeeBps := by
    rw [hstore]
    exact hmax
  have hsmall := hfits u b v hseen.prepared hseen.interacted
  obtain ⟨-, hdeltas, hmoved⟩ := sat_rowDeltas.eval hseen.delta
  obtain ⟨howedLength, howedAt⟩ := sumOwed_first (by simp) hseen.owed
  have hfees : Reverts (ledger.lift O) (fun e => ¬ e.tokenCheck)
      (takeFees P b.escrowConsumed b.rows t₃) := by
    refine reverts_takeFees hO (fun r hr r' hr' htoken => ?_) ?_ fun i r hr hnew e he => ?_
    · obtain ⟨r₁, hr₁, htoken₁, -, hbefore₁⟩ := mem_of_fixed hcounted.rows hr
      obtain ⟨r₂, hr₂, htoken₂, -, hbefore₂⟩ := mem_of_fixed hcounted.rows hr'
      rw [← hbefore₁, ← hbefore₂, hopen.before r₁ hr₁, hopen.before r₂ hr₂, htoken₁, htoken₂,
        htoken]
    · rw [htreasury₃]
      exact hagain
    · have hlt : i < b.rows.length := (List.getElem?_eq_some_iff.mp hr).1
      have hd := List.getElem?_eq_getElem (l := delta) (i := i) (by omega)
      obtain ⟨e', he', hsub⟩ := hmoved i r _ hr hd
      rw [he] at he'
      cases he'
      have hmem := List.mem_of_getElem? hr
      rw [subI_toI256 (hsmall r hmem).2 ((expected_le he).trans_lt (hsmall r hmem).1)] at hsub
      have htoken : (b.rows.map Row.token)[i]? = some r.token := by simp [hr]
      have howed := howedAt i r.token 0 htoken (by simp [hr])
      rw [if_pos hnew, Nat.zero_add] at howed
      obtain ⟨hlow, hhigh⟩ := haccept i r.token _ _ ⟨htoken, hnew⟩ hd howed
      have hvolume := hcounted.volume i r hr
      rw [if_pos hnew] at hvolume
      have hleft := hbal r.token
      rw [← hsame.chain] at hleft
      have hdelta := Option.some.inj hsub
      rw [hvolume, hmax₃]
      omega
  refine Reverts.bind hfees fun t₄ fees _ => ?_
  exact Reverts.bind (reverts_require _ fun _ => id) fun _ _ _ => reverts_done _ _

end Report

/-- **`simulate` agrees with `settle`.**  Venues answer both alike, tokens are
standard, and balances fit an `int256`.  If the settlement succeeds, the
simulation reports, and of the first listing of every token what moved, less what
is owed, plus what comes back to the contract, is the fee; later listings owe
nothing and pay no fee.  And if the report keeps within its caps, no token is
lost or overcharged, provided that no token is listed twice or the contract is
not its own treasury. -/
theorem simulation_agrees (P : Params) (O : Chain → Query → Chain × Answer)
    (hO : ∀ c q, Faithful P.I c q (O c q).1 (O c q).2) (s : State) (sender : Address)
    (orders : List Order) (signatures : List Bytes) (prices : List Price)
    (interactions : List Interaction) (hfits : Fits P O orders prices interactions s) :
    (∀ t fees,
      (settle sender P orders signatures prices interactions s).eval (ledger.lift O) =
        .ok (t, fees) →
      ∃ tokens delta owed buys,
        (simulate P orders prices interactions s).eval (ledger.lift O) =
          .error (.SimResult tokens delta owed buys) ∧
        tokens = (watched P.I prices).map Prod.fst ∧
        Agrees P (orders.zip buys) tokens delta owed fees) ∧
    ∀ tokens delta owed buys,
      (simulate P orders prices interactions s).eval (ledger.lift O) =
        .error (.SimResult tokens delta owed buys) →
      tokens.Nodup ∨ s.store.treasury ≠ P.I.this →
      Acceptable P s.store.maxFeeBps (orders.zip buys) tokens delta owed →
      ∀ e, (settle sender P orders signatures prices interactions s).eval (ledger.lift O) =
        .error e → ¬ e.tokenCheck := by
  constructor
  · intro t fees hsettle
    obtain ⟨u, v, b, delta, owed, hseen, htokens, hagrees, -⟩ :=
      reported_of_settled hO hfits hsettle
    exact ⟨_, delta, owed, _, simulate_eq_report.mpr ⟨u, v, b, hseen, rfl, rfl⟩, htokens,
      hagrees⟩
  · intro tokens delta owed buys hreport hagain haccept
    obtain ⟨u, v, b, hseen, rfl, rfl⟩ := simulate_eq_report.mp hreport
    exact passes_of_acceptable hO hfits hseen hagain haccept

/-! ## Reports on the market -/

namespace Sample

theorem faithful_market (c : Chain) (q : Query) :
    Faithful Ordo.Sample.immutables c q (Sample.market c q).1 (Sample.market c q).2 := by
  cases q with
  | transfer token dst amount =>
      change Faithful _ _ _ (Sample.given c token 100 dst amount (.bool true)).1
        (Sample.given c token 100 dst amount (.bool true)).2
      rcases Sample.given_cases c token 100 dst amount (.bool true) with ⟨hfunds, h⟩ | h
      · rw [h]
        exact fun _ => ⟨hfunds.2.2, rfl, fun _ => rfl⟩
      · rw [h]
        exact fun hb => by cases hb
  | send recipient amount => exact fun _ => ⟨rfl, fun _ => rfl⟩
  | transferFrom | approve | exactInput | unlock | poolSwap | sync | settle | take | relock =>
      trivial

/-- What a simulation of the deposited order reads. -/
def reading : Body (List (Nat × Nat)) := do
  let b ← prepare params [order] [[]] [⟨101, 1⟩, ⟨200, 1⟩] false
  onChain (interact params.I [interaction])
  let s ← Prog.read
  pure (b.rows.map fun r => (r.before, s.chain.bal r.token 100))

theorem fits_stocked :
    Fits params Sample.market [order] [⟨101, 1⟩, ⟨200, 1⟩] [interaction] stocked := by
  intro u b v hprepare hinteract r hr
  have hread : ((reading stocked).eval (ledger.lift Sample.market)).map Prod.snd =
      .ok [(20, 0), (0, 20)] := by decide +kernel
  have hsame : (reading stocked).eval (ledger.lift Sample.market) =
      .ok (v, b.rows.map fun r => (r.before, v.chain.bal r.token 100)) := by
    simp only [reading, Prog.bind_apply, Code.eval_bind]
    rw [show (prepare params [order] [[]] [⟨101, 1⟩, ⟨200, 1⟩] false stocked).eval
      (ledger.lift Sample.market) = .ok (u, b) from hprepare]
    simp only [Except.bind, hinteract]
    rfl
  rw [hsame] at hread
  have hpair : (r.before, v.chain.bal r.token 100) ∈ [(20, 0), (0, 20)] := by
    rw [← Except.ok.inj hread]
    exact List.mem_map_of_mem hr
  simp only [List.mem_cons, Prod.mk.injEq, List.not_mem_nil, or_false] at hpair
  change r.before < 2 ^ 255 ∧ v.chain.bal r.token 100 < 2 ^ 255
  omega

/-- Account 6 has token 200, and the PoolManager token 300. -/
def crowded : State :=
  { start with chain := (start.chain.setBal 200 6 1000).setBal 300 103 1000 }

/-- Account 6 sells token 200 for token 300. -/
def sale (receiver : Address) (sellAmount nonce : Nat) : Order :=
  { owner := 6, receiver, sellToken := 200, buyToken := 300, sellAmount, minBuyAmount := 1,
    validTo := 100, nonce, appData := 0 }

/-- A signature that recovers to account 6. -/
def signed : Bytes := List.replicate 64 0 ++ [27]

end Sample

/-- The deposited order is filled without a fee, as reported. -/
theorem simulation_agrees_sample :
    ∃ tokens delta owed buys,
      (simulate Sample.params [Sample.order] [⟨101, 1⟩, ⟨200, 1⟩] [Sample.interaction]
        Sample.stocked).eval (ledger.lift Sample.market) =
          .error (.SimResult tokens delta owed buys) ∧
      tokens = (watched Sample.params.I [⟨101, 1⟩, ⟨200, 1⟩]).map Prod.fst ∧
      Agrees Sample.params ([Sample.order].zip buys) tokens delta owed [0, 0] := by
  have hrun : ((settle 2 Sample.params [Sample.order] [[]] [⟨101, 1⟩, ⟨200, 1⟩]
      [Sample.interaction] Sample.stocked).eval (ledger.lift Sample.market)).map Prod.snd =
        .ok [0, 0] := by decide +kernel
  obtain ⟨⟨t, fees⟩, heval, rfl⟩ := map_eq_ok.mp hrun
  exact (simulation_agrees Sample.params Sample.market Sample.faithful_market Sample.stocked 2
    [Sample.order] [[]] [⟨101, 1⟩, ⟨200, 1⟩] [Sample.interaction] Sample.fits_stocked).1 t
    [0, 0] heval

/-- A token that is listed twice moves in both listings and is owed in the first
alone, and what the contract is to receive itself is owed and yet kept: in both
cases the fee is not the difference. -/
theorem simulation_differs :
    (((settle 2 Sample.params [Sample.order] [[]] [⟨101, 1⟩, ⟨200, 1⟩, ⟨200, 1⟩]
        [Sample.interaction] Sample.stocked).eval (ledger.lift Sample.market)).map Prod.snd =
          .ok [0, 0, 0] ∧
      ((simulate Sample.params [Sample.order] [⟨101, 1⟩, ⟨200, 1⟩, ⟨200, 1⟩]
        [Sample.interaction] Sample.stocked).eval (ledger.lift Sample.market)).map Prod.snd =
          .error (.SimResult [101, 200, 200] [0, 20, 20] [0, 20, 0] [20]) ∧
      ((0 : Nat) : Int) ≠ 20 - (0 : Nat)) ∧
    (((settle 2 Sample.params [Sample.sale 0 800 1, Sample.sale 100 4 2]
        [Sample.signed, Sample.signed] [⟨200, 1⟩, ⟨300, 1⟩]
        [⟨[⟨1, [], ⟨200, 300, 0, 1, 0⟩, true⟩], 804⟩] Sample.crowded).eval
          (ledger.lift Sample.market)).map Prod.snd = .ok [0, 0, 4] ∧
      ((simulate Sample.params [Sample.sale 0 800 1, Sample.sale 100 4 2]
        [⟨200, 1⟩, ⟨300, 1⟩] [⟨[⟨1, [], ⟨200, 300, 0, 1, 0⟩, true⟩], 804⟩]
        Sample.crowded).eval (ledger.lift Sample.market)).map Prod.snd =
          .error (.SimResult [101, 200, 300] [0, 0, 804] [0, 0, 804] [800, 4]) ∧
      ((4 : Nat) : Int) ≠ 804 - (804 : Nat)) := by
  refine ⟨⟨?_, ?_, by decide⟩, ?_, ?_, by decide⟩ <;> decide +kernel

end Ordo.OrdoBatch
