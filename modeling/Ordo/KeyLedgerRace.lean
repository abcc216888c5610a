import Mathlib.Algebra.BigOperators.Group.Finset.Piecewise
import Mathlib.Data.Fintype.BigOperators
import Mathlib.Algebra.Order.Group.Multiset
import Mathlib.Tactic.Abel
import Ordo.KeyLedger

/-!
# Gateways that share the ledger

Several gateways charge and credit keys in one database.  Each executes the
statements of its calls in order, a statement at a time, and the database takes the
statements of all of them in any order.

What comes out is what some order of the same calls gives, as long as no update of a
key's row falls between the reading and the writing of that row by somebody else.
Such an order is that of the updates, with the calls that were refused at the end.
-/

namespace Ordo

open KeyLedger

/-- A call a gateway makes. -/
inductive KeyCall
  | charge (label : String) (priceMicros now : Int)
  | credit (label : String) (usdMicros : Int) (txHash wei : String) (now : Int)
  deriving DecidableEq

namespace KeyCall

/-- The call made at once. -/
def op : KeyCall → LedgerOp
  | .charge label price now => .charge label price now
  | .credit label usd txHash wei now => .credit label usd txHash wei now

def label : KeyCall → String
  | .charge label _ _ => label
  | .credit label _ _ _ _ => label

/-- The call returns or throws before it writes anything. -/
def refused : KeyCall → Bool
  | .charge label price _ => isAnon label || price ≤ 0
  | .credit label usd txHash _ _ => (creditError label usd txHash).isSome

/-- The top-up that a credit inserts. -/
def topup : KeyCall → Option KeyTopup
  | .charge _ _ _ => none
  | .credit label usd txHash wei now => some ⟨txHash.toLower, label, usd, wei, now⟩

/-- The hash that a credit inserts. -/
def hash (c : KeyCall) : Option String := c.topup.map (·.txHash)

/-- What the call's `UPDATE` makes of the row, given what its `SELECT` returned. -/
def set (cur : KeyBilling) : KeyCall → KeyRow → KeyRow
  | .charge _ price now => chargeUpdate cur price now
  | .credit _ usd _ _ _ => creditUpdate cur usd

end KeyCall

/-- The statement of its call that a gateway executes next. -/
inductive Statement
  /-- None: the gateway begins its next call. -/
  | idle
  /-- `INSERT INTO key_topups` -/
  | insertTopup (c : KeyCall) (t : KeyTopup)
  /-- The first `SELECT` of `keyBilling`. -/
  | select (c : KeyCall)
  /-- `UPDATE key_ledger`, with what was read. -/
  | update (c : KeyCall) (cur : KeyBilling)
  /-- The `SELECT` for the caller. -/
  | answer (label : String)
  deriving DecidableEq

/-- A gateway: its next statement, and the calls it makes after this one. -/
structure Gateway where
  next : Statement := .idle
  calls : List KeyCall
  deriving DecidableEq

namespace Gateway

/-- The database and the gateway after its next statement. -/
def step (s : KeyLedger) (g : Gateway) : KeyLedger × Gateway :=
  match g.next with
  | .idle =>
      match g.calls with
      | [] => (s, g)
      | c :: rest =>
          if c.refused then (s, ⟨.idle, rest⟩)
          else
            match c.topup with
            | none => (s.ensureRow c.label, ⟨.select c, rest⟩)
            | some t => (s.ensureRow c.label, ⟨.insertTopup c t, rest⟩)
  | .insertTopup c t =>
      match s.insertTopup t with
      -- The primary key refuses the hash, and `creditKey` throws.
      | none => (s, { g with next := .idle })
      | some s => (s, { g with next := .select c })
  | .select c => (s, { g with next := .update c (s.keyBilling c.label) })
  | .update c cur => (s.updateRow c.label (c.set cur), { g with next := .answer c.label })
  | .answer _ => (s, { g with next := .idle })

/-- The call that has not written its row yet, if the gateway is in one. -/
def current (g : Gateway) : Option KeyCall :=
  match g.next with
  | .insertTopup c _ => some c
  | .select c => some c
  | .update c _ => some c
  | _ => none

/-- The calls that have not written their row yet. -/
def remaining (g : Gateway) : Multiset KeyCall := ↑(g.current.toList ++ g.calls)

/-- The hash the gateway has inserted for a call that has not written its row yet. -/
def inserted (g : Gateway) : Option String :=
  match g.next with
  | .select c => c.hash
  | .update c _ => c.hash
  | _ => none

/-- The key whose row the gateway has read and writes next. -/
def writing (g : Gateway) : Option String :=
  match g.next with
  | .update c _ => some c.label
  | _ => none

/-- The gateway has made all its calls. -/
def Finished (g : Gateway) : Prop := g.next = .idle ∧ g.calls = []

instance (g : Gateway) : Decidable g.Finished := inferInstanceAs (Decidable (_ ∧ _))

end Gateway

/-- The database and the gateways that share it. -/
structure Gateways (ι : Type) where
  ledger : KeyLedger
  gateway : ι → Gateway

namespace Gateways

variable {ι : Type} [DecidableEq ι]

/-- The next statement of gateway `i` is executed. -/
def step (w : Gateways ι) (i : ι) : Gateways ι :=
  let (ledger, g) := (w.gateway i).step w.ledger
  { ledger, gateway := Function.update w.gateway i g }

/-- Statements are executed in the order of a schedule. -/
def run (w : Gateways ι) (schedule : List ι) : Gateways ι := schedule.foldl step w

/-- The gateways before their calls. -/
def start (ledger : KeyLedger) (calls : ι → List KeyCall) : Gateways ι where
  ledger
  gateway i := { calls := calls i }

/-- No other gateway has read the row that gateway `i` is about to write and has still
to write it. -/
def Exclusive (w : Gateways ι) (i : ι) : Prop :=
  ∀ j, j ≠ i → (w.gateway i).writing ≠ none → (w.gateway j).writing ≠ (w.gateway i).writing

/-- No update of a row falls between the reading and the writing of it by another
gateway. -/
def ExclusiveRun (w : Gateways ι) : List ι → Prop
  | [] => True
  | i :: rest => w.Exclusive i ∧ (w.step i).ExclusiveRun rest

instance [Fintype ι] (w : Gateways ι) (i : ι) : Decidable (w.Exclusive i) :=
  inferInstanceAs (Decidable (∀ j, j ≠ i → (w.gateway i).writing ≠ none →
    (w.gateway j).writing ≠ (w.gateway i).writing))

instance ExclusiveRun.decidable [Fintype ι] :
    (w : Gateways ι) → (schedule : List ι) → Decidable (w.ExclusiveRun schedule)
  | _, [] => .isTrue trivial
  | w, i :: rest =>
      let _ := ExclusiveRun.decidable (w.step i) rest
      inferInstanceAs (Decidable (w.Exclusive i ∧ (w.step i).ExclusiveRun rest))

end Gateways

namespace KeyLedger

/-- The hashes of the top-ups that have been applied. -/
def hashes (s : KeyLedger) : List String := s.topups.map (·.txHash)

end KeyLedger

namespace KeyCall

variable {s : KeyLedger} {c : KeyCall}

/-- A call that is not refused, made at once. -/
theorem apply_taken (hgo : c.refused = false) (hnew : ∀ h, c.hash = some h → h ∉ s.hashes)
    (label : String) :
    (s.apply c.op).row label
      = (if label = c.label then c.set (s.keyBilling c.label) (s.row c.label) else s.row label) ∧
    (s.apply c.op).topups = s.topups ++ c.topup.toList := by
  cases c with
  | charge other price now =>
      have hcheck : ¬isAnon other ∧ 0 < price := by
        simpa [refused] using hgo
      constructor
      · exact chargeKeyedSend_row now hcheck.1 hcheck.2 label
      · show (s.chargeKeyedSend other price now).topups = s.topups ++ []
        unfold chargeKeyedSend
        rw [List.append_nil]
        split
        · rfl
        · exact ensureRow_topups
  | credit other usd txHash wei now =>
      have hcheck : creditError other usd txHash = none := by
        simpa [refused] using hgo
      exact creditKey_taken wei now hcheck (hnew _ rfl) label

/-- A refused call, made at once, changes no row and no top-up. -/
theorem apply_refused (h : c.refused = true ∨ ∃ h, c.hash = some h ∧ h ∈ s.hashes)
    (label : String) :
    (s.apply c.op).row label = s.row label ∧ (s.apply c.op).topups = s.topups := by
  cases c with
  | charge other price now =>
      have hcheck : isAnon other ∨ price ≤ 0 := by
        simpa [refused, hash, topup] using h
      have hskip : s.chargeKeyedSend other price now = s := by
        unfold chargeKeyedSend
        rw [if_pos (by simpa using hcheck)]
      show (s.chargeKeyedSend other price now).row label = _ ∧
        (s.chargeKeyedSend other price now).topups = _
      rw [hskip]
      exact ⟨rfl, rfl⟩
  | credit other usd txHash wei now =>
      refine creditKey_refused wei now ?_ label
      rcases h with h | h
      · left
        simpa [refused, Option.isSome_iff_ne_none] using h
      · right
        obtain ⟨_, hhash, hmem⟩ := h
        cases hhash
        exact hmem

end KeyCall

namespace Gateways

variable {ι : Type} [DecidableEq ι] [Fintype ι]

/-- The gateways at some point of their run: `done` are the calls that have written
their rows, in order, and `refused` those that were refused. -/
structure Serial (start : KeyLedger) (all : Multiset KeyCall) (w : Gateways ι)
    (done refused : List KeyCall) : Prop where
  /-- The rows are what the calls done so far give one after the other. -/
  rows : ∀ label, w.ledger.row label = (start.run (done.map (·.op))).row label
  hashes : ∀ h, h ∈ w.ledger.hashes ↔
    h ∈ (start.run (done.map (·.op))).hashes ∨ ∃ i, (w.gateway i).inserted = some h
  pending : ∀ i h, (w.gateway i).inserted = some h →
    h ∉ (start.run (done.map (·.op))).hashes
  apart : ∀ i j h, (w.gateway i).inserted = some h → (w.gateway j).inserted = some h → i = j
  rowThere : ∀ i c, (w.gateway i).current = some c →
    (w.ledger.rows c.label).isSome ∧ c.refused = false
  topup : ∀ i c t, (w.gateway i).next = .insertTopup c t → c.topup = some t
  /-- What a gateway has read is still what the row says. -/
  read : ∀ i c cur, (w.gateway i).next = .update c cur → cur = w.ledger.keyBilling c.label
  refusals : ∀ c ∈ refused, c.refused = true ∨ ∃ h, c.hash = some h ∧ h ∈ w.ledger.hashes
  calls : ∑ i, (w.gateway i).remaining + ↑(done ++ refused) = all

/-- One gateway's remaining calls change. -/
theorem sum_remaining_update (gateway : ι → Gateway) (i : ι) (g : Gateway) :
    ∑ j, (Function.update gateway i g j).remaining + (gateway i).remaining
      = ∑ j, (gateway j).remaining + g.remaining := by
  rw [← Finset.add_sum_erase _ _ (Finset.mem_univ i),
    ← Finset.add_sum_erase (Finset.univ) (fun j => (gateway j).remaining) (Finset.mem_univ i)]
  have hrest : ∑ j ∈ Finset.univ.erase i, (Function.update gateway i g j).remaining
      = ∑ j ∈ Finset.univ.erase i, (gateway j).remaining := by
    apply Finset.sum_congr rfl
    intro j hj
    rw [Function.update_of_ne (Finset.ne_of_mem_erase hj)]
  rw [hrest, Function.update_self]
  abel

/-- The call at hand has its row. -/
def RowThere (s : KeyLedger) (g : Gateway) : Prop :=
  ∀ c, g.current = some c → (s.rows c.label).isSome ∧ c.refused = false

/-- What is inserted is the top-up of the call. -/
def OwnTopup (g : Gateway) : Prop := ∀ c t, g.next = .insertTopup c t → c.topup = some t

/-- What is inserted is none of these hashes. -/
def Unwritten (hashes : List String) (g : Gateway) : Prop :=
  ∀ h, g.inserted = some h → h ∉ hashes

/-- What was read is still what the row says. -/
def ReadRow (s : KeyLedger) (g : Gateway) : Prop :=
  ∀ c cur, g.next = .update c cur → cur = s.keyBilling c.label

omit [Fintype ι] in
/-- What holds of the changed gateway and of all others holds of each. -/
theorem forall_update {gateway : ι → Gateway} {i : ι} {g : Gateway} (Q : Gateway → Prop)
    (hself : Q g) (hother : ∀ j, j ≠ i → Q (gateway j)) (j : ι) :
    Q (Function.update gateway i g j) :=
  (Function.forall_update_iff gateway fun _ => Q).mpr ⟨hself, hother⟩ j

section Steps

variable {start s' : KeyLedger} {all : Multiset KeyCall} {w : Gateways ι}
  {done refused : List KeyCall} {i : ι} {g : Gateway}

/-- A statement that changes no row and inserts no hash. -/
theorem Serial.keep (h : Serial start all w done refused)
    (hrow : ∀ label, s'.row label = w.ledger.row label)
    (hsome : ∀ label, (w.ledger.rows label).isSome → (s'.rows label).isSome)
    (hhash : s'.hashes = w.ledger.hashes)
    (hinserted : g.inserted = (w.gateway i).inserted)
    (hcurrent : ∀ c, g.current = some c → (s'.rows c.label).isSome ∧ c.refused = false)
    (htopup : ∀ c t, g.next = .insertTopup c t → c.topup = some t)
    (hread : ∀ c cur, g.next = .update c cur → cur = s'.keyBilling c.label)
    {more : List KeyCall} (hcalls : g.remaining + ↑more = (w.gateway i).remaining)
    (hmore : ∀ c ∈ more, c.refused = true ∨ ∃ h, c.hash = some h ∧ h ∈ w.ledger.hashes) :
    Serial start all ⟨s', Function.update w.gateway i g⟩ done (refused ++ more) := by
  have hins : ∀ j, (Function.update w.gateway i g j).inserted = (w.gateway j).inserted := by
    intro j
    rcases eq_or_ne j i with rfl | hj
    · rw [Function.update_self, hinserted]
    · rw [Function.update_of_ne hj]
  constructor
  · intro label
    rw [hrow]
    exact h.rows label
  · intro hash
    simp only [hins, hhash]
    exact h.hashes hash
  · intro j hash
    simp only [hins]
    exact h.pending j hash
  · intro j k hash
    simp only [hins]
    exact h.apart j k hash
  · have hother : ∀ j, j ≠ i → RowThere s' (w.gateway j) := fun j _ c hj =>
      ⟨hsome _ (h.rowThere j c hj).1, (h.rowThere j c hj).2⟩
    exact forall_update (RowThere s') hcurrent hother
  · have hother : ∀ j, j ≠ i → OwnTopup (w.gateway j) := fun j _ => h.topup j
    exact forall_update OwnTopup htopup hother
  · have hother : ∀ j, j ≠ i → ReadRow s' (w.gateway j) := by
      intro j _ c cur hj
      rw [h.read j c cur hj]
      simp only [keyBilling, hrow]
    exact forall_update (ReadRow s') hread hother
  · intro c hc
    rw [hhash]
    rcases List.mem_append.mp hc with hc | hc
    · exact h.refusals c hc
    · exact hmore c hc
  · have hsum := sum_remaining_update w.gateway i g
    have hall := h.calls
    rw [← hcalls] at hsum
    have hsum' : ∑ j, (Function.update w.gateway i g j).remaining + ↑more
        = ∑ j, (w.gateway j).remaining := by
      apply add_right_cancel (b := g.remaining)
      rw [← hsum]
      abel
    rw [← hall, ← hsum', ← Multiset.coe_add, ← Multiset.coe_add, ← Multiset.coe_add]
    abel

/-- A top-up that is inserted. -/
theorem Serial.insert {c : KeyCall} {t : KeyTopup} (h : Serial start all w done refused)
    (hnext : (w.gateway i).next = .insertTopup c t) (hnew : t.txHash ∉ w.ledger.hashes)
    (hrows : s'.rows = w.ledger.rows) (htopups : s'.topups = w.ledger.topups ++ [t]) :
    Serial start all
      ⟨s', Function.update w.gateway i { w.gateway i with next := .select c }⟩ done refused := by
  have hhash : c.hash = some t.txHash := by
    rw [KeyCall.hash, h.topup i c t hnext]
    rfl
  have hhashes : ∀ hash, hash ∈ s'.hashes ↔ hash ∈ w.ledger.hashes ∨ hash = t.txHash := by
    intro hash
    simp [KeyLedger.hashes, htopups]
  have hrow : ∀ label, s'.row label = w.ledger.row label := fun label => by
    rw [KeyLedger.row, hrows, KeyLedger.row]
  have hself : ({ w.gateway i with next := .select c } : Gateway).inserted = some t.txHash := hhash
  have hnone : (w.gateway i).inserted = none := by
    rw [Gateway.inserted, hnext]
  have hcurrent : (w.gateway i).current = some c := by
    rw [Gateway.current, hnext]
  constructor
  · intro label
    rw [hrow]
    exact h.rows label
  · intro hash
    dsimp only
    rw [hhashes, h.hashes, or_assoc]
    apply or_congr_right
    constructor
    · intro hin
      rcases hin with hin | rfl
      · obtain ⟨j, hj⟩ := hin
        refine ⟨j, ?_⟩
        rw [Function.update_of_ne, hj]
        intro hji
        rw [hji, hnone] at hj
        cases hj
      · exact ⟨i, by rw [Function.update_self, hself]⟩
    · intro hin
      obtain ⟨j, hj⟩ := hin
      rcases eq_or_ne j i with rfl | hne
      · rw [Function.update_self, hself] at hj
        exact Or.inr (Option.some.inj hj).symm
      · rw [Function.update_of_ne hne] at hj
        exact Or.inl ⟨j, hj⟩
  · have hnewly : Unwritten (start.run (done.map (·.op))).hashes
        { w.gateway i with next := .select c } := by
      intro hash hj hin
      rw [hself] at hj
      cases hj
      exact hnew ((h.hashes _).mpr (Or.inl hin))
    exact forall_update (Unwritten _) hnewly fun j _ => h.pending j
  · have hother : ∀ j, j ≠ i → (w.gateway j).inserted ≠ some t.txHash := fun j _ hj =>
      hnew ((h.hashes _).mpr (Or.inr ⟨j, hj⟩))
    intro j k hash hj hk
    dsimp only at hj hk
    rcases eq_or_ne j i with rfl | hne <;> rcases eq_or_ne k j with rfl | hkne
    · rfl
    · rw [Function.update_self, hself] at hj
      rw [Function.update_of_ne hkne, ← hj] at hk
      exact absurd hk (hother k hkne)
    · rfl
    · rw [Function.update_of_ne hne] at hj
      rcases eq_or_ne k i with rfl | hki
      · rw [Function.update_self, hself] at hk
        rw [← hk] at hj
        exact absurd hj (hother j hne)
      · rw [Function.update_of_ne hki] at hk
        exact h.apart j k hash hj hk
  · have hthere : ∀ j, RowThere s' (w.gateway j) := by
      intro j c' hj
      rw [hrows]
      exact h.rowThere j c' hj
    exact forall_update (RowThere s') (fun c' hj => hthere i c' (hcurrent.trans hj))
      fun j _ => hthere j
  · have hself : OwnTopup { w.gateway i with next := .select c } := by
      intro c' t' hj
      cases hj
    exact forall_update OwnTopup hself fun j _ => h.topup j
  · have hself : ReadRow s' { w.gateway i with next := .select c } := by
      intro c' cur hj
      cases hj
    have hother : ∀ j, j ≠ i → ReadRow s' (w.gateway j) := by
      intro j _ c' cur hj
      rw [h.read j c' cur hj]
      simp only [keyBilling, hrow]
    exact forall_update (ReadRow s') hself hother
  · intro c' hc
    rcases h.refusals c' hc with hrefused | hold
    · exact Or.inl hrefused
    · obtain ⟨hash, hc', hin⟩ := hold
      exact Or.inr ⟨hash, hc', (hhashes hash).mpr (Or.inl hin)⟩
  · have hsame : ({ w.gateway i with next := .select c } : Gateway).remaining
        = (w.gateway i).remaining := by
      simp [Gateway.remaining, Gateway.current, hnext]
    have hsum := sum_remaining_update w.gateway i { w.gateway i with next := .select c }
    rw [hsame] at hsum
    rw [← h.calls]
    exact congrArg (· + _) (add_right_cancel hsum)

/-- A row that is written by the only gateway that has read it. -/
theorem Serial.write {c : KeyCall} {cur : KeyBilling} (h : Serial start all w done refused)
    (hnext : (w.gateway i).next = .update c cur) (hexclusive : w.Exclusive i) :
    Serial start all
      ⟨w.ledger.updateRow c.label (c.set cur),
        Function.update w.gateway i { w.gateway i with next := .answer c.label }⟩
      (done ++ [c]) refused := by
  have hcurrent : (w.gateway i).current = some c := by
    rw [Gateway.current, hnext]
  have hinserted : (w.gateway i).inserted = c.hash := by
    rw [Gateway.inserted, hnext]
  obtain ⟨hsome, hgo⟩ := h.rowThere i c hcurrent
  have hserial : start.run ((done ++ [c]).map (·.op))
      = (start.run (done.map (·.op))).apply c.op := by
    rw [List.map_append, KeyLedger.run, List.foldl_append]
    rfl
  have htaken := KeyCall.apply_taken hgo
    fun hash hc => h.pending i hash (hinserted.trans hc)
  have hbilling : (start.run (done.map (·.op))).keyBilling c.label = cur := by
    rw [h.read i c cur hnext]
    simp only [keyBilling, h.rows]
  have hhashes : ∀ hash, hash ∈ (start.run ((done ++ [c]).map (·.op))).hashes ↔
      hash ∈ (start.run (done.map (·.op))).hashes ∨ c.hash = some hash := by
    intro hash
    rw [hserial, KeyLedger.hashes, (htaken "").2, KeyCall.hash, KeyLedger.hashes]
    cases c.topup <;> simp [eq_comm]
  constructor
  · intro label
    rw [hserial, (htaken label).1, hbilling]
    dsimp only
    rw [updateRow_row hsome, h.rows, h.rows]
  · intro hash
    rw [hhashes, or_assoc]
    refine (h.hashes hash).trans (or_congr_right ?_)
    dsimp only
    constructor
    · intro hin
      obtain ⟨j, hj⟩ := hin
      rcases eq_or_ne j i with rfl | hne
      · exact Or.inl (hinserted.symm.trans hj)
      · exact Or.inr ⟨j, by rw [Function.update_of_ne hne, hj]⟩
    · intro hin
      rcases hin with hin | hin
      · exact ⟨i, hinserted.trans hin⟩
      · obtain ⟨j, hj⟩ := hin
        rcases eq_or_ne j i with rfl | hne
        · rw [Function.update_self] at hj
          cases hj
        · rw [Function.update_of_ne hne] at hj
          exact ⟨j, hj⟩
  · have hother : ∀ j, j ≠ i →
        Unwritten (start.run ((done ++ [c]).map (·.op))).hashes (w.gateway j) := by
      intro j hne hash hj
      rw [hhashes, not_or]
      refine ⟨h.pending j hash hj, fun hc => hne ?_⟩
      exact h.apart j i hash hj (hinserted.trans hc)
    have hself : Unwritten (start.run ((done ++ [c]).map (·.op))).hashes
        { w.gateway i with next := .answer c.label } := by
      intro hash hj
      cases hj
    exact forall_update (Unwritten _) hself hother
  · intro j k hash hj hk
    dsimp only at hj hk
    rcases eq_or_ne j i with rfl | hne
    · rw [Function.update_self] at hj
      cases hj
    · rcases eq_or_ne k i with rfl | hki
      · rw [Function.update_self] at hk
        cases hk
      · rw [Function.update_of_ne hne] at hj
        rw [Function.update_of_ne hki] at hk
        exact h.apart j k hash hj hk
  · have hself : RowThere (w.ledger.updateRow c.label (c.set cur))
        { w.gateway i with next := .answer c.label } := by
      intro c' hj
      cases hj
    exact forall_update (RowThere _) hself fun j _ c' hj =>
      ⟨updateRow_keeps (h.rowThere j c' hj).1, (h.rowThere j c' hj).2⟩
  · have hself : OwnTopup { w.gateway i with next := .answer c.label } := by
      intro c' t hj
      cases hj
    exact forall_update OwnTopup hself fun j _ => h.topup j
  · refine forall_update (ReadRow _) ?_ fun j hne c' cur' hj => ?_
    · intro c' cur' hj
      cases hj
    · have hlabel : c'.label ≠ c.label := by
        have hother := hexclusive j hne
        simp only [Gateway.writing, hnext, hj] at hother
        intro hsame
        exact hother (by simp) (congrArg some hsame)
      have hrow : (w.ledger.updateRow c.label (c.set cur)).row c'.label
          = w.ledger.row c'.label := by
        rw [updateRow_row hsome, if_neg hlabel]
      rw [h.read j c' cur' hj]
      simp only [keyBilling, hrow]
  · exact h.refusals
  · have hone : ({ w.gateway i with next := .answer c.label } : Gateway).remaining + {c}
        = (w.gateway i).remaining := by
      simp only [Gateway.remaining, Gateway.current, hnext]
      rw [add_comm]
      rfl
    have hsum := sum_remaining_update w.gateway i { w.gateway i with next := .answer c.label }
    have hall := h.calls
    rw [← hone] at hsum
    have hsum' : ∑ j, (Function.update w.gateway i
        { w.gateway i with next := .answer c.label } j).remaining + {c}
          = ∑ j, (w.gateway j).remaining := by
      apply add_right_cancel (b :=
        ({ w.gateway i with next := .answer c.label } : Gateway).remaining)
      rw [← hsum]
      abel
    rw [← hall, ← hsum', ← Multiset.coe_add, ← Multiset.coe_add, ← Multiset.coe_add,
      Multiset.coe_singleton]
    abel

/-- **A statement of an exclusive run.**  Whatever gateway executes its next statement,
the rows stay what some calls give one after the other. -/
theorem Serial.step (h : Serial start all w done refused) (hexclusive : w.Exclusive i) :
    ∃ done' refused', Serial start all (w.step i) done' refused' := by
  cases hnext : (w.gateway i).next with
  | idle =>
      cases hcalls : (w.gateway i).calls with
      | nil =>
          have hstep : w.step i = w := by
            simp only [Gateways.step, Gateway.step, hnext, hcalls]
            rw [Function.update_eq_self]
          rw [hstep]
          exact ⟨done, refused, h⟩
      | cons c rest =>
          cases hrefused : c.refused with
          | true =>
              have hstep : w.step i
                  = ⟨w.ledger, Function.update w.gateway i ⟨.idle, rest⟩⟩ := by
                simp [Gateways.step, Gateway.step, hnext, hcalls, hrefused]
              rw [hstep]
              refine ⟨done, refused ++ [c], h.keep (fun _ => rfl) (fun _ => id) rfl ?_ ?_ ?_ ?_
                ?_ ?_⟩
              · simp [Gateway.inserted, hnext]
              · intro c' hc'
                cases hc'
              · intro c' t hc'
                cases hc'
              · intro c' cur hc'
                cases hc'
              · simp only [Gateway.remaining, Gateway.current, hnext, hcalls]
                rw [add_comm]
                rfl
              · intro c' hc'
                rw [List.mem_singleton.mp hc']
                exact Or.inl hrefused
          | false =>
              cases htopup : c.topup with
              | none =>
                  have hstep : w.step i = ⟨w.ledger.ensureRow c.label,
                      Function.update w.gateway i ⟨.select c, rest⟩⟩ := by
                    simp [Gateways.step, Gateway.step, hnext, hcalls, hrefused, htopup]
                  rw [hstep]
                  refine ⟨done, refused ++ [], h.keep (fun _ => ensureRow_row)
                    (fun _ => ensureRow_keeps) (by simp [KeyLedger.hashes]) ?_ ?_ ?_ ?_ ?_ ?_⟩
                  · simp [Gateway.inserted, hnext, KeyCall.hash, htopup]
                  · intro c' hc'
                    cases hc'
                    exact ⟨ensureRow_isSome, hrefused⟩
                  · intro c' t hc'
                    cases hc'
                  · intro c' cur hc'
                    cases hc'
                  · simp [Gateway.remaining, Gateway.current, hnext, hcalls]
                  · intro c' hc'
                    cases hc'
              | some t =>
                  have hstep : w.step i = ⟨w.ledger.ensureRow c.label,
                      Function.update w.gateway i ⟨.insertTopup c t, rest⟩⟩ := by
                    simp [Gateways.step, Gateway.step, hnext, hcalls, hrefused, htopup]
                  rw [hstep]
                  refine ⟨done, refused ++ [], h.keep (fun _ => ensureRow_row)
                    (fun _ => ensureRow_keeps) (by simp [KeyLedger.hashes]) ?_ ?_ ?_ ?_ ?_ ?_⟩
                  · simp [Gateway.inserted, hnext]
                  · intro c' hc'
                    cases hc'
                    exact ⟨ensureRow_isSome, hrefused⟩
                  · intro c' t' hc'
                    cases hc'
                    exact htopup
                  · intro c' cur hc'
                    cases hc'
                  · simp [Gateway.remaining, Gateway.current, hnext, hcalls]
                  · intro c' hc'
                    cases hc'
  | insertTopup c t =>
      by_cases hold : t.txHash ∈ w.ledger.hashes
      · have hstep : w.step i = ⟨w.ledger,
            Function.update w.gateway i { w.gateway i with next := .idle }⟩ := by
          simp only [Gateways.step, Gateway.step, hnext, insertTopup_old hold]
        rw [hstep]
        refine ⟨done, refused ++ [c], h.keep (fun _ => rfl) (fun _ => id) rfl ?_ ?_ ?_ ?_ ?_ ?_⟩
        · simp [Gateway.inserted, hnext]
        · intro c' hc'
          cases hc'
        · intro c' t' hc'
          cases hc'
        · intro c' cur hc'
          cases hc'
        · simp only [Gateway.remaining, Gateway.current, hnext]
          rw [add_comm]
          rfl
        · intro c' hc'
          rw [List.mem_singleton.mp hc']
          refine Or.inr ⟨t.txHash, ?_, hold⟩
          rw [KeyCall.hash, h.topup i c t hnext]
          rfl
      · obtain ⟨s', hinsert, hrows, htopups, _⟩ := insertTopup_new hold
        have hstep : w.step i = ⟨s',
            Function.update w.gateway i { w.gateway i with next := .select c }⟩ := by
          simp only [Gateways.step, Gateway.step, hnext, hinsert]
        rw [hstep]
        exact ⟨done, refused, h.insert hnext hold hrows htopups⟩
  | select c =>
      have hcurrent : (w.gateway i).current = some c := by
        rw [Gateway.current, hnext]
      have hstep : w.step i = ⟨w.ledger, Function.update w.gateway i
          { w.gateway i with next := .update c (w.ledger.keyBilling c.label) }⟩ := by
        simp only [Gateways.step, Gateway.step, hnext]
      rw [hstep]
      refine ⟨done, refused ++ [], h.keep (fun _ => rfl) (fun _ => id) rfl ?_ ?_ ?_ ?_ ?_ ?_⟩
      · simp [Gateway.inserted, hnext]
      · intro c' hc'
        cases hc'
        exact h.rowThere i c hcurrent
      · intro c' t' hc'
        cases hc'
      · intro c' cur hc'
        cases hc'
        rfl
      · simp [Gateway.remaining, Gateway.current, hnext]
      · intro c' hc'
        cases hc'
  | update c cur =>
      have hstep : w.step i = ⟨w.ledger.updateRow c.label (c.set cur), Function.update w.gateway i
          { w.gateway i with next := .answer c.label }⟩ := by
        simp only [Gateways.step, Gateway.step, hnext]
      rw [hstep]
      exact ⟨done ++ [c], refused, h.write hnext hexclusive⟩
  | answer label =>
      have hstep : w.step i = ⟨w.ledger,
          Function.update w.gateway i { w.gateway i with next := .idle }⟩ := by
        simp only [Gateways.step, Gateway.step, hnext]
      rw [hstep]
      refine ⟨done, refused ++ [], h.keep (fun _ => rfl) (fun _ => id) rfl ?_ ?_ ?_ ?_ ?_ ?_⟩
      · simp [Gateway.inserted, hnext]
      · intro c' hc'
        cases hc'
      · intro c' t' hc'
        cases hc'
      · intro c' cur hc'
        cases hc'
      · simp [Gateway.remaining, Gateway.current, hnext]
      · intro c' hc'
        cases hc'

/-- An exclusive run. -/
theorem Serial.run {schedule : List ι} (h : Serial start all w done refused)
    (hexclusive : w.ExclusiveRun schedule) :
    ∃ done' refused', Serial start all (w.run schedule) done' refused' := by
  induction schedule generalizing w done refused with
  | nil => exact ⟨done, refused, h⟩
  | cons i rest ih =>
      obtain ⟨_, _, hstep⟩ := h.step hexclusive.1
      exact ih hstep hexclusive.2

/-- Refused calls at the end change nothing. -/
theorem run_refused {s : KeyLedger} {calls : List KeyCall}
    (h : ∀ c ∈ calls, c.refused = true ∨ ∃ h, c.hash = some h ∧ h ∈ s.hashes) (label : String) :
    (s.run (calls.map (·.op))).row label = s.row label := by
  induction calls generalizing s with
  | nil => rfl
  | cons c rest ih =>
      have hc := h c List.mem_cons_self
      have hsame := KeyCall.apply_refused hc
      have hhashes : (s.apply c.op).hashes = s.hashes := by
        rw [KeyLedger.hashes, (hsame "").2, KeyLedger.hashes]
      show ((s.apply c.op).run (rest.map (·.op))).row label = _
      rw [ih, (hsame label).1]
      intro c' hc'
      rw [hhashes]
      exact h c' (List.mem_cons_of_mem _ hc')

end Steps

omit [DecidableEq ι] in
/-- Gateways that have not begun. -/
theorem Serial.initial (s : KeyLedger) (calls : ι → List KeyCall) :
    Serial s (∑ i, ↑(calls i)) (start s calls) [] [] where
  rows _ := rfl
  hashes h := by simp [Gateways.start, Gateway.inserted, KeyLedger.run]
  pending i h hi := by cases hi
  apart i j h hi := by cases hi
  rowThere i c hi := by cases hi
  topup i c t hi := by cases hi
  read i c cur hi := by cases hi
  refusals c hc := by cases hc
  calls := by simp [Gateways.start, Gateway.remaining, Gateway.current]

end Gateways

/-- **No charge or credit is lost when rows are read and written without interference.**
Any number of gateways make any calls on one database, their statements taken in any
order in which no row is written between the reading and the writing of it by another
gateway.  When all have finished, every key's send count and amounts are what some order
of the same calls gives. -/
theorem gateways_serializable {ι : Type} [DecidableEq ι] [Fintype ι] (ledger : KeyLedger)
    (calls : ι → List KeyCall) (schedule : List ι)
    (exclusive : (Gateways.start ledger calls).ExclusiveRun schedule)
    (finished : ∀ i, (((Gateways.start ledger calls).run schedule).gateway i).Finished) :
    ∃ order : List KeyCall, (order : Multiset KeyCall) = ∑ i, (calls i : Multiset KeyCall) ∧
      ∀ label, ((Gateways.start ledger calls).run schedule).ledger.keyBilling label
        = (ledger.run (order.map (·.op))).keyBilling label := by
  obtain ⟨done, refused, h⟩ := (Gateways.Serial.initial ledger calls).run exclusive
  have hnone : ∀ i, (((Gateways.start ledger calls).run schedule).gateway i).inserted = none := by
    intro i
    rw [Gateway.inserted, (finished i).1]
  have hrefused : ∀ c ∈ refused, c.refused = true ∨
      ∃ hash, c.hash = some hash ∧ hash ∈ (ledger.run (done.map (·.op))).hashes := by
    intro c hc
    rcases h.refusals c hc with hrefused | hold
    · exact Or.inl hrefused
    · obtain ⟨hash, hhash, hin⟩ := hold
      rcases (h.hashes hash).mp hin with hin | hin
      · exact Or.inr ⟨hash, hhash, hin⟩
      · obtain ⟨i, hi⟩ := hin
        rw [hnone] at hi
        cases hi
  refine ⟨done ++ refused, ?_, ?_⟩
  · have hremaining : ∑ i, (((Gateways.start ledger calls).run schedule).gateway i).remaining
        = 0 := by
      apply Finset.sum_eq_zero
      intro i _
      simp [Gateway.remaining, Gateway.current, (finished i).1, (finished i).2]
    rw [← h.calls, hremaining, zero_add]
  · intro label
    have hrun : ledger.run ((done ++ refused).map (·.op))
        = (ledger.run (done.map (·.op))).run (refused.map (·.op)) := by
      rw [List.map_append, KeyLedger.run, List.foldl_append]
      rfl
    have hrow : (ledger.run ((done ++ refused).map (·.op))).row label
        = ((Gateways.start ledger calls).run schedule).ledger.row label := by
      rw [hrun, Gateways.run_refused hrefused, h.rows]
    simp only [keyBilling, hrow]

/-- Two gateways charge the same key 10, the second after the first. -/
theorem gateways_serializable_two :
    ∃ order : List KeyCall, (order : Multiset KeyCall)
        = ∑ _ : Fin 2, (([.charge "v4fun" 10 0] : List KeyCall) : Multiset KeyCall) ∧
      ∀ label, ((Gateways.start {} fun _ : Fin 2 => [.charge "v4fun" 10 0]).run
          [0, 1, 0, 0, 1, 0, 1, 1]).ledger.keyBilling label
        = (KeyLedger.run {} (order.map (·.op))).keyBilling label :=
  gateways_serializable {} (fun _ : Fin 2 => [.charge "v4fun" 10 0]) [0, 1, 0, 0, 1, 0, 1, 1]
    (by decide +kernel) (by decide +kernel)

/-- Two gateways charge the same key 10, and both read its row before either writes it:
two sends are counted and one is billed, which no order of the two charges gives. -/
theorem charge_is_lost :
    let w := (Gateways.start {} fun _ : Fin 2 => [.charge "v4fun" 10 0]).run
      [0, 1, 0, 1, 0, 1, 0, 1]
    (∀ i, (w.gateway i).Finished) ∧
      (w.ledger.keyBilling "v4fun").sends = 2 ∧
      (w.ledger.keyBilling "v4fun").billedUsdMicros = 10 ∧
      ∀ order : List KeyCall, (order : Multiset KeyCall)
          = ∑ _ : Fin 2, (([.charge "v4fun" 10 0] : List KeyCall) : Multiset KeyCall) →
        ((KeyLedger.run {} (order.map (·.op))).keyBilling "v4fun").billedUsdMicros = 20 := by
  refine ⟨by decide +kernel, by decide +kernel, by decide +kernel, ?_⟩
  intro order horder
  have hperm : order.Perm (List.replicate 2 (.charge "v4fun" 10 0)) := by
    rw [← Multiset.coe_eq_coe, horder]
    rfl
  rw [List.perm_replicate.mp hperm]
  decide +kernel

end Ordo
