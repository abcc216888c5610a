import Mathlib.Algebra.BigOperators.Group.List.Basic
import Mathlib.Algebra.GroupWithZero.Nat
import Mathlib.Algebra.Ring.Int.Defs
import Mathlib.Logic.Function.Basic
import Mathlib.Tactic.Common

/-!
# The ledger of API keys

Every keyed send is invoiced to the key's label, and top-ups seen on chain are
credited to it: first against what is owed, the rest as a prepaid balance.  An
amount is a whole number of micro-dollars, and the counters are exact.

The operations are written as the SQL statements they execute, in order, so that
they can be interleaved statement by statement.  Between a `SELECT` and the
`UPDATE` that follows, the numbers are in the process.
-/

namespace Ordo

/-- A row of `key_ledger`. -/
structure KeyRow where
  sends : Int := 0
  billedUsdMicros : Int := 0
  paidUsdMicros : Int := 0
  prepaidUsdMicros : Int := 0
  lastSendAt : Option Int := none
  deriving DecidableEq

/-- What `keyBilling` returns for a label. -/
structure KeyBilling where
  label : String
  sends : Int
  billedUsdMicros : Int
  paidUsdMicros : Int
  prepaidUsdMicros : Int
  owedUsdMicros : Int
  lastSendAt : Option Int
  deriving DecidableEq

/-- A row of `key_topups`; the hash is the primary key. -/
structure KeyTopup where
  txHash : String
  label : String
  usdMicros : Int
  wei : String
  createdAt : Int
  deriving DecidableEq

/-- The columns of `routed` that billing reads. -/
structure RoutedRow where
  keyLabel : String
  status : Option Int
  deriving DecidableEq

/-- Why `creditKey` throws. -/
inductive CreditError
  | anonymous
  | notPositive
  | notAHash
  /-- The primary key of `key_topups`. -/
  | alreadyApplied
  deriving DecidableEq

/-- The tables billing works on. -/
structure KeyLedger where
  rows : String → Option KeyRow := fun _ => none
  topups : List KeyTopup := []
  routed : List RoutedRow := []

namespace KeyLedger

/-! ### Statements -/

/-- `INSERT OR IGNORE INTO key_ledger (label) VALUES (?)` -/
def ensureRow (s : KeyLedger) (label : String) : KeyLedger :=
  match s.rows label with
  | some _ => s
  | none => { s with rows := Function.update s.rows label (some {}) }

/-- `INSERT INTO key_topups ...`, refused when the hash is there already. -/
def insertTopup (s : KeyLedger) (t : KeyTopup) : Option KeyLedger :=
  if t.txHash ∈ s.topups.map (·.txHash) then none
  else some { s with topups := s.topups ++ [t] }

/-- The row of a label, and zeros when there is none. -/
def row (s : KeyLedger) (label : String) : KeyRow := (s.rows label).getD {}

def keyBilling (s : KeyLedger) (label : String) : KeyBilling :=
  let row := s.row label
  { label
    sends := row.sends
    billedUsdMicros := row.billedUsdMicros
    paidUsdMicros := row.paidUsdMicros
    prepaidUsdMicros := row.prepaidUsdMicros
    owedUsdMicros := max 0 (row.billedUsdMicros - row.paidUsdMicros)
    lastSendAt := row.lastSendAt }

/-- `UPDATE key_ledger SET ... WHERE label = ?`, which does nothing without a row. -/
def updateRow (s : KeyLedger) (label : String) (set : KeyRow → KeyRow) : KeyLedger :=
  { s with rows := Function.update s.rows label ((s.rows label).map set) }

/-- The `UPDATE` of a charge.  It counts the send where the row is, and writes the
amounts worked out from what was read. -/
def chargeUpdate (cur : KeyBilling) (priceMicros now : Int) (row : KeyRow) : KeyRow :=
  let billed := cur.billedUsdMicros + priceMicros
  let apply := min cur.prepaidUsdMicros (billed - cur.paidUsdMicros)
  { sends := row.sends + 1
    billedUsdMicros := billed
    paidUsdMicros := cur.paidUsdMicros + apply
    prepaidUsdMicros := cur.prepaidUsdMicros - apply
    lastSendAt := some now }

/-- The `UPDATE` of a credit. -/
def creditUpdate (cur : KeyBilling) (usdMicros : Int) (row : KeyRow) : KeyRow :=
  let prepaid := cur.prepaidUsdMicros + usdMicros
  let apply := min prepaid (max 0 (cur.billedUsdMicros - cur.paidUsdMicros))
  { row with
    paidUsdMicros := cur.paidUsdMicros + apply
    prepaidUsdMicros := prepaid - apply }

/-! ### Operations -/

/-- `!label || label === "anon"` -/
def isAnon (label : String) : Bool := label = "" || label = "anon"

/-- True when a keyed send may go out. -/
def canChargeSend (s : KeyLedger) (label : String) (priceMicros : Int) (enforce : Bool) : Bool :=
  if !enforce || isAnon label then true
  else priceMicros ≤ (s.keyBilling label).prepaidUsdMicros

def chargeKeyedSend (s : KeyLedger) (label : String) (priceMicros now : Int) : KeyLedger :=
  if isAnon label || priceMicros ≤ 0 then s
  else
    let s := s.ensureRow label
    let cur := s.keyBilling label
    s.updateRow label (chargeUpdate cur priceMicros now)

/-- `/^0x[0-9a-f]{64}$/` -/
def isHash (hash : String) : Bool :=
  hash.startsWith "0x" && hash.length = 66 &&
    (hash.toList.drop 2).all fun c => c.isDigit || ('a' ≤ c && c ≤ 'f')

/-- The checks `creditKey` makes before its first statement. -/
def creditError (label : String) (usdMicros : Int) (txHash : String) : Option CreditError :=
  if isAnon label then some .anonymous
  else if usdMicros ≤ 0 then some .notPositive
  else if !isHash txHash.toLower then some .notAHash
  else none

/-- The ledger after `creditKey`, and the error it throws if it does. -/
def creditKey (s : KeyLedger) (label : String) (usdMicros : Int) (txHash wei : String)
    (now : Int) : KeyLedger × Option CreditError :=
  match creditError label usdMicros txHash with
  | some e => (s, some e)
  | none =>
      let s := s.ensureRow label
      match s.insertTopup ⟨txHash.toLower, label, usdMicros, wei, now⟩ with
      | none => (s, some .alreadyApplied)
      | some s =>
          let cur := s.keyBilling label
          (s.updateRow label (creditUpdate cur usdMicros), none)

/-- The labels with confirmed sends: `WHERE status = 1 AND key_label != 'anon' GROUP BY
key_label`. -/
def billedLabels (s : KeyLedger) : List String :=
  ((s.routed.filter fun r => r.status = some 1 && r.keyLabel ≠ "anon").map
    (·.keyLabel)).dedup

/-- `COUNT(*)` of the group of a label. -/
def confirmedSends (s : KeyLedger) (label : String) : Nat :=
  (s.routed.filter fun r => r.status = some 1 && r.keyLabel = label).length

/-- One round of the loop of `backfillBillingFromRouted`, and whether it touched the
row. -/
def backfillLabel (s : KeyLedger) (priceMicros : Int) (label : String) : KeyLedger × Bool :=
  let n := (s.confirmedSends label : Int)
  let s := s.ensureRow label
  let cur := s.keyBilling label
  let billed := max cur.billedUsdMicros (n * priceMicros)
  let sends := max cur.sends n
  if billed = cur.billedUsdMicros ∧ sends = cur.sends then (s, false)
  else
    (s.updateRow label fun row => { row with sends, billedUsdMicros := billed }, true)

/-- The loop over the grouped rows, with the number of rows touched. -/
def backfillLabels (priceMicros : Int) : List String → KeyLedger → KeyLedger × Nat
  | [], s => (s, 0)
  | label :: rest, s =>
      let (s, touched) := s.backfillLabel priceMicros label
      let (s, count) := backfillLabels priceMicros rest s
      (s, if touched then count + 1 else count)

def backfillBillingFromRouted (s : KeyLedger) (priceMicros : Int) : KeyLedger × Nat :=
  if priceMicros ≤ 0 then (s, 0) else backfillLabels priceMicros s.billedLabels s

end KeyLedger

/-! ### Runs -/

/-- What happens to the ledger.  `routedNow` is whatever the rest of the store does to
the table of routed transactions. -/
inductive LedgerOp
  | charge (label : String) (priceMicros now : Int)
  | credit (label : String) (usdMicros : Int) (txHash wei : String) (now : Int)
  | backfill (priceMicros : Int)
  | routedNow (routed : List RoutedRow)
  deriving DecidableEq

namespace KeyLedger

/-- The ledger after an operation. -/
def apply (s : KeyLedger) : LedgerOp → KeyLedger
  | .charge label price now => s.chargeKeyedSend label price now
  | .credit label usd txHash wei now => (s.creditKey label usd txHash wei now).1
  | .backfill price => (s.backfillBillingFromRouted price).1
  | .routedNow routed => { s with routed }

/-- The ledger after operations in order. -/
def run (s : KeyLedger) (ops : List LedgerOp) : KeyLedger := ops.foldl apply s

/-- The top-ups credited to a label. -/
def credited (s : KeyLedger) (label : String) : Int :=
  ((s.topups.filter (·.label = label)).map (·.usdMicros)).sum

/-- No key with a prepaid balance has its invoice raised by the operation: where a
backfill finds more confirmed sends than are invoiced, nothing is prepaid. -/
def RaisesNoPrepaid (s : KeyLedger) : LedgerOp → Prop
  | .backfill price => 0 < price → ∀ label ∈ s.billedLabels,
      (s.row label).billedUsdMicros < s.confirmedSends label * price →
        (s.row label).prepaidUsdMicros ≤ 0
  | _ => True

/-! ### What the statements do to a row -/

section Rows

variable {s : KeyLedger} {label other : String}

@[simp] theorem ensureRow_row : (s.ensureRow label).row other = s.row other := by
  unfold ensureRow
  split
  · rfl
  · rename_i hnone
    rcases eq_or_ne other label with rfl | hne
    · simp [row, hnone]
    · simp [row, hne]

@[simp] theorem ensureRow_topups : (s.ensureRow label).topups = s.topups := by
  unfold ensureRow
  split <;> rfl

@[simp] theorem ensureRow_routed : (s.ensureRow label).routed = s.routed := by
  unfold ensureRow
  split <;> rfl

theorem ensureRow_isSome : ((s.ensureRow label).rows label).isSome := by
  unfold ensureRow
  split
  · rename_i hsome
    simp [hsome]
  · simp

theorem ensureRow_keeps (h : (s.rows other).isSome) :
    ((s.ensureRow label).rows other).isSome := by
  unfold ensureRow
  split
  · exact h
  · rcases eq_or_ne other label with rfl | hne
    · simp
    · simpa [hne] using h

/-- An update of a row that is there. -/
theorem updateRow_row {set : KeyRow → KeyRow} (h : (s.rows label).isSome) :
    (s.updateRow label set).row other
      = if other = label then set (s.row label) else s.row other := by
  obtain ⟨r, hr⟩ := Option.isSome_iff_exists.mp h
  rcases eq_or_ne other label with rfl | hne
  · simp [updateRow, row, hr]
  · simp [updateRow, row, hne]

@[simp] theorem updateRow_topups {set : KeyRow → KeyRow} :
    (s.updateRow label set).topups = s.topups := rfl

theorem updateRow_keeps {set : KeyRow → KeyRow} (h : (s.rows other).isSome) :
    ((s.updateRow label set).rows other).isSome := by
  rcases eq_or_ne other label with rfl | hne
  · simpa [updateRow] using h
  · simpa [updateRow, hne] using h

/-- A top-up with a new hash is added and no row changes. -/
theorem insertTopup_new {t : KeyTopup} (hnew : t.txHash ∉ s.topups.map (·.txHash)) :
    ∃ s', s.insertTopup t = some s' ∧ s'.rows = s.rows ∧ s'.topups = s.topups ++ [t] ∧
      s'.routed = s.routed :=
  ⟨_, if_neg hnew, rfl, rfl, rfl⟩

theorem insertTopup_old {t : KeyTopup} (hold : t.txHash ∈ s.topups.map (·.txHash)) :
    s.insertTopup t = none := if_pos hold

end Rows

/-! ### What the operations do to a row -/

section Effects

variable {s : KeyLedger} {label other : String}

/-- A charge that is made. -/
theorem chargeKeyedSend_row {priceMicros : Int} (now : Int) (hlabel : ¬isAnon label)
    (hprice : 0 < priceMicros) (other : String) :
    (s.chargeKeyedSend label priceMicros now).row other
      = if other = label then chargeUpdate (s.keyBilling label) priceMicros now (s.row label)
        else s.row other := by
  have hgo : ¬(isAnon label || decide (priceMicros ≤ 0)) := by
    simp only [Bool.or_eq_true, decide_eq_true_eq, not_or]
    exact ⟨hlabel, by omega⟩
  have hsame : (s.ensureRow label).keyBilling label = s.keyBilling label := by
    simp [keyBilling]
  unfold chargeKeyedSend
  rw [if_neg hgo]
  dsimp only
  rw [updateRow_row ensureRow_isSome, hsame, ensureRow_row, ensureRow_row]

/-- A credit that is taken. -/
theorem creditKey_taken {usdMicros : Int} {txHash : String} (wei : String) (now : Int)
    (hcheck : creditError label usdMicros txHash = none)
    (hnew : txHash.toLower ∉ s.topups.map (·.txHash)) (other : String) :
    (s.creditKey label usdMicros txHash wei now).1.row other
      = (if other = label then creditUpdate (s.keyBilling label) usdMicros (s.row label)
        else s.row other) ∧
    (s.creditKey label usdMicros txHash wei now).1.topups
      = s.topups ++ [⟨txHash.toLower, label, usdMicros, wei, now⟩] := by
  have hnew' : txHash.toLower ∉ (s.ensureRow label).topups.map (·.txHash) := by
    simpa using hnew
  obtain ⟨s', hinsert, hrows, htopups, _⟩ := insertTopup_new
    (t := ⟨txHash.toLower, label, usdMicros, wei, now⟩) hnew'
  have hrow : ∀ l, s'.row l = s.row l := by
    intro l
    rw [row, hrows]
    exact ensureRow_row
  have hsome : (s'.rows label).isSome := by
    rw [hrows]
    exact ensureRow_isSome
  unfold creditKey
  rw [hcheck]
  dsimp only
  rw [hinsert]
  refine ⟨?_, htopups.trans (by rw [ensureRow_topups])⟩
  dsimp only
  rw [updateRow_row hsome, hrow, hrow]
  simp only [keyBilling, hrow]

/-- A credit that is refused, for its arguments or its hash, changes no row and no
top-up. -/
theorem creditKey_refused {usdMicros : Int} {txHash : String} (wei : String) (now : Int)
    (h : creditError label usdMicros txHash ≠ none ∨
      txHash.toLower ∈ s.topups.map (·.txHash)) (other : String) :
    (s.creditKey label usdMicros txHash wei now).1.row other = s.row other ∧
      (s.creditKey label usdMicros txHash wei now).1.topups = s.topups := by
  unfold creditKey
  cases hcheck : creditError label usdMicros txHash with
  | some e => exact ⟨rfl, rfl⟩
  | none =>
      have hold : txHash.toLower ∈ (s.ensureRow label).topups.map (·.txHash) := by
        simpa [hcheck] using h
      dsimp only
      rw [insertTopup_old hold]
      exact ⟨ensureRow_row, ensureRow_topups⟩

/-- A row raised to its confirmed sends. -/
def raised (s : KeyLedger) (priceMicros : Int) (label : String) : KeyRow :=
  { s.row label with
    sends := max (s.row label).sends (s.confirmedSends label)
    billedUsdMicros := max (s.row label).billedUsdMicros (s.confirmedSends label * priceMicros) }

/-- A label's turn in a backfill. -/
theorem backfillLabel_row {priceMicros : Int} :
    (s.backfillLabel priceMicros label).1.row other
      = if other = label then s.raised priceMicros label else s.row other := by
  unfold backfillLabel raised
  simp only [keyBilling, ensureRow_row]
  split
  · rename_i hsame
    rcases eq_or_ne other label with rfl | hne
    · simp [hsame.1, hsame.2]
    · simp [hne]
  · show (updateRow _ label _).row other = _
    rw [updateRow_row ensureRow_isSome, ensureRow_row, ensureRow_row]

theorem backfillLabel_tables (s : KeyLedger) (label : String) (priceMicros : Int) :
    (s.backfillLabel priceMicros label).1.topups = s.topups ∧
      (s.backfillLabel priceMicros label).1.routed = s.routed := by
  unfold backfillLabel
  dsimp only
  split
  · exact ⟨ensureRow_topups, ensureRow_routed⟩
  · exact ⟨ensureRow_topups, ensureRow_routed⟩

/-- A backfill raises the rows of its labels and leaves the others. -/
theorem backfillLabels_row {priceMicros : Int} {labels : List String} :
    (backfillLabels priceMicros labels s).1.row other
      = if other ∈ labels then s.raised priceMicros other else s.row other := by
  induction labels generalizing s with
  | nil => rfl
  | cons label rest ih =>
      have htables := backfillLabel_tables s label priceMicros
      have hcount : ∀ l, (s.backfillLabel priceMicros label).1.confirmedSends l
          = s.confirmedSends l := fun l => by rw [confirmedSends, htables.2, confirmedSends]
      show (backfillLabels priceMicros rest (s.backfillLabel priceMicros label).1).1.row other = _
      rw [ih]
      unfold raised
      rw [backfillLabel_row, hcount]
      rcases eq_or_ne other label with rfl | hne
      · simp [raised]
      · simp [hne]

theorem backfillLabels_topups {priceMicros : Int} {labels : List String} :
    (backfillLabels priceMicros labels s).1.topups = s.topups := by
  induction labels generalizing s with
  | nil => rfl
  | cons label rest ih =>
      show (backfillLabels priceMicros rest (s.backfillLabel priceMicros label).1).1.topups = _
      rw [ih]
      exact (backfillLabel_tables s label priceMicros).1

/-- A backfill, whole: the labels with confirmed sends are raised. -/
theorem backfill_row (s : KeyLedger) (priceMicros : Int) (other : String) :
    (s.backfillBillingFromRouted priceMicros).1.row other
      = if 0 < priceMicros ∧ other ∈ s.billedLabels then s.raised priceMicros other
        else s.row other := by
  unfold backfillBillingFromRouted
  split
  · rw [if_neg (by omega)]
  · rw [backfillLabels_row]
    have hpos : 0 < priceMicros := by omega
    simp [hpos]

theorem backfill_topups {priceMicros : Int} :
    (s.backfillBillingFromRouted priceMicros).1.topups = s.topups := by
  unfold backfillBillingFromRouted
  split
  · rfl
  · exact backfillLabels_topups

end Effects

/-! ### Every key's account -/

/-- A key's account adds up: what was topped up has been paid or is prepaid, and no
more than the invoice has been paid. -/
structure AddsUp (s : KeyLedger) (label : String) : Prop where
  balance : (s.row label).paidUsdMicros + (s.row label).prepaidUsdMicros = s.credited label
  paid_le : (s.row label).paidUsdMicros ≤ (s.row label).billedUsdMicros
  prepaid_nonneg : 0 ≤ (s.row label).prepaidUsdMicros

/-- A key with a prepaid balance owes nothing. -/
def OwesNothing (s : KeyLedger) (label : String) : Prop :=
  0 < (s.row label).prepaidUsdMicros →
    (s.row label).billedUsdMicros = (s.row label).paidUsdMicros

section Accounts

variable {s : KeyLedger} {label : String}

theorem credited_append {t : KeyTopup} {s' : KeyLedger} (h : s'.topups = s.topups ++ [t])
    (label : String) :
    s'.credited label = s.credited label + if t.label = label then t.usdMicros else 0 := by
  rw [credited, credited, h, List.filter_append, List.map_append, List.sum_append]
  by_cases hlabel : t.label = label <;> simp [hlabel]

/-- A charge pays from the prepaid balance what it can. -/
theorem AddsUp.charge {other : String} {price now : Int} (h : s.AddsUp label) :
    (s.chargeKeyedSend other price now).AddsUp label ∧
      (s.OwesNothing label → (s.chargeKeyedSend other price now).OwesNothing label) := by
  by_cases hgo : isAnon other ∨ price ≤ 0
  · have hskip : s.chargeKeyedSend other price now = s := by
      unfold chargeKeyedSend
      rw [if_pos (by simpa using hgo)]
    rw [hskip]
    exact ⟨h, id⟩
  · obtain ⟨hanon, hprice⟩ := not_or.mp hgo
    have hrow := chargeKeyedSend_row (s := s) now hanon (Int.not_le.mp hprice) label
    have htopups : (s.chargeKeyedSend other price now).topups = s.topups := by
      unfold chargeKeyedSend
      split
      · rfl
      · exact ensureRow_topups
    have hcredited : (s.chargeKeyedSend other price now).credited label = s.credited label := by
      rw [credited, htopups, credited]
    obtain ⟨hbalance, hpaid, hprepaid⟩ := h
    rcases eq_or_ne label other with rfl | hne
    · rw [if_pos rfl] at hrow
      simp only [chargeUpdate, keyBilling] at hrow
      constructor
      · constructor <;> simp only [hrow, hcredited] <;> omega
      · unfold OwesNothing
        simp only [hrow]
        omega
    · rw [if_neg hne] at hrow
      constructor
      · constructor <;> simp only [hrow, hcredited] <;> omega
      · unfold OwesNothing
        simp only [hrow]
        exact id

/-- A credit pays what is owed first. -/
theorem AddsUp.credit {other txHash wei : String} {usd now : Int} (h : s.AddsUp label) :
    (s.creditKey other usd txHash wei now).1.AddsUp label ∧
      (s.OwesNothing label → (s.creditKey other usd txHash wei now).1.OwesNothing label) := by
  by_cases hrefused : creditError other usd txHash ≠ none ∨
      txHash.toLower ∈ s.topups.map (·.txHash)
  · have hsame := creditKey_refused wei now hrefused
    obtain ⟨hbalance, hpaid, hprepaid⟩ := h
    have hcredited : (s.creditKey other usd txHash wei now).1.credited label
        = s.credited label := by
      rw [credited, (hsame label).2, credited]
    constructor
    · constructor <;> simp only [(hsame label).1, hcredited] <;> assumption
    · unfold OwesNothing
      rw [(hsame label).1]
      exact id
  · obtain ⟨hcheck, hnew⟩ := not_or.mp hrefused
    obtain ⟨hrow, htopups⟩ := creditKey_taken wei now (not_not.mp hcheck) hnew label
    have hcredited := credited_append htopups label
    dsimp only at hcredited
    have husd : 0 < usd := by
      by_contra hneg
      unfold creditError at hcheck
      grind
    obtain ⟨hbalance, hpaid, hprepaid⟩ := h
    rcases eq_or_ne label other with rfl | hne
    · rw [if_pos rfl] at hrow hcredited
      simp only [creditUpdate, keyBilling] at hrow
      constructor
      · constructor <;> simp only [hrow, hcredited] <;> omega
      · unfold OwesNothing
        simp only [hrow]
        omega
    · rw [if_neg hne] at hrow
      rw [if_neg hne.symm] at hcredited
      constructor
      · constructor <;> simp only [hrow, hcredited] <;> omega
      · unfold OwesNothing
        simp only [hrow]
        exact id

/-- A backfill raises the invoice and pays nothing: the account still adds up. -/
theorem AddsUp.backfill {price : Int} (h : s.AddsUp label) :
    (s.backfillBillingFromRouted price).1.AddsUp label := by
  have hrow := backfill_row s price label
  have hcredited : (s.backfillBillingFromRouted price).1.credited label = s.credited label := by
    rw [credited, backfill_topups, credited]
  obtain ⟨hbalance, hpaid, hprepaid⟩ := h
  split at hrow
  · constructor <;> simp only [hrow, hcredited, raised] <;> omega
  · constructor <;> simp only [hrow, hcredited] <;> assumption

/-- **A backfill keeps prepaid keys out of debt exactly when it raises no prepaid
key's invoice.** -/
theorem owesNothing_backfill {price : Int} (h : ∀ label, s.AddsUp label)
    (hsettled : ∀ label, s.OwesNothing label) :
    (∀ label, (s.backfillBillingFromRouted price).1.OwesNothing label) ↔
      s.RaisesNoPrepaid (.backfill price) := by
  constructor
  · intro hafter hprice label hlabel hmore
    have hrow := backfill_row s price label
    rw [if_pos ⟨hprice, hlabel⟩] at hrow
    have hown := hafter label
    have hpaid := (h label).paid_le
    unfold OwesNothing at hown
    simp only [hrow, raised] at hown
    omega
  · intro hraises label
    have hrow := backfill_row s price label
    have hown := hsettled label
    unfold OwesNothing at hown ⊢
    split at hrow
    · rename_i hin
      have hlabel := hraises hin.1 label hin.2
      simp only [hrow, raised]
      omega
    · simpa only [hrow] using hown

theorem AddsUp.apply {op : LedgerOp} (h : s.AddsUp label) : (s.apply op).AddsUp label := by
  cases op with
  | charge other price now => exact h.charge.1
  | credit other usd txHash wei now => exact h.credit.1
  | backfill price => exact h.backfill
  | routedNow routed => exact ⟨h.balance, h.paid_le, h.prepaid_nonneg⟩

/-- One operation keeps prepaid keys out of debt exactly when it is not a backfill that
raises a prepaid key's invoice. -/
theorem owesNothing_apply {op : LedgerOp} (h : ∀ label, s.AddsUp label)
    (hsettled : ∀ label, s.OwesNothing label) :
    (∀ label, (s.apply op).OwesNothing label) ↔ s.RaisesNoPrepaid op := by
  cases op with
  | charge other price now =>
      exact ⟨fun _ => trivial, fun _ label => (h label).charge.2 (hsettled label)⟩
  | credit other usd txHash wei now =>
      exact ⟨fun _ => trivial, fun _ label => (h label).credit.2 (hsettled label)⟩
  | backfill price => exact owesNothing_backfill h hsettled
  | routedNow routed => exact ⟨fun _ => trivial, fun _ label => hsettled label⟩

end Accounts

/-- No operation of a run raises a prepaid key's invoice. -/
def RunRaisesNoPrepaid (s : KeyLedger) : List LedgerOp → Prop
  | [] => True
  | op :: rest => s.RaisesNoPrepaid op ∧ (s.apply op).RunRaisesNoPrepaid rest

/-- The states of a run, the first included. -/
def states (s : KeyLedger) : List LedgerOp → List KeyLedger
  | [] => [s]
  | op :: rest => s :: (s.apply op).states rest

theorem addsUp_states {s t : KeyLedger} {ops : List LedgerOp} {label : String}
    (h : s.AddsUp label) (ht : t ∈ s.states ops) : t.AddsUp label := by
  induction ops generalizing s with
  | nil =>
      cases List.mem_singleton.mp ht
      exact h
  | cons op rest ih =>
      rcases List.mem_cons.mp ht with rfl | ht
      · exact h
      · exact ih h.apply ht

theorem mem_states_self {s : KeyLedger} {ops : List LedgerOp} : s ∈ s.states ops := by
  cases ops <;> simp [states]

theorem owesNothing_states {s : KeyLedger} {ops : List LedgerOp}
    (h : ∀ label, s.AddsUp label) (hsettled : ∀ label, s.OwesNothing label) :
    (∀ t ∈ s.states ops, ∀ label, t.OwesNothing label) ↔ s.RunRaisesNoPrepaid ops := by
  induction ops generalizing s with
  | nil => simp [states, RunRaisesNoPrepaid, hsettled]
  | cons op rest ih =>
      have hafter : ∀ label, (s.apply op).AddsUp label := fun label => (h label).apply
      constructor
      · intro hall
        have hrest : ∀ t ∈ (s.apply op).states rest, ∀ label, t.OwesNothing label :=
          fun t ht => hall t (List.mem_cons_of_mem _ ht)
        have hnext := hrest _ mem_states_self
        exact ⟨(owesNothing_apply h hsettled).mp hnext, (ih hafter hnext).mp hrest⟩
      · intro hraises t ht
        have hnext := (owesNothing_apply h hsettled).mpr hraises.1
        rcases List.mem_cons.mp ht with rfl | ht
        · exact hsettled
        · exact (ih hafter hnext).mpr hraises.2 t ht

end KeyLedger

/-- **The ledger adds up, and who has prepaid owes nothing unless a backfill says so.**
In every state of every run from an empty ledger, what a key has paid and prepaid is
what was credited to it, and it has paid no more than its invoice.  That every key with
a prepaid balance owes nothing, in every state, holds exactly for the runs in which no
backfill raises the invoice of a key with a prepaid balance. -/
theorem key_ledger_runs (ops : List LedgerOp) :
    (∀ s ∈ KeyLedger.states {} ops, ∀ label,
      (s.row label).paidUsdMicros + (s.row label).prepaidUsdMicros = s.credited label ∧
      (s.row label).paidUsdMicros ≤ (s.row label).billedUsdMicros) ∧
    ((∀ s ∈ KeyLedger.states {} ops, ∀ label, 0 < (s.row label).prepaidUsdMicros →
        (s.row label).billedUsdMicros = (s.row label).paidUsdMicros) ↔
      KeyLedger.RunRaisesNoPrepaid {} ops) := by
  have hempty : ∀ label, KeyLedger.AddsUp {} label := 
    fun label => ⟨rfl, Int.le_refl 0, Int.le_refl 0⟩
  have hsettled : ∀ label, KeyLedger.OwesNothing {} label := fun label h => by cases h
  constructor
  · intro s hs label
    have h := KeyLedger.addsUp_states (hempty label) hs
    exact ⟨h.balance, h.paid_le⟩
  · exact KeyLedger.owesNothing_states hempty hsettled

/-- A top-up of 100 for a key, a confirmed send of it, and a backfill at 10 a send. -/
def prepaidOps : List LedgerOp :=
  [.credit "v4fun" 100 "0xabababababababababababababababababababababababababababababababab" "1" 0,
    .routedNow [⟨"v4fun", some 1⟩], .backfill 10]

/-- After them 100 are prepaid, and 10 are owed all the same. -/
theorem prepaid_key_owes : ∃ s ∈ KeyLedger.states {} prepaidOps,
    (s.row "v4fun").prepaidUsdMicros = 100 ∧ (s.row "v4fun").billedUsdMicros = 10 ∧
      (s.row "v4fun").paidUsdMicros = 0 := by
  have hlast : ((KeyLedger.states {} prepaidOps)[3]?.map fun s => s.row "v4fun")
      = some ⟨1, 10, 0, 100, none⟩ := by
    decide +kernel
  obtain ⟨s, hs, hrow⟩ := Option.map_eq_some_iff.mp hlast
  refine ⟨s, List.mem_of_getElem? hs, ?_⟩
  rw [hrow]
  exact ⟨rfl, rfl, rfl⟩

end Ordo
