import Mathlib.Algebra.Order.BigOperators.Group.List
import Ordo.DecimalText

/-!
# What was settled, in total

The index keeps a row for each settlement, with its charge in wei as decimal text.  The
totals are summed by the database: the text is cast to an integer of 64 bits, integers are
added until they overflow, and what is read as a number must be a safe one.

`totals_exact_iff` says when the total over the settlements on chain, and what is reported to
an app as its earnings, are the sums of the charges.
-/

namespace Ordo

namespace SettlementTotals

open DecimalText

/-! ### The database's integers -/

def minInteger : Int := -2 ^ 63

def maxInteger : Int := 2 ^ 63 - 1

def MAX_SAFE_INTEGER : Int := 2 ^ 53 - 1

/-- What a statement that is not answered stops with. -/
inductive Thrown where
  | integerOverflow
  | outOfRange
  deriving DecidableEq

def isSpace (c : Char) : Bool := c = ' ' || (9 ≤ c.toNat && c.toNat ≤ 13)

/-- The number that a text begins with. -/
def leading (ds : Text) : Nat := Nat.ofDigitChars 10 (ds.takeWhile Char.isDigit) 0

/-- `CAST(text AS INTEGER)`: a number that does not fit is the nearest that does. -/
def castInteger (text : Text) : Int :=
  match text.dropWhile isSpace with
  | '-' :: ds => max minInteger (-leading ds)
  | '+' :: ds => min maxInteger (leading ds)
  | ds => min maxInteger (leading ds)

def add (s x : Int) : Except Thrown Int :=
  if minInteger ≤ s + x ∧ s + x ≤ maxInteger then .ok (s + x) else .error .integerOverflow

/-- `COALESCE(SUM(x), 0)` -/
def sum (xs : List Int) : Except Thrown Int := xs.foldlM add 0

/-- An integer that is read as a number. -/
def number (n : Int) : Except Thrown Int :=
  if -MAX_SAFE_INTEGER ≤ n ∧ n ≤ MAX_SAFE_INTEGER then .ok n else .error .outOfRange

/-! ### The index -/

structure SettlementRow where
  opportunityId : String
  chargeWei : Text
  appAddress : String
  txHash : Option String
  deriving DecidableEq

/-- `INSERT OR REPLACE` -/
def insertSettlement (rows : List SettlementRow) (row : SettlementRow) : List SettlementRow :=
  rows.filter (·.opportunityId ≠ row.opportunityId) ++ [row]

/-- The count and the sum of some rows, as they are read. -/
def countAndSum (rows : List SettlementRow) : Except Thrown (Int × Int) := do
  let s ← sum (rows.map fun r => castInteger r.chargeWei)
  let c ← number rows.length
  return (c, ← number s)

structure Totals where
  settlements : Int
  totalChargeWei : Int
  deriving DecidableEq

def settlementTotals (rows : List SettlementRow) : Except Thrown Totals :=
  (countAndSum (rows.filter (·.txHash.isSome))).map fun (c, s) => ⟨c, s⟩

structure Earnings where
  settlements : Int
  totalChargedWei : Text
  deriving DecidableEq

def lower (s : String) : List Char := s.toList.map Char.toLower

def appEarnings (rows : List SettlementRow) (appAddress : String) : Except Thrown Earnings :=
  (countAndSum (rows.filter (·.appAddress.toList = lower appAddress))).map fun (n, s) =>
    ⟨n, decimal s⟩

/-- A settlement that is recorded. -/
structure Charge where
  opportunityId : String
  wei : Nat
  appAddress : String
  txHash : Option String

def Charge.row (c : Charge) : SettlementRow :=
  ⟨c.opportunityId, decimal c.wei, c.appAddress, c.txHash⟩

/-- The index when the settlements have been recorded, one after the other. -/
def recorded (charges : List Charge) : List SettlementRow :=
  (charges.map Charge.row).foldl insertSettlement []

/-- The settlements on record: the last one of each opportunity. -/
def onRecord (charges : List Charge) : List Charge :=
  charges.foldl (fun cs c => cs.filter (·.opportunityId ≠ c.opportunityId) ++ [c]) []

/-- What settlements charge together. -/
def charged (cs : List Charge) : Nat := (cs.map Charge.wei).sum

/-- Those of an app, however its address is written. -/
def ofApp (cs : List Charge) (app : String) : List Charge :=
  cs.filter fun c => lower c.appAddress = lower app

/-- Those whose address is written as the query looks for it. -/
def found (cs : List Charge) (app : String) : List Charge :=
  cs.filter (·.appAddress.toList = lower app)

/-! ### Sums -/

section Sums

variable {xs : List Int} {cs : List Charge}

theorem castInteger_decimal (n : Nat) : castInteger (decimal n) = min maxInteger n := by
  have hdigits : ∀ c ∈ Nat.toDigits 10 n, c.isDigit = true := fun c hc =>
    Nat.isDigit_of_mem_toDigits (by decide) (by decide) hc
  have hdecimal : decimal n = Nat.toDigits 10 n := if_neg (by omega)
  obtain ⟨c, ds, htext⟩ := List.exists_cons_of_ne_nil (Nat.toDigits_ne_nil (n := n) (b := 10))
  have hfirst : c.isDigit = true := hdigits c (by rw [htext]; exact List.mem_cons_self)
  have hspace : ¬ isSpace c = true := by
    obtain ⟨hlow, -⟩ := code_of_isDigit hfirst
    have hne : c ≠ ' ' := by
      rintro rfl
      exact absurd hfirst (by decide)
    simp [isSpace, hne]
    omega
  have hvalue : leading (Nat.toDigits 10 n) = n := by
    rw [leading, List.takeWhile_eq_self_iff.mpr hdigits, Nat.ofDigitChars_ten_toDigits]
  unfold castInteger
  rw [hdecimal, htext, List.dropWhile_cons_of_neg hspace]
  split
  next h =>
    cases h
    exact absurd hfirst (by decide)
  next h =>
    cases h
    exact absurd hfirst (by decide)
  next => rw [← htext, hvalue]

/-- What is summed without overflow is the sum. -/
theorem foldlM_add {s t : Int} (h : xs.foldlM add s = .ok t) : t = s + xs.sum := by
  induction xs generalizing s with
  | nil =>
      cases h
      exact (Int.add_zero t).symm
  | cons x xs ih =>
      rw [List.foldlM_cons, add] at h
      split at h
      · rw [ih h, List.sum_cons, Int.add_assoc]
      · cases h

theorem foldlM_add_of_le {s : Int} (hs : 0 ≤ s) (hxs : ∀ x ∈ xs, 0 ≤ x)
    (hle : s + xs.sum ≤ maxInteger) : xs.foldlM add s = .ok (s + xs.sum) := by
  induction xs generalizing s with
  | nil => exact congrArg Except.ok (Int.add_zero s).symm
  | cons x xs ih =>
      have hx := hxs x List.mem_cons_self
      have hrest : 0 ≤ xs.sum := List.sum_nonneg fun y hy => hxs y (List.mem_cons_of_mem _ hy)
      rw [List.sum_cons] at hle ⊢
      have hfits : minInteger ≤ s + x ∧ s + x ≤ maxInteger := by
        unfold minInteger
        omega
      rw [List.foldlM_cons, add, if_pos hfits, ← Int.add_assoc]
      exact ih (by omega) (fun y hy => hxs y (List.mem_cons_of_mem _ hy)) (by omega)

/-- Numbers that are cut off at a bound that their sum does not reach were not cut off. -/
theorem sum_min {M : Int} (hM : 0 ≤ M) (ws : List Nat)
    (h : (ws.map fun w : Nat => min M w).sum < M) :
    (ws.map fun w : Nat => min M w).sum = (ws.sum : Nat) := by
  induction ws with
  | nil => rfl
  | cons w ws ih =>
      have hrest : 0 ≤ (ws.map fun w : Nat => min M w).sum := by
        refine List.sum_nonneg fun x hx => ?_
        obtain ⟨w, -, rfl⟩ := List.mem_map.mp hx
        omega
      rw [List.map_cons, List.sum_cons] at h ⊢
      rw [ih (by omega), List.sum_cons]
      omega

theorem bind_eq_ok {α β : Type} {x : Except Thrown α} {f : α → Except Thrown β} {b : β} :
    x >>= f = .ok b ↔ ∃ a, x = .ok a ∧ f a = .ok b := by
  cases x with
  | error e =>
      constructor
      · intro h
        cases h
      · rintro ⟨a, ha, -⟩
        cases ha
  | ok a =>
      constructor
      · exact fun h => ⟨a, rfl, h⟩
      · rintro ⟨a', ha, h⟩
        cases ha
        exact h

theorem number_eq_ok {n m : Int} : number n = .ok m ↔
    (-MAX_SAFE_INTEGER ≤ n ∧ n ≤ MAX_SAFE_INTEGER) ∧ m = n := by
  unfold number
  split
  next h =>
    constructor
    · intro hok
      exact ⟨h, (Except.ok.inj hok).symm⟩
    · rintro ⟨-, rfl⟩
      rfl
  next h =>
    constructor
    · intro hok
      cases hok
    · intro hin
      exact absurd hin.1 h

/-- **Counted and summed**: no more rows than a safe number counts, and no more wei. -/
theorem countAndSum_eq_ok {n s : Int} : countAndSum (cs.map Charge.row) = .ok (n, s) ↔
    ((charged cs : Int) ≤ MAX_SAFE_INTEGER ∧ (cs.length : Int) ≤ MAX_SAFE_INTEGER) ∧
      n = cs.length ∧ s = charged cs := by
  have hcast : (cs.map Charge.row).map (fun r => castInteger r.chargeWei) =
      (cs.map Charge.wei).map fun w : Nat => min maxInteger w := by
    rw [List.map_map, List.map_map]
    exact List.map_congr_left fun c _ => castInteger_decimal c.wei
  have hcut : ∀ s : Int, ((cs.map Charge.wei).map fun w : Nat => min maxInteger w).sum = s →
      s ≤ MAX_SAFE_INTEGER → s = charged cs := by
    intro s hs hsafe
    have hless : s < maxInteger := hsafe.trans_lt (by decide)
    rw [← hs, charged]
    exact sum_min (by decide) _ (hs ▸ hless)
  unfold countAndSum
  rw [hcast, List.length_map]
  constructor
  · intro h
    obtain ⟨total, hsum, h⟩ := bind_eq_ok.mp h
    obtain ⟨count, hcount, h⟩ := bind_eq_ok.mp h
    obtain ⟨read, hread, h⟩ := bind_eq_ok.mp h
    cases h
    obtain ⟨⟨-, hfew⟩, rfl⟩ := number_eq_ok.mp hcount
    obtain ⟨⟨-, hsafe⟩, rfl⟩ := number_eq_ok.mp hread
    have htotal := foldlM_add hsum
    rw [Int.zero_add] at htotal
    have hexact := hcut s htotal.symm hsafe
    exact ⟨⟨hexact ▸ hsafe, hfew⟩, rfl, hexact⟩
  · rintro ⟨⟨hsafe, hfew⟩, rfl, rfl⟩
    have hle : ∀ ws : List Nat, (ws.map fun w : Nat => min maxInteger w).sum ≤ (ws.sum : Nat) := by
      intro ws
      induction ws with
      | nil => exact Int.le_refl _
      | cons w ws ih =>
          rw [List.map_cons, List.sum_cons, List.sum_cons]
          omega
    have hbound := hle (cs.map Charge.wei)
    have htotal := hcut _ rfl (hbound.trans hsafe)
    have hsum : sum ((cs.map Charge.wei).map fun w : Nat => min maxInteger w) =
        .ok (charged cs) := by
      rw [sum, foldlM_add_of_le (le_refl 0), Int.zero_add, htotal]
      · intro x hx
        obtain ⟨w, -, rfl⟩ := List.mem_map.mp hx
        exact le_min (by decide) (Int.natCast_nonneg w)
      · rw [Int.zero_add, htotal]
        exact hsafe.trans (by decide)
    have hcount : number cs.length = .ok (cs.length : Int) := by
      refine number_eq_ok.mpr ⟨⟨?_, hfew⟩, rfl⟩
      unfold MAX_SAFE_INTEGER
      omega
    have hread : number (charged cs) = .ok (charged cs : Int) := by
      refine number_eq_ok.mpr ⟨⟨?_, hsafe⟩, rfl⟩
      unfold MAX_SAFE_INTEGER
      omega
    rw [hsum, hcount]
    exact congrArg (Except.map fun s => ((cs.length : Int), s)) hread

end Sums

/-! ### The rows -/

section Rows

variable {cs : List Charge} {app : String}

/-- The rows are those of the settlements on record. -/
theorem recorded_eq (charges : List Charge) :
    recorded charges = (onRecord charges).map Charge.row := by
  have hfold : ∀ kept : List Charge, (charges.map Charge.row).foldl insertSettlement
      (kept.map Charge.row) = (charges.foldl
        (fun cs c => cs.filter (·.opportunityId ≠ c.opportunityId) ++ [c]) kept).map
          Charge.row := by
    induction charges with
    | nil => exact fun _ => rfl
    | cons c charges ih =>
        intro kept
        rw [List.map_cons, List.foldl_cons, List.foldl_cons, ← ih, insertSettlement,
          List.filter_map, List.map_append]
        rfl
  exact hfold []

theorem lower_lower {s : String} (h : s.toList = lower app) : lower s = lower app := by
  rw [lower, h, lower, List.map_map]
  exact List.map_congr_left fun c _ => char_toLower_toLower c

/-- What is found charges what the app's settlements charge, if the others are of nothing. -/
theorem charged_found : charged (found cs app) = charged (ofApp cs app) ↔
    ∀ c ∈ cs, lower c.appAddress = lower app → c.appAddress.toList ≠ lower app → c.wei = 0 := by
  have hsplit : ∀ cs : List Charge, charged (ofApp cs app) = charged (found cs app) +
      charged (cs.filter fun c =>
        lower c.appAddress = lower app ∧ c.appAddress.toList ≠ lower app) := by
    intro cs
    induction cs with
    | nil => rfl
    | cons c cs ih =>
        unfold ofApp found charged at ih ⊢
        by_cases hfound : c.appAddress.toList = lower app
        · have hlower := lower_lower hfound
          simp only [List.filter_cons, hfound, hlower, decide_true, if_true, List.map_cons,
            List.sum_cons, ih, ne_eq, not_true_eq_false, and_false, decide_false,
            Bool.false_eq_true, if_false]
          omega
        · by_cases hlower : lower c.appAddress = lower app
          · simp only [List.filter_cons, hfound, hlower, decide_true, if_true, List.map_cons,
              List.sum_cons, ih, ne_eq, not_false_eq_true, and_true, decide_false,
              Bool.false_eq_true, if_false]
            omega
          · simp only [List.filter_cons, hfound, hlower, ih, ne_eq, decide_false,
              Bool.false_eq_true, if_false, false_and]
  have hzero : charged (cs.filter fun c =>
      lower c.appAddress = lower app ∧ c.appAddress.toList ≠ lower app) = 0 ↔
      ∀ c ∈ cs, lower c.appAddress = lower app → c.appAddress.toList ≠ lower app → c.wei = 0 := by
    rw [charged, List.sum_eq_zero_iff_forall_eq_nat]
    simp only [List.mem_map, List.mem_filter, decide_eq_true_eq, forall_exists_index, and_imp]
    constructor
    · exact fun h c hc hlower hne => h c.wei c hc hlower hne rfl
    · rintro h _ c hc hlower hne rfl
      exact h c hc hlower hne
  rw [hsplit, ← hzero]
  omega

theorem decimal_injective {m n : Nat} (h : decimal m = decimal n) : m = n := by
  have hm := bigInt_decimal m
  rw [h, bigInt_decimal n] at hm
  exact Int.ofNat.inj (Except.ok.inj hm).symm

end Rows

/-- A sum that the database gives, the driver reads, and that is counted. -/
def Fits (cs : List Charge) : Prop :=
  (charged cs : Int) ≤ MAX_SAFE_INTEGER ∧ (cs.length : Int) ≤ MAX_SAFE_INTEGER

/-- The settlements on record that are on chain. -/
def onChain (charges : List Charge) : List Charge := (onRecord charges).filter (·.txHash.isSome)

/-- **The totals.**  The total over the settlements on chain is the sum of their charges if
that, and their number, is a safe number; an app's earnings are those of all its settlements
if the sum that the query finds is a safe number, and those that are recorded under another
spelling of the address charge nothing. -/
theorem totals_exact_iff (charges : List Charge) :
    ((settlementTotals (recorded charges)).map Totals.totalChargeWei =
        .ok (charged (onChain charges)) ↔ Fits (onChain charges)) ∧
    ∀ app, (appEarnings (recorded charges) app).map Earnings.totalChargedWei =
        .ok (decimal (charged (ofApp (onRecord charges) app))) ↔
      Fits (found (onRecord charges) app) ∧ ∀ c ∈ onRecord charges,
        lower c.appAddress = lower app → c.appAddress.toList ≠ lower app → c.wei = 0 := by
  have hread : ∀ cs : List Charge, Fits cs →
      countAndSum (cs.map Charge.row) = .ok ((cs.length : Int), (charged cs : Int)) :=
    fun cs hfits => countAndSum_eq_ok.mpr ⟨hfits, rfl, rfl⟩
  constructor
  · have hrows : (recorded charges).filter (·.txHash.isSome) =
        (onChain charges).map Charge.row := by
      rw [recorded_eq, List.filter_map]
      rfl
    rw [settlementTotals, hrows]
    constructor
    · intro h
      cases hok : countAndSum ((onChain charges).map Charge.row) with
      | error e =>
          rw [hok] at h
          cases h
      | ok p => exact (countAndSum_eq_ok.mp hok).1
    · intro hfits
      rw [hread _ hfits]
      rfl
  · intro app
    have hrows : (recorded charges).filter (·.appAddress.toList = lower app) =
        (found (onRecord charges) app).map Charge.row := by
      rw [recorded_eq, List.filter_map]
      rfl
    rw [appEarnings, hrows, ← charged_found]
    constructor
    · intro h
      cases hok : countAndSum ((found (onRecord charges) app).map Charge.row) with
      | error e =>
          rw [hok] at h
          cases h
      | ok p =>
          obtain ⟨hfits, -, hs⟩ := countAndSum_eq_ok.mp hok
          rw [hok] at h
          refine ⟨hfits, decimal_injective ?_⟩
          rw [← hs]
          exact Except.ok.inj h
    · rintro ⟨hfits, hsame⟩
      rw [hread _ hfits, ← hsame]
      rfl

/-- A hundredth of an ether is not a safe number of wei: its total is not read. -/
theorem hundredth_is_not_read : ¬ ∀ charges : List Charge,
    (settlementTotals (recorded charges)).map Totals.totalChargeWei =
        .ok (charged (onChain charges)) ∧
      ∀ app, (appEarnings (recorded charges) app).map Earnings.totalChargedWei =
        .ok (decimal (charged (ofApp (onRecord charges) app))) := by
  intro h
  have hthrown : settlementTotals (recorded [⟨"o1", 10 ^ 16, "0xa", some "0x1"⟩]) =
      .error .outOfRange := by decide +kernel
  have htotal := (h [⟨"o1", 10 ^ 16, "0xa", some "0x1"⟩]).1
  rw [hthrown] at htotal
  cases htotal

end SettlementTotals

end Ordo
