import Ordo.Guarded
import Ordo.KeyLedger
import Ordo.SendPaths

/-!
# Prepaid keys

With billing enforced, a send or a bundle is let through while the prepaid balance of its
key covers one send.  It is charged when the last of its awaits is answered, once for each
transaction, and other requests of the key are served in between.

* `charged_dispatch` — what a request charges: its own key, and at most once for each
  transaction that it asked to send;
* `enforced_run` — in a run whose requests each find credit for all of their transactions,
  and for those that the key has in flight, no key comes to owe anything.
-/

namespace Ordo

namespace Prepaid

open ApiKeys PrivateSend SendPaths KeyLedger

structure Request where
  method : String
  params : List Json
  key : ApiKey

def isSend (method : String) : Bool :=
  method ∈ ["eth_sendRawTransaction", "ordo_sendRawTransaction", "ordo_sendPrivateTransaction",
    "ordo_sendBundle"]

/-- How many transactions a request asks to send: those of a bundle, or one. -/
def Request.transactions (r : Request) : Nat :=
  if r.method = "ordo_sendBundle" then ((bundleOf r.params).map (·.txs.length)).getD 0
  else if isSend r.method then 1
  else 0

/-- The ledger, and the requests whose dispatch has not come to its end. -/
structure Gateway where
  ledger : KeyLedger
  inFlight : List Request := []

inductive Event where
  | arrive (r : Request)
  /-- A request in flight has all its answers, of what was around it. -/
  | finish (i : Nat) (around : Surroundings) (now : Int)
  /-- A top-up is credited. -/
  | credit (label : String) (usdMicros : Int) (txHash wei : String) (now : Int)

section Run

variable (price : Int)

/-- `chargeSend`, again and again. -/
def chargeAll (now : Int) (ledger : KeyLedger) (labels : List String) : KeyLedger :=
  labels.foldl (fun s label => s.chargeKeyedSend label price now) ledger

/-- Whether the key of a request has credit. -/
def admits (g : Gateway) (r : Request) : Bool :=
  !isSend r.method || g.ledger.canChargeSend r.key.label price true

/-- The labels that a request charges. -/
def chargedBy (r : Request) (around : Surroundings) : List String :=
  (dispatch { around with canSend := true } r.method r.params r.key).effects.charged

def step (g : Gateway) : Event → Gateway
  | .arrive r => if admits price g r then { g with inFlight := g.inFlight ++ [r] } else g
  | .finish i around now =>
      match g.inFlight[i]? with
      | none => g
      | some r =>
          { ledger := chargeAll price now g.ledger (chargedBy r around)
            inFlight := g.inFlight.eraseIdx i }
  | .credit label usd txHash wei now =>
      { g with ledger := (g.ledger.creditKey label usd txHash wei now).1 }

def run (g : Gateway) (es : List Event) : Gateway := es.foldl (step price) g

/-! ### What is enforced -/

/-- No key owes anything, and no balance is below zero. -/
def PaidUp (s : KeyLedger) : Prop :=
  ∀ label, (s.keyBilling label).owedUsdMicros = 0 ∧ 0 ≤ (s.keyBilling label).prepaidUsdMicros

/-- Each charge that the event makes finds the price in the balance. -/
def Covered (g : Gateway) : Event → Prop
  | .finish i around now => ∀ r, g.inFlight[i]? = some r →
      ∀ pre label post, chargedBy r around = pre ++ label :: post → ¬isAnon label →
        price ≤ ((chargeAll price now g.ledger pre).keyBilling label).prepaidUsdMicros
  | _ => True

/-- Over a run: every charge is covered, and nothing is owed in any state. -/
def Enforced (g : Gateway) (es : List Event) : Prop :=
  ∀ pre post, es = pre ++ post → PaidUp (run price g pre).ledger ∧
    ∀ e rest, post = e :: rest → Covered price (run price g pre) e

/-- The transactions that a key has in flight. -/
def reserved (g : Gateway) (label : String) : Nat :=
  ((g.inFlight.filter (·.key.label = label)).map Request.transactions).sum

/-- A request that is let through finds credit for all of its transactions and for those
that its key has in flight. -/
def CoversInFlight (g : Gateway) : Event → Prop
  | .arrive r => admits price g r = true → ¬isAnon r.key.label →
      price * (reserved g r.key.label + r.transactions : Nat) ≤
        (g.ledger.keyBilling r.key.label).prepaidUsdMicros
  | _ => True

/-! ### What a request charges -/

section Charges

variable {w : Surroundings} {method : String} {params : List Json} {key : ApiKey}

theorem charged_booked {o : Outcome} {raw via : String} (h : o.effects.charged = []) :
    (booked o raw key via).effects.charged = [] ∨
      (booked o raw key via).effects.charged = [key.label] := by
  unfold booked
  split
  · exact Or.inl h
  · exact Or.inr rfl

theorem charged_protectAndSend {rawTx : Option Json} {opts : Protect.SafetyOptions} :
    (protectAndSend w rawTx opts).effects.charged = [] := by
  unfold protectAndSend
  split
  · rfl
  · rfl

theorem charged_routeOrderFlow {rawTx : Option Json} {opts : Protect.SafetyOptions} :
    (routeOrderFlow w rawTx opts).1.effects.charged = [] := by
  unfold routeOrderFlow
  split
  · rfl
  · dsimp only
    split
    · rfl
    · rfl
    · rfl

/-- A bundle gives a hash for each of its transactions, or none. -/
theorem length_sendBundle :
    (sendBundle w params).2.length ≤ ((bundleOf params).map (·.txs.length)).getD 0 := by
  unfold sendBundle
  split
  · simp
  · next b hb =>
      split
      · simp
      · split
        · simp
        · split
          · simp
          · dsimp only
            split
            · simp
            · simp [hb]

/-- **What a request charges**: its own key, at most once for each transaction. -/
theorem charged_dispatch (w : Surroundings) (r : Request) :
    ∃ n ≤ r.transactions, chargedBy r w = List.replicate n r.key.label := by
  have hone : ∀ {o : Outcome}, o.effects.charged = [] ∨ o.effects.charged = [r.key.label] →
      ∃ n ≤ 1, o.effects.charged = List.replicate n r.key.label := by
    rintro o (h | h)
    · exact ⟨0, by omega, h⟩
    · exact ⟨1, le_rfl, h⟩
  unfold chargedBy dispatch
  split
  · next hsingle =>
      have hlegs : r.transactions = 1 := by
        have hne : r.method ≠ "ordo_sendBundle" := by
          rintro hbundle
          simp [hbundle] at hsingle
        have hsend : isSend r.method = true := by
          simp only [List.mem_cons, List.not_mem_nil, or_false] at hsingle
          simp only [isSend, List.mem_cons, List.not_mem_nil, or_false, decide_eq_true_eq]
          tauto
        simp [Request.transactions, hne, hsend]
      rw [hlegs, if_neg (by simp)]
      dsimp only
      split
      · exact hone (charged_booked charged_routeOrderFlow)
      · exact hone (charged_booked charged_protectAndSend)
  · split
    · next hbundle =>
        rw [if_neg (by simp)]
        refine ⟨(sendBundle { w with canSend := true } r.params).2.length, ?_, ?_⟩
        · rw [Request.transactions, if_pos hbundle]
          exact length_sendBundle
        · exact List.map_const'
    · exact ⟨0, Nat.zero_le _, rfl⟩

end Charges

/-! ### Charges that are covered -/

section Coverage

variable {price} {s : KeyLedger} {label : String} {now : Int}

theorem paidUp_iff : PaidUp s ↔ ∀ label,
    (s.row label).billedUsdMicros ≤ (s.row label).paidUsdMicros ∧
      0 ≤ (s.row label).prepaidUsdMicros := by
  refine forall_congr' fun label => and_congr_left fun _ => ?_
  simp only [keyBilling]
  omega

variable (now) in
/-- A charge that the balance covers is paid from it. -/
theorem charge_covered (hprice : 0 < price) (hpaid : PaidUp s)
    (hcovered : ¬isAnon label → price ≤ (s.keyBilling label).prepaidUsdMicros) :
    PaidUp (s.chargeKeyedSend label price now) ∧ ∀ other,
      (s.keyBilling other).prepaidUsdMicros - (if other = label then price else 0) ≤
        ((s.chargeKeyedSend label price now).keyBilling other).prepaidUsdMicros := by
  by_cases hanon : isAnon label
  · have hskip : s.chargeKeyedSend label price now = s := by
      unfold chargeKeyedSend
      rw [if_pos (by simp [hanon])]
    rw [hskip]
    refine ⟨hpaid, fun other => ?_⟩
    split <;> omega
  · have hrow := chargeKeyedSend_row (s := s) now hanon hprice
    have hbalance := hcovered hanon
    rw [paidUp_iff] at hpaid
    simp only [keyBilling] at hbalance
    have hown := hpaid label
    constructor
    · rw [paidUp_iff]
      intro other
      rw [hrow other]
      split
      · simp only [chargeUpdate, keyBilling]
        omega
      · exact hpaid other
    · intro other
      simp only [keyBilling]
      rw [hrow other]
      split
      · next heq =>
          subst heq
          simp only [chargeUpdate, keyBilling]
          omega
      · omega

/-- One charge more is made last. -/
theorem chargeAll_succ (price now : Int) (s : KeyLedger) (label : String) (n : Nat) :
    chargeAll price now s (List.replicate (n + 1) label) =
      (chargeAll price now s (List.replicate n label)).chargeKeyedSend label price now := by
  rw [List.replicate_succ', chargeAll, List.foldl_append]
  rfl

variable (now) in
/-- As many charges as the balance covers. -/
theorem chargeAll_covered (hprice : 0 < price) (n : Nat) (hpaid : PaidUp s)
    (hcovered : ¬isAnon label → price * n ≤ (s.keyBilling label).prepaidUsdMicros) :
    PaidUp (chargeAll price now s (List.replicate n label)) ∧ ∀ other,
      (s.keyBilling other).prepaidUsdMicros - (if other = label then price * n else 0) ≤
        ((chargeAll price now s (List.replicate n label)).keyBilling other).prepaidUsdMicros := by
  induction n with
  | zero =>
      refine ⟨hpaid, fun other => ?_⟩
      simp [chargeAll]
  | succ n ih =>
      have hsplit : price * (n + 1 : Nat) = price * n + price := by
        push_cast
        ring
      rw [hsplit] at hcovered ⊢
      obtain ⟨hpaid', hbalance⟩ := ih fun hanon => by
        have h := hcovered hanon
        omega
      have hown := hbalance label
      rw [if_pos rfl] at hown
      obtain ⟨hpaid'', hbalance'⟩ := charge_covered now hprice hpaid' fun hanon => by
        have h := hcovered hanon
        omega
      rw [chargeAll_succ]
      refine ⟨hpaid'', fun other => ?_⟩
      have hold := hbalance other
      have hnew := hbalance' other
      split
      · next heq =>
          rw [if_pos heq] at hold hnew
          omega
      · next hne =>
          rw [if_neg hne] at hold hnew
          omega

variable (label now) in
/-- A top-up takes nothing from any balance. -/
theorem credit_paidUp (usd : Int) (txHash wei : String) (hpaid : PaidUp s) :
    PaidUp (s.creditKey label usd txHash wei now).1 ∧ ∀ other,
      (s.keyBilling other).prepaidUsdMicros ≤
        ((s.creditKey label usd txHash wei now).1.keyBilling other).prepaidUsdMicros := by
  by_cases hrefused : creditError label usd txHash ≠ none ∨
      txHash.toLower ∈ s.topups.map (·.txHash)
  · have hsame := fun other => (creditKey_refused wei now hrefused other).1
    rw [paidUp_iff] at hpaid ⊢
    simp only [keyBilling, hsame]
    exact ⟨hpaid, fun _ => le_rfl⟩
  · obtain ⟨hcheck, hnew⟩ := not_or.mp hrefused
    rw [not_not] at hcheck
    have husd : 0 < usd := by
      by_contra hneg
      unfold creditError at hcheck
      grind
    have hrow := fun other => (creditKey_taken wei now hcheck hnew other).1
    rw [paidUp_iff] at hpaid ⊢
    have hown := hpaid label
    constructor
    · intro other
      rw [hrow other]
      split
      · simp only [creditUpdate, keyBilling]
        omega
      · exact hpaid other
    · intro other
      simp only [keyBilling]
      rw [hrow other]
      split
      · next heq =>
          subst heq
          simp only [creditUpdate, keyBilling]
          omega
      · exact le_rfl

end Coverage

/-! ### The invariant -/

section Enforcement

variable {price} {g : Gateway}

/-- What every state of a covered run satisfies: nothing is owed, and each balance covers
what its key has in flight. -/
structure Kept (price : Int) (g : Gateway) : Prop where
  paid : PaidUp g.ledger
  covers : ∀ label, ¬isAnon label →
    price * reserved g label ≤ (g.ledger.keyBilling label).prepaidUsdMicros

/-- A request that joins adds its transactions to those of its key. -/
theorem reserved_arrive (g : Gateway) (r : Request) (label : String) :
    reserved { g with inFlight := g.inFlight ++ [r] } label =
      reserved g label + if label = r.key.label then r.transactions else 0 := by
  unfold reserved
  rw [List.filter_append, List.map_append, List.sum_append]
  by_cases hown : r.key.label = label
  · simp [hown]
  · simp [hown, Ne.symm hown]

/-- A request that leaves takes its transactions with it. -/
theorem reserved_finish {r : Request} {i : Nat} (hr : g.inFlight[i]? = some r)
    (ledger : KeyLedger) (label : String) :
    reserved g label =
      reserved { ledger, inFlight := g.inFlight.eraseIdx i } label +
        if label = r.key.label then r.transactions else 0 := by
  obtain ⟨hi, hget⟩ := List.getElem?_eq_some_iff.mp hr
  have hsplit : g.inFlight = g.inFlight.take i ++ r :: g.inFlight.drop (i + 1) := by
    rw [← hget, List.getElem_cons_drop, List.take_append_drop]
  unfold reserved
  dsimp only
  rw [List.eraseIdx_eq_take_drop_succ]
  conv_lhs => rw [hsplit]
  rw [List.filter_append, List.filter_append, List.map_append, List.map_append,
    List.sum_append, List.sum_append]
  by_cases hown : r.key.label = label
  · simp [hown]
    omega
  · simp [hown, Ne.symm hown]

theorem step_arrive_kept {r : Request} (hkept : Kept price g)
    (hcovers : CoversInFlight price g (.arrive r)) : Kept price (step price g (.arrive r)) := by
  simp only [step]
  split
  · next hadmits =>
      refine ⟨hkept.paid, fun label hlabel => ?_⟩
      rw [reserved_arrive]
      split
      · next heq =>
          subst heq
          exact hcovers hadmits hlabel
      · exact hkept.covers label hlabel
  · exact hkept

/-- The charges of a request that is done are within what was kept for it. -/
theorem step_finish_kept {i : Nat} {around : Surroundings} {now : Int} (hprice : 0 < price)
    (hkept : Kept price g) :
    Covered price g (.finish i around now) ∧
      Kept price (step price g (.finish i around now)) := by
  cases hr : g.inFlight[i]? with
  | none =>
      refine ⟨fun r h => ?_, ?_⟩
      · rw [hr] at h
        cases h
      · simpa only [step, hr] using hkept
  | some r =>
      obtain ⟨n, hn, hcharged⟩ := charged_dispatch around r
      have hreserved := reserved_finish hr g.ledger r.key.label
      rw [if_pos rfl] at hreserved
      -- any number of charges up to that of the transactions is within the balance
      have hwithin : ∀ m ≤ r.transactions, ¬isAnon r.key.label →
          price * m ≤ (g.ledger.keyBilling r.key.label).prepaidUsdMicros := by
        intro m hm hlabel
        refine le_trans ?_ (hkept.covers _ hlabel)
        exact Int.mul_le_mul_of_nonneg_left (by omega) hprice.le
      constructor
      · intro r' hr' pre label post hsplit hlabel
        obtain rfl : r = r' := Option.some.inj (hr.symm.trans hr')
        rw [hcharged] at hsplit
        have hmem : label ∈ List.replicate n r.key.label := by
          rw [hsplit]
          exact List.mem_append_right _ List.mem_cons_self
        obtain rfl := List.eq_of_mem_replicate hmem
        have hlength : pre.length + (post.length + 1) = n := by
          have h := congrArg List.length hsplit
          simpa using h.symm
        have hpre : pre = List.replicate pre.length r.key.label := by
          refine List.eq_replicate_of_mem fun x hx => ?_
          refine List.eq_of_mem_replicate (n := n) ?_
          rw [hsplit]
          exact List.mem_append_left _ hx
        have hbalance := (chargeAll_covered now hprice pre.length hkept.paid
          (hwithin pre.length (by omega))).2 r.key.label
        rw [← hpre, if_pos rfl] at hbalance
        have hroom := hwithin (pre.length + 1) (by omega) hlabel
        have hsum : price * ((pre.length + 1 : Nat) : Int) = price * pre.length + price := by
          push_cast
          ring
        omega
      · obtain ⟨hpaid, hbalance⟩ :=
          chargeAll_covered now hprice n hkept.paid (hwithin n hn)
        simp only [step, hr, hcharged]
        refine ⟨hpaid, fun label hlabel => ?_⟩
        have hleft := hbalance label
        have hheld := hkept.covers label hlabel
        have hsum := reserved_finish hr
          (chargeAll price now g.ledger (List.replicate n r.key.label)) label
        dsimp only
        rw [hsum, Nat.cast_add, Int.mul_add] at hheld
        split at hleft
        · next heq =>
            rw [if_pos heq] at hheld
            have hmono : price * (n : Int) ≤ price * (r.transactions : Int) :=
              Int.mul_le_mul_of_nonneg_left (by omega) hprice.le
            omega
        · next hne =>
            rw [if_neg hne] at hheld
            simp only [Nat.cast_zero, Int.mul_zero, Int.add_zero] at hheld
            omega

theorem step_credit_kept {label txHash wei : String} {usd now : Int} (hkept : Kept price g) :
    Kept price (step price g (.credit label usd txHash wei now)) := by
  obtain ⟨hpaid, hmore⟩ := credit_paidUp label now usd txHash wei hkept.paid
  refine ⟨hpaid, fun other hother => le_trans ?_ (hmore other)⟩
  exact hkept.covers other hother

/-- One event, whatever it is. -/
theorem step_kept {e : Event} (hprice : 0 < price) (hkept : Kept price g)
    (hcovers : CoversInFlight price g e) :
    Covered price g e ∧ Kept price (step price g e) := by
  cases e with
  | arrive r => exact ⟨trivial, step_arrive_kept hkept hcovers⟩
  | finish i around now => exact step_finish_kept hprice hkept
  | credit label usd txHash wei now => exact ⟨trivial, step_credit_kept hkept⟩

theorem enforced_of_kept (hprice : 0 < price) (es : List Event) (hkept : Kept price g)
    (hcovers : Guarded.Along (step price) (CoversInFlight price) g es) :
    Enforced price g es := by
  have hkeeps : ∀ g e, Kept price g → CoversInFlight price g e → Kept price (step price g e) :=
    fun g e hkept hcovers => (step_kept hprice hkept hcovers).2
  intro pre post hsplit
  have hhere : Kept price (run price g pre) :=
    Guarded.invariant_along hkeeps hkept hcovers hsplit
  refine ⟨hhere.paid, fun e rest hpost => ?_⟩
  have hnext : es = pre ++ e :: rest := by rw [hsplit, hpost]
  exact (step_kept hprice hhere (hcovers pre e rest hnext)).1

/-- **A run whose requests each find credit for all of their transactions, and for those
that their key has in flight, leaves nothing owed.**  It is over any number of requests
and top-ups, and over every order in which requests arrive and end. -/
theorem enforced_run (hprice : 0 < price) (hstart : PaidUp g.ledger) (hidle : g.inFlight = [])
    (es : List Event)
    (hcovers : ∀ pre e post, es = pre ++ e :: post →
      CoversInFlight price (run price g pre) e) :
    Enforced price g es := by
  refine enforced_of_kept hprice es ⟨hstart, fun label _ => ?_⟩ hcovers
  have hnone : reserved g label = 0 := by simp [reserved, hidle]
  rw [hnone]
  simpa using (hstart label).2

/-- A single send of a key that has nothing in flight finds such credit by the check. -/
theorem coversInFlight_single {r : Request} (hsend : isSend r.method = true)
    (hbundle : r.method ≠ "ordo_sendBundle") (hidle : reserved g r.key.label = 0) :
    CoversInFlight price g (.arrive r) := by
  intro hadmits hlabel
  have hone : r.transactions = 1 := by simp [Request.transactions, hbundle, hsend]
  have hcredit : g.ledger.canChargeSend r.key.label price true = true := by
    simpa [admits, hsend] using hadmits
  have hanon : isAnon r.key.label = false := by simpa using hlabel
  rw [hidle, hone]
  simp only [canChargeSend, hanon] at hcredit
  simpa using hcredit

end Enforcement

end Run

/-! ### Two sends on one credit -/

/-- A key whose balance pays for one send at a cent. -/
def oneCredit : Gateway where
  ledger := { rows := fun label =>
    if label = "partner" then some { prepaidUsdMicros := 10000 } else none }

def plainSend : Request := ⟨"eth_sendRawTransaction", [.str "0xf8"], someKey⟩

theorem chargedBy_plainSend : chargedBy plainSend (hopsWorld [publicHop]) = ["partner"] := by
  have hsafe := assertSafe_plain [publicHop] (waiver "eth_sendRawTransaction" [.str "0xf8"])
  have hdispatch : dispatch (hopsWorld [publicHop]) "eth_sendRawTransaction" [.str "0xf8"]
      someKey = booked (upstreamSend (hopsWorld [publicHop]) "0xf8" false 0) "0xf8" someKey
        "protect" := dispatch_direct (by simp) rfl rfl hsafe
  have hresult : (upstreamSend (hopsWorld [publicHop]) "0xf8" false 0).result =
      .ok (.str "0x01") := by
    have hsent : sendRawTransaction ((hopsWorld [publicHop]).hash "0xf8")
        ((hopsWorld [publicHop]).hops "0xf8") false = ⟨.ok (some (.str "0x01")), true⟩ :=
      sendFrom_accepted rfl rfl
    simp only [upstreamSend, hsent, Option.getD_some]
  change (dispatch (hopsWorld [publicHop]) "eth_sendRawTransaction" [.str "0xf8"]
    someKey).effects.charged = _
  simp only [hdispatch, booked, hresult]
  rfl

theorem oneCredit_paidUp : PaidUp oneCredit.ledger := by
  intro label
  by_cases hpartner : label = "partner"
  · subst hpartner
    decide
  · have hrow : oneCredit.ledger.row label = {} := by
      simp [KeyLedger.row, oneCredit, hpartner]
    simp [keyBilling, hrow]

/-- Alone, the send is paid from the balance. -/
theorem enforced_sample :
    Enforced 10000 oneCredit [.arrive plainSend, .finish 0 (hopsWorld [publicHop]) 0] := by
  refine enforced_run (by decide) oneCredit_paidUp rfl _ fun pre e post hsplit => ?_
  rcases pre with _ | ⟨e', pre⟩
  · obtain ⟨rfl, -⟩ := List.cons_eq_cons.mp hsplit
    exact coversInFlight_single rfl (by decide) rfl
  · obtain ⟨-, hsplit'⟩ := List.cons_eq_cons.mp hsplit
    rcases pre with _ | ⟨e'', pre⟩
    · obtain ⟨rfl, -⟩ := List.cons_eq_cons.mp hsplit'
      trivial
    · obtain ⟨-, hsplit''⟩ := List.cons_eq_cons.mp hsplit'
      simp at hsplit''

/-- The second send is let through while the first has not been charged. -/
theorem two_sends_on_one_credit :
    ¬ Enforced 10000 oneCredit [.arrive plainSend, .arrive plainSend,
      .finish 0 (hopsWorld [publicHop]) 0, .finish 0 (hopsWorld [publicHop]) 0] := by
  intro henforced
  have howed := ((henforced _ [] (List.append_nil _).symm).1 "partner").1
  revert howed
  have hlast : (run 10000 oneCredit [.arrive plainSend, .arrive plainSend,
      .finish 0 (hopsWorld [publicHop]) 0, .finish 0 (hopsWorld [publicHop]) 0]).ledger =
      chargeAll 10000 0 (chargeAll 10000 0 oneCredit.ledger ["partner"]) ["partner"] := by
    rw [← chargedBy_plainSend]
    rfl
  rw [hlast]
  decide

end Prepaid

end Ordo
