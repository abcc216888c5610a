import Ordo.KeyLedger
import Ordo.Prepaid
import Ordo.Stealth

/-!
# Accounts by label

Keys are told apart by their hash and billed by their label, which whoever has a key
issued chooses.  A top-up names an account by a key or by a label, and is credited for
the hash of a payment to the treasury, whoever made it.

* `step_other` — what is billed to one label leaves every other account, and every key,
  as it was;
* `separate_labels` — over a run, an account that no operation bills is unchanged, with
  the permission to send; a payment is credited once, to an account that its claim named.
-/

namespace Ordo

namespace LabelBilling

open ApiKeys Prepaid SendPaths KeyLedger

/-! ### The portal -/

/-- The tables that the portal and the gateway share. -/
structure Host where
  table : KeyTable
  ledger : KeyLedger := {}

def DEFAULT_KEY_RATE_LIMIT : Int := 12000

/-- The first code units of a text; half of a pair is stored as the replacement
character. -/
def slice : Nat → Text → Text
  | _, [] => []
  | 0, _ => []
  | 1, c :: _ => if c.toNat < 0x10000 then [c] else [Char.ofNat 0xfffd]
  | n + 2, c :: cs => if c.toNat < 0x10000 then c :: slice (n + 1) cs else c :: slice n cs

/-- `(label ?? "self-serve").trim().slice(0, 40) || "self-serve"` -/
def labelOf (label : Option Json) : Except String String :=
  match label.getD .null with
  | .null => .ok "self-serve"
  | .str text =>
      match slice 40 (BigIntText.trim text.toList) with
      | [] => .ok "self-serve"
      | chars => .ok (String.ofList chars)
  | _ => .error "(opts.label ?? \"self-serve\").trim is not a function"

/-- `/^0x[0-9a-fA-F]{40}$/`, for a rebate address that is given. -/
def rebateOf (rebateAddress : Option Json) : Except String (Option String) :=
  match rebateAddress.getD .null with
  | .null => .ok none
  | .str text =>
      if text = "" ∨ Stealth.IsHexText 40 text.toList then .ok (some text.toLower)
      else .error "rebateAddress must be a 20-byte 0x address"
  | _ => .error "rebateAddress must be a 20-byte 0x address"

/-- What a top-up finds on the chain. -/
structure Chain where
  /-- The status of the receipt, where there is one. -/
  receipt : String → Except String (Option String)
  /-- Whom the transaction pays, and how much. -/
  transaction : String → Except String (Option (Option String × Nat))
  /-- What an amount of wei comes to, in micro-dollars. -/
  ethUsd : Option (Nat → Int)

section Portal

variable (sha256 : String → String) (treasury : String)

/-- `issueApiKey`, for a key that has been drawn. -/
def issueApiKey (s : Host) (label rebateAddress : Option Json) (key : String) (now : Int) :
    Host × Except String ApiKey :=
  match rebateOf rebateAddress with
  | .error e => (s, .error e)
  | .ok rebate =>
      match labelOf label with
      | .error e => (s, .error e)
      | .ok label =>
          let mode := if (rebate.getD "") = "" then Mode.direct else Mode.auction
          match s.table (sha256 key) with
          | some _ => (s, .error "UNIQUE constraint failed: api_keys.key_hash")
          | none =>
              let row : StoredKey := ⟨label, rebate, mode, DEFAULT_KEY_RATE_LIMIT, true, now⟩
              ({ s with table := Function.update s.table (sha256 key) (some row) },
                .ok ⟨key, label, DEFAULT_KEY_RATE_LIMIT, rebate, mode⟩)

/-- The account that a key or a label names. -/
def billingLabel (table : KeyTable) (presented : String) : Option String :=
  let v := BigIntText.trim presented.toList
  if v = [] then none
  else if (String.ofList v).startsWith "ordo_" then
    (findApiKey sha256 table (String.ofList v)).map (·.label)
  else some (String.ofList (slice 40 v))

/-- The wei of a payment to the treasury, and their worth. -/
def checkPayment (chain : Chain) (txHash : String) : Except String (Nat × Int) := do
  unless Stealth.IsHexText 64 txHash.toList do throw "txHash must be a transaction hash"
  let status ← chain.receipt txHash
  unless status = some "0x1" do throw "transaction is not confirmed"
  let tx ← chain.transaction txHash
  match tx with
  | some (some receiver, wei) =>
      unless receiver.toLower = treasury do throw ("send ETH on Robinhood Chain to " ++ treasury)
      unless 0 < wei do throw "transaction sent no ETH"
      match chain.ethUsd with
      | none => throw "ETH price unavailable — try again in a minute"
      | some usd =>
          unless 0 < usd wei do throw "amount is below one microdollar at the current price"
          return (wei, usd wei)
  | _ => throw ("send ETH on Robinhood Chain to " ++ treasury)

def creditErrorText : CreditError → String
  | .anonymous => "cannot credit anonymous traffic"
  | .notPositive => "credit must be positive"
  | .notAHash => "txHash is not a hash"
  | .alreadyApplied => "this transaction was already credited"

/-- `/api/keys/topup` -/
def topup (chain : Chain) (s : Host) (presented : String) (txHash : Json) (now : Int) :
    KeyLedger × Option String :=
  if ¬ Stealth.IsHexText 40 treasury.toList then
    (s.ledger, some "billing treasury is not configured")
  else
    match billingLabel sha256 s.table presented with
    | none => (s.ledger, some "pass your API key or project label")
    | some label =>
        if isAnon label then (s.ledger, some "pass your API key or project label")
        else
          match txHash with
          | .str hash =>
              match checkPayment treasury chain hash with
              | .error e => (s.ledger, some e)
              | .ok (wei, usdMicros) =>
                  let credited := s.ledger.creditKey label usdMicros hash (toString wei) now
                  (credited.1, credited.2.map creditErrorText)
          | _ => (s.ledger, some "txHash must be a transaction hash")

end Portal

/-! ### Operations -/

inductive Op where
  | issue (label rebateAddress : Option Json) (key : String) (now : Int)
  /-- A request of a caller, as whom the gateway has recognised it. -/
  | send (request : Request) (around : Surroundings) (now : Int)
  | topup (chain : Chain) (presented : String) (txHash : Json) (now : Int)

section Run

variable (sha256 : String → String) (treasury : String) (price : Int) (enforce : Bool)

def step (s : Host) : Op → Host
  | .issue label rebateAddress key now =>
      (issueApiKey sha256 s label rebateAddress key now).1
  | .send r around now =>
      if !isSend r.method || s.ledger.canChargeSend r.key.label price enforce then
        { s with ledger := chargeAll price now s.ledger (chargedBy r around) }
      else s
  | .topup chain presented txHash now =>
      { s with ledger := (topup sha256 treasury chain s presented txHash now).1 }

def run (s : Host) (ops : List Op) : Host := ops.foldl (step sha256 treasury price enforce) s

/-- The account that an operation bills. -/
def bills (s : Host) : Op → Option String
  | .issue .. => none
  | .send r .. => some r.key.label
  | .topup _ presented .. => billingLabel sha256 s.table presented

/-- The account of a label is as it was, and so is its permission to send. -/
structure SameAccount (s s' : Host) (label : String) : Prop where
  billing : s'.ledger.keyBilling label = s.ledger.keyBilling label
  permission : ∀ price enforce,
    s'.ledger.canChargeSend label price enforce = s.ledger.canChargeSend label price enforce

/-- What the holder of a key can do: sends go with the key, and anyone may have keys
issued and claim payments. -/
def ByHolder (key : String) : Op → Prop
  | .send r .. => r.key.key = key
  | _ => True

/-- Nothing that the holder of the first key does touches the account of the second. -/
def KeysApart (s : Host) (k₁ k₂ : String) (ops : List Op) : Prop :=
  k₁ ≠ k₂ → (∀ op ∈ ops, ByHolder k₁ op) →
    ∀ row, findApiKey sha256 s.table k₂ = some row →
      SameAccount s (run sha256 treasury price enforce s ops) row.label

end Run

/-! ### One operation -/

section Steps

variable {sha256 : String → String} {treasury : String} {price : Int} {enforce : Bool}
  {s s' : Host} {label : String}

theorem sameAccount_of_row (hrow : s'.ledger.row label = s.ledger.row label) :
    SameAccount s s' label := by
  have hbilling : s'.ledger.keyBilling label = s.ledger.keyBilling label := by
    simp only [keyBilling, hrow]
  refine ⟨hbilling, fun price enforce => ?_⟩
  simp only [canChargeSend, hbilling]

theorem chargeKeyedSend_other {ledger : KeyLedger} {other : String} {now : Int}
    (hne : label ≠ other) :
    (ledger.chargeKeyedSend other price now).row label = ledger.row label := by
  unfold chargeKeyedSend
  split
  · rfl
  · dsimp only
    rw [updateRow_row ensureRow_isSome, if_neg hne, ensureRow_row]

theorem chargeKeyedSend_topups (ledger : KeyLedger) (other : String) (now : Int) :
    (ledger.chargeKeyedSend other price now).topups = ledger.topups := by
  unfold chargeKeyedSend
  split
  · rfl
  · rw [updateRow_topups, ensureRow_topups]

theorem chargeAll_other {ledger : KeyLedger} {other : String} {now : Int} (n : Nat) :
    (∀ label, label ≠ other → (chargeAll price now ledger (List.replicate n other)).row label =
        ledger.row label) ∧
      (chargeAll price now ledger (List.replicate n other)).topups = ledger.topups := by
  induction n generalizing ledger with
  | zero => exact ⟨fun _ _ => rfl, rfl⟩
  | succ n ih =>
      obtain ⟨hrow, htopups⟩ := @ih (ledger.chargeKeyedSend other price now)
      refine ⟨fun label hne => (hrow label hne).trans (chargeKeyedSend_other hne), ?_⟩
      exact htopups.trans (chargeKeyedSend_topups ledger other now)

/-- A send bills its own account. -/
theorem step_send (r : Request) (around : Surroundings) (now : Int) :
    (step sha256 treasury price enforce s (.send r around now)).table = s.table ∧
      (∀ label, label ≠ r.key.label →
        (step sha256 treasury price enforce s (.send r around now)).ledger.row label =
          s.ledger.row label) ∧
      (step sha256 treasury price enforce s (.send r around now)).ledger.topups =
        s.ledger.topups := by
  obtain ⟨n, -, hcharged⟩ := charged_dispatch around r
  simp only [step, hcharged]
  split
  · exact ⟨rfl, chargeAll_other n⟩
  · exact ⟨rfl, fun _ _ => rfl, rfl⟩

/-- A key that is issued changes no key that is there, and no account. -/
theorem step_issue (label rebateAddress : Option Json) (key : String) (now : Int) :
    (step sha256 treasury price enforce s (.issue label rebateAddress key now)).ledger =
        s.ledger ∧
      ∀ hash row, s.table hash = some row →
        (step sha256 treasury price enforce s (.issue label rebateAddress key now)).table hash =
          some row := by
  simp only [step, issueApiKey]
  split
  · exact ⟨rfl, fun _ _ h => h⟩
  · split
    · exact ⟨rfl, fun _ _ h => h⟩
    · split
      · exact ⟨rfl, fun _ _ h => h⟩
      · next hfree =>
          refine ⟨rfl, fun hash row hrow => ?_⟩
          have hne : hash ≠ sha256 key := by
            rintro rfl
            rw [hfree] at hrow
            cases hrow
          exact (Function.update_of_ne hne _ _).trans hrow

variable (sha256 treasury price enforce s) in
/-- A claim either changes nothing, or credits its payment, which is new, to the account
that it names. -/
theorem step_topup (chain : Chain) (presented : String) (txHash : Json) (now : Int) :
    step sha256 treasury price enforce s (.topup chain presented txHash now) = s ∨
      ∃ label hash usdMicros wei,
        billingLabel sha256 s.table presented = some label ∧ txHash = .str hash ∧
          step sha256 treasury price enforce s (.topup chain presented txHash now) =
            { s with ledger := (s.ledger.creditKey label usdMicros hash wei now).1 } := by
  simp only [step, topup]
  split
  · exact Or.inl rfl
  · split
    · exact Or.inl rfl
    · next label hlabel =>
        split
        · exact Or.inl rfl
        · split
          · next hash =>
              split
              · exact Or.inl rfl
              · next wei usdMicros _ =>
                  exact Or.inr ⟨label, hash, usdMicros, toString wei, hlabel, rfl, rfl⟩
          · exact Or.inl rfl

/-- What a credit does, whether it is taken or refused. -/
theorem creditKey_cases (ledger : KeyLedger) (credited hash wei : String) (usdMicros now : Int) :
    (∀ label, label ≠ credited →
        (ledger.creditKey credited usdMicros hash wei now).1.row label = ledger.row label) ∧
      ((ledger.creditKey credited usdMicros hash wei now).1.topups = ledger.topups ∨
        hash.toLower ∉ ledger.topups.map (·.txHash) ∧
          (ledger.creditKey credited usdMicros hash wei now).1.topups =
            ledger.topups ++ [⟨hash.toLower, credited, usdMicros, wei, now⟩]) := by
  by_cases hrefused : creditError credited usdMicros hash ≠ none ∨
      hash.toLower ∈ ledger.topups.map (·.txHash)
  · have hsame := fun other => creditKey_refused wei now hrefused other
    exact ⟨fun label _ => (hsame label).1, Or.inl (hsame "").2⟩
  · obtain ⟨hcheck, hnew⟩ := not_or.mp hrefused
    rw [not_not] at hcheck
    have htaken := fun other => creditKey_taken wei now hcheck hnew other
    refine ⟨fun label hne => ?_, Or.inr ⟨hnew, (htaken "").2⟩⟩
    rw [(htaken label).1, if_neg hne]

/-- **An operation leaves every account that it does not bill as it was.** -/
theorem step_other {op : Op} (hother : bills sha256 s op ≠ some label) :
    SameAccount s (step sha256 treasury price enforce s op) label := by
  cases op with
  | issue chosen rebateAddress key now =>
      refine sameAccount_of_row ?_
      rw [(step_issue chosen rebateAddress key now).1]
  | send r around now =>
      refine sameAccount_of_row ((step_send r around now).2.1 label ?_)
      rintro rfl
      exact hother rfl
  | topup chain presented txHash now =>
      rcases step_topup sha256 treasury price enforce s chain presented txHash now with
        hsame | ⟨credited, hash, usdMicros, wei, hnamed, -, hcredit⟩
      · rw [hsame]
        exact sameAccount_of_row rfl
      · rw [hcredit]
        refine sameAccount_of_row ((creditKey_cases _ credited hash wei usdMicros now).1 label ?_)
        rintro rfl
        exact hother hnamed

/-- A key that can be used stays as it is. -/
theorem step_key {op : Op} {key : String} {row : ApiKeyRow}
    (hkey : findApiKey sha256 s.table key = some row) :
    findApiKey sha256 (step sha256 treasury price enforce s op).table key = some row := by
  cases op with
  | issue chosen rebateAddress key' now =>
      unfold findApiKey at hkey ⊢
      cases hrow : s.table (sha256 key) with
      | none =>
          rw [hrow] at hkey
          cases hkey
      | some stored =>
          rw [(step_issue chosen rebateAddress key' now).2 _ _ hrow]
          rw [hrow] at hkey
          exact hkey
  | send r around now =>
      rw [(step_send r around now).1]
      exact hkey
  | topup chain presented txHash now =>
      rcases step_topup sha256 treasury price enforce s chain presented txHash now with
        hsame | ⟨credited, hash, usdMicros, wei, -, -, hcredit⟩
      · rw [hsame]
        exact hkey
      · rw [hcredit]
        exact hkey

variable (sha256 treasury price enforce s) in
/-- What an operation adds to the payments that have been credited. -/
theorem step_topups (op : Op) :
    (step sha256 treasury price enforce s op).ledger.topups = s.ledger.topups ∨
      ∃ chain presented hash now t, op = .topup chain presented (.str hash) now ∧
        billingLabel sha256 s.table presented = some t.label ∧ t.txHash = hash.toLower ∧
          t.txHash ∉ s.ledger.topups.map (·.txHash) ∧
          (step sha256 treasury price enforce s op).ledger.topups = s.ledger.topups ++ [t] := by
  cases op with
  | issue chosen rebateAddress key now =>
      rw [(step_issue chosen rebateAddress key now).1]
      exact Or.inl rfl
  | send r around now => exact Or.inl (step_send r around now).2.2
  | topup chain presented txHash now =>
      rcases step_topup sha256 treasury price enforce s chain presented txHash now with
        hsame | ⟨credited, hash, usdMicros, wei, hnamed, rfl, hcredit⟩
      · rw [hsame]
        exact Or.inl rfl
      · rw [hcredit]
        rcases (creditKey_cases s.ledger credited hash wei usdMicros now).2 with
          hnone | ⟨hnew, hadded⟩
        · exact Or.inl hnone
        · exact Or.inr ⟨chain, presented, hash, now, _, rfl, hnamed, rfl, hnew, hadded⟩

end Steps

/-! ### Over a run -/

section Runs

variable (sha256 : String → String) (treasury : String) (price : Int) (enforce : Bool)

/-- Where a payment that has been credited comes from: it was there, or a claim of it
named the account. -/
def Claimed (s : Host) (ops : List Op) (t : KeyTopup) : Prop :=
  t ∈ s.ledger.topups ∨ ∃ pre chain presented hash now post,
    ops = pre ++ .topup chain presented (.str hash) now :: post ∧
      billingLabel sha256 (run sha256 treasury price enforce s pre).table presented =
        some t.label ∧
      t.txHash = hash.toLower

variable {sha256 treasury price enforce}

theorem SameAccount.trans {s s' s'' : Host} {label : String} (h : SameAccount s s' label)
    (hthen : SameAccount s' s'' label) : SameAccount s s'' label where
  billing := hthen.billing.trans h.billing
  permission := fun price enforce => (hthen.permission price enforce).trans (h.permission _ _)

/-- A payment that is credited is a new one. -/
theorem step_unique {s : Host} (op : Op) (hunique : (s.ledger.topups.map (·.txHash)).Nodup) :
    ((step sha256 treasury price enforce s op).ledger.topups.map (·.txHash)).Nodup := by
  rcases step_topups sha256 treasury price enforce s op with
    hsame | ⟨-, -, -, -, t, -, -, -, hnew, hadded⟩
  · rw [hsame]
    exact hunique
  · rw [hadded, List.map_append, List.nodup_append]
    refine ⟨hunique, List.nodup_singleton _, fun h hh h' hh' => ?_⟩
    rw [List.map_singleton, List.mem_singleton] at hh'
    rintro rfl
    exact hnew (hh' ▸ hh)

/-- Where a payment comes from, seen one operation earlier. -/
theorem claimed_cons {s : Host} {op : Op} {ops : List Op} {t : KeyTopup}
    (h : Claimed sha256 treasury price enforce (step sha256 treasury price enforce s op) ops t) :
    Claimed sha256 treasury price enforce s (op :: ops) t := by
  rcases h with hthere | ⟨pre, chain, presented, hash, now, post, hsplit, hnamed⟩
  · rcases step_topups sha256 treasury price enforce s op with
      hsame | ⟨chain, presented, hash, now, t', rfl, hnamed, hhash, -, hadded⟩
    · rw [hsame] at hthere
      exact Or.inl hthere
    · rw [hadded] at hthere
      rcases List.mem_append.mp hthere with hold | hlast
      · exact Or.inl hold
      · rw [List.mem_singleton.mp hlast]
        exact Or.inr ⟨[], chain, presented, hash, now, ops, rfl, hnamed, hhash⟩
  · exact Or.inr ⟨op :: pre, chain, presented, hash, now, post, by rw [hsplit]; rfl, hnamed⟩

variable (sha256 treasury price enforce)

/-- **Accounts are apart by label.**  An account that no operation of a run bills is as it
was, with the permission to send, and every key is as it was; a payment is credited once,
to the account that a claim of it named. -/
theorem separate_labels (s : Host) (ops : List Op) (label : String)
    (hunique : (s.ledger.topups.map (·.txHash)).Nodup)
    (hother : ∀ pre op post, ops = pre ++ op :: post →
      bills sha256 (run sha256 treasury price enforce s pre) op ≠ some label) :
    SameAccount s (run sha256 treasury price enforce s ops) label ∧
      (∀ key row, findApiKey sha256 s.table key = some row →
        findApiKey sha256 (run sha256 treasury price enforce s ops).table key = some row) ∧
      ((run sha256 treasury price enforce s ops).ledger.topups.map (·.txHash)).Nodup ∧
      ∀ t ∈ (run sha256 treasury price enforce s ops).ledger.topups,
        Claimed sha256 treasury price enforce s ops t := by
  induction ops generalizing s with
  | nil => exact ⟨sameAccount_of_row rfl, fun _ _ h => h, hunique, fun t ht => Or.inl ht⟩
  | cons op ops ih =>
      obtain ⟨haccount, hkeys, hnodup, hclaimed⟩ :=
        ih (step sha256 treasury price enforce s op) (step_unique op hunique)
          fun pre op' post hsplit => hother (op :: pre) op' post (by rw [hsplit]; rfl)
      have hfirst : SameAccount s (step sha256 treasury price enforce s op) label :=
        step_other (hother [] op ops rfl)
      exact ⟨hfirst.trans haccount, fun key row hkey => hkeys key row (step_key hkey), hnodup,
        fun t ht => claimed_cons (hclaimed t ht)⟩

/-! ### Two keys with one label -/

def emptyHost : Host where
  table _ := none

/-- Someone has a key issued with the label "partner", and so has someone else. -/
def sharedHost : Host :=
  run id "" 10000 false emptyHost
    [.issue (some (.str "partner")) none "ordo_1" 0,
      .issue (some (.str "partner")) none "ordo_2" 0]

theorem issued_second :
    findApiKey id sharedHost.table "ordo_2" =
      some ⟨"partner", none, .direct, DEFAULT_KEY_RATE_LIMIT, 0⟩ := by
  decide +kernel

/-- A send with the first key is owed by the second. -/
theorem shared_label_owes :
    ¬ KeysApart id "" 10000 false sharedHost "ordo_1" "ordo_2"
      [.send plainSend (hopsWorld [publicHop]) 0] := by
  intro hapart
  have hsame := (hapart (by decide) (fun op hop => by
    rw [List.mem_singleton.mp hop]
    rfl) _ issued_second).billing
  have hledger : (run id "" 10000 false sharedHost
      [.send plainSend (hopsWorld [publicHop]) 0]).ledger =
        chargeAll 10000 0 {} ["partner"] := by
    rw [← chargedBy_plainSend]
    rfl
  rw [hledger] at hsame
  have howed := congrArg KeyBilling.owedUsdMicros hsame
  revert howed
  decide

/-- With labels that differ, it is not. -/
theorem separate_labels_sample :
    SameAccount emptyHost (run id "" 10000 false emptyHost
      [.issue (some (.str "other")) none "ordo_2" 0,
        .send plainSend (hopsWorld [publicHop]) 0]) "other" := by
  refine (separate_labels id "" 10000 false emptyHost _ "other" List.nodup_nil
    fun pre op post hsplit => ?_).1
  rcases pre with _ | ⟨op', pre⟩
  · obtain ⟨rfl, -⟩ := List.cons_eq_cons.mp hsplit
    simp [bills]
  · obtain ⟨-, hsplit'⟩ := List.cons_eq_cons.mp hsplit
    rcases pre with _ | ⟨op'', pre⟩
    · obtain ⟨rfl, -⟩ := List.cons_eq_cons.mp hsplit'
      simp [bills, plainSend, someKey]
    · obtain ⟨-, hsplit''⟩ := List.cons_eq_cons.mp hsplit'
      simp at hsplit''

end Runs

end LabelBilling

end Ordo
