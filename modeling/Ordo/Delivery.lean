import Mathlib.Algebra.BigOperators.Group.List.Basic
import Mathlib.Data.List.DropRight
import Mathlib.Order.Lattice
import Mathlib.Tactic.Common
import Ordo.BigIntText

/-!
# Proof of delivery

A transaction that a user is asked to sign is first simulated, between two rounds of
balance reads.  What the reads and the logs show decides whether it is offered.

Addresses and assets are texts, compared without regard to case; the asset `eth` is
ether.  An upstream is asked until one gives as many results as there were calls.
`approved_iff` says when the proof is `ok`.
-/

namespace Ordo

namespace Delivery

structure Expectation where
  asset : String
  min : Int
  deriving DecidableEq

structure Payment where
  asset : String
  max : Int
  deriving DecidableEq

structure Retention where
  holder : String
  asset : String
  deriving DecidableEq

/-- A black-hole transfer that is part of the design, bounded by `max`. -/
structure AllowedLeak where
  dst : String
  asset : String
  max : Int
  deriving DecidableEq

structure Approval where
  token : String
  spender : String
  amount : Nat
  deriving DecidableEq

structure DeliveryRequest where
  sender : String
  dst : String
  data : String
  value : Option Int
  approval : Option Approval
  expect : List Expectation
  pay : List Payment
  mustNotRetain : List Retention
  allowLeaks : List AllowedLeak
  deriving DecidableEq

structure Leak where
  dst : String
  asset : String
  amount : Int
  deriving DecidableEq

/-- An expected or a paid asset: what was measured, and its bound. -/
structure Measured where
  asset : String
  amount : Int
  bound : Int
  deriving DecidableEq

structure DeliveryProof where
  ok : Bool
  reason : Option String
  unavailable : Bool := false
  reverted : Option String := none
  received : List Measured := []
  paid : List Measured := []
  leaks : List Leak := []
  retained : List Leak := []
  gasUsed : Int := 0
  via : Option String := none
  deriving DecidableEq

def ZERO : String := "0x0000000000000000000000000000000000000000"

/-- Nothing sent here can ever be spent again. -/
def BLACKHOLES : List String :=
  [ ZERO,
    "0x0000000000000000000000000000000000000001",
    "0x0000000000000000000000000000000000000002",
    "0x0000000000000000000000000000000000000003",
    "0x0000000000000000000000000000000000000004",
    "0x0000000000000000000000000000000000000005",
    "0x0000000000000000000000000000000000000006",
    "0x0000000000000000000000000000000000000007",
    "0x0000000000000000000000000000000000000008",
    "0x0000000000000000000000000000000000000009",
    "0x000000000000000000000000000000000000000a",
    "0x000000000000000000000000000000000000dead" ]

def BALANCE_READER : String := "0x00000000000000000000000000000000000ba1a0"

def BALANCE_READER_CODE : String := "0x6004353160005260206000f3"

def BALANCE_OF_SELECTOR : String := "0x70a08231"

def TRANSFER_TOPIC : String :=
  "0xddf252ad1be2c89b69c2b068fc378daa952ba7f163c4a11628f55a4df523b3ef"

def APPROVE_SELECTOR : String := "0x095ea7b3"

section Request

/-- `n.toString(16)`. -/
def hexText (n : Nat) : List Char := Nat.toDigits 16 n

def padStart (digits : List Char) : String :=
  String.ofList (List.replicate (64 - digits.length) '0' ++ digits)

/-- An address as a word, without its `0x`. -/
def pad (v : String) : String :=
  match v.toLower.toList with
  | '0' :: 'x' :: rest => padStart rest
  | chars => padStart chars

def isEth (asset : String) : Bool := asset = "eth"

def sameAddr (a b : String) : Bool := a.toLower = b.toLower

structure SimCall where
  sender : Option String
  dst : String
  data : Option String
  value : Option String
  deriving DecidableEq

def balanceRead (holder asset : String) : SimCall :=
  if isEth asset then ⟨none, BALANCE_READER, some ("0x00000000" ++ pad holder), none⟩
  else ⟨none, asset, some (BALANCE_OF_SELECTOR ++ pad holder), none⟩

/-- A balance that is read before and after. -/
structure Tracked where
  key : String
  holder : String
  asset : String
  deriving DecidableEq

def trackKey (holder asset : String) : String :=
  holder.toLower ++ ":" ++ (if isEth asset then "eth" else asset.toLower)

/-- The map of tracked balances keeps the order in which its keys were first set. -/
def track (seen : List Tracked) (pair : String × String) : List Tracked :=
  let key := trackKey pair.1 pair.2
  if seen.any (·.key = key) then seen else seen ++ [⟨key, pair.1, pair.2⟩]

/-- The holders and assets to track: the sender's, those of the contracts that must
not retain, and the ether of the black holes. -/
def trackedPairs (req : DeliveryRequest) : List (String × String) :=
  req.expect.map (fun e => (req.sender, e.asset)) ++
    req.pay.map (fun p => (req.sender, p.asset)) ++
    req.mustNotRetain.map (fun r => (r.holder, r.asset)) ++
    BLACKHOLES.map fun h => (h, "eth")

def tracked (req : DeliveryRequest) : List Tracked := (trackedPairs req).foldl track []

def reads (req : DeliveryRequest) : List SimCall :=
  (tracked req).map fun t => balanceRead t.holder t.asset

def approvalCalls (req : DeliveryRequest) : List SimCall :=
  req.approval.toList.map fun a =>
    ⟨some req.sender, a.token,
      some (APPROVE_SELECTOR ++ pad a.spender ++ padStart (hexText a.amount)), none⟩

/-- The call that the user will sign; a value is named only when there is one. -/
def txCall (req : DeliveryRequest) : SimCall :=
  ⟨some req.sender, req.dst, some req.data,
    (req.value.filter (0 < ·)).map fun v => "0x" ++ String.ofList (hexText v.toNat)⟩

/-- Where the user's call stands: after the reads and the approval. -/
def txIndex (req : DeliveryRequest) : Nat := (reads req ++ approvalCalls req).length

def calls (req : DeliveryRequest) : List SimCall :=
  reads req ++ approvalCalls req ++ [txCall req] ++ reads req

/-- What `eth_simulateV1` is asked: the calls, under a reader's code and a balance
that covers any value. -/
structure SimParams where
  readerCode : String × String
  balance : String × String
  calls : List SimCall
  block : String
  deriving DecidableEq

def simParams (req : DeliveryRequest) : SimParams where
  readerCode := (BALANCE_READER, BALANCE_READER_CODE)
  balance := (req.sender, "0x3635c9adc5dea00000")
  calls := calls req
  block := "latest"

end Request

section Response

structure TxLog where
  address : String
  topics : Option (List String)
  data : Option String
  deriving DecidableEq

/-- The result of one call; any of its fields may be missing. -/
structure CallOut where
  status : Option String := none
  returnData : Option String := none
  gasUsed : Option String := none
  errorMessage : Option String := none
  logs : Option (List TxLog) := none
  deriving DecidableEq

/-- What comes of asking one upstream. -/
inductive Answer where
  | threw (message : String)
  | refused (message : String)
  | block (via : String) (calls : Option (List CallOut))
  deriving DecidableEq

/-- Every upstream there is, in the order in which they are asked. -/
abbrev Upstreams := SimParams → List Answer

/-- The first block with one result for each call, or the last error. -/
def usable (expected : Nat) : List Answer → String → Except String (String × List CallOut)
  | [], lastErr => .error lastErr
  | .threw message :: rest, _ => usable expected rest message
  | .refused message :: rest, _ => usable expected rest message
  | .block via (some result) :: rest, _ =>
      if result.length = expected then .ok (via, result)
      else usable expected rest "malformed simulation result"
  | .block _ none :: rest, _ => usable expected rest "malformed simulation result"

def callAt (result : List CallOut) (i : Nat) : CallOut := result.getD i {}

/-- Missing and empty data are read as zero. -/
def readWord (call : CallOut) : Except Thrown Int :=
  match call.returnData with
  | none => .ok 0
  | some d => if d = "" ∨ d = "0x" then .ok 0 else bigInt (d.toList.take 66)

/-- The two words read for a key. -/
structure Reading where
  key : String
  before : Int
  after : Int
  deriving DecidableEq

def readPairs (result : List CallOut) (offset : Nat) :
    Nat → List Tracked → Except Thrown (List Reading)
  | _, [] => .ok []
  | i, t :: ts => do
      let before ← readWord (callAt result i)
      let after ← readWord (callAt result (offset + i))
      let rest ← readPairs result offset (i + 1) ts
      return ⟨t.key, before, after⟩ :: rest

def readings (req : DeliveryRequest) (result : List CallOut) : Except Thrown (List Reading) :=
  readPairs result (txIndex req + 1) 0 (tracked req)

def delta (words : List Reading) (key : String) : Int :=
  match words.find? (·.key = key) with
  | some r => r.after - r.before
  | none => 0

/-- The parties of a `Transfer` log. -/
def TxLog.transfer (log : TxLog) : Option (String × String) :=
  let topics := log.topics.getD []
  if (topics.head?.getD "").toLower ≠ TRANSFER_TOPIC ∨ topics.length < 3 then none
  else
    let party (i : Nat) := "0x" ++ String.ofList ((topics.getD i "").toList.rtake 40)
    some (party 1, party 2)

def TxLog.amount (log : TxLog) : Except Thrown Int :=
  match log.data with
  | none => .ok 0
  | some d => if d = "" ∨ d = "0x" then .ok 0 else bigInt d.toList

/-- One transfer is within one allowance. -/
def allows (allowLeaks : List AllowedLeak) (dst asset : String) (amount : Int) : Bool :=
  allowLeaks.any fun a => sameAddr a.dst dst && sameAddr a.asset asset && amount ≤ a.max

/-- One round of the loop over the logs. -/
def leakOf (req : DeliveryRequest) (log : TxLog) : Except Thrown (Option Leak) :=
  match log.transfer with
  | none => .ok none
  | some (src, dst) =>
      -- burns to the zero address are how WETH withdraws
      if sameAddr dst ZERO then .ok none
      else if ¬ BLACKHOLES.any (sameAddr · dst) then .ok none
      -- a mint is the token's own design
      else if sameAddr src ZERO then .ok none
      else do
        let amount ← log.amount
        if amount = 0 then return none
        else if allows req.allowLeaks dst log.address amount then return none
        else return some ⟨dst, log.address, amount⟩

def tokenLeaks (req : DeliveryRequest) : List TxLog → Except Thrown (List Leak)
  | [] => .ok []
  | log :: logs => do
      let leak ← leakOf req log
      let rest ← tokenLeaks req logs
      return leak.toList ++ rest

def etherLeaks (words : List Reading) : List Leak :=
  (BLACKHOLES.map fun h => ⟨h, "eth", delta words (trackKey h "eth")⟩).filter (0 < ·.amount)

def received (req : DeliveryRequest) (words : List Reading) : List Measured :=
  req.expect.map fun e => ⟨e.asset, delta words (trackKey req.sender e.asset), e.min⟩

def paid (req : DeliveryRequest) (words : List Reading) : List Measured :=
  req.pay.map fun p => ⟨p.asset, -delta words (trackKey req.sender p.asset), p.max⟩

def retained (req : DeliveryRequest) (words : List Reading) : List Leak :=
  (req.mustNotRetain.map fun r =>
    ⟨r.holder, r.asset, delta words (trackKey r.holder r.asset)⟩).filter (0 < ·.amount)

end Response

section Verdict

def empty (reason : String) : DeliveryProof := { ok := false, reason := some reason }

def listed (leaks : List Leak) (place : String) : String :=
  ", ".intercalate
    (leaks.map fun l => toString l.amount ++ " of " ++ l.asset ++ place ++ l.dst)

/-- The first thing wrong with what was measured. -/
def complaint (leaks retained : List Leak) (received paid : List Measured) : Option String :=
  if leaks ≠ [] then some ("funds would be lost: " ++ listed leaks " to ")
  else
    match received.find? (fun r => r.amount < r.bound) with
    | some short =>
        some ("you would receive " ++ toString short.amount ++ " of " ++ short.asset ++
          ", less than the promised " ++ toString short.bound)
    | none =>
        match paid.find? (fun p => p.bound < p.amount) with
        | some excess =>
            some ("you would pay " ++ toString excess.amount ++ " of " ++ excess.asset ++
              ", more than the quoted " ++ toString excess.bound)
        | none =>
            if retained ≠ [] then some ("funds would be stuck: " ++ listed retained " in ")
            else none

def revertReason (out : CallOut) : String :=
  match out.errorMessage with
  | some message => message
  | none => (out.returnData.filter fun d => d ≠ "" ∧ d ≠ "0x").getD "reverted"

/-- The proof that a block with one result for each call gives. -/
def judge (req : DeliveryRequest) (via : String) (result : List CallOut) :
    Except Thrown DeliveryProof := do
  let txOut := callAt result (txIndex req)
  let gasUsed ← bigInt (txOut.gasUsed.getD "0x0").toList
  if txOut.status ≠ some "0x1" then
    let why := revertReason txOut
    return { empty ("the transaction would revert: " ++ why) with
      reverted := some why, gasUsed, via := some via }
  else if req.approval.isSome ∧ (callAt result (txIndex req - 1)).status ≠ some "0x1" then
    return { empty "the approval would revert" with gasUsed, via := some via }
  else
    let words ← readings req result
    let tokens ← tokenLeaks req (txOut.logs.getD [])
    let received := received req words
    let paid := paid req words
    let retained := retained req words
    let leaks := etherLeaks words ++ tokens
    let reason := complaint leaks retained received paid
    return {
      ok := reason.isNone
      reason
      received
      paid
      leaks
      retained
      gasUsed
      via := some via }

/-- The block that is judged, and the upstream it came from. -/
def response (req : DeliveryRequest) (upstreams : Upstreams) :
    Except String (String × List CallOut) :=
  usable (calls req).length (upstreams (simParams req)) "no upstream"

def proveDelivery (req : DeliveryRequest) (upstreams : Upstreams) :
    Except Thrown DeliveryProof :=
  match response req upstreams with
  | .error lastErr =>
      .ok { empty ("cannot verify this transaction right now (" ++ lastErr ++
          "); it was not built") with
        unavailable := true }
  | .ok (via, result) => judge req via result

/-- The proof is there and is `ok`. -/
def Approved (outcome : Except Thrown DeliveryProof) : Prop :=
  ∃ proof, outcome = .ok proof ∧ proof.ok = true

end Verdict

section Tracking

theorem track_keys_nodup {seen : List Tracked} (h : (seen.map (·.key)).Nodup)
    (pair : String × String) : ((track seen pair).map (·.key)).Nodup := by
  simp only [track]
  split
  · exact h
  · next hnew =>
      rw [List.map_append, List.nodup_append]
      have hfresh : trackKey pair.1 pair.2 ∉ seen.map (·.key) := by
        intro hmem
        obtain ⟨t, ht, hkey⟩ := List.mem_map.mp hmem
        exact hnew (List.any_eq_true.mpr ⟨t, ht, by simpa using hkey⟩)
      refine ⟨h, by simp, ?_⟩
      intro k hk k' hk' heq
      rw [List.map_cons, List.map_nil, List.mem_singleton] at hk'
      rw [heq, hk'] at hk
      exact hfresh hk

/-- What is tracked keeps its position. -/
theorem prefix_track (seen : List Tracked) (pair : String × String) :
    seen <+: track seen pair := by
  simp only [track]
  split
  · exact List.prefix_rfl
  · exact List.prefix_append _ _

theorem track_keyed {seen : List Tracked} (h : ∀ t ∈ seen, t.key = trackKey t.holder t.asset)
    (pair : String × String) : ∀ t ∈ track seen pair, t.key = trackKey t.holder t.asset := by
  simp only [track]
  split
  · exact h
  · intro t ht
    rcases List.mem_append.mp ht with ht | ht
    · exact h t ht
    · rw [List.mem_singleton.mp ht]

theorem track_has (seen : List Tracked) (pair : String × String) :
    ∃ t ∈ track seen pair, t.key = trackKey pair.1 pair.2 := by
  simp only [track]
  split
  · next hold =>
      obtain ⟨t, ht, hkey⟩ := List.any_eq_true.mp hold
      exact ⟨t, ht, by simpa using hkey⟩
  · exact ⟨_, List.mem_append_right _ (List.mem_singleton.mpr rfl), rfl⟩

theorem foldl_track_nodup (pairs : List (String × String)) :
    ∀ {seen : List Tracked}, (seen.map (·.key)).Nodup →
      ((pairs.foldl track seen).map (·.key)).Nodup := by
  induction pairs with
  | nil => exact fun h => h
  | cons pair pairs ih => exact fun h => ih (track_keys_nodup h pair)

theorem foldl_track_keyed (pairs : List (String × String)) :
    ∀ {seen : List Tracked}, (∀ t ∈ seen, t.key = trackKey t.holder t.asset) →
      ∀ t ∈ pairs.foldl track seen, t.key = trackKey t.holder t.asset := by
  induction pairs with
  | nil => exact fun h => h
  | cons pair pairs ih => exact fun h => ih (track_keyed h pair)

theorem prefix_foldl_track (pairs : List (String × String)) :
    ∀ seen : List Tracked, seen <+: pairs.foldl track seen := by
  induction pairs with
  | nil => exact fun seen => List.prefix_rfl
  | cons pair pairs ih =>
      exact fun seen => (prefix_track seen pair).trans (ih (track seen pair))

theorem foldl_track_has (pairs : List (String × String)) :
    ∀ (seen : List Tracked) {pair : String × String}, pair ∈ pairs →
      ∃ t ∈ pairs.foldl track seen, t.key = trackKey pair.1 pair.2 := by
  induction pairs with
  | nil =>
      intro seen pair hmem
      cases hmem
  | cons first pairs ih =>
      intro seen pair hmem
      rcases List.mem_cons.mp hmem with rfl | hmem
      · obtain ⟨t, ht, hkey⟩ := track_has seen pair
        exact ⟨t, (prefix_foldl_track pairs _).subset ht, hkey⟩
      · exact ih (track seen first) hmem

/-- Each key is tracked once. -/
theorem tracked_nodup (req : DeliveryRequest) : ((tracked req).map (·.key)).Nodup :=
  foldl_track_nodup (trackedPairs req) List.nodup_nil

theorem tracked_keyed {req : DeliveryRequest} {t : Tracked} (h : t ∈ tracked req) :
    t.key = trackKey t.holder t.asset :=
  foldl_track_keyed (trackedPairs req) (fun _ ht => absurd ht List.not_mem_nil) t h

/-- Every balance that a check asks for is tracked. -/
theorem tracked_has (req : DeliveryRequest) {pair : String × String}
    (h : pair ∈ trackedPairs req) : ∃ t ∈ tracked req, t.key = trackKey pair.1 pair.2 :=
  foldl_track_has (trackedPairs req) [] h

end Tracking

section Readings

variable {result : List CallOut} {offset : Nat}

/-- The reading of a tracked balance is that of its two positions. -/
theorem readPairs_get {ts : List Tracked} :
    ∀ {i : Nat} {words : List Reading}, readPairs result offset i ts = .ok words →
      (ts.map (·.key)).Nodup → ∀ {j : Nat} {t : Tracked}, ts[j]? = some t →
        ∃ r, words.find? (·.key = t.key) = some r ∧
          readWord (callAt result (i + j)) = .ok r.before ∧
          readWord (callAt result (offset + (i + j))) = .ok r.after := by
  induction ts with
  | nil =>
      intro i words h hnodup j t hj
      cases hj
  | cons first ts ih =>
      intro i words h hnodup j t hj
      simp only [readPairs, bind, Except.bind, pure, Except.pure] at h
      split at h
      · cases h
      next before hbefore =>
      split at h
      · cases h
      next after hafter =>
      split at h
      · cases h
      next rest hrest =>
      cases h
      rw [List.map_cons, List.nodup_cons] at hnodup
      cases j with
      | zero =>
          cases hj
          exact ⟨⟨first.key, before, after⟩, by simp, hbefore, hafter⟩
      | succ j =>
          obtain ⟨r, hfind, hb, ha⟩ := ih hrest hnodup.2 hj
          have hne : first.key ≠ t.key := by
            intro heq
            have hmem : t ∈ ts := List.mem_of_getElem? hj
            exact hnodup.1 (heq ▸ List.mem_map_of_mem hmem)
          have hshift : i + (j + 1) = i + 1 + j := by omega
          refine ⟨r, ?_, ?_, ?_⟩
          · rw [List.find?_cons_of_neg (by simpa using hne)]
            exact hfind
          · rw [hshift]
            exact hb
          · rw [hshift]
            exact ha

theorem readPairs_isOk {ts : List Tracked}
    (h : ∀ i, ∃ w, readWord (callAt result i) = .ok w) :
    ∀ i, ∃ words, readPairs result offset i ts = .ok words := by
  induction ts with
  | nil => exact fun i => ⟨[], rfl⟩
  | cons t ts ih =>
      intro i
      obtain ⟨before, hbefore⟩ := h i
      obtain ⟨after, hafter⟩ := h (offset + i)
      obtain ⟨rest, hrest⟩ := ih (i + 1)
      exact ⟨_, by simp only [readPairs, hbefore, hafter, hrest, bind, Except.bind]; rfl⟩

theorem readings_isOk (req : DeliveryRequest)
    (h : ∀ i, ∃ w, readWord (callAt result i) = .ok w) :
    ∃ words, readings req result = .ok words :=
  readPairs_isOk h 0

/-- What is measured of a tracked balance is the difference of its two reads. -/
theorem delta_eq {req : DeliveryRequest} {words : List Reading}
    (h : readings req result = .ok words) {pair : String × String}
    (hmem : pair ∈ trackedPairs req) :
    ∃ i t before after, (tracked req)[i]? = some t ∧ t.key = trackKey pair.1 pair.2 ∧
      readWord (callAt result i) = .ok before ∧
      readWord (callAt result (txIndex req + 1 + i)) = .ok after ∧
      delta words (trackKey pair.1 pair.2) = after - before := by
  obtain ⟨t, ht, hkey⟩ := tracked_has req hmem
  obtain ⟨i, hi⟩ := List.mem_iff_getElem?.mp ht
  obtain ⟨r, hfind, hb, ha⟩ := readPairs_get h (tracked_nodup req) hi
  rw [Nat.zero_add] at hb ha
  refine ⟨i, t, r.before, r.after, hi, hkey, hb, ha, ?_⟩
  rw [delta, ← hkey, hfind]

theorem mem_trackedPairs_expect (req : DeliveryRequest) (e : Expectation)
    (h : e ∈ req.expect) : (req.sender, e.asset) ∈ trackedPairs req := by
  simp only [trackedPairs, List.mem_append, List.mem_map]
  exact Or.inl (Or.inl (Or.inl ⟨e, h, rfl⟩))

theorem mem_trackedPairs_pay (req : DeliveryRequest) (p : Payment)
    (h : p ∈ req.pay) : (req.sender, p.asset) ∈ trackedPairs req := by
  simp only [trackedPairs, List.mem_append, List.mem_map]
  exact Or.inl (Or.inl (Or.inr ⟨p, h, rfl⟩))

theorem mem_trackedPairs_hole (req : DeliveryRequest) (hole : String)
    (h : hole ∈ BLACKHOLES) : (hole, "eth") ∈ trackedPairs req := by
  simp only [trackedPairs, List.mem_append, List.mem_map]
  exact Or.inr ⟨hole, h, rfl⟩

end Readings

section Acceptance

/-- What stands between a block and an `ok` proof. -/
structure Accepts (req : DeliveryRequest) (result : List CallOut) (words : List Reading) :
    Prop where
  gasUsed : ∃ gas, bigInt ((callAt result (txIndex req)).gasUsed.getD "0x0").toList = .ok gas
  status : (callAt result (txIndex req)).status = some "0x1"
  approval : req.approval.isSome → (callAt result (txIndex req - 1)).status = some "0x1"
  reads : readings req result = .ok words
  tokens : tokenLeaks req ((callAt result (txIndex req)).logs.getD []) = .ok []
  holes : ∀ h ∈ BLACKHOLES, delta words (trackKey h "eth") ≤ 0
  expected : ∀ e ∈ req.expect, e.min ≤ delta words (trackKey req.sender e.asset)
  quoted : ∀ p ∈ req.pay, -delta words (trackKey req.sender p.asset) ≤ p.max
  kept : ∀ r ∈ req.mustNotRetain, delta words (trackKey r.holder r.asset) ≤ 0

theorem complaint_eq_none {leaks retained : List Leak} {received paid : List Measured} :
    complaint leaks retained received paid = none ↔
      leaks = [] ∧ (∀ r ∈ received, r.bound ≤ r.amount) ∧
        (∀ p ∈ paid, p.amount ≤ p.bound) ∧ retained = [] := by
  have hshort : received.find? (fun r => r.amount < r.bound) = none ↔
      ∀ r ∈ received, r.bound ≤ r.amount := by
    simp [List.find?_eq_none]
  have hover : paid.find? (fun p => p.bound < p.amount) = none ↔
      ∀ p ∈ paid, p.amount ≤ p.bound := by
    simp [List.find?_eq_none]
  rw [← hshort, ← hover, complaint]
  by_cases hleaks : leaks = []
  · rw [if_neg (not_not_intro hleaks)]
    cases received.find? (fun r => r.amount < r.bound) with
    | some short => simp
    | none =>
        cases paid.find? (fun p => p.bound < p.amount) with
        | some excess => simp
        | none => simp [hleaks]
  · simp [hleaks]

/-- What was measured gives no complaint. -/
theorem complaint_measured {req : DeliveryRequest} {words : List Reading}
    {tokens : List Leak} :
    complaint (etherLeaks words ++ tokens) (retained req words) (received req words)
        (paid req words) = none ↔
      tokens = [] ∧ (∀ h ∈ BLACKHOLES, delta words (trackKey h "eth") ≤ 0) ∧
        (∀ e ∈ req.expect, e.min ≤ delta words (trackKey req.sender e.asset)) ∧
        (∀ p ∈ req.pay, -delta words (trackKey req.sender p.asset) ≤ p.max) ∧
        ∀ r ∈ req.mustNotRetain, delta words (trackKey r.holder r.asset) ≤ 0 := by
  have hholes : etherLeaks words = [] ↔
      ∀ h ∈ BLACKHOLES, delta words (trackKey h "eth") ≤ 0 := by
    simp [etherLeaks, List.filter_eq_nil_iff]
  have hkept : retained req words = [] ↔
      ∀ r ∈ req.mustNotRetain, delta words (trackKey r.holder r.asset) ≤ 0 := by
    simp [retained, List.filter_eq_nil_iff]
  have hexpected : (∀ r ∈ received req words, r.bound ≤ r.amount) ↔
      ∀ e ∈ req.expect, e.min ≤ delta words (trackKey req.sender e.asset) := by
    simp [received]
  have hquoted : (∀ p ∈ paid req words, p.amount ≤ p.bound) ↔
      ∀ p ∈ req.pay, -delta words (trackKey req.sender p.asset) ≤ p.max := by
    simp [paid]
  rw [complaint_eq_none, List.append_eq_nil_iff, hholes, hkept, hexpected, hquoted]
  tauto

/-- **When a block proves delivery.** -/
theorem approved_judge_iff (req : DeliveryRequest) (via : String) (result : List CallOut) :
    Approved (judge req via result) ↔ ∃ words, Accepts req result words := by
  constructor
  · rintro ⟨proof, h, hok⟩
    simp only [judge, bind, Except.bind, pure, Except.pure] at h
    split at h
    · cases h
    next gas hgas =>
    split at h
    · cases h
      cases hok
    next hstatus =>
    split at h
    · cases h
      cases hok
    next happroval =>
    split at h
    · cases h
    next words hwords =>
    split at h
    · cases h
    next tokens htokens =>
    cases h
    obtain ⟨rfl, hholes, hexpected, hquoted, hkept⟩ :=
      complaint_measured.mp (Option.isNone_iff_eq_none.mp hok)
    exact ⟨words,
      { gasUsed := ⟨gas, hgas⟩
        status := not_not.mp hstatus
        approval := fun ha => not_not.mp fun hne => happroval ⟨ha, hne⟩
        reads := hwords
        tokens := htokens
        holes := hholes
        expected := hexpected
        quoted := hquoted
        kept := hkept }⟩
  · rintro ⟨words, ha⟩
    obtain ⟨gas, hgas⟩ := ha.gasUsed
    have happroval : ¬ (req.approval.isSome = true ∧
        (callAt result (txIndex req - 1)).status ≠ some "0x1") :=
      fun hbad => hbad.2 (ha.approval hbad.1)
    have hnone := complaint_measured.mpr
      ⟨rfl, ha.holes, ha.expected, ha.quoted, ha.kept⟩
    simp only [Approved, judge, bind, Except.bind, pure, Except.pure, hgas, ha.reads, ha.tokens,
      if_neg (not_not_intro ha.status), if_neg happroval]
    exact ⟨_, rfl, by rw [hnone]; rfl⟩

theorem approved_iff (req : DeliveryRequest) (upstreams : Upstreams) :
    Approved (proveDelivery req upstreams) ↔
      ∃ via result, response req upstreams = .ok (via, result) ∧
        ∃ words, Accepts req result words := by
  cases h : response req upstreams with
  | error lastErr =>
      constructor
      · rintro ⟨proof, hproof, hok⟩
        simp only [proveDelivery, h] at hproof
        cases hproof
        cases hok
      · rintro ⟨via, result, hresult, _⟩
        cases hresult
  | ok answer =>
      obtain ⟨via, result⟩ := answer
      rw [proveDelivery, h]
      constructor
      · intro happroved
        exact ⟨via, result, rfl, (approved_judge_iff req via result).mp happroved⟩
      · rintro ⟨via', result', hresult, haccepts⟩
        cases hresult
        exact (approved_judge_iff req via result).mpr haccepts

/-- What a block is refused for. -/
inductive Refused (req : DeliveryRequest) (result : List CallOut) : Prop
  | gasUsed (e : Thrown)
      (h : bigInt ((callAt result (txIndex req)).gasUsed.getD "0x0").toList = .error e)
  | status (h : (callAt result (txIndex req)).status ≠ some "0x1")
  | approval (h : req.approval.isSome)
      (h' : (callAt result (txIndex req - 1)).status ≠ some "0x1")
  | reads (e : Thrown) (h : readings req result = .error e)
  | logs (e : Thrown)
      (h : tokenLeaks req ((callAt result (txIndex req)).logs.getD []) = .error e)
  | leak (leaks : List Leak)
      (h : tokenLeaks req ((callAt result (txIndex req)).logs.getD []) = .ok leaks)
      (h' : leaks ≠ [])
  | hole (words : List Reading) (h : readings req result = .ok words)
      (h' : ∃ h ∈ BLACKHOLES, 0 < delta words (trackKey h "eth"))
  | short (words : List Reading) (h : readings req result = .ok words)
      (h' : ∃ e ∈ req.expect, delta words (trackKey req.sender e.asset) < e.min)
  | excess (words : List Reading) (h : readings req result = .ok words)
      (h' : ∃ p ∈ req.pay, p.max < -delta words (trackKey req.sender p.asset))
  | stuck (words : List Reading) (h : readings req result = .ok words)
      (h' : ∃ r ∈ req.mustNotRetain, 0 < delta words (trackKey r.holder r.asset))

theorem refused_iff (req : DeliveryRequest) (result : List CallOut) :
    Refused req result ↔ ¬ ∃ words, Accepts req result words := by
  constructor
  · rintro hrefused ⟨words, ha⟩
    have same : ∀ {ws : List Reading}, readings req result = .ok ws → ws = words := by
      intro ws hws
      have heq := hws.symm.trans ha.reads
      cases heq
      rfl
    cases hrefused with
    | gasUsed e h =>
        obtain ⟨gas, hgas⟩ := ha.gasUsed
        cases h.symm.trans hgas
    | status h => exact h ha.status
    | approval h h' => exact h' (ha.approval h)
    | reads e h => cases h.symm.trans ha.reads
    | logs e h => cases h.symm.trans ha.tokens
    | leak leaks h h' =>
        cases h.symm.trans ha.tokens
        exact h' rfl
    | hole ws h h' =>
        obtain ⟨hole, hmem, hpos⟩ := h'
        rw [same h] at hpos
        exact absurd (ha.holes hole hmem) (by omega)
    | short ws h h' =>
        obtain ⟨e, hmem, hlt⟩ := h'
        rw [same h] at hlt
        exact absurd (ha.expected e hmem) (by omega)
    | excess ws h h' =>
        obtain ⟨p, hmem, hlt⟩ := h'
        rw [same h] at hlt
        exact absurd (ha.quoted p hmem) (by omega)
    | stuck ws h h' =>
        obtain ⟨r, hmem, hpos⟩ := h'
        rw [same h] at hpos
        exact absurd (ha.kept r hmem) (by omega)
  · intro hnot
    by_contra hrefused
    cases hwords : readings req result with
    | error e => exact hrefused (.reads e hwords)
    | ok words =>
        cases htokens : tokenLeaks req ((callAt result (txIndex req)).logs.getD []) with
        | error e => exact hrefused (.logs e htokens)
        | ok tokens =>
            apply hnot
            exact ⟨words,
              { gasUsed := by
                  cases hgas : bigInt
                      ((callAt result (txIndex req)).gasUsed.getD "0x0").toList with
                  | error e => exact absurd (.gasUsed e hgas) hrefused
                  | ok gas => exact ⟨gas, rfl⟩
                status := by
                  by_contra h
                  exact hrefused (.status h)
                approval := by
                  intro h
                  by_contra h'
                  exact hrefused (.approval h h')
                reads := hwords
                tokens := by
                  by_contra h
                  exact hrefused (.leak tokens htokens fun hnil => h (hnil ▸ htokens))
                holes := by
                  intro h hmem
                  by_contra hpos
                  exact hrefused (.hole words hwords ⟨h, hmem, by omega⟩)
                expected := by
                  intro e hmem
                  by_contra hlt
                  exact hrefused (.short words hwords ⟨e, hmem, by omega⟩)
                quoted := by
                  intro p hmem
                  by_contra hlt
                  exact hrefused (.excess words hwords ⟨p, hmem, by omega⟩)
                kept := by
                  intro r hmem
                  by_contra hpos
                  exact hrefused (.stuck words hwords ⟨r, hmem, by omega⟩) }⟩

end Acceptance

end Delivery

end Ordo
