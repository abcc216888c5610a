import Mathlib.Data.List.Perm.Basic
import Mathlib.Data.List.Sort
import Ordo.Words

/-!
# Auction receipts and their audit

An acknowledgement is the auctioneer's signature over one bid, a receipt its
signature over a whole auction.  `auditReceipt` is what a searcher runs with the
two in hand.

Receipts come from anywhere, so their fields are texts: an id, an address and an
amount are read here as the program reads them, and a text that cannot be read
makes the message unsignable.  Recovering a signer is left to `recover`, a
function of the typed message and the signature.
-/

namespace Ordo

/-- The letters of forty hex digits: all small, as the checksum wants them, or
some other mixture, which is not read as an address. -/
inductive Casing where
  | lower
  | checksum
  | mixed (capitals : Nat)
  deriving DecidableEq

/-- A text where an address is expected. -/
inductive AddressText where
  | digits (account : Address) (casing : Casing)
  | other (text : String)
  deriving DecidableEq

namespace AddressText

def toLowerCase : AddressText → AddressText
  | digits a _ => digits a .lower
  | other text => other text.toLower

/-- The account that a text stands for in a message. -/
def account? : AddressText → Option Address
  | digits a .lower => some a
  | digits a .checksum => some a
  | digits _ (.mixed _) => none
  | other _ => none

/-- The text of an account that a signature recovers to. -/
def ofAccount (a : Address) : AddressText := digits a .checksum

def zeroAddress : AddressText := digits 0 .lower

/-- `winner && winner !== ZERO_ADDRESS`; the zero address has no letters. -/
def named : Option AddressText → Bool
  | none => false
  | some (other text) => text ≠ ""
  | some (digits a _) => a ≠ 0

theorem lower_of_account {s : AddressText} {a : Address} (h : s.account? = some a) :
    s.toLowerCase = digits a .lower := by
  match s, h with
  | digits _ .lower, h => cases h; rfl
  | digits _ .checksum, h => cases h; rfl

/-- Texts of accounts are equal up to case when the accounts are. -/
theorem lower_eq_iff {s t : AddressText} {a b : Address} (hs : s.account? = some a)
    (ht : t.account? = some b) : s.toLowerCase = t.toLowerCase ↔ a = b := by
  rw [lower_of_account hs, lower_of_account ht]
  simp

@[simp] theorem account_ofAccount (a : Address) : (ofAccount a).account? = some a := rfl

end AddressText

/-- An auction's id: a word in hex digits, or a name such as a uuid. -/
inductive IdText where
  | word (w : Bytes32)
  | name (text : String)
  deriving DecidableEq

namespace IdText

def toLowerCase : IdText → IdText
  | word w => word w
  | name text => name text.toLower

/-- The word that a text stands for in a message. -/
def word? : IdText → Option Bytes32
  | word w => some w
  | name _ => none

end IdText

def hexDigit (c : Char) : Option Nat :=
  if '0' ≤ c ∧ c ≤ '9' then some (c.toNat - '0'.toNat)
  else if 'a' ≤ c ∧ c ≤ 'f' then some (c.toNat - 'a'.toNat + 10)
  else if 'A' ≤ c ∧ c ≤ 'F' then some (c.toNat - 'A'.toNat + 10)
  else none

/-- Auction ids are uuids; the signed form is a bytes32, padded on the right. -/
def opportunityIdToBytes32 : IdText → IdText
  | .word w => .word w
  | .name text =>
      let digits := text.toList.filter (· ≠ '-')
      match digits.mapM hexDigit with
      | some ds =>
          if ds.length ≤ 64 then
            .word (Fin.ofNat _ (ds.foldl (fun n d => 16 * n + d) 0 * 16 ^ (64 - ds.length)))
          else .name ("0x" ++ String.ofList digits)
      | none => .name ("0x" ++ String.ofList (digits ++ List.replicate (64 - digits.length) '0'))

/-- What `BigInt` reads in a text, if it can. -/
abbrev Numeral := Option Int

/-- An integer of a message: it has to fit. -/
def uint (bits : Nat) (n : Int) : Option Nat :=
  if 0 ≤ n ∧ n < 2 ^ bits then some n.toNat else none

structure ReceiptBid where
  searcher : AddressText
  bidWei : Numeral
  receivedAt : Int
  /-- The searcher's signature over the settlement contract's bid. -/
  bidSig : Option Bytes
  deriving DecidableEq

structure BidAck where
  opportunityId : IdText
  searcher : AddressText
  bidWei : Numeral
  receivedAt : Int
  signature : Bytes
  deriving DecidableEq

structure AuctionReceipt where
  opportunityId : IdText
  /-- In the order received. -/
  bids : List ReceiptBid
  winner : Option AddressText
  clearingPriceWei : Numeral
  closedAt : Int
  signature : Option Bytes
  deriving DecidableEq

/-- What is signed: the typed messages with their domains. -/
inductive TypedData where
  | BidAck (chainId : Nat) (opportunityId : Bytes32) (searcher : Address)
      (bidWei receivedAt : Nat)
  | Receipt (chainId : Nat) (opportunityId bidsHash : Bytes32) (winner : Address)
      (clearingPriceWei closedAt : Nat)
  | Bid (chainId : Nat) (settlement searcher : Address) (opportunityId : Bytes32)
      (maxAmountWei : Nat)
  deriving DecidableEq

section Messages

variable (keccak : Bytes → Bytes32)

/-- The bid list as an ordered vector: three arrays, behind their offsets. -/
def hashBids (bids : List ReceiptBid) : Option Bytes32 :=
  if bids.length = 0 then some (keccak [])
  else do
    let searchers ← bids.mapM (·.searcher.account?)
    let amounts ← bids.mapM fun b => b.bidWei.bind (uint 256)
    let times ← bids.mapM fun b => uint 64 b.receivedAt
    let n := bids.length
    return keccak (abiEncode ([96, 96 + 32 * (n + 1), 96 + 64 * (n + 1)] ++
      n :: searchers.map Fin.val ++ n :: amounts ++ n :: times))

def ackMessage (chainId : Nat) (ack : BidAck) : Option TypedData := do
  let opportunityId ← (opportunityIdToBytes32 ack.opportunityId).word?
  let searcher ← ack.searcher.account?
  let bidWei ← ack.bidWei.bind (uint 256)
  let receivedAt ← uint 64 ack.receivedAt
  return .BidAck chainId opportunityId searcher bidWei receivedAt

def receiptMessage (chainId : Nat) (receipt : AuctionReceipt) : Option TypedData := do
  let opportunityId ← (opportunityIdToBytes32 receipt.opportunityId).word?
  let bidsHash ← hashBids keccak receipt.bids
  let winner ← (receipt.winner.getD AddressText.zeroAddress).account?
  let clearingPriceWei ← receipt.clearingPriceWei.bind (uint 256)
  let closedAt ← uint 64 receipt.closedAt
  return .Receipt chainId opportunityId bidsHash winner clearingPriceWei closedAt

/-- The struct that the settlement contract verifies before it debits a bond. -/
def bidMessage (chainId : Nat) (settlement : Address) (opportunityId : IdText)
    (bid : ReceiptBid) : Option TypedData := do
  let searcher ← bid.searcher.account?
  let opportunityId ← (opportunityIdToBytes32 opportunityId).word?
  let maxAmountWei ← bid.bidWei.bind (uint 256)
  return .Bid chainId settlement searcher opportunityId maxAmountWei

end Messages

/-- How an engine orders an array of amounts with the comparator
`b > a ? 1 : -1`: descending, equal amounts in any order.  It sees nothing but
the amounts. -/
structure Engine where
  order : List Int → List Nat
  perm : ∀ amounts, (order amounts).Perm (List.range amounts.length)
  descending : ∀ amounts,
    ((order amounts).filterMap (amounts[·]?)).Pairwise (fun a b => b ≤ a)

/-- `[...xs].sort(..)` by amount. -/
def Engine.sorted {α : Type*} (engine : Engine) (amount : α → Int) (xs : List α) : List α :=
  (engine.order (xs.map amount)).filterMap (xs[·]?)

/-- An engine that sorts by insertion. -/
def Engine.insertion : Engine where
  order amounts := (List.range amounts.length).insertionSort
    fun i j => amounts.getD j 0 ≤ amounts.getD i 0
  perm amounts := List.perm_insertionSort _ _
  descending amounts := by
    have htotal : Std.Total fun i j => amounts.getD j 0 ≤ amounts.getD i 0 :=
      ⟨fun i j => Int.le_total _ _⟩
    have htrans : IsTrans Nat fun i j => amounts.getD j 0 ≤ amounts.getD i 0 :=
      ⟨fun i j k hij hjk => hjk.trans hij⟩
    refine List.pairwise_filterMap.mpr ?_
    refine (List.pairwise_insertionSort _ (List.range amounts.length)).imp ?_
    intro i j hle a ha b hb
    simpa [List.getD_eq_getElem?_getD, ha, hb] using hle

/-- Why an audit fails. -/
inductive Fault where
  | otherOpportunity
  | malformed
  | receiptSigner (signer : Address)
  | ackSigner (signer : Address)
  | missing
  | altered (acknowledged listed : Int)
  | noSignature (searcher : AddressText)
  | malformedSignature (searcher : AddressText)
  | signedBy (searcher : AddressText) (signer : Address)
  | winnerWithoutBids
  | noWinner
  | notHighest (winner : AddressText)
  | clearingPrice (published expected : Int)
  /-- An exception that the audit does not catch. -/
  | threw
  deriving DecidableEq

/-- `throw` unless there is a value. -/
def orFault {α : Type*} (fault : Fault) : Option α → Except Fault α
  | some a => .ok a
  | none => .error fault

section Audit

variable (keccak : Bytes → Bytes32) (recover : TypedData → Bytes → Option Address)
  (engine : Engine)

def recoverAckSigner (chainId : Nat) (ack : BidAck) : Option Address := do
  recover (← ackMessage chainId ack) ack.signature

def recoverReceiptSigner (chainId : Nat) (receipt : AuctionReceipt) : Option Address := do
  let signature ← receipt.signature
  recover (← receiptMessage keccak chainId receipt) signature

/-- One listed bid must carry its own searcher's signature. -/
def auditBid (chainId : Nat) (settlement : Address) (opportunityId : IdText)
    (bid : ReceiptBid) : Except Fault Unit := do
  let bidSig ← orFault (.noSignature bid.searcher) bid.bidSig
  let signer ← orFault (.malformedSignature bid.searcher)
    ((bidMessage chainId settlement opportunityId bid).bind fun m => recover m bidSig)
  if (AddressText.ofAccount signer).toLowerCase ≠ bid.searcher.toLowerCase then
    .error (.signedBy bid.searcher signer)
  else .ok ()

def auditBidAuthenticity (chainId : Nat) (settlement : Address) (receipt : AuctionReceipt) :
    Except Fault Unit :=
  receipt.bids.forM (auditBid recover chainId settlement receipt.opportunityId)

/-- The highest bidder wins, at the second-highest bid, or its own if that was
the only one. -/
def secondPrice {α : Type*} (amount : α → Int) : List α → Option (α × Int)
  | [] => none
  | [highest] => some (highest, amount highest)
  | highest :: second :: _ => some (highest, amount second)

/-- Second-price arithmetic, checkable from the receipt alone. -/
def auditClearingPrice (receipt : AuctionReceipt) : Except Fault Unit :=
  if receipt.bids.length = 0 then
    if AddressText.named receipt.winner then .error .winnerWithoutBids else .ok ()
  else do
    let amounts ← orFault .threw (receipt.bids.mapM (·.bidWei))
    let sorted := engine.sorted Prod.snd (receipt.bids.zip amounts)
    let (highest, expected) ← orFault .threw (secondPrice Prod.snd sorted)
    match receipt.winner with
    | none => .error .noWinner
    | some winner =>
        if AddressText.named receipt.winner = false then .error .noWinner
        else if winner.toLowerCase ≠ highest.1.searcher.toLowerCase then
          .error (.notHighest winner)
        else do
          let published ← orFault .threw receipt.clearingPriceWei
          if published ≠ expected then .error (.clearingPrice published expected) else .ok ()

/-- The check a searcher runs: does the receipt honour the acknowledgement, and
is its arithmetic right?  The settlement contract is optional. -/
def auditReceipt (receipt : AuctionReceipt) (ack : BidAck) (chainId : Nat)
    (expectedAuctioneer : AddressText) (settlement : Option Address) : Except Fault Unit :=
  if receipt.opportunityId.toLowerCase ≠ ack.opportunityId.toLowerCase then
    .error .otherOpportunity
  else do
    let receiptSigner ← orFault .malformed (recoverReceiptSigner keccak recover chainId receipt)
    let ackSigner ← orFault .malformed (recoverAckSigner recover chainId ack)
    if (AddressText.ofAccount receiptSigner).toLowerCase ≠ expectedAuctioneer.toLowerCase then
      .error (.receiptSigner receiptSigner)
    else if (AddressText.ofAccount ackSigner).toLowerCase ≠ expectedAuctioneer.toLowerCase then
      .error (.ackSigner ackSigner)
    else do
      let mine ← orFault .missing
        (receipt.bids.find? fun b => b.searcher.toLowerCase = ack.searcher.toLowerCase)
      let listed ← orFault .threw mine.bidWei
      let acknowledged ← orFault .threw ack.bidWei
      if listed ≠ acknowledged then .error (.altered acknowledged listed)
      else do
        match settlement with
        | some settlement => auditBidAuthenticity recover chainId settlement receipt
        | none => .ok ()
        auditClearingPrice engine receipt

end Audit

/-- The second price of mapped bids. -/
theorem secondPrice_map {α β : Type*} (f : α → β) (amount : β → Int) (xs : List α) :
    secondPrice amount (xs.map f) =
      (secondPrice (amount ∘ f) xs).map fun p => (f p.1, p.2) := by
  match xs with
  | [] => rfl
  | [_] => rfl
  | _ :: _ :: _ => rfl

/-! ### Messages that can be signed -/

/-- A list that could be read, beside what was read. -/
theorem mapM_zip {α β : Type} {f : α → Option β} {xs : List α} {ys : List β}
    (h : xs.mapM f = some ys) :
    ys.length = xs.length ∧ ∀ p ∈ xs.zip ys, f p.1 = some p.2 := by
  induction xs generalizing ys with
  | nil =>
      cases h
      simp
  | cons x xs ih =>
      simp only [List.mapM_cons, Option.bind_eq_bind, Option.bind_eq_some_iff] at h
      obtain ⟨y, hy, rest, hrest, hys⟩ := h
      cases hys
      obtain ⟨hlength, hall⟩ := ih hrest
      refine ⟨by simp [hlength], fun p hp => ?_⟩
      rcases List.mem_cons.mp hp with rfl | hp
      · exact hy
      · exact hall p hp

theorem mapM_mem {α β : Type} {f : α → Option β} {xs : List α} {ys : List β}
    (h : xs.mapM f = some ys) {x : α} (hx : x ∈ xs) : ∃ y, f x = some y := by
  obtain ⟨hlength, hall⟩ := mapM_zip h
  have hfst : (xs.zip ys).map Prod.fst = xs := List.map_fst_zip (by omega)
  rw [← hfst] at hx
  obtain ⟨p, hp, rfl⟩ := List.mem_map.mp hx
  exact ⟨p.2, hall p hp⟩

theorem uint_eq_some {bits : Nat} {n : Int} {m : Nat} :
    uint bits n = some m ↔ n = m ∧ m < 2 ^ bits := by
  rw [uint, Option.ite_none_right_eq_some, Option.some.injEq]
  constructor
  · intro ⟨⟨hpos, hlt⟩, hm⟩
    rw [← hm]
    exact ⟨(Int.toNat_of_nonneg hpos).symm, (Int.toNat_lt hpos).mpr (by exact_mod_cast hlt)⟩
  · intro ⟨hn, hlt⟩
    rw [hn]
    exact ⟨⟨Int.natCast_nonneg m, by exact_mod_cast hlt⟩, Int.toNat_natCast m⟩

theorem bidMessage_eq_some {chainId : Nat} {settlement : Address} {id : IdText}
    {bid : ReceiptBid} {message : TypedData} :
    bidMessage chainId settlement id bid = some message ↔
      ∃ searcher opportunityId wei, bid.searcher.account? = some searcher ∧
        (opportunityIdToBytes32 id).word? = some opportunityId ∧
        bid.bidWei.bind (uint 256) = some wei ∧
        message = .Bid chainId settlement searcher opportunityId wei := by
  simp only [bidMessage, Option.bind_eq_bind, Option.bind_eq_some_iff, pure, Option.some.injEq]
  constructor
  · rintro ⟨searcher, hsearcher, opportunityId, hid, wei, hwei, rfl⟩
    exact ⟨searcher, opportunityId, wei, hsearcher, hid, hwei, rfl⟩
  · rintro ⟨searcher, opportunityId, wei, hsearcher, hid, hwei, rfl⟩
    exact ⟨searcher, hsearcher, opportunityId, hid, wei, hwei, rfl⟩

/-- A list of bids that can be hashed: each searcher is an account, and amounts
and times fit. -/
theorem hashBids_mem {keccak : Bytes → Bytes32} {bids : List ReceiptBid} {hash : Bytes32}
    (h : hashBids keccak bids = some hash) {bid : ReceiptBid} (hbid : bid ∈ bids) :
    ∃ searcher wei receivedAt, bid.searcher.account? = some searcher ∧
      bid.bidWei.bind (uint 256) = some wei ∧ uint 64 bid.receivedAt = some receivedAt := by
  have hlength : bids.length ≠ 0 := by
    have hne := List.ne_nil_of_mem hbid
    simpa using hne
  rw [hashBids, if_neg hlength] at h
  obtain ⟨searchers, hsearchers, h⟩ := Option.bind_eq_some_iff.mp h
  obtain ⟨amounts, hamounts, h⟩ := Option.bind_eq_some_iff.mp h
  obtain ⟨times, htimes, -⟩ := Option.bind_eq_some_iff.mp h
  obtain ⟨searcher, hsearcher⟩ := mapM_mem hsearchers hbid
  obtain ⟨wei, hwei⟩ := mapM_mem hamounts hbid
  obtain ⟨receivedAt, htime⟩ := mapM_mem htimes hbid
  exact ⟨searcher, wei, receivedAt, hsearcher, hwei, htime⟩

theorem ackMessage_eq_some {chainId : Nat} {ack : BidAck} {message : TypedData} :
    ackMessage chainId ack = some message ↔
      ∃ opportunityId searcher wei receivedAt,
        (opportunityIdToBytes32 ack.opportunityId).word? = some opportunityId ∧
        ack.searcher.account? = some searcher ∧ ack.bidWei.bind (uint 256) = some wei ∧
        uint 64 ack.receivedAt = some receivedAt ∧
        message = .BidAck chainId opportunityId searcher wei receivedAt := by
  simp only [ackMessage, Option.bind_eq_bind, Option.bind_eq_some_iff, pure, Option.some.injEq]
  constructor
  · rintro ⟨opportunityId, hid, searcher, hsearcher, wei, hwei, receivedAt, htime, rfl⟩
    exact ⟨opportunityId, searcher, wei, receivedAt, hid, hsearcher, hwei, htime, rfl⟩
  · rintro ⟨opportunityId, searcher, wei, receivedAt, hid, hsearcher, hwei, htime, rfl⟩
    exact ⟨opportunityId, hid, searcher, hsearcher, wei, hwei, receivedAt, htime, rfl⟩

theorem receiptMessage_eq_some {keccak : Bytes → Bytes32} {chainId : Nat}
    {receipt : AuctionReceipt} {message : TypedData} :
    receiptMessage keccak chainId receipt = some message ↔
      ∃ opportunityId bidsHash winner price closedAt,
        (opportunityIdToBytes32 receipt.opportunityId).word? = some opportunityId ∧
        hashBids keccak receipt.bids = some bidsHash ∧
        (receipt.winner.getD AddressText.zeroAddress).account? = some winner ∧
        receipt.clearingPriceWei.bind (uint 256) = some price ∧
        uint 64 receipt.closedAt = some closedAt ∧
        message = .Receipt chainId opportunityId bidsHash winner price closedAt := by
  simp only [receiptMessage, Option.bind_eq_bind, Option.bind_eq_some_iff, pure,
    Option.some.injEq]
  constructor
  · rintro ⟨opportunityId, hid, bidsHash, hbids, winner, hwinner, price, hprice, closedAt,
      hclosed, rfl⟩
    exact ⟨opportunityId, bidsHash, winner, price, closedAt, hid, hbids, hwinner, hprice,
      hclosed, rfl⟩
  · rintro ⟨opportunityId, bidsHash, winner, price, closedAt, hid, hbids, hwinner, hprice,
      hclosed, rfl⟩
    exact ⟨opportunityId, hid, bidsHash, hbids, winner, hwinner, price, hprice, closedAt,
      hclosed, rfl⟩

/-! ### What a passed check says -/

theorem orFault_eq_ok {α : Type*} {fault : Fault} {o : Option α} {a : α} :
    orFault fault o = .ok a ↔ o = some a := by
  cases o <;> simp [orFault]

/-- A step that has a value is taken. -/
theorem orFault_bind_eq_ok {α β : Type} {fault : Fault} {o : Option α}
    {k : α → Except Fault β} {b : β} :
    (orFault fault o >>= k) = .ok b ↔ ∃ a, o = some a ∧ k a = .ok b := by
  cases o with
  | none => simp [orFault, bind, Except.bind]
  | some a => simp [orFault, bind, Except.bind]

theorem unit_bind_eq_ok {x y : Except Fault Unit} :
    (x >>= fun _ => y) = .ok () ↔ x = .ok () ∧ y = .ok () := by
  cases x <;> simp [bind, Except.bind]

theorem unless_eq_ok {c : Prop} [Decidable c] {fault : Fault} {x : Except Fault Unit} :
    (if c then .error fault else x) = .ok () ↔ ¬ c ∧ x = .ok () := by
  split <;> simp [*]

namespace Engine

variable (engine : Engine) {α β : Type*}

/-- Sorting loses and invents nothing. -/
theorem sorted_perm (amount : α → Int) (xs : List α) : (engine.sorted amount xs).Perm xs := by
  have hrange : (List.range xs.length).filterMap (xs[·]?) = xs := by
    induction xs with
    | nil => rfl
    | cons x xs ih => simpa [List.range_succ_eq_map, List.filterMap_map] using ih
  have hperm := (engine.perm (xs.map amount)).filterMap (xs[·]?)
  rwa [List.length_map, hrange] at hperm

/-- Sorting commutes with a map that keeps the amounts. -/
theorem sorted_map {f : α → β} {amount : α → Int} {amount' : β → Int}
    (h : ∀ a, amount' (f a) = amount a) (xs : List α) :
    (engine.sorted amount xs).map f = engine.sorted amount' (xs.map f) := by
  have hamounts : (xs.map f).map amount' = xs.map amount := by simp [h]
  rw [sorted, sorted, hamounts, List.map_filterMap]
  refine congrArg (List.filterMap · _) (funext fun i => ?_)
  rw [List.getElem?_map]

/-- The amounts come out descending. -/
theorem sorted_descending (amount : α → Int) (xs : List α) :
    (engine.sorted amount xs).Pairwise fun a b => amount b ≤ amount a := by
  have hsorted := engine.descending (xs.map amount)
  have hmap : (engine.sorted amount xs).map amount =
      (engine.order (xs.map amount)).filterMap ((xs.map amount)[·]?) := by
    rw [sorted, List.map_filterMap]
    refine congrArg (List.filterMap · _) (funext fun i => ?_)
    rw [List.getElem?_map]
  rw [← hmap] at hsorted
  exact List.pairwise_map.mp hsorted

end Engine

section Passed

variable {keccak : Bytes → Bytes32} {recover : TypedData → Bytes → Option Address}
  {engine : Engine} {chainId : Nat} {settlement : Address} {receipt : AuctionReceipt}

/-- The searcher's own signature is on a bid. -/
def Authentic (recover : TypedData → Bytes → Option Address) (chainId : Nat)
    (settlement : Address) (opportunityId : IdText) (bid : ReceiptBid) : Prop :=
  ∃ signature message signer, bid.bidSig = some signature ∧
    bidMessage chainId settlement opportunityId bid = some message ∧
    recover message signature = some signer ∧
    bid.searcher.account? = some signer

theorem auditBid_eq_ok {opportunityId : IdText} {bid : ReceiptBid} :
    auditBid recover chainId settlement opportunityId bid = .ok () ↔
      Authentic recover chainId settlement opportunityId bid := by
  unfold auditBid Authentic
  simp only [orFault_bind_eq_ok, unless_eq_ok, not_not, Option.bind_eq_some_iff]
  constructor
  · rintro ⟨signature, hsig, signer, ⟨message, hmessage, hrecover⟩, hsame, -⟩
    refine ⟨signature, message, signer, hsig, hmessage, hrecover, ?_⟩
    -- the message could be built, so the searcher is an account
    obtain ⟨account, haccount, -⟩ := Option.bind_eq_some_iff.mp hmessage
    rw [haccount, (AddressText.lower_eq_iff rfl haccount).mp hsame]
  · rintro ⟨signature, message, signer, hsig, hmessage, hrecover, haccount⟩
    exact ⟨signature, hsig, signer, ⟨message, hmessage, hrecover⟩,
      (AddressText.lower_eq_iff rfl haccount).mpr rfl, trivial⟩

theorem auditBidAuthenticity_eq_ok :
    auditBidAuthenticity recover chainId settlement receipt = .ok () ↔
      ∀ bid ∈ receipt.bids,
        Authentic recover chainId settlement receipt.opportunityId bid := by
  simp only [auditBidAuthenticity, forM_eq_ok, auditBid_eq_ok]

/-- A receipt with bids has the right arithmetic. -/
theorem auditClearingPrice_eq_ok (hbids : receipt.bids ≠ []) :
    auditClearingPrice engine receipt = .ok () ↔
      ∃ amounts, receipt.bids.mapM (·.bidWei) = some amounts ∧
        ∃ highest price, secondPrice Prod.snd
            (engine.sorted Prod.snd (receipt.bids.zip amounts)) = some (highest, price) ∧
          ∃ winner, receipt.winner = some winner ∧ AddressText.named (some winner) = true ∧
            winner.toLowerCase = highest.1.searcher.toLowerCase ∧
            receipt.clearingPriceWei = some price := by
  have hlength : receipt.bids.length ≠ 0 := by simpa using hbids
  rw [auditClearingPrice, if_neg hlength, orFault_bind_eq_ok]
  refine exists_congr fun amounts => and_congr_right fun _ => ?_
  rw [orFault_bind_eq_ok]
  rw [Prod.exists]
  refine exists_congr fun highest => exists_congr fun price => and_congr_right fun _ => ?_
  cases receipt.winner with
  | none => simp
  | some winner =>
      simp only [unless_eq_ok, orFault_bind_eq_ok, not_not, Bool.not_eq_false,
        Option.some.injEq, exists_eq_left']
      refine and_congr_right fun _ => and_congr_right fun _ =>
        ⟨?_, fun h => ⟨price, h, rfl, trivial⟩⟩
      rintro ⟨published, h, rfl, -⟩
      exact h

/-- What a passed audit says. -/
theorem auditReceipt_eq_ok {ack : BidAck} {auctioneer : AddressText}
    {contract : Option Address} :
    auditReceipt keccak recover engine receipt ack chainId auctioneer contract = .ok () ↔
      receipt.opportunityId.toLowerCase = ack.opportunityId.toLowerCase ∧
      (∃ signer, recoverReceiptSigner keccak recover chainId receipt = some signer ∧
        (AddressText.ofAccount signer).toLowerCase = auctioneer.toLowerCase) ∧
      (∃ signer, recoverAckSigner recover chainId ack = some signer ∧
        (AddressText.ofAccount signer).toLowerCase = auctioneer.toLowerCase) ∧
      (∃ mine wei, (receipt.bids.find? fun b =>
          b.searcher.toLowerCase = ack.searcher.toLowerCase) = some mine ∧
        mine.bidWei = some wei ∧ ack.bidWei = some wei) ∧
      (∀ settlement, contract = some settlement → ∀ bid ∈ receipt.bids,
        Authentic recover chainId settlement receipt.opportunityId bid) ∧
      auditClearingPrice engine receipt = .ok () := by
  have hcontract : ((match contract with
      | some settlement => do
          auditBidAuthenticity recover chainId settlement receipt
          auditClearingPrice engine receipt
      | none => do
          .ok ()
          auditClearingPrice engine receipt) = .ok ()) ↔
      (∀ settlement, contract = some settlement → ∀ bid ∈ receipt.bids,
        Authentic recover chainId settlement receipt.opportunityId bid) ∧
      auditClearingPrice engine receipt = .ok () := by
    cases contract with
    | none => simp [unit_bind_eq_ok]
    | some settlement => simp [unit_bind_eq_ok, auditBidAuthenticity_eq_ok]
  simp only [auditReceipt, unless_eq_ok, orFault_bind_eq_ok, not_not, hcontract]
  constructor
  · rintro ⟨hid, r, hr, a, ha, hrs, has, mine, hmine, listed, hlisted, acknowledged, hack,
      rfl, hrest⟩
    exact ⟨hid, ⟨r, hr, hrs⟩, ⟨a, ha, has⟩, ⟨mine, listed, hmine, hlisted, hack⟩, hrest⟩
  · rintro ⟨hid, ⟨r, hr, hrs⟩, ⟨a, ha, has⟩, ⟨mine, listed, hmine, hlisted, hack⟩, hrest⟩
    exact ⟨hid, r, hr, a, ha, hrs, has, mine, hmine, listed, hlisted, listed, hack, rfl, hrest⟩

end Passed

end Ordo
