import Ordo.Receipt

/-!
# The sealed-bid auction and its receipts

An auction collects bids until its window closes, then names the highest bidder
and the second price.  Each accepted bid is acknowledged under the auctioneer's
key, and the receipt of the whole auction is built from the bids in the order
they came.  The auctioneer's signer is `sign`.

`honest_auction_audit` says when these receipts pass the audit that searchers
run against the acknowledgements they were given.
-/

namespace Ordo

structure Bid where
  opportunityId : IdText
  searcher : AddressText
  bidWei : Numeral
  backrunRawTx : String
  bidSig : Option Bytes
  receivedAt : Int
  deriving DecidableEq

namespace Auction

structure Outcome where
  winner : Option Bid
  clearingPriceWei : Int
  deriving DecidableEq

structure State where
  bids : List Bid
  closed : Bool
  settled : Option Outcome
  deriving DecidableEq

def opened : State := ⟨[], false, none⟩

inductive Refusal where
  | unknownAuction
  | auctionClosed
  | invalidBidWei
  | notPositive
  | missingBackrunRawTx
  deriving DecidableEq

def submitBid (bid : Bid) (s : State) : Except Refusal State :=
  if s.closed then .error .auctionClosed
  else
    match bid.bidWei with
    | none => .error .invalidBidWei
    | some wei =>
        if wei ≤ 0 then .error .notPositive
        else if ¬ "0x".toList.isPrefixOf bid.backrunRawTx.toList then
          .error .missingBackrunRawTx
        else .ok { s with bids := s.bids ++ [bid] }

/-- The amount of an accepted bid; it has been read before. -/
def amount (bid : Bid) : Int := bid.bidWei.getD 0

/-- The highest bid, at the second-highest amount. -/
def outcome (engine : Engine) (bids : List Bid) : Outcome :=
  match secondPrice amount (engine.sorted amount bids) with
  | none => ⟨none, 0⟩
  | some (winner, clearing) => ⟨some winner, clearing⟩

def close (engine : Engine) (s : State) : State :=
  if s.closed then s
  else { s with closed := true, settled := some (outcome engine s.bids) }

/-- What happens to an auction: a bid message that its searcher's bond covers, or
the end of the window. -/
inductive Event where
  | bid (bid : Bid)
  | close
  deriving DecidableEq

/-- A message names its auction; others do not reach this one. -/
def onBid (opportunityId : IdText) (bid : Bid) (s : State) : Except Refusal State :=
  if bid.opportunityId ≠ opportunityId then .error .unknownAuction else submitBid bid s

def step (engine : Engine) (opportunityId : IdText) (s : State) : Event → State
  | .bid bid =>
      match onBid opportunityId bid s with
      | .ok s' => s'
      | .error _ => s
  | .close => close engine s

def run (engine : Engine) (opportunityId : IdText) (events : List Event) : State :=
  events.foldl (step engine opportunityId) opened

end Auction

section Receipts

variable (keccak : Bytes → Bytes32) (sign : TypedData → Bytes)

def signAck (chainId : Nat) (ack : BidAck) : Option BidAck :=
  (ackMessage chainId ack).map fun message => { ack with signature := sign message }

def signReceipt (chainId : Nat) (receipt : AuctionReceipt) : Option AuctionReceipt :=
  (receiptMessage keccak chainId receipt).map fun message =>
    { receipt with signature := some (sign message) }

/-- Signed proof that this bid was received, at this amount. -/
def acknowledge (chainId : Nat) (bid : Bid) : Option BidAck :=
  signAck sign chainId
    { opportunityId := opportunityIdToBytes32 bid.opportunityId
      searcher := bid.searcher
      bidWei := bid.bidWei
      receivedAt := bid.receivedAt
      signature := [] }

/-- A bid as receipts list it. -/
def Bid.toReceiptBid (bid : Bid) : ReceiptBid where
  searcher := bid.searcher
  bidWei := bid.bidWei
  receivedAt := bid.receivedAt
  bidSig := bid.bidSig

def publishReceipt (chainId : Nat) (now : Int) (opportunityId : IdText) (bids : List Bid)
    (winner : Option AddressText) (clearingPriceWei : Numeral) : Option AuctionReceipt :=
  signReceipt keccak sign chainId
    { opportunityId := opportunityIdToBytes32 opportunityId
      bids := bids.map Bid.toReceiptBid
      winner
      clearingPriceWei
      closedAt := now
      signature := none }

/-- The receipt of an auction whose window has closed. -/
def receiptOf (chainId : Nat) (now : Int) (opportunityId : IdText) (s : Auction.State) :
    Option AuctionReceipt := do
  let outcome ← s.settled
  publishReceipt keccak sign chainId now opportunityId s.bids
    (outcome.winner.map (·.searcher)) (some outcome.clearingPriceWei)

end Receipts

/-! ### Runs -/

namespace Auction

variable {engine : Engine} {opportunityId : IdText}

/-- What holds between events: bids are positive and for this auction, and the
outcome is that of the bids. -/
structure Kept (engine : Engine) (opportunityId : IdText) (s : State) : Prop where
  here : ∀ bid ∈ s.bids, bid.opportunityId = opportunityId
  read : ∀ bid ∈ s.bids, bid.bidWei = some (amount bid)
  settled : ∀ o, s.settled = some o → s.closed = true ∧ o = outcome engine s.bids

theorem submitBid_eq_ok {bid : Bid} {s s' : State} (h : submitBid bid s = .ok s') :
    s.closed = false ∧ bid.bidWei = some (amount bid) ∧
      s' = { s with bids := s.bids ++ [bid] } := by
  unfold submitBid at h
  split at h
  · cases h
  rename_i hopen
  split at h
  · cases h
  rename_i wei hwei
  split at h
  · cases h
  split at h
  · cases h
  cases h
  exact ⟨by simpa using hopen, by simp [amount, hwei], rfl⟩

theorem Kept.step {s : State} (h : Kept engine opportunityId s) (e : Event) :
    Kept engine opportunityId (step engine opportunityId s e) := by
  cases e with
  | bid bid =>
      cases hbid : onBid opportunityId bid s with
      | error refusal => simpa [Auction.step, hbid] using h
      | ok s' =>
          have hs' : Auction.step engine opportunityId s (.bid bid) = s' := by
            simp [Auction.step, hbid]
          rw [hs']
          unfold onBid at hbid
          split at hbid
          · cases hbid
          rename_i hhere
          obtain ⟨hopen, hread, rfl⟩ := submitBid_eq_ok hbid
          refine ⟨?_, ?_, fun o ho => ?_⟩
          · intro b hb
            rcases List.mem_append.mp hb with hb | hb
            · exact h.here b hb
            · rw [List.mem_singleton.mp hb]
              exact not_not.mp hhere
          · intro b hb
            rcases List.mem_append.mp hb with hb | hb
            · exact h.read b hb
            · rw [List.mem_singleton.mp hb]
              exact hread
          · have hclosed := (h.settled o ho).1
            rw [hopen] at hclosed
            cases hclosed
  | close =>
      change Kept engine opportunityId (close engine s)
      unfold close
      split
      · exact h
      · refine ⟨h.here, h.read, fun o ho => ?_⟩
        cases ho
        exact ⟨rfl, rfl⟩

/-- The winner's bid is one of the list, and not below the price. -/
theorem outcome_winner {bids : List Bid} {winner : Bid}
    (h : (outcome engine bids).winner = some winner) :
    winner ∈ bids ∧ (outcome engine bids).clearingPriceWei ≤ amount winner := by
  have hperm := engine.sorted_perm amount bids
  have hdescending := engine.sorted_descending amount bids
  rw [outcome] at h ⊢
  generalize engine.sorted amount bids = sorted at h hperm hdescending ⊢
  match sorted with
  | [] => cases h
  | [b] =>
      cases h
      exact ⟨hperm.subset List.mem_cons_self, le_refl _⟩
  | b :: b' :: rest =>
      cases h
      exact ⟨hperm.subset List.mem_cons_self,
        (List.pairwise_cons.mp hdescending).1 b' List.mem_cons_self⟩

/-- Along every run. -/
theorem kept_run (events : List Event) :
    Kept engine opportunityId (run engine opportunityId events) := by
  have hopened : Kept engine opportunityId opened :=
    ⟨by simp [opened], by simp [opened], by simp [opened]⟩
  unfold run
  generalize opened = s at hopened
  induction events generalizing s with
  | nil => exact hopened
  | cons e events ih => exact ih _ (hopened.step e)

end Auction

/-! ### The audit of an honest auction -/

section Honest

open Auction

variable {keccak : Bytes → Bytes32} {sign : TypedData → Bytes}
  {recover : TypedData → Bytes → Option Address} {engine : Engine} {chainId : Nat}
  {auctioneer : Address} {opportunityId : IdText} {now : Int} {s : State}
  {receipt : AuctionReceipt}

/-- What a published receipt says, and that everything in it could be signed. -/
structure Published (keccak : Bytes → Bytes32) (recover : TypedData → Bytes → Option Address)
    (engine : Engine) (chainId : Nat) (auctioneer : Address) (opportunityId : IdText)
    (bids : List Bid) (receipt : AuctionReceipt) : Prop where
  id : receipt.opportunityId = opportunityIdToBytes32 opportunityId
  word : ∃ w, (opportunityIdToBytes32 receipt.opportunityId).word? = some w
  listed : receipt.bids = bids.map Bid.toReceiptBid
  winner : receipt.winner = (outcome engine bids).winner.map (·.searcher)
  price : receipt.clearingPriceWei = some (outcome engine bids).clearingPriceWei
  signer : recoverReceiptSigner keccak recover chainId receipt = some auctioneer
  readable : ∀ bid ∈ bids, ∃ searcher wei receivedAt, bid.searcher.account? = some searcher ∧
    bid.bidWei.bind (uint 256) = some wei ∧ uint 64 bid.receivedAt = some receivedAt

theorem published_of_receiptOf (hsign : ∀ m, recover m (sign m) = some auctioneer)
    (hkept : Kept engine opportunityId s)
    (h : receiptOf keccak sign chainId now opportunityId s = some receipt) :
    Published keccak recover engine chainId auctioneer opportunityId s.bids receipt := by
  obtain ⟨o, ho, h⟩ := Option.bind_eq_some_iff.mp h
  obtain ⟨message, hmessage, rfl⟩ := Option.map_eq_some_iff.mp h
  obtain ⟨-, rfl⟩ := hkept.settled o ho
  obtain ⟨w, hash, -, -, -, hword, hhash, -⟩ := receiptMessage_eq_some.mp hmessage
  refine ⟨rfl, ⟨w, hword⟩, rfl, rfl, rfl, ?_, fun bid hbid => ?_⟩
  · have hrecover : (receiptMessage keccak chainId _).bind (fun m => recover m (sign message)) =
        some auctioneer := Option.bind_eq_some_iff.mpr ⟨message, hmessage, hsign message⟩
    exact hrecover
  · exact hashBids_mem hhash (List.mem_map_of_mem (f := Bid.toReceiptBid) hbid)

/-- Every listed bid has an acknowledgement. -/
theorem Published.acknowledged
    (h : Published keccak recover engine chainId auctioneer opportunityId s.bids receipt)
    (hkept : Kept engine opportunityId s) {bid : Bid} (hbid : bid ∈ s.bids) :
    ∃ ack, acknowledge sign chainId bid = some ack := by
  obtain ⟨w, hword⟩ := h.word
  obtain ⟨searcher, wei, receivedAt, hsearcher, hwei, htime⟩ := h.readable bid hbid
  rw [h.id] at hword
  rw [acknowledge, hkept.here bid hbid, signAck]
  exact ⟨_, Option.map_eq_some_iff.mpr ⟨_, ackMessage_eq_some.mpr
    ⟨w, searcher, wei, receivedAt, hword, hsearcher, hwei, htime, rfl⟩, rfl⟩⟩

/-- An acknowledgement is the bid under the auctioneer's signature. -/
theorem acknowledge_eq_some (hsign : ∀ m, recover m (sign m) = some auctioneer) {bid : Bid}
    {ack : BidAck} (h : acknowledge sign chainId bid = some ack) :
    ack.opportunityId = opportunityIdToBytes32 bid.opportunityId ∧
      ack.searcher = bid.searcher ∧ ack.bidWei = bid.bidWei ∧
      recoverAckSigner recover chainId ack = some auctioneer := by
  obtain ⟨message, hmessage, rfl⟩ := Option.map_eq_some_iff.mp h
  have hrecover : (ackMessage chainId _).bind (fun m => recover m (sign message)) =
      some auctioneer := Option.bind_eq_some_iff.mpr ⟨message, hmessage, hsign message⟩
  exact ⟨rfl, rfl, rfl, hrecover⟩

/-- The bids listed, read, in price order are the auction's own order. -/
theorem Published.sorted
    (h : Published keccak recover engine chainId auctioneer opportunityId s.bids receipt)
    (hkept : Kept engine opportunityId s) :
    ∃ amounts, receipt.bids.mapM (·.bidWei) = some amounts ∧
      engine.sorted Prod.snd (receipt.bids.zip amounts) =
        (engine.sorted amount s.bids).map fun bid => (bid.toReceiptBid, amount bid) := by
  refine ⟨s.bids.map amount, ?_, ?_⟩
  · rw [h.listed]
    have hread := hkept.read
    revert hread
    generalize s.bids = bids
    intro hread
    induction bids with
    | nil => rfl
    | cons bid bids ih =>
        have hrest := ih fun b hb => hread b (List.mem_cons_of_mem _ hb)
        have hbid : bid.toReceiptBid.bidWei = some (amount bid) := hread bid List.mem_cons_self
        simp [List.mapM_cons, hrest, hbid]
  · have hzip : receipt.bids.zip (s.bids.map amount) =
        s.bids.map fun bid => (bid.toReceiptBid, amount bid) := by
      rw [h.listed, List.zip_map']
    have hamount : ∀ bid : Bid, (bid.toReceiptBid, amount bid).2 = amount bid := fun _ => rfl
    rw [hzip, engine.sorted_map hamount]

/-- The arithmetic is right unless the highest bid is the zero address's. -/
theorem Published.price_iff
    (h : Published keccak recover engine chainId auctioneer opportunityId s.bids receipt)
    (hkept : Kept engine opportunityId s) (hbids : s.bids ≠ []) :
    auditClearingPrice engine receipt = .ok () ↔
      ∀ bid, (engine.sorted amount s.bids).head? = some bid →
        bid.searcher.account? ≠ some 0 := by
  obtain ⟨amounts, hamounts, hsorted⟩ := h.sorted hkept
  have hlisted : receipt.bids ≠ [] := by
    rw [h.listed]
    simpa using hbids
  -- the auction's order is not empty either
  obtain ⟨highest, rest, horder⟩ : ∃ highest rest,
      engine.sorted amount s.bids = highest :: rest := by
    refine List.exists_cons_of_ne_nil fun hnil => hbids ?_
    have hperm := engine.sorted_perm amount s.bids
    rw [hnil] at hperm
    exact hperm.nil_eq.symm
  have hmem : highest ∈ s.bids :=
    (engine.sorted_perm amount s.bids).subset (horder ▸ List.mem_cons_self)
  obtain ⟨searcher, -, -, hsearcher, -⟩ := h.readable highest hmem
  have hsecond : ∃ price, secondPrice amount (engine.sorted amount s.bids) =
      some (highest, price) := by
    rw [horder]
    cases rest with
    | nil => exact ⟨_, rfl⟩
    | cons second rest => exact ⟨_, rfl⟩
  obtain ⟨price, hsecond⟩ := hsecond
  have houtcome : outcome engine s.bids = ⟨some highest, price⟩ := by
    rw [outcome, hsecond]
  have hwinner : receipt.winner = some highest.searcher := by
    rw [h.winner, houtcome]
    rfl
  have hprice : receipt.clearingPriceWei = some price := by
    rw [h.price, houtcome]
  have hnamed : AddressText.named (some highest.searcher) = true ↔
      highest.searcher.account? ≠ some 0 := by
    match hs : highest.searcher, hsearcher with
    | .digits a .lower, _ => simp [AddressText.named, AddressText.account?]
    | .digits a .checksum, _ => simp [AddressText.named, AddressText.account?]
  have hhead : (∀ bid, (engine.sorted amount s.bids).head? = some bid →
      bid.searcher.account? ≠ some 0) ↔ highest.searcher.account? ≠ some 0 := by
    simp [horder]
  rw [auditClearingPrice_eq_ok hlisted, hhead, ← hnamed]
  constructor
  · intro ⟨_, _, _, _, _, winner, hsame, hnamed, _⟩
    rw [hwinner] at hsame
    cases hsame
    exact hnamed
  · intro hnamed
    refine ⟨amounts, hamounts, (highest.toReceiptBid, amount highest), price, ?_,
      highest.searcher, hwinner, hnamed, rfl, hprice⟩
    rw [hsorted, secondPrice_map]
    have hcomp : (Prod.snd ∘ fun bid : Bid => (bid.toReceiptBid, amount bid)) = amount := rfl
    rw [hcomp, hsecond]
    rfl

/-- The audit of one acknowledgement: the first bid listed for its searcher has its
amount, listed bids are authentic, and the arithmetic is right. -/
theorem Published.audit_iff (hsign : ∀ m, recover m (sign m) = some auctioneer)
    {text : AddressText} (htext : text.account? = some auctioneer) {contract : Option Address}
    (h : Published keccak recover engine chainId auctioneer opportunityId s.bids receipt)
    (hkept : Kept engine opportunityId s) {bid : Bid} (hbid : bid ∈ s.bids) {ack : BidAck}
    (hack : acknowledge sign chainId bid = some ack) :
    auditReceipt keccak recover engine receipt ack chainId text contract = .ok () ↔
      (∀ first, (s.bids.find? fun b =>
          b.searcher.toLowerCase = bid.searcher.toLowerCase) = some first →
        first.bidWei = bid.bidWei) ∧
      (∀ settlement, contract = some settlement → ∀ b ∈ s.bids,
        Authentic recover chainId settlement (opportunityIdToBytes32 opportunityId)
          b.toReceiptBid) ∧
      ∀ b, (engine.sorted amount s.bids).head? = some b → b.searcher.account? ≠ some 0 := by
  obtain ⟨hid, hsearcher, hwei, hacked⟩ := acknowledge_eq_some hsign hack
  have hlower : (AddressText.ofAccount auctioneer).toLowerCase = text.toLowerCase :=
    (AddressText.lower_eq_iff rfl htext).mpr rfl
  have hread := hkept.read bid hbid
  have hfind : receipt.bids.find? (fun b => b.searcher.toLowerCase = ack.searcher.toLowerCase) =
      (s.bids.find? fun b => b.searcher.toLowerCase = bid.searcher.toLowerCase).map
        Bid.toReceiptBid := by
    rw [h.listed, List.find?_map, hsearcher]
    rfl
  obtain ⟨first, hfirst⟩ : ∃ first, (s.bids.find? fun b =>
      b.searcher.toLowerCase = bid.searcher.toLowerCase) = some first := by
    refine Option.isSome_iff_exists.mp (List.find?_isSome.mpr ⟨bid, hbid, ?_⟩)
    exact decide_eq_true rfl
  have hlisted : ∀ settlement, (∀ b ∈ receipt.bids,
      Authentic recover chainId settlement receipt.opportunityId b) ↔ ∀ b ∈ s.bids,
      Authentic recover chainId settlement (opportunityIdToBytes32 opportunityId)
        b.toReceiptBid := by
    intro settlement
    rw [h.listed, h.id, List.forall_mem_map]
  rw [auditReceipt_eq_ok, h.price_iff hkept (List.ne_nil_of_mem hbid), hfind, hfirst]
  simp only [hlisted]
  constructor
  · intro ⟨_, _, _, ⟨mine, wei, hmine, hlist, hack⟩, hauthentic, hprice⟩
    refine ⟨fun f hf => ?_, hauthentic, hprice⟩
    cases hf
    cases hmine
    exact hlist.trans (hack.symm.trans hwei)
  · intro ⟨hfirst, hauthentic, hprice⟩
    refine ⟨?_, ⟨auctioneer, h.signer, hlower⟩, ⟨auctioneer, hacked, hlower⟩,
      ⟨first.toReceiptBid, amount bid, rfl, ?_, hwei.trans hread⟩, hauthentic, hprice⟩
    · rw [h.id, hid, hkept.here bid hbid]
    · exact (hfirst first rfl).trans hread

/-- No searcher has bid two amounts. -/
def OneAmount (bids : List Bid) : Prop :=
  ∀ bid ∈ bids, ∀ bid' ∈ bids,
    bid.searcher.toLowerCase = bid'.searcher.toLowerCase → bid.bidWei = bid'.bidWei

instance (bids : List Bid) : Decidable (OneAmount bids) :=
  inferInstanceAs (Decidable (∀ bid ∈ bids, ∀ bid' ∈ bids,
    bid.searcher.toLowerCase = bid'.searcher.toLowerCase → bid.bidWei = bid'.bidWei))

/-- **When honest auctions pass.**  The receipt of an auction passes the audit
against every acknowledgement exactly when no searcher bid two amounts, the
highest bid is not the zero address's, and, if the auditor names the settlement
contract, each bid carries its searcher's signature. -/
theorem honest_auction_audit (hsign : ∀ m, recover m (sign m) = some auctioneer)
    {text : AddressText} (htext : text.account? = some auctioneer) (events : List Event)
    (contract : Option Address)
    (hreceipt : receiptOf keccak sign chainId now opportunityId
      (run engine opportunityId events) = some receipt) :
    (∀ bid ∈ (run engine opportunityId events).bids, ∀ ack,
      acknowledge sign chainId bid = some ack →
        auditReceipt keccak recover engine receipt ack chainId text contract = .ok ()) ↔
    OneAmount (run engine opportunityId events).bids ∧
      (∀ bid, (engine.sorted amount (run engine opportunityId events).bids).head? = some bid →
        bid.searcher.account? ≠ some 0) ∧
      ∀ settlement, contract = some settlement →
        ∀ bid ∈ (run engine opportunityId events).bids,
          Authentic recover chainId settlement (opportunityIdToBytes32 opportunityId)
            bid.toReceiptBid := by
  have hkept : Kept engine opportunityId (run engine opportunityId events) := kept_run events
  generalize run engine opportunityId events = s at hkept hreceipt
  have h := published_of_receiptOf hsign hkept hreceipt
  constructor
  · intro hpass
    have haudit := fun bid (hbid : bid ∈ s.bids) =>
      have hack : acknowledge sign chainId bid = some _ := (h.acknowledged hkept hbid).choose_spec
      (h.audit_iff hsign htext hkept hbid hack).mp (hpass bid hbid _ hack)
    refine ⟨fun bid hbid bid' hbid' hsame => ?_, fun bid hhead => ?_, ?_⟩
    · -- both have the amount of the first bid of their searcher
      obtain ⟨first, hfirst⟩ : ∃ first, (s.bids.find? fun b =>
          b.searcher.toLowerCase = bid.searcher.toLowerCase) = some first :=
        Option.isSome_iff_exists.mp (List.find?_isSome.mpr ⟨bid, hbid, decide_eq_true rfl⟩)
      have hfirst' := hfirst
      rw [hsame] at hfirst'
      exact ((haudit bid hbid).1 first hfirst).symm.trans ((haudit bid' hbid').1 first hfirst')
    · have hmem := (engine.sorted_perm amount s.bids).subset (List.mem_of_head? hhead)
      exact (haudit bid hmem).2.2 bid hhead
    · intro settlement hcontract bid hbid
      exact (haudit bid hbid).2.1 settlement hcontract bid hbid
  · intro ⟨hone, hprice, hauthentic⟩ bid hbid ack hack
    refine (h.audit_iff hsign htext hkept hbid hack).mpr ⟨fun first hfirst => ?_, hauthentic,
      hprice⟩
    have hsame := List.find?_some hfirst
    exact hone first (List.mem_of_find?_eq_some hfirst) bid hbid (of_decide_eq_true hsame)

end Honest

/-! ### A searcher that bids again -/

/-- The auction of the samples, by its uuid. -/
def sampleId : IdText := .name "7f9c24e8-3b12-4c5d-9a6e-0d1f2b3c4d5e"

def bidOf (searcher : Address) (wei : Int) : Bid where
  opportunityId := sampleId
  searcher := .digits searcher .lower
  bidWei := some wei
  backrunRawTx := "0x02"
  bidSig := none
  receivedAt := 100

/-- Two searchers, one bid each, passes. -/
theorem honest_auction_audit_sample :
    ∃ receipt, receiptOf (fun _ => 0) (fun _ => [9]) 4663 300 sampleId
        (Auction.run .insertion sampleId [.bid (bidOf 1 5), .bid (bidOf 2 7), .close]) =
          some receipt ∧
      ∀ bid ∈ [bidOf 1 5, bidOf 2 7], ∀ ack,
        acknowledge (fun _ => [9]) 4663 bid = some ack →
          auditReceipt (fun _ => 0) (fun _ _ => some 9) .insertion receipt ack 4663
            (.digits 9 .lower) none = .ok () := by
  have hbids : (Auction.run .insertion sampleId
      [.bid (bidOf 1 5), .bid (bidOf 2 7), .close]).bids = [bidOf 1 5, bidOf 2 7] := by
    decide +kernel
  have hpublished : (receiptOf (fun _ => 0) (fun _ => [9]) 4663 300 sampleId
      (Auction.run .insertion sampleId
        [.bid (bidOf 1 5), .bid (bidOf 2 7), .close])).isSome := by decide +kernel
  obtain ⟨receipt, hreceipt⟩ := Option.isSome_iff_exists.mp hpublished
  refine ⟨receipt, hreceipt, ?_⟩
  rw [← hbids]
  have htext : (AddressText.digits 9 .lower).account? = some 9 := rfl
  refine (honest_auction_audit (fun _ => rfl) htext _ none hreceipt).mpr ?_
  rw [hbids]
  refine ⟨by decide +kernel, ?_, by simp⟩
  have hhead : (Engine.insertion.sorted Auction.amount [bidOf 1 5, bidOf 2 7]).head? =
      some (bidOf 2 7) := by decide +kernel
  rw [hhead]
  intro bid hbid
  cases hbid
  decide

/-- A searcher that raises its bid is told that the second was altered. -/
theorem rebid_reported_altered :
    ¬ ∀ (sign : TypedData → Bytes) (recover : TypedData → Bytes → Option Address)
        (auctioneer : Address) (events : List Auction.Event) (receipt : AuctionReceipt)
        (bid : Bid) (ack : BidAck),
      (∀ m, recover m (sign m) = some auctioneer) →
      receiptOf (fun _ => 0) sign 4663 300 sampleId
        (Auction.run .insertion sampleId events) = some receipt →
      bid ∈ (Auction.run .insertion sampleId events).bids →
      acknowledge sign 4663 bid = some ack →
      auditReceipt (fun _ => 0) recover .insertion receipt ack 4663
        (.ofAccount auctioneer) none = .ok () := by
  intro hclaim
  have hpublished : (receiptOf (fun _ => 0) (fun _ => [9]) 4663 300 sampleId
      (Auction.run .insertion sampleId
        [.bid (bidOf 1 5), .bid (bidOf 1 7), .close])).isSome := by decide +kernel
  have hacked : (acknowledge (fun _ => [9]) 4663 (bidOf 1 7)).isSome := by decide +kernel
  obtain ⟨receipt, hreceipt⟩ := Option.isSome_iff_exists.mp hpublished
  obtain ⟨ack, hack⟩ := Option.isSome_iff_exists.mp hacked
  have hpass := hclaim (fun _ => [9]) (fun _ _ => some 9) 9
    [.bid (bidOf 1 5), .bid (bidOf 1 7), .close] receipt (bidOf 1 7) ack (fun _ => rfl) hreceipt
    (by decide +kernel) hack
  have haltered : (receiptOf (fun _ => 0) (fun _ => [9]) 4663 300 sampleId
      (Auction.run .insertion sampleId [.bid (bidOf 1 5), .bid (bidOf 1 7), .close])).bind
        (fun receipt => (acknowledge (fun _ => [9]) 4663 (bidOf 1 7)).map fun ack =>
          auditReceipt (fun _ => 0) (fun _ _ => some 9) .insertion receipt ack 4663
            (.ofAccount 9) none) = some (.error (.altered 7 5)) := by decide +kernel
  rw [hreceipt, Option.bind_some, hack, Option.map_some, hpass] at haltered
  cases haltered

end Ordo
