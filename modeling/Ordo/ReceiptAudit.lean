import Ordo.Receipt

/-!
# What a passed audit says about the price

The audit recomputes the second price of the listed bids and checks that each
listed bid was signed by its searcher.  It does not check that a bid is listed
once.  A searcher's own bids are all validly signed, so the operator may list the
winner's bid again, and the second price is then the winner's own.

`once_above` is the condition that the audit leaves out: at most one listing of
the winner's exceeds everything that another searcher signed.
-/

namespace Ordo

variable {keccak : Bytes → Bytes32} {recover : TypedData → Bytes → Option Address}
  {engine : Engine} {chainId : Nat} {settlement : Address} {receipt : AuctionReceipt}

/-- Amounts another searcher than `winner` signed for the auction. -/
def SignedByOther (signed : Address → TypedData → Prop) (chainId : Nat) (settlement : Address)
    (receipt : AuctionReceipt) (winner : Address) (wei : Nat) : Prop :=
  ∃ searcher opportunityId, searcher ≠ winner ∧
    (opportunityIdToBytes32 receipt.opportunityId).word? = some opportunityId ∧
    signed searcher (.Bid chainId settlement searcher opportunityId wei)

/-- Nobody but `winner` is listed. -/
def SoleBidder (receipt : AuctionReceipt) (winner : Address) : Prop :=
  ∀ bid ∈ receipt.bids, bid.searcher.account? = some winner

/-- The price is covered by another searcher's signature, or the winner is the
only bidder and pays by the auction's rule: its second bid, or its only one. -/
def Justified (engine : Engine) (signed : Address → TypedData → Prop) (chainId : Nat)
    (settlement : Address) (receipt : AuctionReceipt) (winner : Address) (price : Int) : Prop :=
  (∃ wei, SignedByOther signed chainId settlement receipt winner wei ∧ price ≤ wei) ∨
    (SoleBidder receipt winner ∧ ∃ amounts,
      receipt.bids.mapM (·.bidWei) = some amounts ∧
      (secondPrice id (engine.sorted id amounts)).map Prod.snd = some price)

/-- A listing of the winner's above everything that another searcher signed. -/
def Above (signed : Address → TypedData → Prop) (chainId : Nat) (settlement : Address)
    (receipt : AuctionReceipt) (winner : Address) (bid : ReceiptBid) : Prop :=
  bid.searcher.account? = some winner ∧
    ∀ wei, SignedByOther signed chainId settlement receipt winner wei →
      ∀ own, bid.bidWei = some own → (wei : Int) < own

/-- No two listings are above what the others signed. -/
def OnceAbove (signed : Address → TypedData → Prop) (chainId : Nat) (settlement : Address)
    (receipt : AuctionReceipt) (winner : Address) : Prop :=
  receipt.bids.Pairwise fun bid bid' =>
    ¬ (Above signed chainId settlement receipt winner bid ∧
      Above signed chainId settlement receipt winner bid')

/-- What the audit establishes about the listed bids in price order. -/
structure Audited (recover : TypedData → Bytes → Option Address) (chainId : Nat)
    (settlement : Address) (receipt : AuctionReceipt) (winner : Address) (price : Int)
    (sorted : List (ReceiptBid × Int)) : Prop where
  perm : (sorted.map Prod.fst).Perm receipt.bids
  value : ∀ p ∈ sorted, p.1.bidWei = some p.2
  descending : sorted.Pairwise fun p q => q.2 ≤ p.2
  authentic : ∀ bid ∈ receipt.bids,
    Authentic recover chainId settlement receipt.opportunityId bid
  second : ∃ highest, secondPrice Prod.snd sorted = some (highest, price) ∧
    highest.1.searcher.account? = some winner

/-- A receipt that passes is in price order what it should be. -/
theorem audited_of_ok {ack : BidAck} {auctioneer : AddressText}
    (hpass : auditReceipt keccak recover engine receipt ack chainId auctioneer
      (some settlement) = .ok ()) :
    ∃ winner account price amounts, receipt.winner = some winner ∧
      winner.account? = some account ∧ receipt.clearingPriceWei = some price ∧
      receipt.bids.mapM (·.bidWei) = some amounts ∧
      Audited recover chainId settlement receipt account price
        (engine.sorted Prod.snd (receipt.bids.zip amounts)) := by
  obtain ⟨-, ⟨signer, hsigned, -⟩, -, ⟨mine, wei, hmine, -, -⟩, hauthentic, hprice⟩ :=
    auditReceipt_eq_ok.mp hpass
  have hbids : receipt.bids ≠ [] := List.ne_nil_of_mem (List.mem_of_find?_eq_some hmine)
  obtain ⟨amounts, hamounts, highest, price, hsecond, winner, hwinner, -, hsame, hpublished⟩ :=
    (auditClearingPrice_eq_ok hbids).mp hprice
  -- the receipt could be signed, so its winner is an account
  obtain ⟨signature, -, hrecover⟩ := Option.bind_eq_some_iff.mp hsigned
  obtain ⟨message, hmessage, -⟩ := Option.bind_eq_some_iff.mp hrecover
  obtain ⟨-, -, account, -, -, -, -, haccount, -⟩ := receiptMessage_eq_some.mp hmessage
  rw [hwinner] at haccount
  obtain ⟨hlength, hvalues⟩ := mapM_zip hamounts
  have hperm := engine.sorted_perm Prod.snd (receipt.bids.zip amounts)
  have hfst : (receipt.bids.zip amounts).map Prod.fst = receipt.bids :=
    List.map_fst_zip (by omega)
  have hsorted : ((engine.sorted Prod.snd (receipt.bids.zip amounts)).map Prod.fst).Perm
      receipt.bids := by
    have hmap := hperm.map Prod.fst
    rwa [hfst] at hmap
  have hhighest : highest ∈ engine.sorted Prod.snd (receipt.bids.zip amounts) := by
    match hlist : engine.sorted Prod.snd (receipt.bids.zip amounts), hsecond with
    | [_], hsecond => cases hsecond; exact List.mem_cons_self
    | _ :: _ :: _, hsecond => cases hsecond; exact List.mem_cons_self
  obtain ⟨_, _, signer, -, -, -, hsearcher⟩ := hauthentic settlement rfl highest.1
    (hsorted.subset (List.mem_map_of_mem hhighest))
  refine ⟨winner, account, price, amounts, hwinner, haccount, hpublished, hamounts, hsorted,
    fun p hp => hvalues p (hperm.subset hp), engine.sorted_descending _ _,
    hauthentic settlement rfl, highest, hsecond, ?_⟩
  rw [hsearcher, (AddressText.lower_eq_iff haccount hsearcher).mp hsame]

section Price

variable {signed : Address → TypedData → Prop} {winner : Address} {price : Int}
  {sorted : List (ReceiptBid × Int)}

/-- A listed bid of another searcher is a signed one. -/
theorem Audited.signed_by_other (h : Audited recover chainId settlement receipt winner price
      sorted) (hunforgeable : ∀ m sig a, recover m sig = some a → signed a m)
    {p : ReceiptBid × Int} (hp : p ∈ sorted) (hother : p.1.searcher.account? ≠ some winner) :
    ∃ wei, SignedByOther signed chainId settlement receipt winner wei ∧ p.2 = wei := by
  have hbid := h.perm.subset (List.mem_map_of_mem hp)
  obtain ⟨sig, message, signer, -, hmessage, hrecover, hsearcher⟩ := h.authentic _ hbid
  obtain ⟨searcher, opportunityId, wei, haccount, hid, hwei, rfl⟩ :=
    bidMessage_eq_some.mp hmessage
  obtain rfl : searcher = signer := Option.some.inj (haccount.symm.trans hsearcher)
  have hvalue : p.2 = wei := by
    rw [h.value p hp, Option.bind_some] at hwei
    exact (uint_eq_some.mp hwei).1
  refine ⟨wei, ⟨searcher, opportunityId, fun heq => ?_, hid, ?_⟩, hvalue⟩
  · exact hother (heq ▸ hsearcher)
  · exact hunforgeable _ _ _ hrecover

/-- Two bids at the price or above exist unless the winner is alone. -/
theorem Audited.two (h : Audited recover chainId settlement receipt winner price sorted)
    (hothers : ¬ SoleBidder receipt winner) :
    ∃ first second rest, sorted = first :: second :: rest ∧ second.2 = price := by
  obtain ⟨highest, hsecond, hwinner⟩ := h.second
  match sorted, hsecond with
  | [only], hsecond =>
      cases hsecond
      refine (hothers fun bid hbid => ?_).elim
      have hmem := h.perm.symm.subset hbid
      rw [List.map_singleton, List.mem_singleton] at hmem
      rw [hmem]
      exact hwinner
  | first :: second :: rest, hsecond =>
      cases hsecond
      exact ⟨_, second, rest, rfl, rfl⟩

/-- **The condition is exact.** -/
theorem Audited.justified_iff
    (h : Audited recover chainId settlement receipt winner price sorted)
    (hunforgeable : ∀ m sig a, recover m sig = some a → signed a m)
    (hsole : SoleBidder receipt winner → ∃ amounts,
      receipt.bids.mapM (·.bidWei) = some amounts ∧
      (secondPrice id (engine.sorted id amounts)).map Prod.snd = some price) :
    Justified engine signed chainId settlement receipt winner price ↔
      SoleBidder receipt winner ∨ OnceAbove signed chainId settlement receipt winner := by
  have hsymm : ∀ {b c}, ¬ (Above signed chainId settlement receipt winner b ∧
      Above signed chainId settlement receipt winner c) →
      ¬ (Above signed chainId settlement receipt winner c ∧
        Above signed chainId settlement receipt winner b) := fun h hc => h hc.symm
  by_cases hothers : SoleBidder receipt winner
  · exact ⟨fun _ => .inl hothers, fun _ => .inr ⟨hothers, hsole hothers⟩⟩
  obtain ⟨first, second, rest, hlist, hprice⟩ := h.two hothers
  have hpairs : OnceAbove signed chainId settlement receipt winner ↔
      (sorted.map Prod.fst).Pairwise fun bid bid' =>
        ¬ (Above signed chainId settlement receipt winner bid ∧
          Above signed chainId settlement receipt winner bid') :=
    (h.perm.pairwise_iff hsymm).symm
  rw [hpairs, List.pairwise_map]
  constructor
  · intro hjustified
    right
    rcases hjustified with ⟨wei, hwei, hle⟩ | ⟨hsole, -⟩
    · -- everything after the first bid is at most the price
      have hlater : ∀ p ∈ second :: rest,
          ¬ Above signed chainId settlement receipt winner p.1 := by
        intro p hp habove
        have hmem : p ∈ sorted := hlist ▸ List.mem_cons_of_mem _ hp
        have hlt := habove.2 wei hwei p.2 (h.value p hmem)
        have hdesc := hlist ▸ h.descending
        have htail := (List.pairwise_cons.mp hdesc).2
        have hle' : p.2 ≤ second.2 := by
          rcases List.mem_cons.mp hp with rfl | hp
          · exact le_refl _
          · exact (List.pairwise_cons.mp htail).1 p hp
        omega
      rw [hlist]
      refine List.pairwise_cons.mpr ⟨fun p hp hboth => hlater p hp hboth.2, ?_⟩
      exact List.Pairwise.imp_of_mem (fun hp _ _ hboth => hlater _ hp hboth.1)
        (List.pairwise_of_forall (fun _ _ => trivial) : (second :: rest).Pairwise fun _ _ => True)
    · exact (hothers hsole).elim
  · intro honce
    have honce := honce.resolve_left hothers
    left
    by_contra hnone
    -- nobody else signed as much, so the two highest listings are the winner's
    have hsmall : ∀ wei, SignedByOther signed chainId settlement receipt winner wei →
        (wei : Int) < price := by
      intro wei hwei
      by_contra hge
      exact hnone ⟨wei, hwei, by omega⟩
    have habove : ∀ p ∈ sorted, price ≤ p.2 →
        Above signed chainId settlement receipt winner p.1 := by
      intro p hp hle
      refine ⟨?_, fun wei hwei own hown => ?_⟩
      · by_contra hother
        obtain ⟨wei, hwei, hvalue⟩ := h.signed_by_other hunforgeable hp hother
        have hlt := hsmall wei hwei
        omega
      · have hvalue : own = p.2 := Option.some.inj (hown.symm.trans (h.value p hp))
        have hlt := hsmall wei hwei
        omega
    rw [hlist] at honce habove
    have hdesc := hlist ▸ h.descending
    have hfirst : second.2 ≤ first.2 :=
      (List.pairwise_cons.mp hdesc).1 second List.mem_cons_self
    exact (List.pairwise_cons.mp honce).1 second List.mem_cons_self
      ⟨habove first List.mem_cons_self (by omega),
        habove second (List.mem_cons_of_mem _ List.mem_cons_self) (by omega)⟩

end Price

/-- Signatures of four accounts: the auctioneer 9 signs what it likes, searcher
1 has signed a bid of 10 and searcher 2 one of 3. -/
def recoverSample : TypedData → Bytes → Option Address
  | .Bid _ _ searcher _ wei, signature =>
      if signature = [1] ∧ (searcher, wei) ∈ [((1 : Address), 10), (2, 3)] then some searcher
      else none
  | _, signature => if signature = [9] then some 9 else none

/-- Searcher 1's bid, searcher 1's bid again, and searcher 2's. -/
def paddedReceipt : AuctionReceipt where
  opportunityId := .word 5
  bids := [⟨.digits 1 .lower, some 10, 100, some [1]⟩, ⟨.digits 1 .lower, some 10, 100, some [1]⟩,
    ⟨.digits 2 .lower, some 3, 101, some [1]⟩]
  winner := some (.digits 1 .lower)
  clearingPriceWei := some 10
  closedAt := 300
  signature := some [9]

def winnersAck : BidAck := ⟨.word 5, .digits 1 .lower, some 10, 100, [9]⟩

/-- Who has signed what, in the sample. -/
def signedSample (a : Address) (m : TypedData) : Prop :=
  ∃ signature, recoverSample m signature = some a

theorem signedByOther_sample {wei : Nat}
    (h : SignedByOther signedSample 4663 7 paddedReceipt 1 wei) : wei = 3 := by
  obtain ⟨searcher, opportunityId, hne, -, signature, hsigned⟩ := h
  simp only [recoverSample, Option.ite_none_right_eq_some, List.mem_cons, Prod.mk.injEq]
    at hsigned
  rcases hsigned.1.2 with ⟨rfl, -⟩ | ⟨-, rfl⟩ | hnone
  · exact (hne rfl).elim
  · rfl
  · cases hnone

/-- The receipt of the same auction without the repetition. -/
def honestReceipt : AuctionReceipt where
  opportunityId := .word 5
  bids := [⟨.digits 1 .lower, some 10, 100, some [1]⟩, ⟨.digits 2 .lower, some 3, 101, some [1]⟩]
  winner := some (.digits 1 .lower)
  clearingPriceWei := some 3
  closedAt := 300
  signature := some [9]

end Ordo
