import Ordo.Auction

/-!
# Whose bid sets the price

The winner of an auction should pay the highest bid of another searcher, or its
own bid if no other searcher bid.  The auctioneer takes the second place of one
list in price order, whoever holds it.

1.  `SetsOwnPrice` says when both places at the top belong to one searcher.
2.  `price_set_by_others` says that the price is right exactly when no bidder
    does that, for every run of an auction.
-/

namespace Ordo

namespace Auction

variable {engine : Engine} {opportunityId : IdText}

/-- The bids of everyone else. -/
def others (searcher : AddressText) (bids : List Bid) : List Bid :=
  bids.filter fun b => b.searcher.toLowerCase ≠ searcher.toLowerCase

/-- The bids of a searcher that are above all of the others'. -/
def ahead (searcher : AddressText) (bids : List Bid) : List Bid :=
  bids.filter fun b => b.searcher.toLowerCase = searcher.toLowerCase ∧
    ∀ r ∈ others searcher bids, amount r < amount b

/-- The bids at the highest amount. -/
def highest (bids : List Bid) : List Bid :=
  bids.filter fun b => ∀ r ∈ bids, amount r ≤ amount b

/-- What the rule makes the winner pay: the highest bid of another searcher, or its
own bid if it is the only bidder. -/
def FairPrice (winner : Bid) (bids : List Bid) (price : Int) : Prop :=
  if others winner.searcher bids = [] then price = amount winner
  else (∃ b ∈ others winner.searcher bids, amount b = price) ∧
    ∀ b ∈ others winner.searcher bids, amount b ≤ price

instance (winner : Bid) (bids : List Bid) (price : Int) :
    Decidable (FairPrice winner bids price) := by
  unfold FairPrice
  infer_instance

/-- A true second price: the winner holds the highest bid and pays by the rule. -/
def Fair (bids : List Bid) (o : Outcome) : Prop :=
  match o.winner with
  | none => bids = []
  | some winner => winner ∈ bids ∧ (∀ b ∈ bids, amount b ≤ amount winner) ∧
      FairPrice winner bids o.clearingPriceWei

instance (bids : List Bid) (o : Outcome) : Decidable (Fair bids o) := by
  unfold Fair
  split <;> infer_instance

/-- Two of a searcher's bids are above all of the others', or it bid alone and its
highest amount just once among several bids. -/
def SetsOwnPrice (searcher : AddressText) (bids : List Bid) : Prop :=
  if others searcher bids = [] then 2 ≤ bids.length ∧ (highest bids).length = 1
  else 2 ≤ (ahead searcher bids).length

instance (searcher : AddressText) (bids : List Bid) :
    Decidable (SetsOwnPrice searcher bids) := by
  unfold SetsOwnPrice
  infer_instance

theorem mem_others {searcher : AddressText} {bids : List Bid} {b : Bid} :
    b ∈ others searcher bids ↔
      b ∈ bids ∧ b.searcher.toLowerCase ≠ searcher.toLowerCase := by
  simp [others]

theorem others_eq_nil {searcher : AddressText} {bids : List Bid} :
    others searcher bids = [] ↔
      ∀ b ∈ bids, b.searcher.toLowerCase = searcher.toLowerCase := by
  simp [others, List.filter_eq_nil_iff]

/-- At most the first of a list passes a test that fails on the rest. -/
theorem length_filter_le_one {p : Bid → Bool} {first : Bid} {rest : List Bid}
    (h : ∀ b ∈ rest, p b = false) : ((first :: rest).filter p).length ≤ 1 := by
  have hrest : rest.filter p = [] := by
    rw [List.filter_eq_nil_iff]
    intro b hb
    simp [h b hb]
  rw [List.filter_cons, hrest]
  split <;> simp

theorem two_le_length_filter {p : Bid → Bool} {first second : Bid} {rest : List Bid}
    (h₁ : p first = true) (h₂ : p second = true) :
    2 ≤ ((first :: second :: rest).filter p).length := by
  rw [List.filter_cons_of_pos h₁, List.filter_cons_of_pos h₂]
  simp

/-! ### The two places at the top -/

section Top

variable {bids rest : List Bid} {first second : Bid}

/-- The bids in price order, from the first two down. -/
structure Ranked (bids : List Bid) (first second : Bid) (rest : List Bid) : Prop where
  perm : (first :: second :: rest).Perm bids
  top : ∀ b ∈ bids, amount b ≤ amount first
  below : ∀ b ∈ second :: rest, amount b ≤ amount second

theorem Ranked.first_mem (h : Ranked bids first second rest) : first ∈ bids :=
  h.perm.subset List.mem_cons_self

theorem Ranked.second_mem (h : Ranked bids first second rest) : second ∈ bids :=
  h.perm.subset (List.mem_cons_of_mem _ List.mem_cons_self)

theorem Ranked.mem (h : Ranked bids first second rest) {b : Bid} (hb : b ∈ bids) :
    b = first ∨ b ∈ second :: rest :=
  List.mem_cons.mp (h.perm.symm.subset hb)

/-- Another searcher's bid is not above the second place. -/
theorem Ranked.other_le (h : Ranked bids first second rest) {b : Bid}
    (hb : b ∈ others first.searcher bids) : amount b ≤ amount second := by
  obtain ⟨hmem, hother⟩ := mem_others.mp hb
  rcases h.mem hmem with rfl | hbelow
  · exact absurd rfl hother
  · exact h.below b hbelow

theorem Ranked.length_filter (h : Ranked bids first second rest) (p : Bid → Bool) :
    (bids.filter p).length = ((first :: second :: rest).filter p).length :=
  ((h.perm.filter p).length_eq).symm

/-- With other bidders the price is right when the winner is not two bids ahead. -/
theorem Ranked.fair_iff_ahead (h : Ranked bids first second rest)
    (hothers : others first.searcher bids ≠ []) :
    FairPrice first bids (amount second) ↔ (ahead first.searcher bids).length ≤ 1 := by
  rw [FairPrice, if_neg hothers]
  constructor
  · intro ⟨⟨b, hb, hsame⟩, _⟩
    rw [ahead, h.length_filter]
    refine length_filter_le_one fun c hc => decide_eq_false fun ⟨_, habove⟩ => ?_
    -- below the first nothing is above the bid that sets the price
    have hlt := habove b hb
    have hle := h.below c hc
    omega
  · intro hahead
    refine ⟨?_, fun b hb => h.other_le hb⟩
    by_contra hnone
    have hbelow : ∀ b ∈ others first.searcher bids, amount b < amount second := by
      intro b hb
      have hle := h.other_le hb
      have hne : amount b ≠ amount second := fun hsame => hnone ⟨b, hb, hsame⟩
      omega
    have hown : second.searcher.toLowerCase = first.searcher.toLowerCase := by
      by_contra hother
      exact hnone ⟨second, mem_others.mpr ⟨h.second_mem, hother⟩, rfl⟩
    have htwo : 2 ≤ (ahead first.searcher bids).length := by
      rw [ahead, h.length_filter]
      refine two_le_length_filter (decide_eq_true ⟨rfl, fun r hr => ?_⟩)
        (decide_eq_true ⟨hown, hbelow⟩)
      have hlt := hbelow r hr
      have hle := h.top second h.second_mem
      omega
    omega

/-- For a sole bidder it is right when the highest amount was bid twice. -/
theorem Ranked.fair_iff_highest (h : Ranked bids first second rest)
    (hothers : others first.searcher bids = []) :
    FairPrice first bids (amount second) ↔ (highest bids).length ≠ 1 := by
  rw [FairPrice, if_pos hothers]
  have htop : ∀ b, amount b = amount first → ∀ r ∈ bids, amount r ≤ amount b := by
    intro b hb r hr
    rw [hb]
    exact h.top r hr
  constructor
  · intro hsame
    have htwo : 2 ≤ (highest bids).length := by
      rw [highest, h.length_filter]
      exact two_le_length_filter (decide_eq_true (htop first rfl))
        (decide_eq_true (htop second hsame))
    omega
  · intro hmany
    by_contra hne
    have hle := h.top second h.second_mem
    have hone : (highest bids).length = 1 := by
      have hfirst : decide (∀ r ∈ bids, amount r ≤ amount first) = true :=
        decide_eq_true (htop first rfl)
      rw [highest, h.length_filter, List.filter_cons, if_pos hfirst]
      have hrest : (second :: rest).filter
          (fun b => decide (∀ r ∈ bids, amount r ≤ amount b)) = [] := by
        rw [List.filter_eq_nil_iff]
        intro b hb hall
        have hfirst := of_decide_eq_true hall first h.first_mem
        have hsecond := h.below b hb
        omega
      rw [hrest]
      rfl
    exact hmany hone

/-- Only the holder of the first place could set its own price. -/
theorem Ranked.setsOwnPrice (h : Ranked bids first second rest) {bid : Bid}
    (hsets : SetsOwnPrice bid.searcher bids) :
    bid.searcher.toLowerCase = first.searcher.toLowerCase := by
  by_contra hother
  have hfirst : first ∈ others bid.searcher bids :=
    mem_others.mpr ⟨h.first_mem, fun hsame => hother hsame.symm⟩
  rw [SetsOwnPrice, if_neg (List.ne_nil_of_mem hfirst)] at hsets
  have hnone : ahead bid.searcher bids = [] := by
    rw [ahead, List.filter_eq_nil_iff]
    intro b hb habove
    have hlt := (of_decide_eq_true habove).2 first hfirst
    have hle := h.top b hb
    omega
  rw [hnone] at hsets
  simp at hsets

theorem setsOwnPrice_congr {s t : AddressText} (h : s.toLowerCase = t.toLowerCase) :
    SetsOwnPrice s bids ↔ SetsOwnPrice t bids := by
  have hothers : others s bids = others t bids := by simp only [others, h]
  have hahead : ahead s bids = ahead t bids :=
    List.filter_congr fun b _ => decide_eq_decide.mpr (by rw [h, hothers])
  rw [SetsOwnPrice, SetsOwnPrice, hothers, hahead]

theorem Ranked.fair_iff (h : Ranked bids first second rest) :
    FairPrice first bids (amount second) ↔ ∀ bid ∈ bids, ¬ SetsOwnPrice bid.searcher bids := by
  have hsole : (∀ bid ∈ bids, ¬ SetsOwnPrice bid.searcher bids) ↔
      ¬ SetsOwnPrice first.searcher bids := by
    constructor
    · intro hnone
      exact hnone first h.first_mem
    · intro hfirst bid _ hsets
      exact hfirst ((setsOwnPrice_congr (h.setsOwnPrice hsets)).mp hsets)
  rw [hsole, SetsOwnPrice]
  have hlength : 2 ≤ bids.length := by
    rw [← h.perm.length_eq]
    simp
  split
  · rename_i hothers
    rw [h.fair_iff_highest hothers]
    simp [hlength]
  · rename_i hothers
    rw [h.fair_iff_ahead hothers]
    omega

end Top

/-- What the auctioneer takes from its list. -/
theorem fair_outcome_iff (bids : List Bid) :
    Fair bids (outcome engine bids) ↔ ∀ bid ∈ bids, ¬ SetsOwnPrice bid.searcher bids := by
  have hperm := engine.sorted_perm amount bids
  have hdescending := engine.sorted_descending amount bids
  unfold outcome
  generalize engine.sorted amount bids = sorted at hperm hdescending
  match sorted with
  | [] =>
      rw [hperm.nil_eq.symm]
      simp [secondPrice, Fair]
  | [winner] =>
      rw [List.perm_singleton.mp hperm.symm]
      have hothers : others winner.searcher [winner] = [] := by simp [others]
      simp [secondPrice, Fair, FairPrice, SetsOwnPrice, hothers]
  | first :: second :: rest =>
      obtain ⟨hfirst, hrest⟩ := List.pairwise_cons.mp hdescending
      have hranked : Ranked bids first second rest := by
        refine ⟨hperm, fun b hb => ?_, fun b hb => ?_⟩
        · rcases List.mem_cons.mp (hperm.symm.subset hb) with rfl | hb
          · exact le_refl _
          · exact hfirst b hb
        · rcases List.mem_cons.mp hb with rfl | hb
          · exact le_refl _
          · exact (List.pairwise_cons.mp hrest).1 b hb
      have hfair : Fair bids ⟨some first, amount second⟩ ↔
          FairPrice first bids (amount second) := by
        constructor
        · intro ⟨_, _, hprice⟩
          exact hprice
        · intro hprice
          exact ⟨hranked.first_mem, hranked.top, hprice⟩
      exact hfair.trans hranked.fair_iff

/-- **Whose bid sets the price.**  The outcome of an auction is a true second price
exactly when no bidder sets its own price. -/
theorem price_set_by_others (events : List Event) {o : Outcome}
    (h : (run engine opportunityId events).settled = some o) :
    Fair (run engine opportunityId events).bids o ↔
      ∀ bid ∈ (run engine opportunityId events).bids,
        ¬ SetsOwnPrice bid.searcher (run engine opportunityId events).bids := by
  have hkept : Kept engine opportunityId (run engine opportunityId events) := kept_run events
  obtain ⟨-, rfl⟩ := hkept.settled o h
  exact fair_outcome_iff _

/-- A searcher that raised its bid past two others pays what the best of them bid. -/
theorem price_set_by_others_sample :
    Fair [bidOf 1 40, bidOf 2 60, bidOf 1 100, bidOf 3 70] ⟨some (bidOf 1 100), 70⟩ := by
  have hbids : (run .insertion sampleId [.bid (bidOf 1 40), .bid (bidOf 2 60),
      .bid (bidOf 1 100), .bid (bidOf 3 70), .close]).bids =
        [bidOf 1 40, bidOf 2 60, bidOf 1 100, bidOf 3 70] := by decide +kernel
  have hsettled : (run .insertion sampleId [.bid (bidOf 1 40), .bid (bidOf 2 60),
      .bid (bidOf 1 100), .bid (bidOf 3 70), .close]).settled =
        some ⟨some (bidOf 1 100), 70⟩ := by decide +kernel
  have hfair := price_set_by_others _ hsettled
  rw [hbids] at hfair
  exact hfair.mpr (by decide +kernel)

/-- A searcher that bids 90 and then 100 pays its own 90, although the best other
bid is 50. -/
theorem rebid_sets_own_price :
    ¬ ∀ (engine : Engine) (opportunityId : IdText) (events : List Event) (o : Outcome),
      (run engine opportunityId events).settled = some o →
        Fair (run engine opportunityId events).bids o := by
  intro hclaim
  have hfair := hclaim .insertion sampleId
    [.bid (bidOf 1 90), .bid (bidOf 2 50), .bid (bidOf 1 100), .close]
    ⟨some (bidOf 1 100), 90⟩ (by decide +kernel)
  exact absurd hfair (by decide +kernel)

end Auction

end Ordo
