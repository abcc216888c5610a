import Mathlib.Tactic.Linarith
import Mathlib.Tactic.Positivity
import Mathlib.Tactic.Ring

/-!
# What the searcher bot bids

An opportunity is quoted as a round trip, in its V3 tiers and across venues.  What is left
of the quote after gas is shared with the auction, and the backrun is signed to return at
least its principal and half of what was not bid.  Amounts are in wei.

`backrun_safe_iff` says when no fill of a backrun is a loss and its bid is covered by the
quote: the margin that is kept has to cover the bid and the gas, and half of what was not
bid need not.
-/

namespace Ordo

namespace Searcher

/-! ### The strategy -/

/-- A quoted round trip. -/
structure Quote where
  amountIn : Int
  /-- What comes back beyond that, before gas. -/
  grossWei : Int
  deriving DecidableEq

structure StrategyConfig where
  maxBidWei : Int
  gasCostWei : Int
  minProfitWei : Int
  bidSharePct : Int
  maxBid_nonneg : 0 ≤ maxBidWei
  gasCost_nonneg : 0 ≤ gasCostWei
  minProfit_nonneg : 0 ≤ minProfitWei
  share_nonneg : 0 ≤ bidSharePct
  share_le : bidSharePct ≤ 100

/-- What is left after gas, shared with the auction. -/
def bidFor (grossWei : Int) (cfg : StrategyConfig) : Int :=
  let net := grossWei - cfg.gasCostWei
  if net < cfg.minProfitWei then 0
  else
    let offered := (net * cfg.bidSharePct).tdiv 100
    if cfg.maxBidWei < offered then cfg.maxBidWei else offered

/-- One round of the loop of `pickBest`. -/
def better (best : Option Quote) (q : Quote) : Option Quote :=
  match best with
  | none => some q
  | some b => if b.grossWei < q.grossWei then some q else some b

def pickBest (quotes : List Quote) : Option Quote :=
  match quotes.foldl better none with
  | some b => if 0 < b.grossWei then some b else none
  | none => none

structure Decision where
  best : Option Quote
  bidWei : Int

/-- The decision on the quotes that came back in time. -/
def evaluate (quotes : List Quote) (cfg : StrategyConfig) : Decision :=
  match pickBest quotes with
  | none => ⟨none, 0⟩
  | some best =>
      if bidFor best.grossWei cfg = 0 then ⟨none, 0⟩ else ⟨some best, bidFor best.grossWei cfg⟩

/-! ### Backruns -/

inductive Venue where
  | v3
  | cross
  deriving DecidableEq

/-- `swapGasLimit` and `crossGasLimit`. -/
def Venue.gasLimit : Venue → Int
  | .v3 => 400_000
  | .cross => 650_000

/-- A bid, with what its backrun was signed with. -/
structure Bid where
  maxBidWei : Int
  amountIn : Int
  minReturn : Int
  gas : Int
  maxFeePerGas : Int
  deriving DecidableEq

/-- `signedBackrun` and `signedCrossBackrun`, which differ in the gas limit. -/
def signed (venue : Venue) (best : Quote) (bidWei maxFeePerGas : Int) : Bid where
  maxBidWei := bidWei
  amountIn := best.amountIn
  minReturn := best.amountIn + (best.grossWei - bidWei).tdiv 2
  gas := venue.gasLimit
  maxFeePerGas := maxFeePerGas

/-- The best quote across venues is bid on when its bid is no lower.  The gas price is the
one last seen when the backrun is signed. -/
def onOpportunity (cfg : StrategyConfig) (maxFeePerGas : Int) (cross : Option Quote)
    (quotes : List Quote) : Option Bid :=
  let decision := evaluate quotes cfg
  let crossBid := (cross.map fun q => bidFor q.grossWei cfg).getD 0
  match cross with
  | some q =>
      if 0 < crossBid ∧ decision.bidWei ≤ crossBid then
        some (signed .cross q crossBid maxFeePerGas)
      else decision.best.map fun best => signed .v3 best decision.bidWei maxFeePerGas
  | none => decision.best.map fun best => signed .v3 best decision.bidWei maxFeePerGas

/-! ### Fills -/

/-- A win, at a clearing price and with what came back and the gas that was paid. -/
structure Fill (b : Bid) where
  clearing : Int
  returned : Int
  gasUsed : Int
  gasPrice : Int
  clearing_nonneg : 0 ≤ clearing
  clearing_le : clearing ≤ b.maxBidWei
  returned_ge : b.minReturn ≤ returned
  gasUsed_nonneg : 0 ≤ gasUsed
  gasUsed_le : gasUsed ≤ b.gas
  gasPrice_nonneg : 0 ≤ gasPrice
  gasPrice_le : gasPrice ≤ b.maxFeePerGas

/-- What a fill earns. -/
def Fill.profit {b : Bid} (f : Fill b) : Int :=
  f.returned - b.amountIn - f.clearing - f.gasUsed * f.gasPrice

/-- No fill is a loss, and the bid is covered by the quoted profit after gas. -/
def Bid.Safe (b : Bid) (grossWei : Int) : Prop :=
  (∀ f : Fill b, 0 ≤ f.profit) ∧ b.maxBidWei ≤ grossWei - b.gas * b.maxFeePerGas

/-- A third of the quote, less the gas at its limit and price twice over, covers the share
of the edge that is offered, or the cap. -/
def Clears (cfg : StrategyConfig) (maxFeePerGas : Int) (venue : Venue) (q : Quote) : Prop :=
  3 * min cfg.maxBidWei ((q.grossWei - cfg.gasCostWei) * cfg.bidSharePct / 100) +
    2 * (venue.gasLimit * maxFeePerGas) ≤ q.grossWei

section Bids

variable {cfg : StrategyConfig} {q : Quote}

/-- A bid that is made is the cap, or a share of what is left after gas. -/
theorem bidFor_of_pos (h : 0 < bidFor q.grossWei cfg) :
    cfg.gasCostWei ≤ q.grossWei ∧
      bidFor q.grossWei cfg =
        min cfg.maxBidWei ((q.grossWei - cfg.gasCostWei) * cfg.bidSharePct / 100) := by
  have hmin := cfg.minProfit_nonneg
  unfold bidFor at h ⊢
  dsimp only at h ⊢
  split at h
  · exact absurd h (lt_irrefl 0)
  · next hnet =>
      have hpos : 0 ≤ q.grossWei - cfg.gasCostWei := by omega
      have hscaled : 0 ≤ (q.grossWei - cfg.gasCostWei) * cfg.bidSharePct :=
        mul_nonneg hpos cfg.share_nonneg
      rw [if_neg hnet, Int.tdiv_eq_ediv_of_nonneg hscaled]
      refine ⟨by omega, ?_⟩
      split
      · next hcap => exact (min_eq_left hcap.le).symm
      · next hcap => exact (min_eq_right (not_lt.mp hcap)).symm

/-- A bid is no more than the quote. -/
theorem bidFor_le (h : 0 < bidFor q.grossWei cfg) : bidFor q.grossWei cfg ≤ q.grossWei := by
  obtain ⟨hcost, hbid⟩ := bidFor_of_pos h
  have hgas := cfg.gasCost_nonneg
  have hshare : (q.grossWei - cfg.gasCostWei) * cfg.bidSharePct ≤
      (q.grossWei - cfg.gasCostWei) * 100 :=
    mul_le_mul_of_nonneg_left cfg.share_le (by omega)
  have hoffered : (q.grossWei - cfg.gasCostWei) * cfg.bidSharePct / 100 ≤
      q.grossWei - cfg.gasCostWei := by omega
  calc bidFor q.grossWei cfg
      ≤ (q.grossWei - cfg.gasCostWei) * cfg.bidSharePct / 100 := by
        rw [hbid]
        exact min_le_right _ _
    _ ≤ q.grossWei := by omega

theorem bidFor_nonneg : 0 ≤ bidFor q.grossWei cfg := by
  have hmin := cfg.minProfit_nonneg
  unfold bidFor
  dsimp only
  split
  · exact le_rfl
  · next hnet =>
      split
      · exact cfg.maxBid_nonneg
      · exact Int.tdiv_nonneg (mul_nonneg (by omega) cfg.share_nonneg) (by omega)

/-- **Whatever is bid is the bid on some quote**, in one of the two venues. -/
theorem mem_onOpportunity {maxFeePerGas : Int} {cross : Option Quote} {quotes : List Quote}
    {b : Bid} (h : onOpportunity cfg maxFeePerGas cross quotes = some b) :
    ∃ venue q, 0 < bidFor q.grossWei cfg ∧
      b = signed venue q (bidFor q.grossWei cfg) maxFeePerGas := by
  have hv3 : ∀ b, ((evaluate quotes cfg).best.map fun best =>
        signed .v3 best (evaluate quotes cfg).bidWei maxFeePerGas) = some b →
      ∃ venue q, 0 < bidFor q.grossWei cfg ∧
        b = signed venue q (bidFor q.grossWei cfg) maxFeePerGas := by
    intro b hb
    unfold evaluate at hb
    split at hb
    · cases hb
    · next best hbest =>
        split at hb
        · cases hb
        · next hbid =>
            refine ⟨.v3, best, lt_of_le_of_ne bidFor_nonneg (Ne.symm hbid), ?_⟩
            exact (Option.some.inj hb).symm
  unfold onOpportunity at h
  dsimp only at h
  split at h
  · next q =>
      split at h
      · next hcross => exact ⟨.cross, q, hcross.1, (Option.some.inj h).symm⟩
      · exact hv3 b h
  · exact hv3 b h

/-- The margin, half of what was not bid, has to cover the bid and the gas besides. -/
theorem safe_signed_iff {maxFeePerGas : Int} (hfee : 0 ≤ maxFeePerGas) (venue : Venue)
    (hbid : 0 < bidFor q.grossWei cfg) :
    (signed venue q (bidFor q.grossWei cfg) maxFeePerGas).Safe q.grossWei ↔
      Clears cfg maxFeePerGas venue q := by
  have hle := bidFor_le hbid
  have hhalf : (q.grossWei - bidFor q.grossWei cfg).tdiv 2 =
      (q.grossWei - bidFor q.grossWei cfg) / 2 :=
    Int.tdiv_eq_ediv_of_nonneg (by omega)
  have hlimit : 0 ≤ venue.gasLimit := by cases venue <;> decide
  have hgas : 0 ≤ venue.gasLimit * maxFeePerGas := mul_nonneg hlimit hfee
  unfold Clears
  rw [← (bidFor_of_pos hbid).2]
  constructor
  · rintro ⟨hfills, -⟩
    -- the least that may come back, at the highest price and with all of the gas
    have hworst := hfills ⟨bidFor q.grossWei cfg,
      (signed venue q (bidFor q.grossWei cfg) maxFeePerGas).minReturn, venue.gasLimit,
      maxFeePerGas, hbid.le, le_rfl, le_rfl, hlimit, le_rfl, hfee, le_rfl⟩
    simp only [Fill.profit, signed, hhalf] at hworst
    omega
  · intro hclears
    constructor
    · intro f
      have hreturned : q.amountIn + (q.grossWei - bidFor q.grossWei cfg) / 2 ≤ f.returned := by
        rw [← hhalf]
        exact f.returned_ge
      have hclearing : f.clearing ≤ bidFor q.grossWei cfg := f.clearing_le
      have hpaid : f.gasUsed * f.gasPrice ≤ venue.gasLimit * maxFeePerGas :=
        mul_le_mul f.gasUsed_le f.gasPrice_le f.gasPrice_nonneg hlimit
      show 0 ≤ f.returned - q.amountIn - f.clearing - f.gasUsed * f.gasPrice
      omega
    · show bidFor q.grossWei cfg ≤ q.grossWei - venue.gasLimit * maxFeePerGas
      omega

end Bids

/-- **When a backrun is safe.**  Whatever an opportunity is answered with is signed for a
quote that is bid on, and it is safe exactly when that quote clears. -/
theorem backrun_safe_iff (cfg : StrategyConfig) (maxFeePerGas : Int)
    (hfee : 0 ≤ maxFeePerGas) :
    (∀ cross quotes b, onOpportunity cfg maxFeePerGas cross quotes = some b →
      ∃ venue q, 0 < bidFor q.grossWei cfg ∧
        b = signed venue q (bidFor q.grossWei cfg) maxFeePerGas) ∧
    ∀ venue q, 0 < bidFor q.grossWei cfg →
      ((signed venue q (bidFor q.grossWei cfg) maxFeePerGas).Safe q.grossWei ↔
        Clears cfg maxFeePerGas venue q) := by
  constructor
  · intro cross quotes b h
    exact mem_onOpportunity h
  · intro venue q hbid
    exact safe_signed_iff hfee venue hbid

/-! ### An edge that shrank -/

/-- The defaults, at a gas price of 1 gwei doubled to 2. -/
def defaults : StrategyConfig where
  maxBidWei := 10 ^ 15
  gasCostWei := Venue.v3.gasLimit * (2 * 10 ^ 9)
  minProfitWei := 4 * 10 ^ 12
  bidSharePct := 70
  maxBid_nonneg := by decide
  gasCost_nonneg := by decide
  minProfit_nonneg := by decide
  share_nonneg := by decide
  share_le := by decide

/-- 0.02 ether in, 0.022 back. -/
def thin : Quote := ⟨2 * 10 ^ 16, 2 * 10 ^ 15⟩

/-- It earns 0.00058 ether, clears at 0.00084, and the searcher pays for the gas besides. -/
theorem fill_at_a_loss :
    onOpportunity defaults (2 * 10 ^ 9) none [thin] =
        some (signed .v3 thin (84 * 10 ^ 13) (2 * 10 ^ 9)) ∧
      ∃ f : Fill (signed .v3 thin (84 * 10 ^ 13) (2 * 10 ^ 9)), f.profit < 0 := by
  refine ⟨by decide +kernel, ⟨84 * 10 ^ 13, 2 * 10 ^ 16 + 58 * 10 ^ 13, 400_000, 2 * 10 ^ 9,
    by decide, by decide, by decide, by decide, by decide, by decide, by decide⟩, by decide⟩

/-- With a tenth of the cap. -/
def capped : StrategyConfig :=
  { defaults with
    maxBidWei := 10 ^ 14
    maxBid_nonneg := by decide }

/-- At 10 wei of gas and that cap, a backrun is safe in either venue. -/
theorem backrun_safe_sample :
    (signed .v3 thin (bidFor thin.grossWei capped) 10).Safe thin.grossWei ∧
      (signed .cross thin (bidFor thin.grossWei capped) 10).Safe thin.grossWei := by
  have hsafe := (backrun_safe_iff capped 10 (by decide)).2
  constructor
  · refine (hsafe .v3 thin (by decide +kernel)).mpr ?_
    unfold Clears
    decide +kernel
  · refine (hsafe .cross thin (by decide +kernel)).mpr ?_
    unfold Clears
    decide +kernel

end Searcher

end Ordo
