import Ordo.Liquidity

/-!
# A budget's liquidity, and what it costs

`V4Liquidity.size` finds the liquidity of a budget with the library's floors and then asks
for the pool's charge, which is rounded up; should that be over the budget, it subtracts one
and tries again.  `size_within` says that the charge never is over the budget, so that
nothing is subtracted.  That the liquidity is positive whenever the pool would give some for
one less than the budget is another matter: the library floors the product of the two
prices between which currency 0 lies, and where prices are low this floor takes away more
than one.  `size_spec` says for which ranges and prices it does not.
-/

namespace Ordo

namespace SizeBudget

open FullMath Planner SqrtPriceMath LiquidityAmounts V4Liquidity

/-- What the pool charges of currency 0 for one unit of liquidity between two prices. -/
def unitCost (a b : Nat) : Nat := (Q96 * (b - a) + b * a - 1) / (b * a)

/-- What it charges of currency 1. -/
def unitCost1 (a b : Nat) : Nat := (b - a + Q96 - 1) / Q96

/-- One more than the charge for a unit of liquidity buys it although the product of the
prices is floored. -/
def Covered (sqrtP sqrtL sqrtU : Nat) : Prop :=
  sqrtU - max sqrtP sqrtL ≤
    (unitCost (max sqrtP sqrtL) sqrtU + 1) * (max sqrtP sqrtL * sqrtU / Q96)

instance (sqrtP sqrtL sqrtU : Nat) : Decidable (Covered sqrtP sqrtL sqrtU) := by
  unfold Covered
  infer_instance

section Statements

variable (tickLower tickUpper tick : Int) (sqrtP sqrtL sqrtU : Nat)

/-- What is returned is some liquidity and the pool's charge for it, within the budget. -/
def WithinBudget : Prop :=
  ∀ amount0 amount1 liq n0 n1, amount0 < 2 ^ 256 → amount1 < 2 ^ 256 →
    size tickLower tickUpper amount0 amount1 sqrtP tick = some (liq, n0, n1) →
    amountsIn liq sqrtP tick tickLower tickUpper sqrtL sqrtU = some (n0, n1) ∧
      n0 ≤ amount0 ∧ n1 ≤ amount1

/-- The first liquidity is not charged over the budget and is what is returned: there is no
second attempt, for which one would be subtracted. -/
def NothingSubtracted : Prop :=
  ∀ amount0 amount1 liq n0 n1, amount0 < 2 ^ 256 → amount1 < 2 ^ 256 →
    getLiquidityForAmounts sqrtP sqrtL sqrtU amount0 amount1 = some liq →
    amountsIn liq sqrtP tick tickLower tickUpper sqrtL sqrtU = some (n0, n1) →
    ¬ (amount0 < n0 ∨ amount1 < n1) ∧
      size tickLower tickUpper amount0 amount1 sqrtP tick = some (liq, n0, n1)

/-- Where some liquidity fits one below the budget, what is returned is positive. -/
def FindsLiquidity : Prop :=
  ∀ amount0 amount1 liq n0 n1 L m0 m1, amount0 < 2 ^ 256 → amount1 < 2 ^ 256 →
    size tickLower tickUpper amount0 amount1 sqrtP tick = some (liq, n0, n1) →
    0 < L → L < 2 ^ 128 → amountsIn L sqrtP tick tickLower tickUpper sqrtL sqrtU = some (m0, m1) →
    m0 ≤ amount0 - 1 → m1 ≤ amount1 - 1 → 0 < liq

end Statements

section Units

variable {a b amount amount0 amount1 L l m n : Nat}

theorem unitCost_le (hL : 0 < L) (hm : amount0For a b L = some m) : unitCost a b ≤ m := by
  obtain ⟨hden, hvalue⟩ := div_eq_some.mp hm
  have hden := Nat.pos_of_ne_zero hden
  refine (ceil_le hden).mpr ?_
  calc Q96 * (b - a) ≤ L * (Q96 * (b - a)) := Nat.le_mul_of_pos_left _ hL
    _ = L * 2 ^ 96 * (b - a) := (Nat.mul_assoc _ _ _).symm
    _ ≤ m * (b * a) := (ceil_le hden).mp hvalue.ge

theorem unitCost_pos (ha : 0 < a) (hab : a < b) : 0 < unitCost a b := by
  have hden : 0 < b * a := Nat.mul_pos (ha.trans hab) ha
  by_contra hzero
  have hceil := (ceil_le hden).mp (Nat.le_of_not_lt hzero)
  have hpos : 0 < Q96 * (b - a) := Nat.mul_pos (by decide) (Nat.sub_pos_of_lt hab)
  omega

theorem unitCost_le_Q96 (ha : 0 < a) (hb : 0 < b) : unitCost a b ≤ Q96 := by
  refine (ceil_le (Nat.mul_pos hb ha)).mpr (Nat.mul_le_mul_left _ ?_)
  exact (Nat.sub_le b a).trans (Nat.le_mul_of_pos_right b ha)

/-- Where one more than the charge covers the floor, a budget over the charge does. -/
theorem liquidityFor0_pos (ha : 0 < a)
    (hcovered : b - a ≤ (unitCost a b + 1) * (a * b / Q96)) (hbudget : unitCost a b ≤ amount - 1)
    (hl : liquidityFor0 a b amount = some l) : 0 < l := by
  unfold liquidityFor0 at hl
  obtain ⟨intermediate, hintermediate, hl⟩ := Option.bind_eq_some_iff.mp hl
  obtain ⟨-, rfl⟩ := div_eq_some.mp hintermediate
  obtain ⟨hne, rfl⟩ := div_eq_some.mp hl
  have hcost := unitCost_pos ha (show a < b by omega)
  have hone : unitCost a b + 1 ≤ amount := by omega
  exact Nat.div_pos (hcovered.trans (Nat.mul_le_mul_right _ hone)) (Nat.pos_of_ne_zero hne)

theorem liquidityFor1_pos (hL : 0 < L) (hm : amount1For a b L = some m) (hbudget : m ≤ amount)
    (hl : liquidityFor1 a b amount = some l) : 0 < l := by
  unfold liquidityFor1 at hl
  obtain ⟨hden, hvalue⟩ := div_eq_some.mp hm
  obtain ⟨hne, rfl⟩ := div_eq_some.mp hl
  refine Nat.div_pos ?_ (Nat.pos_of_ne_zero hne)
  calc b - a ≤ L * (b - a) := Nat.le_mul_of_pos_left _ hL
    _ ≤ m * Q96 := (ceil_le (Nat.pos_of_ne_zero hden)).mp hvalue.ge
    _ ≤ amount * Q96 := Nat.mul_le_mul_right _ hbudget

/-- **A square is enough**: where the floored product of the prices, squared, is at least
their difference, one more than the charge covers the floor. -/
theorem covered_of_square (ha : 0 < a) (h : b - a ≤ (a * b / Q96) * (a * b / Q96)) :
    b - a ≤ (unitCost a b + 1) * (a * b / Q96) := by
  rcases Nat.eq_zero_or_pos (b - a) with hnone | hsome
  · rw [hnone]
    exact Nat.zero_le _
  have hden : 0 < b * a := Nat.mul_pos (by omega) ha
  have hsplit := Nat.div_add_mod (a * b) Q96
  have hrest := Nat.mod_lt (a * b) (show 0 < Q96 by decide)
  generalize hm : a * b / Q96 = m at *
  generalize hr : a * b % Q96 = r at *
  -- the charge is at most the floor itself
  have hcost : unitCost a b ≤ m := by
    refine (ceil_le hden).mpr ?_
    calc Q96 * (b - a) ≤ Q96 * (m * m) := Nat.mul_le_mul_left _ h
      _ = m * (Q96 * m) := by ring
      _ ≤ m * (b * a) := Nat.mul_le_mul_left _ (by rw [Nat.mul_comm b, ← hsplit]; omega)
  have hceil := (ceil_le hden).mp (le_refl (unitCost a b))
  have hbound : Q96 * (b - a) ≤ Q96 * ((unitCost a b + 1) * m) := by
    calc Q96 * (b - a) ≤ unitCost a b * (b * a) := hceil
      _ = unitCost a b * (Q96 * m + r) := by rw [Nat.mul_comm b, hsplit]
      _ ≤ unitCost a b * (Q96 * m) + m * Q96 := by
          rw [Nat.mul_add]
          exact Nat.add_le_add_left (Nat.mul_le_mul hcost hrest.le) _
      _ = Q96 * ((unitCost a b + 1) * m) := by ring
  exact Nat.le_of_mul_le_mul_left hbound (by decide)

end Units

/-! ### What one unit of liquidity takes, on chain -/

section Charges

variable {a b amount : Nat}

theorem mulDivRoundingUp_of_fits {a b d : Nat} (ha : a < wordSize) (hb : b < wordSize)
    (hd : d < wordSize) (hpos : 0 < d) (hfits : (a * b + d - 1) / d < wordSize) :
    mulDivRoundingUp a b d = some ((a * b + d - 1) / d) := by
  rw [ceil_eq _ hpos] at hfits ⊢
  have hfloor : mulDiv a b d = some (a * b / d) :=
    (mulDiv_eq_some ha hb hd).mpr ⟨hpos.ne', by omega, rfl⟩
  rw [mulDivRoundingUp, hfloor, Option.bind_some, mulmod, if_neg hpos.ne']
  by_cases hrest : a * b % d = 0
  · rw [if_neg (not_not.mpr hrest), if_neg (by omega), Nat.add_zero]
  · rw [if_pos (Nat.pos_of_ne_zero hrest)] at hfits ⊢
    rw [if_pos hrest, Nat.mod_eq_of_lt hfits, if_pos (Nat.succ_pos _)]

theorem getAmount0Delta_one (ha : 0 < a) (hab : a ≤ b) (hb : b < priceBound) :
    getAmount0Delta a b 1 true = some (unitCost a b) := by
  have hb' := wordSize_of_price hb
  have hbpos := ha.trans_le hab
  have hinner : (Q96 * (b - a) + b - 1) / b ≤ Q96 :=
    (ceil_le hbpos).mpr (Nat.mul_le_mul_left _ (Nat.sub_le b a))
  have hfits : (Q96 * (b - a) + b - 1) / b < wordSize := hinner.trans_lt (by decide)
  simp only [getAmount0Delta, min_eq_left hab, max_eq_right hab, if_neg ha.ne', if_true,
    Nat.one_mul]
  rw [mulDivRoundingUp_of_fits (by decide) ((Nat.sub_le b a).trans_lt hb') hb' hbpos hfits,
    Option.map_some, divRoundingUp_eq hfits ha, ceil_ceil hbpos ha, unitCost]

theorem getAmount1Delta_one (hab : a ≤ b) (hb : b < priceBound) :
    getAmount1Delta a b 1 true = some (unitCost1 a b) := by
  have hdiff := (Nat.sub_le b a).trans_lt (wordSize_of_price hb)
  have hfloor : mulDiv 1 (b - a) Q96 = some (1 * (b - a) / Q96) :=
    (mulDiv_eq_some (by decide) hdiff (by decide)).mpr
      ⟨by decide, (Nat.div_le_self _ _).trans_lt (by rwa [Nat.one_mul]), rfl⟩
  simp only [getAmount1Delta, min_eq_left hab, max_eq_right hab, and_true]
  rw [hfloor, Option.map_some, unitCost1, ceil_eq _ (by decide), mulmod,
    if_neg (show Q96 ≠ 0 by decide), Nat.one_mul]

/-- A budget that does not cover the floor buys nothing. -/
theorem getLiquidityForAmount0_zero (hb : b < priceBound) (hamount : amount < wordSize)
    (h : amount * (a * b / Q96) < b - a) : getLiquidityForAmount0 a b amount = some 0 := by
  have hab : a ≤ b := by omega
  have hb' := wordSize_of_price hb
  have hproduct : a * b / Q96 < wordSize := by
    calc a * b / Q96 ≤ priceBound * priceBound / Q96 :=
          Nat.div_le_div_right (Nat.mul_le_mul (hab.trans hb.le) hb.le)
      _ < wordSize := by decide
  have hmiddle : mulDiv a b Q96 = some (a * b / Q96) :=
    (mulDiv_eq_some (hab.trans_lt hb') hb' (by decide)).mpr ⟨by decide, hproduct, rfl⟩
  have hnone : amount * (a * b / Q96) / (b - a) = 0 := Nat.div_eq_of_lt h
  have hliq : mulDiv amount (a * b / Q96) (b - a) = some 0 :=
    (mulDiv_eq_some hamount hproduct ((Nat.sub_le b a).trans_lt hb')).mpr
      ⟨by omega, by rw [hnone]; decide, hnone.symm⟩
  have hcast : toUint128 0 = some 0 := toUint128_eq_some.mpr ⟨Nat.two_pow_pos 128, rfl⟩
  simp only [getLiquidityForAmount0, min_eq_left hab, max_eq_right hab]
  exact Option.bind_eq_some_iff.mpr ⟨a * b / Q96, hmiddle,
    Option.bind_eq_some_iff.mpr ⟨0, hliq, hcast⟩⟩

/-- One more than the charge of currency 1 is not too much for the cast. -/
theorem getLiquidityForAmount1_unit (hab : a < b) (hb : b < priceBound) :
    ∃ l, getLiquidityForAmount1 a b (unitCost1 a b + 1) = some l := by
  have hb' := wordSize_of_price hb
  have hcost : unitCost1 a b * Q96 ≤ b - a + Q96 - 1 := Nat.div_mul_le_self _ _
  have hbudget : (unitCost1 a b + 1) * Q96 ≤ (1 + 2 * Q96) * (b - a) := by
    have hone : 1 ≤ b - a := by omega
    calc (unitCost1 a b + 1) * Q96 = unitCost1 a b * Q96 + Q96 := by ring
      _ ≤ (b - a) + 2 * Q96 * 1 := by omega
      _ ≤ (b - a) + 2 * Q96 * (b - a) := Nat.add_le_add_left (Nat.mul_le_mul_left _ hone) _
      _ = (1 + 2 * Q96) * (b - a) := by ring
  have hquotient : (unitCost1 a b + 1) * Q96 / (b - a) ≤ 1 + 2 * Q96 :=
    Nat.div_le_of_le_mul (by rwa [Nat.mul_comm (b - a)])
  have hamount : unitCost1 a b + 1 < wordSize := by
    have hsmall : unitCost1 a b ≤ b := by
      refine (ceil_le (by decide)).mpr ?_
      exact (Nat.sub_le b a).trans (Nat.le_mul_of_pos_right b (by decide))
    exact (Nat.succ_le_succ hsmall).trans_lt (by unfold priceBound at hb; unfold wordSize; omega)
  have hliq : mulDiv (unitCost1 a b + 1) Q96 (b - a) =
      some ((unitCost1 a b + 1) * Q96 / (b - a)) :=
    (mulDiv_eq_some hamount (by decide) ((Nat.sub_le b a).trans_lt hb')).mpr
      ⟨by omega, hquotient.trans_lt (by decide), rfl⟩
  have hcast : toUint128 ((unitCost1 a b + 1) * Q96 / (b - a)) =
      some ((unitCost1 a b + 1) * Q96 / (b - a)) :=
    toUint128_eq_some.mpr ⟨hquotient.trans_lt (by decide), rfl⟩
  refine ⟨(unitCost1 a b + 1) * Q96 / (b - a), ?_⟩
  simp only [getLiquidityForAmount1, min_eq_left hab.le, max_eq_right hab.le]
  exact Option.bind_eq_some_iff.mpr ⟨(unitCost1 a b + 1) * Q96 / (b - a), hliq, hcast⟩

end Charges

/-! ### Sizing -/

section Sizing

variable {tickLower tickUpper tick : Int} {sqrtP sqrtL sqrtU amount0 amount1 liq n0 n1 : Nat}

/-- The charge for one unit of liquidity is that between the prices of each currency. -/
theorem amountsIn_one (hrange : tickLower < tickUpper) (hprice : Consistent tick sqrtP)
    (hlower : TickMath.getSqrtPriceAtTick tickLower = some sqrtL)
    (hupper : TickMath.getSqrtPriceAtTick tickUpper = some sqrtU) (hbelow : sqrtP < sqrtU) :
    ∃ m1, m1 ≤ unitCost1 sqrtL sqrtP ∧
      amountsIn 1 sqrtP tick tickLower tickUpper sqrtL sqrtU =
        some (unitCost (max sqrtP sqrtL) sqrtU, m1) := by
  obtain ⟨floor, ceiling, hfloor, hceiling, hle, hge⟩ := hprice
  have hLU := TickMath.sqrtPrice_mono hrange.le hlower hupper
  have hU : sqrtU < priceBound := (TickMath.sqrtPrice_bounds hupper).2.trans_lt (by decide)
  have hL : 0 < sqrtL := Nat.lt_of_lt_of_le (by decide) (TickMath.sqrtPrice_bounds hlower).1
  unfold amountsIn
  rw [if_neg Nat.one_ne_zero]
  by_cases hunder : tick < tickLower
  · have hPL := hge.trans (TickMath.sqrtPrice_mono hunder hceiling hlower)
    refine ⟨0, Nat.zero_le _, ?_⟩
    rw [if_pos hunder, max_eq_right hPL, getAmount0Delta_one hL hLU hU]
    rfl
  · have hLP := (TickMath.sqrtPrice_mono (Int.not_lt.mp hunder) hlower hfloor).trans hle
    have hinside : tick < tickUpper := by
      by_contra hover
      have hUP := (TickMath.sqrtPrice_mono (Int.not_lt.mp hover) hupper hfloor).trans hle
      omega
    refine ⟨unitCost1 sqrtL sqrtP, le_refl _, ?_⟩
    rw [if_neg hunder, if_pos hinside, max_eq_left hLP,
      getAmount0Delta_one (hL.trans_le hLP) hbelow.le hU,
      getAmount1Delta_one hLP (hbelow.trans hU)]
    rfl

/-- **Within the budget**: the first liquidity is not charged over the budget, so it is
what is returned, and nothing is subtracted. -/
theorem size_within (hrange : tickLower < tickUpper) (hprice : Consistent tick sqrtP)
    (hlower : TickMath.getSqrtPriceAtTick tickLower = some sqrtL)
    (hupper : TickMath.getSqrtPriceAtTick tickUpper = some sqrtU)
    (h0 : amount0 < 2 ^ 256) (h1 : amount1 < 2 ^ 256)
    (hliq : getLiquidityForAmounts sqrtP sqrtL sqrtU amount0 amount1 = some liq)
    (hneeds : amountsIn liq sqrtP tick tickLower tickUpper sqrtL sqrtU = some (n0, n1)) :
    (n0 ≤ amount0 ∧ n1 ≤ amount1) ∧
      size tickLower tickUpper amount0 amount1 sqrtP tick = some (liq, n0, n1) := by
  have hLU := TickMath.sqrtPrice_mono hrange.le hlower hupper
  have hU : sqrtU < priceBound := (TickMath.sqrtPrice_bounds hupper).2.trans_lt (by decide)
  obtain ⟨hfunds, hsmall⟩ := getLiquidityForAmounts_agrees hLU hU h0 h1 hliq
  have hamounts := amountsIn_agrees hrange hprice hlower hupper hsmall hneeds
  have hwithin := amountsForLiquidity_le hfunds hamounts
  have hfits : ¬ (amount0 < n0 ∨ amount1 < n1) := by omega
  refine ⟨hwithin, ?_⟩
  refine Option.bind_eq_some_iff.mpr ⟨sqrtL, hlower, Option.bind_eq_some_iff.mpr ⟨sqrtU, hupper,
    Option.bind_eq_some_iff.mpr ⟨liq, hliq, Option.bind_eq_some_iff.mpr ⟨(n0, n1), hneeds, ?_⟩⟩⟩⟩
  dsimp only
  rw [if_neg hfits]
  rfl

/-- What is returned is the first liquidity and its charge. -/
theorem size_eq_some (hrange : tickLower < tickUpper) (hprice : Consistent tick sqrtP)
    (hlower : TickMath.getSqrtPriceAtTick tickLower = some sqrtL)
    (hupper : TickMath.getSqrtPriceAtTick tickUpper = some sqrtU)
    (h0 : amount0 < 2 ^ 256) (h1 : amount1 < 2 ^ 256)
    (hsize : size tickLower tickUpper amount0 amount1 sqrtP tick = some (liq, n0, n1)) :
    getLiquidityForAmounts sqrtP sqrtL sqrtU amount0 amount1 = some liq ∧
      amountsIn liq sqrtP tick tickLower tickUpper sqrtL sqrtU = some (n0, n1) := by
  have hreturned := hsize
  obtain ⟨lower, hlower', hsize⟩ := Option.bind_eq_some_iff.mp hsize
  obtain ⟨upper, hupper', hsize⟩ := Option.bind_eq_some_iff.mp hsize
  rw [hlower] at hlower'
  rw [hupper] at hupper'
  cases hlower'
  cases hupper'
  obtain ⟨l, hl, hsize⟩ := Option.bind_eq_some_iff.mp hsize
  obtain ⟨⟨m0, m1⟩, hm, hsize⟩ := Option.bind_eq_some_iff.mp hsize
  have hfirst := (size_within hrange hprice hlower hupper h0 h1 hl hm).2
  rw [hreturned] at hfirst
  cases hfirst
  exact ⟨hl, hm⟩

/-- Where the floor is covered, liquidity that fits below the budget is found. -/
theorem liquidity_pos {L m0 m1 : Nat} (hLU : sqrtL ≤ sqrtU) (hL : 0 < sqrtL)
    (hcovered : Covered sqrtP sqrtL sqrtU) (hpos : 0 < L)
    (hm : amountsForLiquidity sqrtP sqrtL sqrtU L = some (m0, m1)) (h0 : m0 ≤ amount0 - 1)
    (h1 : m1 ≤ amount1 - 1)
    (hliq : liquidityForAmounts sqrtP sqrtL sqrtU amount0 amount1 = some liq) : 0 < liq := by
  unfold Covered at hcovered
  unfold amountsForLiquidity at hm
  unfold liquidityForAmounts at hliq
  simp only [min_eq_left hLU, max_eq_right hLU, if_neg hpos.ne'] at hm hliq
  by_cases hbelow : sqrtP ≤ sqrtL
  · rw [if_pos hbelow] at hm hliq
    rw [max_eq_right hbelow] at hcovered
    obtain ⟨n, hn, hpair⟩ := Option.map_eq_some_iff.mp hm
    cases hpair
    exact liquidityFor0_pos hL hcovered ((unitCost_le hpos hn).trans h0) hliq
  rw [if_neg hbelow] at hm hliq
  by_cases habove : sqrtU ≤ sqrtP
  · rw [if_pos habove] at hm hliq
    obtain ⟨n, hn, hpair⟩ := Option.map_eq_some_iff.mp hm
    cases hpair
    exact liquidityFor1_pos hpos hn (h1.trans (Nat.sub_le _ _)) hliq
  rw [if_neg habove] at hm hliq
  rw [max_eq_left (Nat.le_of_not_le hbelow)] at hcovered
  obtain ⟨l0, hl0, hliq⟩ := Option.bind_eq_some_iff.mp hliq
  obtain ⟨l1, hl1, hliq⟩ := Option.bind_eq_some_iff.mp hliq
  obtain ⟨k0, hk0, hm⟩ := Option.bind_eq_some_iff.mp hm
  obtain ⟨k1, hk1, hm⟩ := Option.bind_eq_some_iff.mp hm
  cases hm
  have hpos0 := liquidityFor0_pos (hL.trans_le (Nat.le_of_not_le hbelow)) hcovered
    ((unitCost_le hpos hk0).trans h0) hl0
  have hpos1 := liquidityFor1_pos hpos hk1 (h1.trans (Nat.sub_le _ _)) hl1
  have hmin := Option.some.inj hliq
  rw [← hmin]
  split
  · exact hpos0
  · exact hpos1

/-- Where it is not, one more than the charges for one unit of liquidity buys none. -/
theorem liquidity_zero (hL : 0 < sqrtL) (hLU : sqrtL ≤ sqrtU) (hU : sqrtU < priceBound)
    (hnot : ¬ Covered sqrtP sqrtL sqrtU) :
    getLiquidityForAmounts sqrtP sqrtL sqrtU (unitCost (max sqrtP sqrtL) sqrtU + 1)
      (unitCost1 sqrtL sqrtP + 1) = some 0 := by
  have hshort := Nat.not_le.mp hnot
  have hpart : 0 < max sqrtP sqrtL := hL.trans_le (Nat.le_max_right _ _)
  have hbudget : unitCost (max sqrtP sqrtL) sqrtU + 1 < wordSize :=
    (Nat.succ_le_succ (unitCost_le_Q96 hpart (hL.trans_le hLU))).trans_lt (by decide)
  have hnone := getLiquidityForAmount0_zero hU hbudget hshort
  simp only [getLiquidityForAmounts, min_eq_left hLU, max_eq_right hLU]
  by_cases hbelow : sqrtP ≤ sqrtL
  · rw [max_eq_right hbelow] at hnone ⊢
    rw [if_pos hbelow]
    exact hnone
  · have habove := Nat.not_le.mp hbelow
    rw [max_eq_left habove.le] at hnone hshort ⊢
    have hinside : sqrtP < sqrtU := by omega
    obtain ⟨l1, hl1⟩ := getLiquidityForAmount1_unit habove (hinside.trans hU)
    rw [if_neg hbelow, if_pos hinside]
    refine Option.bind_eq_some_iff.mpr ⟨0, hnone, Option.bind_eq_some_iff.mpr ⟨l1, hl1, ?_⟩⟩
    split
    · rfl
    · rename_i hzero
      rw [Nat.eq_zero_of_not_pos hzero]
      rfl

/-- **Sizing**, over all budgets of a range and a price: it is within the budget and
subtracts nothing, and it finds liquidity that fits one below the budget exactly where one
more than the charge for one unit covers the floor. -/
theorem size_spec (hrange : tickLower < tickUpper) (hprice : Consistent tick sqrtP)
    (hlower : TickMath.getSqrtPriceAtTick tickLower = some sqrtL)
    (hupper : TickMath.getSqrtPriceAtTick tickUpper = some sqrtU) :
    WithinBudget tickLower tickUpper tick sqrtP sqrtL sqrtU ∧
      NothingSubtracted tickLower tickUpper tick sqrtP sqrtL sqrtU ∧
      (FindsLiquidity tickLower tickUpper tick sqrtP sqrtL sqrtU ↔ Covered sqrtP sqrtL sqrtU) := by
  have hLU := TickMath.sqrtPrice_mono hrange.le hlower hupper
  have hU : sqrtU < priceBound := (TickMath.sqrtPrice_bounds hupper).2.trans_lt (by decide)
  have hL : 0 < sqrtL := Nat.lt_of_lt_of_le (by decide) (TickMath.sqrtPrice_bounds hlower).1
  refine ⟨?_, ?_, ?_, ?_⟩
  · intro amount0 amount1 liq n0 n1 h0 h1 hsize
    obtain ⟨hliq, hneeds⟩ := size_eq_some hrange hprice hlower hupper h0 h1 hsize
    exact ⟨hneeds, (size_within hrange hprice hlower hupper h0 h1 hliq hneeds).1⟩
  · intro amount0 amount1 liq n0 n1 h0 h1 hliq hneeds
    obtain ⟨hwithin, hsize⟩ := size_within hrange hprice hlower hupper h0 h1 hliq hneeds
    exact ⟨by omega, hsize⟩
  · intro hpositive
    by_contra hnot
    have hinside : sqrtP < sqrtU := by
      have hshort := Nat.not_le.mp hnot
      omega
    obtain ⟨m1, hm1, hone⟩ := amountsIn_one hrange hprice hlower hupper hinside
    have hnone := liquidity_zero hL hLU hU hnot
    have hneeds : amountsIn 0 sqrtP tick tickLower tickUpper sqrtL sqrtU = some (0, 0) :=
      if_pos rfl
    have hcost : unitCost (max sqrtP sqrtL) sqrtU ≤ Q96 :=
      unitCost_le_Q96 (hL.trans_le (Nat.le_max_right _ _)) (hL.trans_le hLU)
    have hcost1 : unitCost1 sqrtL sqrtP ≤ sqrtP := by
      refine (ceil_le (by decide)).mpr ?_
      exact (Nat.sub_le _ _).trans (Nat.le_mul_of_pos_right _ (by decide))
    have h0 : unitCost (max sqrtP sqrtL) sqrtU + 1 < 2 ^ 256 :=
      (Nat.succ_le_succ hcost).trans_lt (by decide)
    have h1 : unitCost1 sqrtL sqrtP + 1 < 2 ^ 256 :=
      (Nat.succ_le_succ (hcost1.trans (hinside.trans hU).le)).trans_lt (by decide)
    have hsize := (size_within hrange hprice hlower hupper h0 h1 hnone hneeds).2
    have hfits : unitCost (max sqrtP sqrtL) sqrtU ≤ unitCost (max sqrtP sqrtL) sqrtU + 1 - 1 := by
      rw [Nat.add_sub_cancel]
    have hfits1 : m1 ≤ unitCost1 sqrtL sqrtP + 1 - 1 := by
      rw [Nat.add_sub_cancel]
      exact hm1
    exact Nat.lt_irrefl 0 (hpositive _ _ 0 0 0 1 _ m1 h0 h1 hsize Nat.one_pos (by decide) hone
      hfits hfits1)
  · intro hcovered amount0 amount1 liq n0 n1 L m0 m1 h0 h1 hsize hpos hsmall hm hm0 hm1
    obtain ⟨hliq, -⟩ := size_eq_some hrange hprice hlower hupper h0 h1 hsize
    have hfunds := (getLiquidityForAmounts_agrees hLU hU h0 h1 hliq).1
    have hcharge := amountsIn_agrees hrange hprice hlower hupper hsmall hm
    exact liquidity_pos hLU hL hcovered hpos hcharge hm0 hm1 hfunds

/-- A range around the price. -/
theorem size_spec_around :
    WithinBudget (-60) 60 59 79466191966197645195421774833 78990846045029531151608375686
        79466191966197645195421774833 ∧
      NothingSubtracted (-60) 60 59 79466191966197645195421774833 78990846045029531151608375686
        79466191966197645195421774833 ∧
      (FindsLiquidity (-60) 60 59 79466191966197645195421774833 78990846045029531151608375686
        79466191966197645195421774833 ↔
        Covered 79466191966197645195421774833 78990846045029531151608375686
          79466191966197645195421774833) := by
  have hprice : Consistent 59 79466191966197645195421774833 :=
    ⟨79462218954572724174121879631, 79466191966197645195421774833, by decide +kernel,
      by decide +kernel, by decide, by decide⟩
  exact size_spec (by decide) hprice (by decide +kernel) (by decide +kernel)

/-- In the lowest range the product of the prices is floored to nothing: no budget buys
liquidity there, although the pool gives a unit for less than `2 ^ 60`. -/
theorem fits_and_is_not_found : ¬ ∀ (tickLower tickUpper tick : Int) (sqrtP sqrtL sqrtU : Nat),
    tickLower < tickUpper → Consistent tick sqrtP →
    TickMath.getSqrtPriceAtTick tickLower = some sqrtL →
    TickMath.getSqrtPriceAtTick tickUpper = some sqrtU →
    WithinBudget tickLower tickUpper tick sqrtP sqrtL sqrtU ∧
      NothingSubtracted tickLower tickUpper tick sqrtP sqrtL sqrtU ∧
      FindsLiquidity tickLower tickUpper tick sqrtP sqrtL sqrtU := by
  intro h
  have hlower : TickMath.getSqrtPriceAtTick (-887272) = some 4295128739 := by decide +kernel
  have hupper : TickMath.getSqrtPriceAtTick (-887271) = some 4295343490 := by decide +kernel
  have hprice : Consistent (-887272) 4295128739 :=
    ⟨4295128739, 4295343490, hlower, hupper, by decide, by decide⟩
  have hfinds := (h (-887272) (-887271) (-887272) 4295128739 4295128739 4295343490 (by decide)
    hprice hlower hupper).2.2
  have hsize : size (-887272) (-887271) (2 ^ 60) 0 4295128739 (-887272) = some (0, 0, 0) := by
    decide +kernel
  have hone : amountsIn 1 4295128739 (-887272) (-887272) (-887271) 4295128739 4295343490 =
      some (922233075114984, 0) := by
    decide +kernel
  exact Nat.lt_irrefl 0 (hfinds (2 ^ 60) 0 0 0 0 1 922233075114984 0 (by decide) (by decide) hsize
    (by decide) (by decide) hone (by decide) (by decide))

end Sizing

end SizeBudget

end Ordo
