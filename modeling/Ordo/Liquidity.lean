import Ordo.TickMath
import Ordo.Words

/-!
# Liquidity for a budget, on chain and in the planner

The contracts size a position with the pool's own arithmetic: words, products of
two words, and roundings in two steps.  The planner of the client library does it
again in integers of any length.  The contracts choose between the three cases
(range above the price, around it, below it) by the price for the liquidity and by
the tick for the amounts; the planner goes by the price alone.  `planner_agrees`
says that they give the same liquidity and the same amounts.
-/

namespace Ordo

/-! ### The pool's arithmetic -/

def Q96 : Nat := 2 ^ 96

def toUint128 (x : Nat) : Option Nat := if x < 2 ^ 128 then some x else none

namespace SqrtPriceMath

open FullMath

/-- Currency 0 between two prices. -/
def getAmount0Delta (sqrtPriceA sqrtPriceB liquidity : Nat) (roundUp : Bool) : Option Nat :=
  let lower := min sqrtPriceA sqrtPriceB
  let upper := max sqrtPriceA sqrtPriceB
  if lower = 0 then none
  else
    let numerator1 := liquidity * Q96
    let numerator2 := upper - lower
    if roundUp then
      (mulDivRoundingUp numerator1 numerator2 upper).map fun x => divRoundingUp x lower
    else (mulDiv numerator1 numerator2 upper).map fun x => x / lower

/-- Currency 1 between two prices. -/
def getAmount1Delta (sqrtPriceA sqrtPriceB liquidity : Nat) (roundUp : Bool) : Option Nat :=
  let numerator := max sqrtPriceA sqrtPriceB - min sqrtPriceA sqrtPriceB
  (mulDiv liquidity numerator Q96).map fun amount1 =>
    amount1 + if 0 < mulmod liquidity numerator Q96 ∧ roundUp then 1 else 0

end SqrtPriceMath

namespace LiquidityAmounts

open FullMath

def getLiquidityForAmount0 (sqrtPriceA sqrtPriceB amount0 : Nat) : Option Nat := do
  let lower := min sqrtPriceA sqrtPriceB
  let upper := max sqrtPriceA sqrtPriceB
  let intermediate ← mulDiv lower upper Q96
  toUint128 (← mulDiv amount0 intermediate (upper - lower))

def getLiquidityForAmount1 (sqrtPriceA sqrtPriceB amount1 : Nat) : Option Nat := do
  let lower := min sqrtPriceA sqrtPriceB
  let upper := max sqrtPriceA sqrtPriceB
  toUint128 (← mulDiv amount1 Q96 (upper - lower))

def getLiquidityForAmounts (sqrtPrice sqrtPriceA sqrtPriceB amount0 amount1 : Nat) :
    Option Nat :=
  let lower := min sqrtPriceA sqrtPriceB
  let upper := max sqrtPriceA sqrtPriceB
  if sqrtPrice ≤ lower then getLiquidityForAmount0 lower upper amount0
  else if sqrtPrice < upper then do
    let liquidity0 ← getLiquidityForAmount0 sqrtPrice upper amount0
    let liquidity1 ← getLiquidityForAmount1 lower sqrtPrice amount1
    return if liquidity0 < liquidity1 then liquidity0 else liquidity1
  else getLiquidityForAmount1 lower upper amount1

end LiquidityAmounts

namespace V4Liquidity

open SqrtPriceMath LiquidityAmounts TickMath

/-- What the pool charges to add `liq`, branching on the tick. -/
def amountsIn (liq sqrtP : Nat) (tick tickLower tickUpper : Int) (sqrtL sqrtU : Nat) :
    Option (Nat × Nat) :=
  if liq = 0 then some (0, 0)
  else if tick < tickLower then
    (getAmount0Delta sqrtL sqrtU liq true).map fun a0 => (a0, 0)
  else if tick < tickUpper then do
    let a0 ← getAmount0Delta sqrtP sqrtU liq true
    let a1 ← getAmount1Delta sqrtL sqrtP liq true
    return (a0, a1)
  else (getAmount1Delta sqrtL sqrtU liq true).map fun a1 => (0, a1)

/-- The liquidity that a budget buys at the live price, and what the pool will
take for it; a wei less is tried where that is over the budget. -/
def size (tickLower tickUpper : Int) (amount0 amount1 sqrtP : Nat) (tick : Int) :
    Option (Nat × Nat × Nat) := do
  let sqrtL ← getSqrtPriceAtTick tickLower
  let sqrtU ← getSqrtPriceAtTick tickUpper
  let liq ← getLiquidityForAmounts sqrtP sqrtL sqrtU amount0 amount1
  let (need0, need1) ← amountsIn liq sqrtP tick tickLower tickUpper sqrtL sqrtU
  if amount0 < need0 ∨ amount1 < need1 then do
    let less0 ← if amount0 < need0 then subU amount0 1 else some amount0
    let less1 ← if amount1 < need1 then subU amount1 1 else some amount1
    let liq ← getLiquidityForAmounts sqrtP sqrtL sqrtU less0 less1
    let (need0, need1) ← amountsIn liq sqrtP tick tickLower tickUpper sqrtL sqrtU
    return (liq, need0, need1)
  else return (liq, need0, need1)

end V4Liquidity

/-! ### The planner's arithmetic -/

namespace Planner

def ratios : List Nat :=
  [0xfff97272373d413259a46990580e213a, 0xfff2e50f5f656932ef12357cf3c7fdcc,
    0xffe5caca7e10e4e61c3624eaa0941cd0, 0xffcb9843d60f6159c9db58835c926644,
    0xff973b41fa98c081472e6896dfb254c0, 0xff2ea16466c96a3843ec78b326b52861,
    0xfe5dee046a99a2a811c461f1969c3053, 0xfcbe86c7900a88aedcffc83b479aa3a4,
    0xf987a7253ac413176f2b074cf7815e54, 0xf3392b0822b70005940c7a398e4b70f3,
    0xe7159475a2c29b7443b29c7fa6e889d9, 0xd097f3bdfd2022b8845ad8f792aa5825,
    0xa9f746462d870fdf8a65dc1f90e061e5, 0x70d869a156d2a1b890bb3df62baf32f7,
    0x31be135f97d08fd981231505542fcfa6, 0x9aa508b5b7a84e1c677de54f3e99bc9,
    0x5d6af8dedb81196699c329225ee604, 0x2216e584f5fa1ea926041bedfe98,
    0x48a170391f7dc42444e8fa2]

/-- The square root price at a tick; a tick out of range throws. -/
def tickToSqrtPriceX96 (tick : Int) : Option Nat :=
  if tick < TickMath.MIN_TICK ∨ TickMath.MAX_TICK < tick then none
  else
    let abs := tick.natAbs
    let ratio := TickMath.scale ratios (abs / 2)
      (if abs % 2 ≠ 0 then 0xfffcb933bd6fad37aa2d162d1a594001
        else 0x100000000000000000000000000000000)
    let ratio := if 0 < tick then (2 ^ 256 - 1) / ratio else ratio
    some (ratio / 2 ^ 32 + if ratio % 2 ^ 32 = 0 then 0 else 1)

/-- Integer division; by zero it throws. -/
def div (a d : Nat) : Option Nat := if d = 0 then none else some (a / d)

def amount0For (sqrtA sqrtB L : Nat) : Option Nat :=
  let num := L * 2 ^ 96 * (sqrtB - sqrtA)
  let den := sqrtB * sqrtA
  div (num + den - 1) den

def amount1For (sqrtA sqrtB L : Nat) : Option Nat :=
  let num := L * (sqrtB - sqrtA)
  div (num + Q96 - 1) Q96

/-- The amounts that liquidity `L` holds between two prices. -/
def amountsForLiquidity (sqrtP sqrtA sqrtB L : Nat) : Option (Nat × Nat) :=
  let lower := min sqrtA sqrtB
  let upper := max sqrtA sqrtB
  if L = 0 then some (0, 0)
  else if sqrtP ≤ lower then (amount0For lower upper L).map fun amount0 => (amount0, 0)
  else if upper ≤ sqrtP then (amount1For lower upper L).map fun amount1 => (0, amount1)
  else do
    let amount0 ← amount0For sqrtP upper L
    let amount1 ← amount1For lower sqrtP L
    return (amount0, amount1)

def liquidityFor0 (sqrtA sqrtB amount0 : Nat) : Option Nat := do
  let intermediate ← div (sqrtA * sqrtB) Q96
  div (amount0 * intermediate) (sqrtB - sqrtA)

def liquidityFor1 (sqrtA sqrtB amount1 : Nat) : Option Nat :=
  div (amount1 * Q96) (sqrtB - sqrtA)

/-- The most liquidity that the amounts can fund. -/
def liquidityForAmounts (sqrtP sqrtA sqrtB amount0 amount1 : Nat) : Option Nat :=
  let lower := min sqrtA sqrtB
  let upper := max sqrtA sqrtB
  if sqrtP ≤ lower then liquidityFor0 lower upper amount0
  else if upper ≤ sqrtP then liquidityFor1 lower upper amount1
  else do
    let l0 ← liquidityFor0 sqrtP upper amount0
    let l1 ← liquidityFor1 lower sqrtP amount1
    return if l0 < l1 then l0 else l1

end Planner

/-! ### One arithmetic -/

open FullMath Planner SqrtPriceMath LiquidityAmounts V4Liquidity

/-- The two copies of the tick table are one. -/
theorem tickToSqrtPriceX96_eq (tick : Int) :
    tickToSqrtPriceX96 tick = TickMath.getSqrtPriceAtTick tick := by
  have hround : ∀ p : Nat, p / 2 ^ 32 + (if p % 2 ^ 32 = 0 then 0 else 1) =
      (p + (2 ^ 32 - 1)) / 2 ^ 32 := by
    intro p
    split <;> omega
  have hrange : (tick < TickMath.MIN_TICK ∨ TickMath.MAX_TICK < tick) ↔
      TickMath.MAX_TICK < tick.natAbs := by
    unfold TickMath.MIN_TICK TickMath.MAX_TICK
    omega
  have hbit : (tick.natAbs % 2 ≠ 0) = (tick.natAbs % 2 = 1) := by
    rw [Nat.mod_two_ne_zero]
  rw [tickToSqrtPriceX96, TickMath.getSqrtPriceAtTick]
  simp only [hrange, hround, hbit]
  rfl

/-- A price that the pool can have at a tick: a swap that stops at a tick boundary
from above leaves the tick below it. -/
def Consistent (tick : Int) (sqrtP : Nat) : Prop :=
  ∃ lower upper, TickMath.getSqrtPriceAtTick tick = some lower ∧
    TickMath.getSqrtPriceAtTick (tick + 1) = some upper ∧ lower ≤ sqrtP ∧ sqrtP ≤ upper

theorem div_eq_some {a d q : Nat} : div a d = some q ↔ d ≠ 0 ∧ q = a / d := by
  unfold div
  split
  · rename_i hzero
    constructor
    · intro hnone
      cases hnone
    · intro h
      exact (h.1 hzero).elim
  · rename_i hpos
    rw [Option.some.injEq]
    constructor
    · intro heq
      exact ⟨hpos, heq.symm⟩
    · intro heq
      exact heq.2.symm

theorem toUint128_eq_some {x y : Nat} : toUint128 x = some y ↔ x < 2 ^ 128 ∧ x = y := by
  rw [toUint128, Option.ite_none_right_eq_some, Option.some.injEq]

section Rounding

variable {a b amount liq L n : Nat}

/-- Square root prices are words of 160 bits. -/
def priceBound : Nat := 2 ^ 160

theorem wordSize_of_price (h : a < priceBound) : a < wordSize :=
  h.trans (by decide)

theorem getLiquidityForAmount0_agrees (hab : a ≤ b) (hb : b < priceBound)
    (hamount : amount < wordSize) (h : getLiquidityForAmount0 a b amount = some liq) :
    liquidityFor0 a b amount = some liq ∧ liq < 2 ^ 128 := by
  have hb' := wordSize_of_price hb
  simp only [getLiquidityForAmount0, min_eq_left hab, max_eq_right hab] at h
  obtain ⟨intermediate, hintermediate, h⟩ := Option.bind_eq_some_iff.mp h
  obtain ⟨quotient, hquotient, hcast⟩ := Option.bind_eq_some_iff.mp h
  obtain ⟨hQ96, hfits, hmiddle⟩ :=
    (mulDiv_eq_some (hab.trans_lt hb') hb' (by decide)).mp hintermediate
  rw [← hmiddle] at hfits
  obtain ⟨hne, -, hvalue⟩ :=
    (mulDiv_eq_some hamount hfits ((Nat.sub_le b a).trans_lt hb')).mp hquotient
  obtain ⟨hsmall, rfl⟩ := toUint128_eq_some.mp hcast
  refine ⟨?_, hsmall⟩
  unfold liquidityFor0
  exact Option.bind_eq_some_iff.mpr ⟨intermediate, div_eq_some.mpr ⟨hQ96, hmiddle⟩,
    div_eq_some.mpr ⟨hne, hvalue⟩⟩

theorem getLiquidityForAmount1_agrees (hab : a ≤ b) (hb : b < priceBound)
    (hamount : amount < wordSize) (h : getLiquidityForAmount1 a b amount = some liq) :
    liquidityFor1 a b amount = some liq ∧ liq < 2 ^ 128 := by
  have hb' := wordSize_of_price hb
  simp only [getLiquidityForAmount1, min_eq_left hab, max_eq_right hab] at h
  obtain ⟨quotient, hquotient, hcast⟩ := Option.bind_eq_some_iff.mp h
  obtain ⟨hne, -, hvalue⟩ :=
    (mulDiv_eq_some hamount (by decide) ((Nat.sub_le b a).trans_lt hb')).mp hquotient
  obtain ⟨hsmall, rfl⟩ := toUint128_eq_some.mp hcast
  exact ⟨div_eq_some.mpr ⟨hne, hvalue⟩, hsmall⟩

/-- **The same liquidity**, where the chain gives any. -/
theorem getLiquidityForAmounts_agrees {sqrtP amount0 amount1 : Nat} (hab : a ≤ b)
    (hb : b < priceBound) (h0 : amount0 < wordSize) (h1 : amount1 < wordSize)
    (h : getLiquidityForAmounts sqrtP a b amount0 amount1 = some liq) :
    liquidityForAmounts sqrtP a b amount0 amount1 = some liq ∧ liq < 2 ^ 128 := by
  simp only [getLiquidityForAmounts, min_eq_left hab, max_eq_right hab] at h
  simp only [liquidityForAmounts, min_eq_left hab, max_eq_right hab]
  by_cases hbelow : sqrtP ≤ a
  · rw [if_pos hbelow] at h ⊢
    exact getLiquidityForAmount0_agrees hab hb h0 h
  · rw [if_neg hbelow] at h ⊢
    by_cases habove : b ≤ sqrtP
    · rw [if_neg (Nat.not_lt.mpr habove)] at h
      rw [if_pos habove]
      exact getLiquidityForAmount1_agrees hab hb h1 h
    · have hinside := Nat.not_le.mp habove
      rw [if_pos hinside] at h
      rw [if_neg habove]
      obtain ⟨l0, hl0, h⟩ := Option.bind_eq_some_iff.mp h
      obtain ⟨l1, hl1, h⟩ := Option.bind_eq_some_iff.mp h
      obtain ⟨hagree0, hsmall0⟩ := getLiquidityForAmount0_agrees hinside.le hb h0 hl0
      obtain ⟨hagree1, hsmall1⟩ :=
        getLiquidityForAmount1_agrees (Nat.le_of_not_le hbelow) (hinside.trans hb) h1 hl1
      refine ⟨Option.bind_eq_some_iff.mpr ⟨l0, hagree0,
        Option.bind_eq_some_iff.mpr ⟨l1, hagree1, h⟩⟩, ?_⟩
      have hmin := Option.some.inj h
      rw [← hmin]
      split
      · exact hsmall0
      · exact hsmall1

theorem getAmount0Delta_agrees (hab : a ≤ b) (hb : b < priceBound) (hL : L < 2 ^ 128)
    (h : getAmount0Delta a b L true = some n) : amount0For a b L = some n := by
  have hb' := wordSize_of_price hb
  have hL' : L * Q96 < wordSize := by
    calc L * Q96 < 2 ^ 128 * Q96 := Nat.mul_lt_mul_of_pos_right hL (by decide)
      _ ≤ wordSize := by decide
  simp only [getAmount0Delta, min_eq_left hab, max_eq_right hab] at h
  by_cases hzero : a = 0
  · rw [if_pos hzero] at h
    cases h
  · rw [if_neg hzero, if_pos trivial] at h
    obtain ⟨outer, houter, hn⟩ := Option.map_eq_some_iff.mp h
    obtain ⟨hpos, hfits, hvalue⟩ :=
      mulDivRoundingUp_eq_some hL' ((Nat.sub_le b a).trans_lt hb') hb' houter
    have ha := Nat.pos_of_ne_zero hzero
    rw [divRoundingUp_eq hfits ha, hvalue, ceil_ceil hpos ha] at hn
    exact div_eq_some.mpr ⟨(Nat.mul_pos hpos ha).ne', hn.symm⟩

theorem getAmount1Delta_agrees (hab : a ≤ b) (hb : b < priceBound) (hL : L < 2 ^ 128)
    (h : getAmount1Delta a b L true = some n) : amount1For a b L = some n := by
  simp only [getAmount1Delta, min_eq_left hab, max_eq_right hab, and_true] at h
  obtain ⟨floor, hfloor, hn⟩ := Option.map_eq_some_iff.mp h
  obtain ⟨hQ96, -, hvalue⟩ := (mulDiv_eq_some (hL.trans (by decide))
    ((Nat.sub_le b a).trans_lt (wordSize_of_price hb)) (by decide)).mp hfloor
  refine div_eq_some.mpr ⟨hQ96, ?_⟩
  rw [ceil_eq _ (Nat.pos_of_ne_zero hQ96), ← hn, hvalue, mulmod, if_neg hQ96]

/-- Liquidity that the amount of currency 0 can fund does not cost more. -/
theorem amount0For_le (hL : L ≤ liq) (hliq : liquidityFor0 a b amount = some liq)
    (hn : amount0For a b L = some n) : n ≤ amount := by
  unfold liquidityFor0 at hliq
  obtain ⟨intermediate, hintermediate, hliq⟩ := Option.bind_eq_some_iff.mp hliq
  obtain ⟨-, hmiddle⟩ := div_eq_some.mp hintermediate
  obtain ⟨hne, hvalue⟩ := div_eq_some.mp hliq
  obtain ⟨hden, hceil⟩ := div_eq_some.mp hn
  have hcost : L * (b - a) ≤ amount * intermediate := by
    have hfloor := Nat.div_mul_le_self (amount * intermediate) (b - a)
    rw [← hvalue] at hfloor
    exact (Nat.mul_le_mul_right _ hL).trans hfloor
  rw [hceil]
  refine (ceil_le (Nat.pos_of_ne_zero hden)).mpr ?_
  calc L * 2 ^ 96 * (b - a) = L * (b - a) * Q96 := by
        unfold Q96
        ring
    _ ≤ amount * intermediate * Q96 := Nat.mul_le_mul_right _ hcost
    _ = amount * (a * b / Q96 * Q96) := by rw [hmiddle, Nat.mul_assoc]
    _ ≤ amount * (a * b) := Nat.mul_le_mul_left _ (Nat.div_mul_le_self _ _)
    _ = amount * (b * a) := by rw [Nat.mul_comm a]

theorem amount1For_le (hL : L ≤ liq) (hliq : liquidityFor1 a b amount = some liq)
    (hn : amount1For a b L = some n) : n ≤ amount := by
  obtain ⟨-, hvalue⟩ := div_eq_some.mp hliq
  obtain ⟨hden, hceil⟩ := div_eq_some.mp hn
  rw [hceil]
  refine (ceil_le (Nat.pos_of_ne_zero hden)).mpr ?_
  calc L * (b - a) ≤ liq * (b - a) := Nat.mul_le_mul_right _ hL
    _ ≤ amount * Q96 := hvalue ▸ Nat.div_mul_le_self _ _

end Rounding

/-- **Within the budget**: the amounts for the liquidity that a budget funds. -/
theorem amountsForLiquidity_le {sqrtP a b amount0 amount1 liq n0 n1 : Nat}
    (hliq : liquidityForAmounts sqrtP a b amount0 amount1 = some liq)
    (hn : amountsForLiquidity sqrtP a b liq = some (n0, n1)) : n0 ≤ amount0 ∧ n1 ≤ amount1 := by
  unfold liquidityForAmounts at hliq
  unfold amountsForLiquidity at hn
  by_cases hzero : liq = 0
  · rw [if_pos hzero] at hn
    cases hn
    exact ⟨Nat.zero_le _, Nat.zero_le _⟩
  rw [if_neg hzero] at hn
  by_cases hbelow : sqrtP ≤ min a b
  · rw [if_pos hbelow] at hliq hn
    obtain ⟨amount, hamount, hpair⟩ := Option.map_eq_some_iff.mp hn
    cases hpair
    exact ⟨amount0For_le (le_refl _) hliq hamount, Nat.zero_le _⟩
  rw [if_neg hbelow] at hliq hn
  by_cases habove : max a b ≤ sqrtP
  · rw [if_pos habove] at hliq hn
    obtain ⟨amount, hamount, hpair⟩ := Option.map_eq_some_iff.mp hn
    cases hpair
    exact ⟨Nat.zero_le _, amount1For_le (le_refl _) hliq hamount⟩
  rw [if_neg habove] at hliq hn
  obtain ⟨l0, hl0, hliq⟩ := Option.bind_eq_some_iff.mp hliq
  obtain ⟨l1, hl1, hliq⟩ := Option.bind_eq_some_iff.mp hliq
  obtain ⟨m0, hm0, hn⟩ := Option.bind_eq_some_iff.mp hn
  obtain ⟨m1, hm1, hn⟩ := Option.bind_eq_some_iff.mp hn
  cases hn
  have hmin := Option.some.inj hliq
  have hboth : liq ≤ l0 ∧ liq ≤ l1 := by
    rw [← hmin]
    split <;> omega
  exact ⟨amount0For_le hboth.1 hl0 hm0, amount1For_le hboth.2 hl1 hm1⟩

/-- Nothing of a currency lies between a price and itself. -/
theorem getAmount0Delta_self {a liq n : Nat} (ha : a < priceBound) (hliq : liq < 2 ^ 128)
    (h : getAmount0Delta a a liq true = some n) : n = 0 := by
  obtain ⟨hden, hvalue⟩ := div_eq_some.mp (getAmount0Delta_agrees (le_refl a) ha hliq h)
  rw [hvalue, Nat.sub_self, Nat.mul_zero, Nat.zero_add]
  exact Nat.div_eq_of_lt (Nat.sub_lt (Nat.pos_of_ne_zero hden) Nat.one_pos)

theorem getAmount1Delta_self {a liq n : Nat} (ha : a < priceBound) (hliq : liq < 2 ^ 128)
    (h : getAmount1Delta a a liq true = some n) : n = 0 := by
  obtain ⟨hden, hvalue⟩ := div_eq_some.mp (getAmount1Delta_agrees (le_refl a) ha hliq h)
  rw [hvalue, Nat.sub_self, Nat.mul_zero, Nat.zero_add]
  exact Nat.div_eq_of_lt (Nat.sub_lt (Nat.pos_of_ne_zero hden) Nat.one_pos)

section Sizing

variable {tickLower tickUpper tick : Int} {sqrtP sqrtL sqrtU liq n0 n1 : Nat}

/-- **The same amounts**: the tick and the price choose the same case, or cases
that agree on the boundary. -/
theorem amountsIn_agrees (hrange : tickLower < tickUpper) (hprice : Consistent tick sqrtP)
    (hlower : TickMath.getSqrtPriceAtTick tickLower = some sqrtL)
    (hupper : TickMath.getSqrtPriceAtTick tickUpper = some sqrtU) (hliq : liq < 2 ^ 128)
    (h : amountsIn liq sqrtP tick tickLower tickUpper sqrtL sqrtU = some (n0, n1)) :
    amountsForLiquidity sqrtP sqrtL sqrtU liq = some (n0, n1) := by
  obtain ⟨floor, ceiling, hfloor, hceiling, hle, hge⟩ := hprice
  have hLU := TickMath.sqrtPrice_mono hrange.le hlower hupper
  have hU : sqrtU < priceBound :=
    (TickMath.sqrtPrice_bounds hupper).2.trans_lt (by decide)
  unfold amountsIn at h
  simp only [amountsForLiquidity, min_eq_left hLU, max_eq_right hLU]
  by_cases hzero : liq = 0
  · rw [if_pos hzero] at h ⊢
    exact h
  rw [if_neg hzero] at h ⊢
  by_cases hbelow : tick < tickLower
  · -- the price is at most that of the next tick
    have hPL := hge.trans (TickMath.sqrtPrice_mono hbelow hceiling hlower)
    rw [if_pos hbelow] at h
    rw [if_pos hPL]
    obtain ⟨a0, ha0, hpair⟩ := Option.map_eq_some_iff.mp h
    exact Option.map_eq_some_iff.mpr ⟨a0, getAmount0Delta_agrees hLU hU hliq ha0, hpair⟩
  rw [if_neg hbelow] at h
  by_cases hinside : tick < tickUpper
  · have hLP := (TickMath.sqrtPrice_mono (Int.not_lt.mp hbelow) hlower hfloor).trans hle
    have hPU := hge.trans (TickMath.sqrtPrice_mono hinside hceiling hupper)
    rw [if_pos hinside] at h
    obtain ⟨a0, ha0, h⟩ := Option.bind_eq_some_iff.mp h
    obtain ⟨a1, ha1, h⟩ := Option.bind_eq_some_iff.mp h
    cases h
    have hP := hPU.trans_lt hU
    by_cases hatL : sqrtP ≤ sqrtL
    · -- on the lower boundary only currency 0 is needed
      obtain rfl := le_antisymm hatL hLP
      rw [if_pos (le_refl _), getAmount0Delta_agrees hPU hU hliq ha0,
        getAmount1Delta_self hP hliq ha1]
      rfl
    · rw [if_neg hatL]
      by_cases hatU : sqrtU ≤ sqrtP
      · -- on the upper one only currency 1
        obtain rfl := le_antisymm hPU hatU
        rw [if_pos (le_refl _), getAmount1Delta_agrees hLP hP hliq ha1,
          getAmount0Delta_self hP hliq ha0]
        rfl
      · rw [if_neg hatU]
        exact Option.bind_eq_some_iff.mpr ⟨_, getAmount0Delta_agrees hPU hU hliq ha0,
          Option.bind_eq_some_iff.mpr ⟨_, getAmount1Delta_agrees hLP hP hliq ha1, rfl⟩⟩
  · have hUP := (TickMath.sqrtPrice_mono (Int.not_lt.mp hinside) hupper hfloor).trans hle
    rw [if_neg hinside] at h
    obtain ⟨a1, ha1, hpair⟩ := Option.map_eq_some_iff.mp h
    have hagree := getAmount1Delta_agrees hLU hU hliq ha1
    by_cases hatL : sqrtP ≤ sqrtL
    · -- an empty range of prices: nothing is needed of either
      obtain rfl := le_antisymm hLU (hUP.trans hatL)
      have hpos := (TickMath.sqrtPrice_bounds hlower).1
      have hden : sqrtL * sqrtL ≠ 0 := by
        have := Nat.mul_pos (show 0 < sqrtL by omega) (show 0 < sqrtL by omega)
        omega
      have hnone : amount0For sqrtL sqrtL liq = some 0 := by
        refine div_eq_some.mpr ⟨hden, ?_⟩
        rw [Nat.sub_self, Nat.mul_zero, Nat.zero_add]
        exact (Nat.div_eq_of_lt (Nat.sub_lt (Nat.pos_of_ne_zero hden) Nat.one_pos)).symm
      rw [if_pos hatL, hnone, ← hpair, getAmount1Delta_self hU hliq ha1]
      rfl
    · rw [if_neg hatL, if_pos hUP, hagree, ← hpair]
      rfl

/-- **Planner and chain agree.**  Where the contracts can size a position at a
price that goes with the tick, the planner finds the same liquidity and the same
amounts, and these are within the budget. -/
theorem planner_agrees {amount0 amount1 : Nat} (hrange : tickLower < tickUpper)
    (hprice : Consistent tick sqrtP) (h0 : amount0 < 2 ^ 256) (h1 : amount1 < 2 ^ 256)
    (hsize : size tickLower tickUpper amount0 amount1 sqrtP tick = some (liq, n0, n1)) :
    ∃ sqrtL sqrtU, tickToSqrtPriceX96 tickLower = some sqrtL ∧
      tickToSqrtPriceX96 tickUpper = some sqrtU ∧
      liquidityForAmounts sqrtP sqrtL sqrtU amount0 amount1 = some liq ∧
      amountsForLiquidity sqrtP sqrtL sqrtU liq = some (n0, n1) ∧
      n0 ≤ amount0 ∧ n1 ≤ amount1 := by
  obtain ⟨sqrtL, hlower, hsize⟩ := Option.bind_eq_some_iff.mp hsize
  obtain ⟨sqrtU, hupper, hsize⟩ := Option.bind_eq_some_iff.mp hsize
  obtain ⟨l, hl, hsize⟩ := Option.bind_eq_some_iff.mp hsize
  obtain ⟨⟨m0, m1⟩, hm, hsize⟩ := Option.bind_eq_some_iff.mp hsize
  have hLU := TickMath.sqrtPrice_mono hrange.le hlower hupper
  have hU : sqrtU < priceBound :=
    (TickMath.sqrtPrice_bounds hupper).2.trans_lt (by decide)
  obtain ⟨hliq, hsmall⟩ := getLiquidityForAmounts_agrees hLU hU h0 h1 hl
  have hamounts := amountsIn_agrees hrange hprice hlower hupper hsmall hm
  obtain ⟨hle0, hle1⟩ := amountsForLiquidity_le hliq hamounts
  -- the amounts are within the budget, so no second attempt is made
  have hfits : ¬ (amount0 < m0 ∨ amount1 < m1) := by omega
  simp only [if_neg hfits] at hsize
  cases hsize
  exact ⟨sqrtL, sqrtU, tickToSqrtPriceX96_eq _ ▸ hlower, tickToSqrtPriceX96_eq _ ▸ hupper, hliq,
    hamounts, hle0, hle1⟩

/-- A range around the price, on its upper boundary. -/
theorem planner_agrees_boundary :
    ∃ sqrtL sqrtU, tickToSqrtPriceX96 (-60) = some sqrtL ∧
      tickToSqrtPriceX96 60 = some sqrtU ∧
      liquidityForAmounts 79466191966197645195421774833 sqrtL sqrtU 1000000 2000000 =
        some 333349499 ∧
      amountsForLiquidity 79466191966197645195421774833 sqrtL sqrtU 333349499 =
        some (0, 2000000) ∧ 0 ≤ 1000000 ∧ 2000000 ≤ 2000000 := by
  have hprice : Consistent 59 79466191966197645195421774833 :=
    ⟨79462218954572724174121879631, 79466191966197645195421774833, by decide +kernel,
      by decide +kernel, by decide, by decide⟩
  have hsize : size (-60) 60 1000000 2000000 79466191966197645195421774833 59 =
      some (333349499, 0, 2000000) := by decide +kernel
  exact planner_agrees (by decide) hprice (by decide) (by decide) hsize

end Sizing

end Ordo
