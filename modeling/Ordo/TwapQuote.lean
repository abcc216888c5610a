import Ordo.TickMath
import Ordo.Words

/-!
# What the vault's fees are worth

Before fees in the token are sold, `OrdoStakeVault` asks what the pool's average tick of
the last ten minutes says they are worth.  The price is a square root in 96 fraction bits
and is applied twice.  From `token1` the price divides, and nothing grows too large.  From
`token0` it multiplies, and the second product fits in a word up to `limit` of the tick,
which is above all amounts that the quote takes on up to `lastFree`, and falls after it.
-/

namespace Ordo

namespace TwapQuote

open TickMath

inductive Token where
  | token0
  | token1
  deriving DecidableEq

/-- `a << 96`, which drops what is beyond a word. -/
def shl96 (a : Nat) : Nat := a * 2 ^ 96 % 2 ^ 256

/-- The tick that a contract of the vault reads as a square root price, in 96 fraction
bits, with no check of its range. -/
def _sqrtAtTick (tick : Int) : Nat :=
  (priceAt tick / 2 ^ 32 + (if priceAt tick % 2 ^ 32 = 0 then 0 else 1)) % 2 ^ 160

def TWAP_WINDOW : Int := 600

def TWAP_SLIPPAGE_BPS : Nat := 300

/-- The average tick, rounded down; the sums are of 56 bits and a tick of 24. -/
def twapTick (ticks : Int × Int) : Option Int :=
  let delta := ticks.2 - ticks.1
  if delta < -2 ^ 55 ∨ 2 ^ 55 ≤ delta then none
  else
    let tick := (delta.tdiv TWAP_WINDOW).bmod (2 ^ 24)
    if delta < 0 ∧ delta.tmod TWAP_WINDOW ≠ 0 then
      if tick = -2 ^ 23 then none else some (tick - 1)
    else some tick

/-- The quote at a square root price. -/
def quoteAt (token : Token) (amount sqrtP : Nat) : Option Nat :=
  if 2 ^ 96 ≤ amount then some 0
  else
    match token with
    | .token0 => do
        let scaled ← mulU amount sqrtP
        let product ← mulU (scaled / 2 ^ 96) sqrtP
        some (product / 2 ^ 96)
    | .token1 => do
        let quotient ← divU (shl96 amount) sqrtP
        divU (shl96 quotient) sqrtP

/-- What `amount` of a token is worth, 0 where the pool has no history; `none` reverts. -/
def _twapQuote (observed : Option (Int × Int)) (token : Token) (amount : Nat) : Option Nat :=
  match observed with
  | none => some 0
  | some ticks => do
      let tick ← twapTick ticks
      quoteAt token amount (_sqrtAtTick tick)

/-- The vault's token beside WETH. -/
def feeToken (wethIs0 : Bool) : Token := if wethIs0 then .token1 else .token0

/-- The least that a harvest sells the token it holds for, 0 where it does not sell. -/
def harvestFloor (observed : Option (Int × Int)) (wethIs0 : Bool) (tokenHeld : Nat) :
    Option Nat :=
  if tokenHeld = 0 then some 0
  else do
    let minOut ← _twapQuote observed (feeToken wethIs0) tokenHeld
    let scaled ← mulU minOut (10000 - TWAP_SLIPPAGE_BPS)
    some (scaled / 10000)

/-- What the quote computes before it drops or divides anything. -/
def products (token : Token) (amount sqrtP : Nat) : List Nat :=
  match token with
  | .token0 => [amount * sqrtP, amount * sqrtP / 2 ^ 96 * sqrtP]
  | .token1 => [amount * 2 ^ 96, amount * 2 ^ 96 / sqrtP * 2 ^ 96]

/-- The first amount of `token0` that is too much at a square root price. -/
def limitAt (sqrtP : Nat) : Nat :=
  (((2 ^ 256 - 1) / sqrtP + 1) * 2 ^ 96 + sqrtP - 1) / sqrtP

def limit (tick : Int) : Nat := limitAt (_sqrtAtTick tick)

/-- The last tick at which no amount below `2 ^ 96` is too much. -/
def lastFree : Int := 443636

section Price

variable {tick : Int} (hmin : MIN_TICK ≤ tick) (hmax : tick ≤ MAX_TICK)

include hmin hmax

/-- In the legal range it is the pool's own price. -/
theorem sqrtAtTick_eq : getSqrtPriceAtTick tick = some (_sqrtAtTick tick) := by
  have hrange : tick.natAbs ≤ 887272 := by
    rw [MIN_TICK] at hmin
    rw [MAX_TICK] at hmax
    omega
  have hceil : (priceAt tick + (2 ^ 32 - 1)) / 2 ^ 32 =
      priceAt tick / 2 ^ 32 + (if priceAt tick % 2 ^ 32 = 0 then 0 else 1) := by
    split <;> omega
  have hprice := getSqrtPriceAtTick_eq_some.mpr ⟨hrange, rfl⟩
  have hfits := (sqrtPrice_bounds hprice).2
  rw [hprice, _sqrtAtTick, ← hceil, Nat.mod_eq_of_lt (lt_of_le_of_lt hfits (by norm_num))]

theorem sqrtAtTick_bounds : 2 ^ 32 < _sqrtAtTick tick ∧ _sqrtAtTick tick < 2 ^ 160 := by
  obtain ⟨hlow, hhigh⟩ := sqrtPrice_bounds (sqrtAtTick_eq hmin hmax)
  constructor
  · exact lt_of_lt_of_le (by norm_num) hlow
  · exact lt_of_le_of_lt hhigh (by norm_num)

end Price

/-! ### One square root price -/

section Quote

variable {amount sqrtP : Nat}

/-- The second product fits below the limit, and only there. -/
theorem fits_iff (hpos : 0 < sqrtP) :
    amount * sqrtP / 2 ^ 96 * sqrtP < 2 ^ 256 ↔ amount < limitAt sqrtP := by
  have hword : amount * sqrtP / 2 ^ 96 * sqrtP < 2 ^ 256 ↔
      amount * sqrtP / 2 ^ 96 ≤ (2 ^ 256 - 1) / sqrtP := by
    rw [Nat.le_div_iff_mul_le hpos]
    have hone : 0 < 2 ^ 256 := by decide
    omega
  have hshift : amount * sqrtP / 2 ^ 96 ≤ (2 ^ 256 - 1) / sqrtP ↔
      amount * sqrtP < ((2 ^ 256 - 1) / sqrtP + 1) * 2 ^ 96 := by
    rw [← Nat.lt_succ_iff, Nat.div_lt_iff_lt_mul (by norm_num)]
  have hlimit : limitAt sqrtP ≤ amount ↔
      ((2 ^ 256 - 1) / sqrtP + 1) * 2 ^ 96 ≤ amount * sqrtP := FullMath.ceil_le hpos
  rw [hword, hshift, ← not_le, ← not_le, not_iff_not]
  exact hlimit.symm

/-- A higher price leaves room for less. -/
theorem limitAt_antitone {p q : Nat} (hpos : 0 < p) (h : p ≤ q) : limitAt q ≤ limitAt p := by
  by_contra hless
  have hfits := (fits_iff (hpos.trans_le h)).mpr (not_le.mp hless)
  have hsmaller : limitAt p * p / 2 ^ 96 * p ≤ limitAt p * q / 2 ^ 96 * q :=
    Nat.mul_le_mul (Nat.div_le_div_right (Nat.mul_le_mul_left _ h)) h
  exact lt_irrefl _ ((fits_iff hpos).mp (hsmaller.trans_lt hfits))

variable (hamount : amount < 2 ^ 96) (hlow : 2 ^ 32 < sqrtP) (hhigh : sqrtP < 2 ^ 160)

include hamount hhigh in
theorem scaled_lt : amount * sqrtP < 2 ^ 256 := by
  have hlt : amount * sqrtP < 2 ^ 96 * 2 ^ 160 := Nat.mul_lt_mul'' hamount hhigh
  exact hlt.trans_le (by decide)

include hamount hlow in
/-- From `token1` everything fits. -/
theorem divided_lt : amount * 2 ^ 96 < 2 ^ 256 ∧
    amount * 2 ^ 96 / sqrtP * 2 ^ 96 < 2 ^ 256 := by
  have hscaled : amount * 2 ^ 96 < 2 ^ 192 := by omega
  have hquotient : amount * 2 ^ 96 / sqrtP < 2 ^ 160 := by
    rw [Nat.div_lt_iff_lt_mul (by omega)]
    omega
  omega

include hamount hlow hhigh

theorem products_fit_iff (token : Token) :
    (∀ p ∈ products token amount sqrtP, p < 2 ^ 256) ↔
      (token = .token0 → amount < limitAt sqrtP) := by
  cases token with
  | token0 =>
      simp only [products, List.forall_mem_cons, List.not_mem_nil, IsEmpty.forall_iff,
        implies_true, and_true, forall_const]
      rw [and_iff_right (scaled_lt hamount hhigh)]
      exact fits_iff (by omega)
  | token1 =>
      simp only [products, List.forall_mem_cons, List.not_mem_nil, IsEmpty.forall_iff,
        implies_true, and_true, reduceCtorEq]
      exact iff_true_intro (divided_lt hamount hlow)

/-- The quote does not revert if and only if its products fit, and is then small. -/
theorem quoteAt_spec (token : Token) :
    ((quoteAt token amount sqrtP).isSome ↔ ∀ p ∈ products token amount sqrtP, p < 2 ^ 256) ∧
      ∀ value, quoteAt token amount sqrtP = some value → value < 2 ^ 224 := by
  unfold quoteAt
  rw [if_neg (not_le.mpr hamount)]
  cases token with
  | token0 =>
      have hscaled : mulU amount sqrtP = some (amount * sqrtP) :=
        if_pos (scaled_lt hamount hhigh)
      simp only [hscaled, Option.bind_eq_bind, Option.bind_some, products,
        List.forall_mem_cons, List.not_mem_nil, IsEmpty.forall_iff, implies_true, and_true]
      rw [and_iff_right (scaled_lt hamount hhigh), mulU]
      by_cases hfits : amount * sqrtP / 2 ^ 96 * sqrtP < 2 ^ 256
      · rw [if_pos hfits, Option.bind_some]
        refine ⟨iff_of_true rfl hfits, fun value hvalue => ?_⟩
        obtain rfl := Option.some.inj hvalue
        rw [Nat.div_lt_iff_lt_mul (by norm_num)]
        exact hfits.trans_le (by norm_num)
      · rw [if_neg hfits]
        refine ⟨iff_of_false (fun h => by cases h) hfits, fun value hvalue => ?_⟩
        cases hvalue
  | token1 =>
      obtain ⟨hfirst, hsecond⟩ := divided_lt hamount hlow
      have hzero : sqrtP ≠ 0 := by omega
      have hfits := (products_fit_iff hamount hlow hhigh .token1).mpr fun h => by cases h
      simp only [shl96, divU, if_neg hzero, Option.bind_eq_bind, Option.bind_some,
        Nat.mod_eq_of_lt hfirst, Nat.mod_eq_of_lt hsecond]
      refine ⟨iff_of_true rfl hfits, fun value hvalue => ?_⟩
      obtain rfl := Option.some.inj hvalue
      rw [Nat.div_lt_iff_lt_mul (by omega)]
      calc amount * 2 ^ 96 / sqrtP * 2 ^ 96 < 2 ^ 256 := hsecond
        _ = 2 ^ 224 * 2 ^ 32 := by norm_num
        _ ≤ 2 ^ 224 * sqrtP := Nat.mul_le_mul_left _ hlow.le

end Quote

/-! ### Every tick -/

section Limit

variable {tick : Int} (hmin : MIN_TICK ≤ tick) (hmax : tick ≤ MAX_TICK)

include hmin hmax in
/-- The limit falls as the tick rises. -/
theorem limit_antitone {tick' : Int} (h : tick ≤ tick') (hmax' : tick' ≤ MAX_TICK) :
    limit tick' ≤ limit tick := by
  have hprice := sqrtPrice_mono h (sqrtAtTick_eq hmin hmax) (sqrtAtTick_eq (hmin.trans h) hmax')
  have hlow := (sqrtAtTick_bounds hmin hmax).1
  exact limitAt_antitone (by omega) hprice

include hmin hmax in
/-- It is of no effect up to a tick in the middle of the range. -/
theorem no_limit_iff : 2 ^ 96 ≤ limit tick ↔ tick ≤ lastFree := by
  have hlast : 2 ^ 96 ≤ limit lastFree := by decide +kernel
  have hnext : limit (lastFree + 1) < 2 ^ 96 := by decide +kernel
  have hin : lastFree + 1 ≤ MAX_TICK ∧ MIN_TICK ≤ lastFree + 1 := by decide
  constructor
  · intro hroom
    by_contra hafter
    have hle := limit_antitone hin.2 hin.1 (show lastFree + 1 ≤ tick by omega) hmax
    omega
  · intro hbefore
    exact hlast.trans (limit_antitone hmin hmax hbefore (by omega))

end Limit

/-- The quote that the contract makes, and the floor that a harvest asks for, are those
of the tick. -/
theorem twapQuote_eq {ticks : Int × Int} {tick : Int} (htick : twapTick ticks = some tick)
    (token : Token) (amount : Nat) :
    _twapQuote (some ticks) token amount = quoteAt token amount (_sqrtAtTick tick) := by
  unfold _twapQuote
  simp only [htick, Option.bind_eq_bind, Option.bind_some]

/-- The floor reverts in the quote or not at all. -/
theorem harvestFloor_isSome {observed : Option (Int × Int)} {wethIs0 : Bool} {tokenHeld : Nat}
    (hsmall : ∀ value, _twapQuote observed (feeToken wethIs0) tokenHeld =
      some value → value < 2 ^ 224) :
    (harvestFloor observed wethIs0 tokenHeld).isSome ↔ (tokenHeld = 0 ∨
      (_twapQuote observed (feeToken wethIs0) tokenHeld).isSome) := by
  unfold harvestFloor
  split
  next hzero => exact iff_of_true rfl (Or.inl hzero)
  next hheld =>
    rw [or_iff_right hheld]
    cases hquote : _twapQuote observed (feeToken wethIs0) tokenHeld with
    | none => exact Iff.rfl
    | some value =>
        have hvalue := hsmall value hquote
        have hscaled : mulU value (10000 - TWAP_SLIPPAGE_BPS) =
            some (value * (10000 - TWAP_SLIPPAGE_BPS)) := by
          apply if_pos
          rw [TWAP_SLIPPAGE_BPS]
          omega
        simp only [Option.bind_eq_bind, Option.bind_some, hscaled]
        exact iff_of_true rfl rfl

/-- **The quote fits.**  For every average tick in the legal range and every amount below
`2 ^ 96`, the products of the quote stay below a word, and the quote and the harvest that
asks for it do not revert there, if and only if the token is `token1` or the amount is
below the tick's limit. -/
theorem quote_fits_iff (ticks : Int × Int) (tick : Int) (htick : twapTick ticks = some tick)
    (hlegal : MIN_TICK ≤ tick ∧ tick ≤ MAX_TICK) (wethIs0 : Bool) (amount : Nat)
    (hamount : amount < 2 ^ 96) :
    ((∀ p ∈ products (feeToken wethIs0) amount (_sqrtAtTick tick), p < 2 ^ 256) ∧
        (_twapQuote (some ticks) (feeToken wethIs0) amount).isSome ∧
        (harvestFloor (some ticks) wethIs0 amount).isSome) ↔
      (feeToken wethIs0 = .token1 ∨ amount < limit tick) := by
  obtain ⟨hlow, hhigh⟩ := sqrtAtTick_bounds hlegal.1 hlegal.2
  obtain ⟨hiff, hsmall⟩ := quoteAt_spec hamount hlow hhigh (feeToken wethIs0)
  rw [← twapQuote_eq htick] at hiff hsmall
  have hharvest : (_twapQuote (some ticks) (feeToken wethIs0) amount).isSome →
      (harvestFloor (some ticks) wethIs0 amount).isSome :=
    fun hquote => (harvestFloor_isSome hsmall).mpr (Or.inr hquote)
  have hfits := products_fit_iff hamount hlow hhigh (feeToken wethIs0)
  rw [limit]
  constructor
  · rintro ⟨hproducts, -, -⟩
    cases htoken : feeToken wethIs0 with
    | token0 => exact Or.inr (hfits.mp hproducts htoken)
    | token1 => exact Or.inl rfl
  · intro hroom
    have hproducts := hfits.mpr fun htoken => hroom.resolve_left (by rw [htoken]; exact nofun)
    have hquote := hiff.mpr hproducts
    exact ⟨hproducts, hquote, hharvest hquote⟩

/-- The two cumulative ticks of a pool that stood at a tick for the whole window. -/
def steady (tick : Int) : Int × Int := (0, TWAP_WINDOW * tick)

theorem quote_fits_sample :
    twapTick (steady (-200)) = some (-200) ∧
      (((∀ p ∈ products .token1 (10 ^ 18) (_sqrtAtTick (-200)), p < 2 ^ 256) ∧
          (_twapQuote (some (steady (-200))) .token1 (10 ^ 18)).isSome ∧
          (harvestFloor (some (steady (-200))) true (10 ^ 18)).isSome) ↔
        (feeToken true = .token1 ∨ 10 ^ 18 < limit (-200))) :=
  ⟨by decide, quote_fits_iff (steady (-200)) (-200) (by decide) (by decide) true (10 ^ 18)
    (by norm_num)⟩

/-- A pool at tick 800000, and `10 ^ 20` of its `token0`. -/
theorem quote_reverts :
    twapTick (steady 800000) = some 800000 ∧ (800000 : Int) ≤ MAX_TICK ∧
      (10 : Nat) ^ 20 < 2 ^ 96 ∧
      _twapQuote (some (steady 800000)) .token0 (10 ^ 20) = none ∧
      harvestFloor (some (steady 800000)) false (10 ^ 20) = none := by
  decide +kernel

end TwapQuote

end Ordo
