import Mathlib.Algebra.Order.BigOperators.Group.List
import Mathlib.Algebra.Order.Ring.Int
import Ordo.Batch

/-!
# The netting solver for one pair

A batch on a pair of tokens has sellers of `a` and sellers of `b`.  The contract pays
every order at one price per token, so that the whole batch is one number, what an `a`
is worth in `b`, written as a fraction.  What the two sides do not cover for each other
is the residual, and only the residual goes to the AMM.

`residual_nets` says that the residual has one side at most and leaves the token it is
sold in exactly even, `spread_total` that the interactions sell all of it.
-/

namespace Ordo

namespace Solver

open OrdoBatch (Order Interaction)

/-- Ether is named as WETH in the pool and in the balance check. -/
def asToken (WETH t : Address) : Address := if t = NATIVE then WETH else t

/-- The orders of a pair, by the token that they sell. -/
structure PairBatch (WETH : Address) where
  a : Address
  b : Address
  sellA : List Order
  sellB : List Order
  sellsA : ∀ o ∈ sellA, asToken WETH o.sellToken = a
  sellsB : ∀ o ∈ sellB, asToken WETH o.sellToken = b ∧ b ≠ a

/-- A clearing price as a fraction: one `a` is worth `pA / pB` of `b`. -/
structure Clearing where
  pA : Int
  pB : Int
  deriving DecidableEq

/-- What one side sells that the other does not absorb. -/
structure Residual where
  a : Int
  b : Int
  deriving DecidableEq

variable {WETH : Address}

section Amounts

variable (batch : PairBatch WETH) (c : Clearing)

def allOrders : List Order := batch.sellA ++ batch.sellB

/-- A division by zero throws, so `solve` asks first (`divides`). -/
def buyAmount (o : Order) : Int :=
  if asToken WETH o.sellToken = batch.a then (o.sellAmount * c.pA).tdiv c.pB
  else (o.sellAmount * c.pB).tdiv c.pA

def sold (orders : List Order) : Int := (orders.map fun o => (o.sellAmount : Int)).sum

/-- The `b` that the sellers of `a` want. -/
def owedB : Int := (batch.sellA.map (buyAmount batch c)).sum

/-- The `a` that the sellers of `b` want. -/
def owedA : Int := (batch.sellB.map (buyAmount batch c)).sum

/-- The residual is chosen so that the token it is sold in comes out exactly even: the
AMM only ever has to cover the bought token. -/
def residual : Residual :=
  if sold batch.sellB < owedB batch c then
    -- net demand for b
    ⟨if owedA batch c < sold batch.sellA then sold batch.sellA - owedA batch c else 0, 0⟩
  else if sold batch.sellA < owedA batch c then
    ⟨0, if owedB batch c < sold batch.sellB then sold batch.sellB - owedB batch c else 0⟩
  else ⟨0, 0⟩

/-- How much of the batch met a counterparty, in `a`. -/
def nettedA : Int := min (sold batch.sellA) (owedA batch c)

/-- Orders whose limit the clearing price does not reach. -/
def limitFailures : List Order :=
  (allOrders batch).filter fun o => buyAmount batch c o < o.minBuyAmount

def without (drop : List Order) : PairBatch WETH where
  a := batch.a
  b := batch.b
  sellA := batch.sellA.filter (· ∉ drop)
  sellB := batch.sellB.filter (· ∉ drop)
  sellsA := fun o ho => batch.sellsA o (List.mem_of_mem_filter ho)
  sellsB := fun o ho => batch.sellsB o (List.mem_of_mem_filter ho)

end Amounts

/-! ### Routes -/

structure Part where
  legs : List Legs.Leg
  num : Nat

/-- How a residual is spread across routes: `num / den` of it goes down each. -/
structure Allocation where
  parts : List Part
  den : Nat
  den_pos : 0 < den
  whole : (parts.map Part.num).sum = den

def single (legs : List Legs.Leg) : Allocation := ⟨[⟨legs, 1⟩], 1, Nat.one_pos, rfl⟩

def push (p : Part) (amt : Int) : List Interaction :=
  if 0 < amt then [⟨p.legs, amt.toNat⟩] else []

/-- Each part gets its share rounded down, the last one what is left. -/
def spreadFrom (amount : Int) (den : Nat) : Int → List Part → List Interaction
  | _, [] => []
  | used, [p] => push p (amount - used)
  | used, p :: q :: parts =>
      let amt := (amount * p.num).tdiv den
      push p amt ++ spreadFrom amount den (used + amt) (q :: parts)

def spread (amount : Int) (alloc : Allocation) : List Interaction :=
  spreadFrom amount alloc.den 0 (alloc.parts.filter fun p => 0 < p.num)

/-- Interactions that turn the residual into the token in demand. -/
def interactionsFor (res : Residual) (routeAtoB routeBtoA : Option Allocation) :
    List Interaction :=
  (if 0 < res.a then (routeAtoB.map (spread res.a)).getD [] else []) ++
    if 0 < res.b then (routeBtoA.map (spread res.b)).getD [] else []

/-! ### What the residual leaves -/

section Nets

variable {batch : PairBatch WETH} {c : Clearing}

theorem sold_nonneg (orders : List Order) : 0 ≤ sold orders := by
  apply List.sum_nonneg
  intro x hx
  obtain ⟨o, -, rfl⟩ := List.mem_map.mp hx
  exact Int.natCast_nonneg _

/-- Shares rounded down, together, are not above the share of the whole. -/
theorem sum_tdiv_mul_le {p q : Int} (hp : 0 < p) (hq : 0 < q) (orders : List Order) :
    (orders.map fun o => ((o.sellAmount : Int) * p).tdiv q).sum * q ≤ sold orders * p := by
  induction orders with
  | nil => simp [sold]
  | cons o orders ih =>
      have hnonneg : 0 ≤ (o.sellAmount : Int) * p :=
        mul_nonneg (Int.natCast_nonneg _) hp.le
      have hfloor : ((o.sellAmount : Int) * p).tdiv q * q ≤ o.sellAmount * p := by
        rw [Int.tdiv_eq_ediv_of_nonneg hnonneg]
        exact Int.ediv_mul_le _ hq.ne'
      have hsold : sold (o :: orders) = o.sellAmount + sold orders := rfl
      rw [List.map_cons, List.sum_cons, hsold, add_mul, add_mul]
      exact add_le_add hfloor ih

theorem sum_tdiv_nonneg {p q : Int} (hp : 0 < p) (hq : 0 < q) (orders : List Order) :
    0 ≤ (orders.map fun o => ((o.sellAmount : Int) * p).tdiv q).sum := by
  apply List.sum_nonneg
  intro x hx
  obtain ⟨o, -, rfl⟩ := List.mem_map.mp hx
  exact Int.tdiv_nonneg (mul_nonneg (Int.natCast_nonneg _) hp.le) hq.le

theorem owedB_eq (batch : PairBatch WETH) (c : Clearing) :
    owedB batch c = (batch.sellA.map fun o => ((o.sellAmount : Int) * c.pA).tdiv c.pB).sum := by
  refine congrArg List.sum (List.map_congr_left fun o ho => ?_)
  rw [buyAmount, if_pos (batch.sellsA o ho)]

theorem owedA_eq (batch : PairBatch WETH) (c : Clearing) :
    owedA batch c = (batch.sellB.map fun o => ((o.sellAmount : Int) * c.pB).tdiv c.pA).sum := by
  refine congrArg List.sum (List.map_congr_left fun o ho => ?_)
  obtain ⟨hsells, hne⟩ := batch.sellsB o ho
  rw [buyAmount, if_neg (by rw [hsells]; exact hne)]

/-- The sellers of `a` together want no more than the price gives for what they sell. -/
theorem owedB_mul_le (hA : 0 < c.pA) (hB : 0 < c.pB) :
    owedB batch c * c.pB ≤ sold batch.sellA * c.pA := by
  rw [owedB_eq]
  exact sum_tdiv_mul_le hA hB batch.sellA

theorem owedA_mul_le (hA : 0 < c.pA) (hB : 0 < c.pB) :
    owedA batch c * c.pA ≤ sold batch.sellB * c.pB := by
  rw [owedA_eq]
  exact sum_tdiv_mul_le hB hA batch.sellB

/-- Demand for `b` in excess means `a` in excess. -/
theorem owedA_lt_of_owedB_gt (hA : 0 < c.pA) (hB : 0 < c.pB)
    (h : sold batch.sellB < owedB batch c) : owedA batch c < sold batch.sellA := by
  have hchain : owedA batch c * c.pA < sold batch.sellA * c.pA :=
    calc owedA batch c * c.pA ≤ sold batch.sellB * c.pB := owedA_mul_le hA hB
      _ < owedB batch c * c.pB := mul_lt_mul_of_pos_right h hB
      _ ≤ sold batch.sellA * c.pA := owedB_mul_le hA hB
  exact lt_of_mul_lt_mul_right hchain hA.le

theorem owedB_lt_of_owedA_gt (hA : 0 < c.pA) (hB : 0 < c.pB)
    (h : sold batch.sellA < owedA batch c) : owedB batch c < sold batch.sellB := by
  have hchain : owedB batch c * c.pB < sold batch.sellB * c.pB :=
    calc owedB batch c * c.pB ≤ sold batch.sellA * c.pA := owedB_mul_le hA hB
      _ < owedA batch c * c.pA := mul_lt_mul_of_pos_right h hA
      _ ≤ sold batch.sellB * c.pB := owedA_mul_le hA hB
  exact lt_of_mul_lt_mul_right hchain hB.le

/-- A residual that nets a batch: it has one side at most, and the token that it is sold
in is left with exactly what is owed of it; with nothing to sell, neither token is
short. -/
structure Nets (batch : PairBatch WETH) (c : Clearing) (res : Residual) : Prop where
  one_side : res.a = 0 ∨ res.b = 0
  nonneg : 0 ≤ res.a ∧ 0 ≤ res.b
  owed_nonneg : 0 ≤ owedA batch c ∧ 0 ≤ owedB batch c
  even_a : res.a ≠ 0 → sold batch.sellA - res.a = owedA batch c
  even_b : res.b ≠ 0 → sold batch.sellB - res.b = owedB batch c
  netted : res.a = 0 → res.b = 0 →
    owedA batch c ≤ sold batch.sellA ∧ owedB batch c ≤ sold batch.sellB

end Nets

section Spread

theorem push_total (p : Part) {amt : Int} (h : 0 ≤ amt) :
    ((push p amt).map fun x => (x.amountIn : Int)).sum = amt := by
  unfold push
  split
  · simp [h]
  · simp
    omega

/-- The parts that are left take what has not been used. -/
theorem spreadFrom_total {amount : Int} {den : Nat} (hamount : 0 ≤ amount) (hden : 0 < den)
    (parts : List Part) : ∀ used : Int, parts ≠ [] →
      used * den + amount * (parts.map Part.num).sum ≤ amount * den →
      ((spreadFrom amount den used parts).map fun x => (x.amountIn : Int)).sum =
        amount - used := by
  have hpos : (0 : Int) < den := Int.natCast_pos.mpr hden
  induction parts with
  | nil => exact fun _ hne => absurd rfl hne
  | cons p parts ih =>
      intro used _ hroom
      have hrest : 0 ≤ amount * (((p :: parts).map Part.num).sum : Nat) :=
        mul_nonneg hamount (Int.natCast_nonneg _)
      cases parts with
      | nil =>
          have hused : used ≤ amount := by
            have hle : used * den ≤ amount * den := by omega
            exact le_of_mul_le_mul_right hle hpos
          rw [spreadFrom]
          exact push_total p (by omega)
      | cons q parts =>
          have hshare : 0 ≤ amount * (p.num : Int) :=
            mul_nonneg hamount (Int.natCast_nonneg _)
          have hfloor : (amount * p.num).tdiv den * den ≤ amount * p.num := by
            rw [Int.tdiv_eq_ediv_of_nonneg hshare]
            exact Int.ediv_mul_le _ hpos.ne'
          have hsum : (((p :: q :: parts).map Part.num).sum : Int) =
              p.num + (((q :: parts).map Part.num).sum : Nat) := by
            simp
          rw [hsum, mul_add] at hroom
          have htail := ih (used + (amount * p.num).tdiv den) (List.cons_ne_nil _ _) (by
            rw [add_mul]
            omega)
          rw [spreadFrom, List.map_append, List.sum_append, htail,
            push_total p (Int.tdiv_nonneg hshare hpos.le)]
          omega

/-- **A residual is spread without a remainder.** -/
theorem spread_total {amount : Int} (hamount : 0 ≤ amount) (alloc : Allocation) :
    ((spread amount alloc).map fun x => (x.amountIn : Int)).sum = amount := by
  have hsum : ((alloc.parts.filter fun p => 0 < p.num).map Part.num).sum = alloc.den := by
    rw [← alloc.whole]
    generalize alloc.parts = parts
    induction parts with
    | nil => rfl
    | cons p parts ih =>
        by_cases hp : 0 < p.num
        · simp [hp, ih]
        · have hzero : p.num = 0 := by omega
          simp [hzero, ih]
  have hne : (alloc.parts.filter fun p => 0 < p.num) ≠ [] := by
    intro hnil
    rw [hnil] at hsum
    have hpos := alloc.den_pos
    simp at hsum
    omega
  have htotal := spreadFrom_total hamount alloc.den_pos _ 0 hne (by
    rw [hsum]
    omega)
  rw [spread, htotal, sub_zero]

theorem interactionsFor_total {res : Residual} (hnonneg : 0 ≤ res.a ∧ 0 ≤ res.b)
    (ab ba : Allocation) :
    ((interactionsFor res (some ab) (some ba)).map fun x => (x.amountIn : Int)).sum =
      res.a + res.b := by
  obtain ⟨ha, hb⟩ := hnonneg
  rw [interactionsFor, List.map_append, List.sum_append]
  congr 1
  · split
    · exact spread_total ha ab
    · simp
      omega
  · split
    · exact spread_total hb ba
    · simp
      omega

end Spread

/-- **The solver nets exactly.**  At every positive price the residual nets the batch,
and the interactions sell just the residual. -/
theorem residual_nets (batch : PairBatch WETH) (c : Clearing) (hA : 0 < c.pA)
    (hB : 0 < c.pB) :
    Nets batch c (residual batch c) ∧ ∀ ab ba : Allocation,
      ((interactionsFor (residual batch c) (some ab) (some ba)).map
        fun x => (x.amountIn : Int)).sum = (residual batch c).a + (residual batch c).b := by
  have howedA : 0 ≤ owedA batch c := by
    rw [owedA_eq]
    exact sum_tdiv_nonneg hB hA batch.sellB
  have howedB : 0 ≤ owedB batch c := by
    rw [owedB_eq]
    exact sum_tdiv_nonneg hA hB batch.sellA
  have hnets : Nets batch c (residual batch c) := by
    unfold residual
    split
    next hdemand =>
      have hexcess := owedA_lt_of_owedB_gt hA hB hdemand
      rw [if_pos hexcess]
      refine ⟨Or.inr rfl, ⟨sub_nonneg.mpr hexcess.le, le_refl 0⟩, ⟨howedA, howedB⟩,
        fun _ => sub_sub_self _ _, fun hne => absurd rfl hne, fun hzero _ => ?_⟩
      have hsome : sold batch.sellA - owedA batch c = 0 := hzero
      omega
    next hcovered =>
      split
      next hdemand =>
        have hexcess := owedB_lt_of_owedA_gt hA hB hdemand
        rw [if_pos hexcess]
        refine ⟨Or.inl rfl, ⟨le_refl 0, sub_nonneg.mpr hexcess.le⟩, ⟨howedA, howedB⟩,
          fun hne => absurd rfl hne, fun _ => sub_sub_self _ _, fun _ hzero => ?_⟩
        have hsome : sold batch.sellB - owedB batch c = 0 := hzero
        omega
      next hcovered' =>
        exact ⟨Or.inl rfl, ⟨le_refl 0, le_refl 0⟩, ⟨howedA, howedB⟩,
          fun hne => absurd rfl hne, fun hne => absurd rfl hne,
          fun _ _ => ⟨not_lt.mp hcovered', not_lt.mp hcovered⟩⟩
  exact ⟨hnets, interactionsFor_total hnets.nonneg⟩

/-- An order of account 1 that pays the account itself. -/
def sampleOrder (sellToken buyToken : Address) (sellAmount minBuyAmount : Nat) : Order where
  owner := 1
  receiver := 0
  sellToken
  buyToken
  sellAmount
  minBuyAmount
  validTo := 100
  nonce := 0
  appData := 0

def sampleBatch : PairBatch 9 where
  a := 2
  b := 3
  sellA := [sampleOrder 2 3 10 0, sampleOrder 2 3 7 0]
  sellB := [sampleOrder 3 2 4 0]
  sellsA := by decide
  sellsB := by decide

theorem residual_nets_sample :
    residual sampleBatch ⟨3, 2⟩ = ⟨15, 0⟩ ∧ Nets sampleBatch ⟨3, 2⟩ (residual sampleBatch ⟨3, 2⟩) :=
  ⟨by decide, (residual_nets sampleBatch ⟨3, 2⟩ (by decide) (by decide)).1⟩

end Solver

end Ordo
