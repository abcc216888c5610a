import Ordo.PlanLadder

/-!
# The scaling planner keeps to the budgets

Every rung's amounts are rounded up, so that together they can be over a budget by as many
units as there are bins.  The planner shaves the scale and then halves it, for at most 64
passes.  That many are enough: by then a scale that would give each bin at most one unit of
a token that it needs has no liquidity left for any bin if the budget has fewer units than
the bins need, because a bin has less than `2 ^ 64` in one unit of liquidity.
-/

namespace Ordo

namespace PlanLadder

open Planner
open SplitLadder (Request Shape)

section Amounts

variable {a b L L' n m : Nat}

/-- What a unit of liquidity does not need, no other liquidity needs. -/
theorem amount0For_none (hL : L ≠ 0) (hn : amount0For a b L = some n)
    (hm : amount0For a b L' = some m) (hnone : n = 0) : m = 0 := by
  obtain ⟨hden, hn⟩ := div_eq_some.mp hn
  obtain ⟨-, hm⟩ := div_eq_some.mp hm
  have hpos := Nat.pos_of_ne_zero hden
  have hzero := (FullMath.ceil_le hpos).mp (hn.symm.trans hnone).le
  have hsame : b - a = 0 := by
    rcases Nat.mul_eq_zero.mp (Nat.le_zero.mp (hzero.trans (by omega))) with h | h
    · exact absurd h (Nat.mul_ne_zero hL (by decide))
    · exact h
  rw [hm, hsame, Nat.mul_zero, Nat.zero_add]
  exact Nat.div_eq_of_lt (Nat.sub_lt hpos Nat.one_pos)

theorem amount1For_none (hL : L ≠ 0) (hn : amount1For a b L = some n)
    (hm : amount1For a b L' = some m) (hnone : n = 0) : m = 0 := by
  obtain ⟨hden, hn⟩ := div_eq_some.mp hn
  obtain ⟨-, hm⟩ := div_eq_some.mp hm
  have hpos := Nat.pos_of_ne_zero hden
  have hzero := (FullMath.ceil_le hpos).mp (hn.symm.trans hnone).le
  have hsame : b - a = 0 := by
    rcases Nat.mul_eq_zero.mp (Nat.le_zero.mp (hzero.trans (by omega))) with h | h
    · exact absurd h hL
    · exact h
  rw [hm, hsame, Nat.mul_zero, Nat.zero_add]
  exact Nat.div_eq_of_lt (Nat.sub_lt hpos Nat.one_pos)

theorem amounts_none {sqrtP : Nat} {n m : Nat × Nat} (hL : L' ≠ 0 → L ≠ 0)
    (hn : amountsForLiquidity sqrtP a b L = some n)
    (hm : amountsForLiquidity sqrtP a b L' = some m) :
    (n.1 = 0 → m.1 = 0) ∧ (n.2 = 0 → m.2 = 0) := by
  by_cases hzero' : L' = 0
  · rw [amountsForLiquidity, if_pos hzero'] at hm
    cases hm
    exact ⟨fun _ => rfl, fun _ => rfl⟩
  have hzero := hL hzero'
  rw [amountsForLiquidity, if_neg hzero] at hn
  rw [amountsForLiquidity, if_neg hzero'] at hm
  by_cases hbelow : sqrtP ≤ min a b
  · rw [if_pos hbelow] at hn hm
    obtain ⟨x, hx, rfl⟩ := Option.map_eq_some_iff.mp hn
    obtain ⟨y, hy, rfl⟩ := Option.map_eq_some_iff.mp hm
    exact ⟨amount0For_none hzero hx hy, fun _ => rfl⟩
  rw [if_neg hbelow] at hn hm
  by_cases habove : max a b ≤ sqrtP
  · rw [if_pos habove] at hn hm
    obtain ⟨x, hx, rfl⟩ := Option.map_eq_some_iff.mp hn
    obtain ⟨y, hy, rfl⟩ := Option.map_eq_some_iff.mp hm
    exact ⟨fun _ => rfl, amount1For_none hzero hx hy⟩
  rw [if_neg habove] at hn hm
  obtain ⟨x0, hx0, hn⟩ := Option.bind_eq_some_iff.mp hn
  obtain ⟨x1, hx1, hn⟩ := Option.bind_eq_some_iff.mp hn
  obtain ⟨y0, hy0, hm⟩ := Option.bind_eq_some_iff.mp hm
  obtain ⟨y1, hy1, hm⟩ := Option.bind_eq_some_iff.mp hm
  cases hn
  cases hm
  exact ⟨amount0For_none hzero hx0 hy0, amount1For_none hzero hx1 hy1⟩

end Amounts

section Small

variable {w : PlanParts} {r : Request} {sqrtP slip : Nat} {s : Scale} {bs : List Bound}

/-- What a rung is, by the amounts of its bin. -/
theorem buildRung_some {b : Bound} {q : PlanRung}
    (h : buildRung w r sqrtP slip s b = some (some q)) :
    ∃ L a, liquidityAt w r s b.index = some L ∧ L ≠ 0 ∧ amountsAt sqrtP b.lo b.hi L = some a ∧
      q.amount0 = a.1 ∧ q.amount1 = a.2 ∧
      q.amount0Min = a.1 * (10000 - slip) / 10000 ∧
      q.amount1Min = a.2 * (10000 - slip) / 10000 := by
  obtain ⟨L, hL, h⟩ := Option.bind_eq_some_iff.mp h
  split at h
  · cases h
  next hne =>
    obtain ⟨a, ha, h⟩ := Option.bind_eq_some_iff.mp h
    split at h
    · cases h
    · cases h
      exact ⟨L, a, hL, hne, ha, rfl, rfl, rfl, rfl⟩

theorem liquidityAt_le {i L : Nat} (hL : liquidityAt w r s i = some L) :
    L * s.den ≤ unit w r i * s.num := by
  rw [liquidityAt] at hL
  split at hL
  · cases hL
    rw [Nat.zero_mul]
    exact Nat.zero_le _
  · obtain ⟨-, rfl⟩ := div_eq_some.mp hL
    exact Nat.div_mul_le_self _ _

theorem small_le {x n num den : Nat} (hle : x * den ≤ n * num + den)
    (hnone : n = 0 → x = 0) (hsmall : n * num < den) : x ≤ n := by
  have htwo : x * den < 2 * den := by omega
  have hone := Nat.lt_of_mul_lt_mul_right htwo
  by_cases hzero : n = 0
  · rw [hnone hzero]
    exact Nat.zero_le _
  · omega

/-- Where a scale gives a bin less than one of a token, its rung has one, if the bin needs
that token at all. -/
theorem buildRung_small {b : Bound} {q : PlanRung} (hden : 0 < s.den)
    (hb : boundAt w r sqrtP b.index = some b) (h : buildRung w r sqrtP slip s b = some (some q)) :
    (b.amount0 * s.num < s.den → q.amount0 ≤ b.amount0) ∧
      (b.amount1 * s.num < s.den → q.amount1 ≤ b.amount1) := by
  obtain ⟨L, a, hL, hne, ha, h0, h1, -, -⟩ := buildRung_some h
  obtain ⟨-, -, sqrtA, sqrtB, hA, hB, hunit⟩ := boundAt_spec w r sqrtP hb
  obtain ⟨sqrtA', hA', ha⟩ := Option.bind_eq_some_iff.mp ha
  obtain ⟨sqrtB', hB', ha⟩ := Option.bind_eq_some_iff.mp ha
  cases hA.symm.trans hA'
  cases hB.symm.trans hB'
  have hscaled : L * s.den ≤ unit w r b.index * s.num := liquidityAt_le hL
  have hunitne : L ≠ 0 → unit w r b.index ≠ 0 := by
    intro hne hzero
    rw [hzero, Nat.zero_mul] at hscaled
    exact Nat.mul_ne_zero hne hden.ne' (Nat.le_zero.mp hscaled)
  obtain ⟨hle0, hle1⟩ := amounts_scaled hden hunit ha hscaled
  obtain ⟨hnone0, hnone1⟩ := amounts_none hunitne hunit ha
  rw [h0, h1]
  exact ⟨small_le hle0 hnone0, small_le hle1 hnone1⟩

/-- **A small scale** gives no bin more of a token than it needs for a unit. -/
theorem build_small (hden : 0 < s.den) :
    ∀ {bs : List Bound} {rungs : List PlanRung},
      (∀ b ∈ bs, boundAt w r sqrtP b.index = some b) →
      build w r sqrtP slip s bs = some rungs →
      (need0 bs * s.num < s.den → total0 rungs ≤ need0 bs) ∧
        (need1 bs * s.num < s.den → total1 rungs ≤ need1 bs) := by
  intro bs
  induction bs with
  | nil =>
      intro rungs _ h
      cases h
      exact ⟨fun _ => le_refl _, fun _ => le_refl _⟩
  | cons b bs ih =>
      intro rungs hall h
      obtain ⟨q, hq, h⟩ := Option.bind_eq_some_iff.mp h
      obtain ⟨rest, hrest, h⟩ := Option.bind_eq_some_iff.mp h
      cases h
      obtain ⟨hrest0, hrest1⟩ := ih (fun c hc => hall c (List.mem_cons_of_mem _ hc)) hrest
      have hneed0 : need0 (b :: bs) = b.amount0 + need0 bs := by simp [need0]
      have hneed1 : need1 (b :: bs) = b.amount1 + need1 bs := by simp [need1]
      rw [hneed0, hneed1, Nat.add_mul, Nat.add_mul]
      cases q with
      | none =>
          constructor
          · intro hsmall
            exact (hrest0 (by omega)).trans (Nat.le_add_left _ _)
          · intro hsmall
            exact (hrest1 (by omega)).trans (Nat.le_add_left _ _)
      | some q =>
          obtain ⟨hq0, hq1⟩ := buildRung_small hden (hall b List.mem_cons_self) hq
          have htotal0 : total0 ((some q).toList ++ rest) = q.amount0 + total0 rest := by
            simp [total0]
          have htotal1 : total1 ((some q).toList ++ rest) = q.amount1 + total1 rest := by
            simp [total1]
          rw [htotal0, htotal1]
          constructor
          · intro hsmall
            exact Nat.add_le_add (hq0 (by omega)) (hrest0 (by omega))
          · intro hsmall
            exact Nat.add_le_add (hq1 (by omega)) (hrest1 (by omega))

/-- **A scale that gives no bin any liquidity** builds nothing. -/
theorem build_none (hunit : ∀ i, unit w r i * s.num < s.den) :
    ∀ {bs : List Bound} {rungs : List PlanRung}, build w r sqrtP slip s bs = some rungs →
      rungs = [] := by
  intro bs
  induction bs with
  | nil =>
      intro rungs h
      cases h
      rfl
  | cons b bs ih =>
      intro rungs h
      obtain ⟨q, hq, h⟩ := Option.bind_eq_some_iff.mp h
      obtain ⟨rest, hrest, h⟩ := Option.bind_eq_some_iff.mp h
      cases h
      cases q with
      | none => exact ih hrest
      | some q =>
          obtain ⟨L, a, hL, hne, -⟩ := buildRung_some hq
          have hscaled := (liquidityAt_le hL).trans_lt (hunit b.index)
          have hle := Nat.le_mul_of_pos_left s.den (Nat.pos_of_ne_zero hne)
          omega

/-- Every rung's minimums are parts of its amounts. -/
theorem build_minimums : ∀ {bs : List Bound} {rungs : List PlanRung},
    build w r sqrtP slip s bs = some rungs →
    ∀ q ∈ rungs, q.amount0Min ≤ q.amount0 ∧ q.amount1Min ≤ q.amount1 := by
  have hpart : ∀ x, x * (10000 - slip) / 10000 ≤ x := fun x =>
    Nat.div_le_of_le_mul (by rw [Nat.mul_comm 10000]; exact Nat.mul_le_mul_left x (Nat.sub_le _ _))
  intro bs
  induction bs with
  | nil =>
      intro rungs h q hq
      cases h
      cases hq
  | cons b bs ih =>
      intro rungs h q hq
      obtain ⟨first, hfirst, h⟩ := Option.bind_eq_some_iff.mp h
      obtain ⟨rest, hrest, h⟩ := Option.bind_eq_some_iff.mp h
      cases h
      rcases List.mem_append.mp hq with hq | hq
      · obtain rfl := Option.mem_toList.mp hq
        obtain ⟨L, a, -, -, -, h0, h1, hmin0, hmin1⟩ := buildRung_some hfirst
        rw [h0, h1, hmin0, hmin1]
        exact ⟨hpart a.1, hpart a.2⟩
      · exact ih hrest q hq

end Small

section Passes

variable (w : PlanParts) {r : Request} {sqrtP slip : Nat} {s : Scale} {bs : List Bound}
  {budget0 budget1 : Nat}

theorem unit_lt (i : Nat) : unit w r i < 2 ^ 64 := by
  have hle := w.parts_le r.shape (bins r) (centre r) i
  have hunit : unit w r i = w.parts r.shape (bins r) (centre r) i * 10 ^ 18 / 10 ^ 9 := rfl
  rw [hunit]
  generalize w.parts r.shape (bins r) (centre r) i = x at hle
  omega

/-- The total of a token, when its scale has been halved 64 times: the budget has that many
units, or the bins together need no more than it, or nothing is built. -/
theorem fits_of_halved {total need budget num den n : Nat} (hden : 0 < den) (hn : n ≤ 40)
    (hwithin : need * num ≤ budget * den)
    (hsum : total * (den * 2 ^ 64) ≤ need * num + n * (den * 2 ^ 64))
    (hsmall : need * num < den * 2 ^ 64 → total ≤ need) (hnone : num < den → total = 0) :
    total ≤ budget := by
  by_cases hneed : budget < need
  · have hless : num < den := by
      by_contra hge
      have hle := Nat.mul_le_mul_left need (Nat.not_lt.mp hge)
      have hlt := Nat.mul_lt_mul_of_pos_right hneed hden
      omega
    rw [hnone hless]
    exact Nat.zero_le _
  · by_cases hlarge : 2 ^ 64 ≤ budget
    · have hscaled : (total * 2 ^ 64) * den ≤ (budget + n * 2 ^ 64) * den := by
        calc total * 2 ^ 64 * den = total * (den * 2 ^ 64) := by ring
          _ ≤ need * num + n * (den * 2 ^ 64) := hsum
          _ ≤ budget * den + n * (den * 2 ^ 64) := Nat.add_le_add_right hwithin _
          _ = (budget + n * 2 ^ 64) * den := by ring
      have hle := Nat.le_of_mul_le_mul_right hscaled hden
      omega
    · have hless : need * num < den * 2 ^ 64 := by
        calc need * num ≤ budget * den := hwithin
          _ < 2 ^ 64 * den := Nat.mul_lt_mul_of_pos_right (Nat.not_le.mp hlarge) hden
          _ = den * 2 ^ 64 := Nat.mul_comm _ _
      exact (hsmall hless).trans (Nat.not_lt.mp hneed)

/-- **What is built after 64 halvings** is within the budgets. -/
theorem build_halved (hbs : ∀ b ∈ bs, boundAt w r sqrtP b.index = some b) (hn : bs.length ≤ 40)
    (hwithin : Within bs budget0 budget1 1 1 s) {rungs : List PlanRung}
    (h : build w r sqrtP slip { s with den := s.den * 2 ^ 64 } bs = some rungs) :
    ¬ exceeds budget0 budget1 rungs := by
  have hden := hwithin.den_pos
  have hden' : 0 < s.den * 2 ^ 64 := Nat.mul_pos hden (by decide)
  obtain ⟨hsmall0, hsmall1⟩ := build_small hden' hbs h
  obtain ⟨-, -, hsum0, hsum1⟩ := build_spec w r sqrtP slip hden' hbs h
  have hfirst := hwithin.first
  have hsecond := hwithin.second
  rw [Nat.mul_one, Nat.mul_one] at hfirst hsecond
  have hempty : s.num < s.den → rungs = [] := by
    intro hless
    refine build_none (fun i => ?_) h
    calc unit w r i * s.num ≤ unit w r i * s.den := Nat.mul_le_mul_left _ hless.le
      _ < 2 ^ 64 * s.den := Nat.mul_lt_mul_of_pos_right (unit_lt w i) hden
      _ = s.den * 2 ^ 64 := Nat.mul_comm _ _
  have h0 : total0 rungs ≤ budget0 :=
    fits_of_halved hden hn hfirst hsum0 hsmall0 fun hless => by rw [hempty hless]; rfl
  have h1 : total1 rungs ≤ budget1 :=
    fits_of_halved hden hn hsecond hsum1 hsmall1 fun hless => by rw [hempty hless]; rfl
  exact fun hover => hover.elim (Nat.not_lt.mpr h0) (Nat.not_lt.mpr h1)

/-- A run of halving passes ends within the budgets, if its last pass would. -/
theorem halve_fits {passes : Nat} : ∀ {s : Scale} {built rungs : List PlanRung},
    build w r sqrtP slip s bs = some built →
    (∀ last, build w r sqrtP slip { s with den := s.den * 2 ^ passes } bs = some last →
      ¬ exceeds budget0 budget1 last) →
    halve w r sqrtP slip bs budget0 budget1 passes s built = some rungs →
    ¬ exceeds budget0 budget1 rungs ∧ ∃ t, build w r sqrtP slip t bs = some rungs := by
  induction passes with
  | zero =>
      intro s built rungs hbuild hlast h
      cases h
      refine ⟨hlast built ?_, s, hbuild⟩
      rw [Nat.pow_zero, Nat.mul_one]
      exact hbuild
  | succ passes ih =>
      intro s built rungs hbuild hlast h
      rw [halve] at h
      split at h
      · obtain ⟨next, hnext, h⟩ := Option.bind_eq_some_iff.mp h
        refine ih hnext (fun last hbuilt => hlast last ?_) h
        rw [Nat.pow_succ, Nat.mul_comm (2 ^ passes), ← Nat.mul_assoc]
        exact hbuilt
      next hdone =>
        cases h
        refine ⟨fun hover => hdone ⟨hover, ?_⟩, s, hbuild⟩
        rintro rfl
        exact hover.elim (Nat.not_lt_zero _) (Nat.not_lt_zero _)

end Passes

/-- **Within the budgets.**  A plan's totals are what its rungs take and are within the
budgets, also when the passes were used up, and no rung's minimums are over its amounts. -/
theorem planLadder_within (w : PlanParts) (r : Request) (budget0 budget1 : Nat)
    (slippageBps : Option Int) (plan : Plan)
    (h : planLadder w r budget0 budget1 slippageBps = some plan) :
    (plan.total0 = total0 plan.rungs ∧ plan.total1 = total1 plan.rungs) ∧
      (plan.total0 ≤ budget0 ∧ plan.total1 ≤ budget1) ∧
      ∀ q ∈ plan.rungs, q.amount0Min ≤ q.amount0 ∧ q.amount1Min ≤ q.amount1 := by
  obtain ⟨sqrtP, hsqrtP, h⟩ := Option.bind_eq_some_iff.mp h
  obtain ⟨bs, hbs, h⟩ := Option.bind_eq_some_iff.mp h
  obtain ⟨built, hbuilt, h⟩ := Option.bind_eq_some_iff.mp h
  obtain ⟨⟨s', built'⟩, hshave, h⟩ := Option.bind_eq_some_iff.mp h
  obtain ⟨rungs, hhalve, h⟩ := Option.bind_eq_some_iff.mp h
  cases h
  obtain ⟨hindex, hall⟩ := boundsOf_spec w r sqrtP hbs
  have hlength : bs.length ≤ 40 := by
    have hlen := congrArg List.length hindex
    rw [List.length_map, List.length_range] at hlen
    rw [hlen]
    exact count_le r
  obtain ⟨hwithin, hbuilt'⟩ :=
    shave_within w r sqrtP _ (firstScale_within bs budget0 budget1) hbuilt hshave
  obtain ⟨hfits, t, hlast⟩ :=
    halve_fits w hbuilt' (fun _ hlast => build_halved w hall hlength hwithin hlast) hhalve
  have h0 : total0 rungs ≤ budget0 := Nat.not_lt.mp fun hover => hfits (Or.inl hover)
  have h1 : total1 rungs ≤ budget1 := Nat.not_lt.mp fun hover => hfits (Or.inr hover)
  exact ⟨⟨rfl, rfl⟩, ⟨h0, h1⟩, build_minimums hlast⟩

/-- The parts of a list of weights, which are divided by their sum. -/
def normalised (weights : List Nat) : PlanParts where
  parts := fun _ _ _ i =>
    if weights.sum = 0 then 0
    else (2 * (weights.getD i 0 * 10 ^ 9) + weights.sum) / (2 * weights.sum)
  parts_le := by
    intro _ _ _ i
    split
    · exact Nat.zero_le _
    next hne =>
      have hle : weights.getD i 0 ≤ weights.sum := by
        rcases Nat.lt_or_ge i weights.length with hlt | hge
        · rw [List.getD_eq_getElem _ _ hlt]
          exact List.le_sum_of_mem (List.getElem_mem hlt)
        · rw [List.getD_eq_default _ _ hge]
          exact Nat.zero_le _
      refine Nat.lt_succ_iff.mp (Nat.div_lt_of_lt_mul ?_)
      omega

theorem spacing_of_uneven : 0 < (60 : Int) := by decide

/-- Four bins about the price, one of which weighs nothing. -/
def uneven : Request where
  tick := 7
  tickSpacing := 60
  minTick := -120
  maxTick := 120
  bins := 4
  shape := .spot
  spacing_pos := spacing_of_uneven
  minTick_lt := by decide
  maxTick_lt := by decide

theorem planLadder_within_uneven :
    ∃ plan, planLadder (normalised [1, 0, 2, 5]) uneven 1000 7 none = some plan ∧
      (plan.total0 = total0 plan.rungs ∧ plan.total1 = total1 plan.rungs) ∧
      (plan.total0 ≤ 1000 ∧ plan.total1 ≤ 7) ∧
      ∀ q ∈ plan.rungs, q.amount0Min ≤ q.amount0 ∧ q.amount1Min ≤ q.amount1 := by
  have hsome : (planLadder (normalised [1, 0, 2, 5]) uneven 1000 7 none).isSome = true := by
    decide +kernel
  obtain ⟨plan, hplan⟩ := Option.isSome_iff_exists.mp hsome
  exact ⟨plan, hplan, planLadder_within (normalised [1, 0, 2, 5]) uneven 1000 7 none plan hplan⟩

end PlanLadder

end Ordo
