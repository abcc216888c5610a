import Ordo.PlanLadder

/-!
# Planned ladders and the managers

The form offers two planners.  What either of them returns is taken by both managers
for the requests whose range stays on the spacing and within the ticks, and for those
only.
-/

namespace Ordo

open Ladder
open SplitLadder (Request Shape SplitWeights splitLadder)
open TickMath (MIN_TICK MAX_TICK getSqrtPriceAtTick)

namespace PlanLadder

section Ends

/-- Past the lowest tick the price is higher. -/
theorem sqrtPrice_above_min {t : Int} {p q : Nat} (ht : MIN_TICK < t)
    (hp : getSqrtPriceAtTick MIN_TICK = some p) (hq : getSqrtPriceAtTick t = some q) : p < q := by
  have hmin : getSqrtPriceAtTick MIN_TICK = some 4295128739 := by decide +kernel
  have hnext : getSqrtPriceAtTick (MIN_TICK + 1) = some 4295343490 := by decide +kernel
  cases hp.symm.trans hmin
  have hle : 4295343490 ≤ q := TickMath.sqrtPrice_mono ht hnext hq
  omega

/-- Short of the highest tick it is lower. -/
theorem sqrtPrice_below_max {t : Int} {p q : Nat} (ht : t < MAX_TICK)
    (hp : getSqrtPriceAtTick t = some p) (hq : getSqrtPriceAtTick MAX_TICK = some q) : p < q := by
  have hmax : getSqrtPriceAtTick MAX_TICK =
      some 1461446703485210103287273052203988822378723970342 := by decide +kernel
  have hlast : getSqrtPriceAtTick (MAX_TICK - 1) =
      some 1461373636630004318706518188784493106690254656249 := by decide +kernel
  cases hq.symm.trans hmax
  have hle := TickMath.sqrtPrice_mono (Int.le_sub_one_of_lt ht) hp hlast
  omega

/-- An alignment that leaves the spacing has been cut off at an end of the ticks. -/
theorem alignTick_ends {tick spacing : Int} {dir : Direction}
    (h : ¬ spacing ∣ alignTick tick spacing dir) :
    alignTick tick spacing dir = MIN_TICK ∨ alignTick tick spacing dir = MAX_TICK := by
  obtain ⟨n, hn⟩ : ∃ n : Int,
      alignTick tick spacing dir = max MIN_TICK (min MAX_TICK (n * spacing)) := ⟨_, rfl⟩
  rw [hn] at h ⊢
  have hdvd : spacing ∣ n * spacing := Int.dvd_mul_left n spacing
  rcases le_total (n * spacing) MAX_TICK with hmax | hmax
  · rw [min_eq_right hmax] at h ⊢
    rcases le_total (n * spacing) MIN_TICK with hmin | hmin
    · exact Or.inl (max_eq_left hmin)
    · rw [max_eq_right hmin] at h
      exact absurd hdvd h
  · rw [min_eq_left hmax]
    exact Or.inr (max_eq_right (by decide))

theorem alignTick_bounds (tick spacing : Int) (dir : Direction) :
    MIN_TICK ≤ alignTick tick spacing dir ∧ alignTick tick spacing dir ≤ MAX_TICK :=
  ⟨le_max_left _ _, max_le (by decide) (min_le_left _ _)⟩

variable (r : Request)

/-- Within a spacing there is one bin. -/
theorem bins_of_span_le (h : span r ≤ 1) : bins r = 1 := by
  have hle : min (40 : ℚ) (min r.bins (span r)) ≤ 1 :=
    (min_le_right _ _).trans ((min_le_right _ _).trans h)
  exact max_eq_left hle

/-- The first bin is not empty. -/
theorem lo_zero_lt_hi : lo r 0 < hi r 0 := by
  have hlt := low_lt_high r
  have hlo : lo r 0 = low r := by simp [lo]
  rcases le_total (span r) 1 with hspan | hspan
  · have hbins : bins r = (1 : Nat) := by simpa using bins_of_span_le r hspan
    rw [hi_last hbins rfl, hlo]
    exact hlt
  · have hwidth := binTicks_ge r hspan
    have hspacing := r.spacing_pos
    rw [hlo, hi, hlo]
    split
    · exact hlt
    · omega

/-- A number of bins that is not whole is the number of spacings. -/
theorem bins_eq_span (h : ∀ m : Nat, bins r ≠ m) : bins r = span r := by
  have hnat : ∀ {k : Int}, 1 ≤ k → bins r ≠ k := by
    intro k hk heq
    apply h k.toNat
    rw [heq]
    exact_mod_cast (Int.toNat_of_nonneg (by omega)).symm
  rcases max_choice (1 : ℚ) (min 40 (min r.bins (span r))) with hone | hmin
  · exact absurd (show bins r = ((1 : Int) : ℚ) by rw [bins, hone]; norm_num) (hnat (le_refl 1))
  have hge : 1 ≤ bins r := one_le_bins r
  rcases min_choice (40 : ℚ) (min r.bins (span r)) with hforty | hrest
  · exact absurd (show bins r = ((40 : Int) : ℚ) by rw [bins, hmin, hforty]; norm_num)
      (hnat (by decide))
  rcases min_choice (r.bins : ℚ) (span r) with hasked | hspan
  · have hbins : bins r = (r.bins : ℚ) := by rw [bins, hmin, hrest, hasked]
    rw [hbins] at hge
    exact absurd hbins (hnat (by exact_mod_cast hge))
  · rw [bins, hmin, hrest, hspan]

end Ends

section Necessary

variable (w : PlanWeights) {r : Request} {bs : List Bound}

/-- Every plan that the budgets of a word give is taken. -/
def Taken (w : PlanWeights) (r : Request) : Prop :=
  ∀ budget0 budget1 : Nat, budget0 < 2 ^ 256 → budget1 < 2 ^ 256 → ∀ slippageBps plan,
    planLadder w r budget0 budget1 slippageBps = some plan →
      Accepted r.tickSpacing (plan.rungs.map PlanRung.toRung)

variable (htaken : Taken w r) (hbs : measured w r = some bs)

include htaken hbs

/-- A bin between different prices begins and ends on the spacing. -/
theorem bin_aligned {i : Nat} (hlt : i < count r)
    (hprices : ∀ p q, getSqrtPriceAtTick (lo r i) = some p →
      getSqrtPriceAtTick (hi r i) = some q → p < q) :
    r.tickSpacing ∣ lo r i ∧ r.tickSpacing ∣ hi r i := by
  obtain ⟨plan, hplan, q, hq, hends⟩ := bin_planned w hbs hlt hprices
  obtain ⟨h0, h1⟩ := need_lt w hbs
  obtain ⟨hlower, hupper⟩ := Prod.mk.inj hends
  have hsound := (sound_of_accepted (htaken _ _ h0 h1 none plan hplan)).2 q.toRung
    (List.mem_map_of_mem hq)
  rw [← hlower, ← hupper]
  exact ⟨hsound.aligned_lower, hsound.aligned_upper⟩

theorem low_aligned : r.tickSpacing ∣ low r := by
  obtain ⟨-, hticks⟩ := measured_spec w hbs
  have hcount : 0 < count r := by
    have hceil : 0 < ⌈bins r⌉ := Int.ceil_pos.mpr (lt_of_lt_of_le one_pos (one_le_bins r))
    rw [count]
    omega
  have hlo : lo r 0 = low r := by simp [lo]
  have hfirst := lo_zero_lt_hi r
  obtain ⟨-, -, -, hmax⟩ := hticks 0 hcount
  by_contra hoff
  rcases alignTick_ends hoff with hmin | hmax'
  · -- the first bin begins at the lowest tick
    have hlow : lo r 0 = MIN_TICK := hlo.trans hmin
    have hprices : ∀ p q, getSqrtPriceAtTick (lo r 0) = some p →
        getSqrtPriceAtTick (hi r 0) = some q → p < q := by
      intro p q hp hq
      rw [hlow] at hp hfirst
      exact sqrtPrice_above_min hfirst hp hq
    exact hoff (hlo ▸ (bin_aligned w htaken hbs hcount hprices).1)
  · -- nothing is left above the highest
    have hlow : low r = MAX_TICK := hmax'
    omega

theorem high_aligned (hlow : r.tickSpacing ∣ low r) : r.tickSpacing ∣ high r := by
  obtain ⟨-, hticks⟩ := measured_spec w hbs
  have hlt := low_lt_high r
  have hspacing := r.spacing_pos
  by_contra hoff
  have htop : high r = MAX_TICK := by
    have hmin : MIN_TICK ≤ low r := (alignTick_bounds _ _ _).1
    rw [high] at hoff hlt ⊢
    split at hoff
    · exact absurd (Int.dvd_add hlow (Int.dvd_refl _)) hoff
    next hnot =>
    rw [if_neg hnot] at hlt ⊢
    rcases alignTick_ends hoff with hend | hend
    · omega
    · exact hend
  by_cases hnat : ∃ m : Nat, bins r = m
  · -- the last bin ends at the highest tick
    obtain ⟨m, hbins⟩ := hnat
    have hcount := count_eq hbins
    have hm : 1 ≤ m := by
      have hone := one_le_bins r
      rw [hbins] at hone
      exact_mod_cast hone
    have hlast : hi r (m - 1) = MAX_TICK := (hi_last hbins (by omega)).trans htop
    have hwide : lo r (m - 1) < hi r (m - 1) := by
      rcases le_total (span r) 1 with hspan | hspan
      · have hone : (m : ℚ) = 1 := hbins.symm.trans (bins_of_span_le r hspan)
        have hm' : m = 1 := by exact_mod_cast hone
        rw [hm']
        exact lo_zero_lt_hi r
      · exact (bins_ordered hbins hspan).1 _ (by omega)
    have hprices : ∀ p q, getSqrtPriceAtTick (lo r (m - 1)) = some p →
        getSqrtPriceAtTick (hi r (m - 1)) = some q → p < q := by
      intro p q hp hq
      rw [hlast] at hq hwide
      exact sqrtPrice_below_max hwide hp hq
    have haligned := (bin_aligned w htaken hbs (by omega) hprices).2
    rw [hlast, ← htop] at haligned
    exact hoff haligned
  · -- the last bin ends above it
    have hbins := bins_eq_span r (fun m hm => hnat ⟨m, hm⟩)
    have hspan := span_pos r
    have hwidth : binTicks r = r.tickSpacing := by
      rw [binTicks, hbins, div_self hspan.ne', Int.floor_one, one_mul]
    have hceil : span r < ⌈span r⌉ := by
      apply lt_of_le_of_ne (Int.le_ceil _)
      intro heq
      apply hnat
      refine ⟨⌈span r⌉.toNat, ?_⟩
      rw [hbins]
      have hnonneg : 0 ≤ ⌈span r⌉ := (Int.ceil_pos.mpr hspan).le
      calc span r = ⌈span r⌉ := heq
        _ = ((⌈span r⌉.toNat : Int) : ℚ) := by rw [Int.toNat_of_nonneg hnonneg]
        _ = (⌈span r⌉.toNat : ℚ) := by norm_cast
    have hpos : 0 < ⌈span r⌉ := Int.ceil_pos.mpr hspan
    have hcount : (count r : Int) = ⌈span r⌉ := by
      rw [count, hbins]
      exact Int.toNat_of_nonneg hpos.le
    obtain ⟨-, -, -, hinside⟩ := hticks (count r - 1) (by omega)
    have hnext : hi r (count r - 1) = low r + ⌈span r⌉ * r.tickSpacing := by
      have hne : ((count r - 1 : Nat) : ℚ) ≠ bins r - 1 := by
        intro heq
        apply hnat
        refine ⟨count r, ?_⟩
        rw [Nat.cast_sub (by omega)] at heq
        push_cast at heq
        linarith
      rw [hi, if_neg hne, lo, hwidth, ← hcount, Nat.cast_sub (by omega)]
      push_cast
      ring
    have hpast : (high r : ℚ) < low r + ⌈span r⌉ * r.tickSpacing := by
      have hmul := span_mul r
      have hcast : (0 : ℚ) < r.tickSpacing := by exact_mod_cast hspacing
      have hgrow := mul_lt_mul_of_pos_right hceil hcast
      linarith
    have hover : high r < low r + ⌈span r⌉ * r.tickSpacing := by exact_mod_cast hpast
    omega

/-- **Plans that are taken are aligned.** -/
theorem aligned_of_taken : Aligned r :=
  ⟨low_aligned w htaken hbs, high_aligned w htaken hbs (low_aligned w htaken hbs)⟩

end Necessary

end PlanLadder

namespace Ladder

open PlanLadder (PlanWeights PlanRung planLadder)

inductive Planner where
  | split
  | scale
  deriving DecidableEq

structure Weights where
  split : SplitWeights
  scale : PlanWeights

/-- The rungs for the call that opens a ladder; a planner that throws has none. -/
def planned (w : Weights) (p : Planner) (r : Request) (budget0 budget1 : Nat)
    (slippageBps : Option Int) : Option (List Rung) :=
  match p with
  | .split => some ((splitLadder w.split r budget0 budget1).map SplitLadder.SplitRung.toRung)
  | .scale =>
      (planLadder w.scale r budget0 budget1 slippageBps).map fun plan =>
        plan.rungs.map PlanRung.toRung

/-- The planner does not throw for the request, whatever it is made for. -/
def Plans (w : Weights) (p : Planner) (r : Request) : Prop :=
  ∃ budget0 budget1 slippageBps rungs,
    planned w p r budget0 budget1 slippageBps = some rungs

/-- The range that a planner works with is on the spacing and within the ticks, and the
bins are not too many. -/
def Suits : Planner → Request → Prop
  | .split, r => SplitLadder.Fits r
  | .scale, r => PlanLadder.Aligned r

/-- **Planned ladders are taken by the managers** exactly for the requests that suit the
planner.  Budgets are words. -/
theorem planned_accepted_iff (w : Weights) (p : Planner) (r : Request) (hplans : Plans w p r) :
    (∀ budget0 budget1 : Nat, budget0 < 2 ^ 256 → budget1 < 2 ^ 256 → ∀ slippageBps rungs,
      planned w p r budget0 budget1 slippageBps = some rungs → Accepted r.tickSpacing rungs) ↔
        Suits p r := by
  cases p with
  | split =>
      constructor
      · intro h
        exact SplitLadder.fits_of_accepted w.split
          (h SplitLadder.plenty SplitLadder.plenty (by decide) (by decide) none _ rfl)
      · intro hfits budget0 budget1 h0 h1 slippageBps rungs h
        cases h
        exact SplitLadder.splitLadder_accepted w.split hfits h0 h1
  | scale =>
      constructor
      · intro h
        obtain ⟨budget0, budget1, slippageBps, rungs, hplan⟩ := hplans
        obtain ⟨plan, hplan, -⟩ := Option.map_eq_some_iff.mp hplan
        obtain ⟨bs, hbs, -⟩ := PlanLadder.planLadder_spec w.scale hplan
        apply PlanLadder.aligned_of_taken w.scale _ hbs
        intro budget0 budget1 h0 h1 slippageBps plan hplan
        exact h budget0 budget1 h0 h1 slippageBps _ (Option.map_eq_some_iff.mpr ⟨plan, hplan, rfl⟩)
      · intro haligned budget0 budget1 h0 h1 slippageBps rungs h
        obtain ⟨plan, hplan, rfl⟩ := Option.map_eq_some_iff.mp h
        exact PlanLadder.planLadder_accepted w.scale haligned h0 h1 hplan

/-- Every bin weighs as much as any other. -/
def level : Weights where
  split :=
    { curve := fun _ _ => 1000000
      bidask := fun _ _ _ => 1000000
      curve_le := fun _ _ => le_refl _
      bidask_le := fun _ _ _ => le_refl _ }
  scale :=
    { parts := fun _ _ _ _ => 1000000000
      parts_pos := fun _ _ _ _ => by decide
      parts_le := fun _ _ _ _ => by decide }

/-- Ten spacings of sixty about the price. -/
def narrow : Request where
  tick := 30
  tickSpacing := 60
  minTick := -300
  maxTick := 300
  bins := 10
  shape := .spot
  spacing_pos := by decide
  minTick_lt := by decide
  maxTick_lt := by decide

theorem planned_accepted_iff_narrow :
    (∀ budget0 budget1 : Nat, budget0 < 2 ^ 256 → budget1 < 2 ^ 256 → ∀ slippageBps rungs,
      planned level .split narrow budget0 budget1 slippageBps = some rungs →
        Accepted narrow.tickSpacing rungs) ↔ Suits .split narrow :=
  planned_accepted_iff level .split narrow ⟨0, 0, none, _, rfl⟩

/-- From the lowest tick to the highest, for a spacing that divides neither. -/
def full : Request where
  tick := 0
  tickSpacing := 60
  minTick := MIN_TICK
  maxTick := MAX_TICK
  bins := 2
  shape := .spot
  spacing_pos := by decide
  minTick_lt := by decide
  maxTick_lt := by decide

/-- More bins than a ladder holds. -/
def many : Request where
  tick := 0
  tickSpacing := 1
  minTick := 0
  maxTick := 50
  bins := 50
  shape := .spot
  spacing_pos := by decide
  minTick_lt := by decide
  maxTick_lt := by decide

/-- A split ladder is rounded past the ends of the ticks, a scaled one is cut off at them
and leaves the spacing, and a split ladder has as many bins as it is asked for. -/
theorem planned_rejected :
    (planned level .split full 1000 1000 none).map (validateV4 full.tickSpacing) =
        some (.error (.badRange (-887280) 0)) ∧
      (planned level .scale full 1000 1000 none).map (validateV3 full.tickSpacing) =
        some (.error (.rangeNotAligned (-887272) 60)) ∧
      (planned level .split many 1000 1000 none).map List.length = some 50 := by
  refine ⟨?_, ?_, ?_⟩
  · decide +kernel
  · decide +kernel
  · decide +kernel

end Ladder

end Ordo
