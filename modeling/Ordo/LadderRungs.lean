import Mathlib.Data.List.Basic
import Ordo.TickMath
import Ordo.Words

/-!
# The rungs of a ladder, as the managers check them

Both ladder managers run the rungs of a call through the same loop before they take
any money; the one for v4 also compares them with the range of ticks.  A ladder has
at most forty rungs.
-/

namespace Ordo

namespace Ladder

open TickMath (MIN_TICK MAX_TICK)

def MAX_RUNGS : Nat := 40

structure Rung where
  tickLower : Int
  tickUpper : Int
  amount0 : Nat
  amount1 : Nat
  amount0Min : Nat
  amount1Min : Nat
  deriving DecidableEq

inductive RungError where
  | badRange (tickLower tickUpper : Int)
  | rangeNotAligned (tick spacing : Int)
  | rungsOutOfOrder (i : Nat)
  | emptyRung (i : Nat)
  | panic
  deriving DecidableEq

/-- The loop of `_validate` from rung `i` on.  A pool's spacing is not zero. -/
def validateFrom (inTicks : Bool) (spacing : Int) :
    Nat → Int → Nat → Nat → List Rung → Except RungError (Nat × Nat)
  | _, _, total0, total1, [] => .ok (total0, total1)
  | i, previousUpper, total0, total1, r :: rungs =>
      if r.tickUpper ≤ r.tickLower then .error (.badRange r.tickLower r.tickUpper)
      else if inTicks ∧ (r.tickLower < MIN_TICK ∨ MAX_TICK < r.tickUpper) then
        .error (.badRange r.tickLower r.tickUpper)
      else if r.tickLower.tmod spacing ≠ 0 then .error (.rangeNotAligned r.tickLower spacing)
      else if r.tickUpper.tmod spacing ≠ 0 then .error (.rangeNotAligned r.tickUpper spacing)
      else if r.tickLower < previousUpper then .error (.rungsOutOfOrder i)
      else if r.amount0 = 0 ∧ r.amount1 = 0 then .error (.emptyRung i)
      else
        match addU total0 r.amount0, addU total1 r.amount1 with
        | some total0, some total1 =>
            validateFrom inTicks spacing (i + 1) r.tickUpper total0 total1 rungs
        | _, _ => .error .panic

/-- `_validate` of the v3 manager. -/
def validateV3 (spacing : Int) (rungs : List Rung) : Except RungError (Nat × Nat) :=
  validateFrom false spacing 0 (-2 ^ 23) 0 0 rungs

/-- `_validate` of the v4 manager. -/
def validateV4 (spacing : Int) (rungs : List Rung) : Except RungError (Nat × Nat) :=
  validateFrom true spacing 0 (-2 ^ 23) 0 0 rungs

/-- Either manager takes the rungs. -/
def Accepted (spacing : Int) (rungs : List Rung) : Prop :=
  rungs.length ≤ MAX_RUNGS ∧ (∃ totals, validateV3 spacing rungs = .ok totals) ∧
    ∃ totals, validateV4 spacing rungs = .ok totals

/-- A rung by itself. -/
structure Sound (inTicks : Bool) (spacing : Int) (r : Rung) : Prop where
  nonempty : r.tickLower < r.tickUpper
  inside : inTicks → MIN_TICK ≤ r.tickLower ∧ r.tickUpper ≤ MAX_TICK
  aligned_lower : spacing ∣ r.tickLower
  aligned_upper : spacing ∣ r.tickUpper
  funded : 0 < r.amount0 ∨ 0 < r.amount1

/-- Each rung begins where the one before has ended, or higher. -/
def Ordered : Int → List Rung → Prop
  | _, [] => True
  | previousUpper, r :: rungs => previousUpper ≤ r.tickLower ∧ Ordered r.tickUpper rungs

/-- **What the loop lets through.** -/
theorem validateFrom_isOk_iff (inTicks : Bool) (spacing : Int) (rungs : List Rung) :
    ∀ (i : Nat) (previousUpper : Int) (total0 total1 : Nat),
      total0 < 2 ^ 256 → total1 < 2 ^ 256 →
      ((∃ totals, validateFrom inTicks spacing i previousUpper total0 total1 rungs = .ok totals) ↔
        (∀ r ∈ rungs, Sound inTicks spacing r) ∧ Ordered previousUpper rungs ∧
          total0 + (rungs.map (·.amount0)).sum < 2 ^ 256 ∧
          total1 + (rungs.map (·.amount1)).sum < 2 ^ 256) := by
  induction rungs with
  | nil =>
      intro i previousUpper total0 total1 h0 h1
      simpa [validateFrom, Ordered] using And.intro h0 h1
  | cons r rungs ih =>
      intro i previousUpper total0 total1 h0 h1
      constructor
      · rintro ⟨totals, h⟩
        rw [validateFrom] at h
        split at h
        · cases h
        next hrange =>
        split at h
        · cases h
        next hticks =>
        split at h
        · cases h
        next hlower =>
        split at h
        · cases h
        next hupper =>
        split at h
        · cases h
        next horder =>
        split at h
        · cases h
        next hfunded =>
        split at h
        next t0 t1 ht0 ht1 =>
            obtain ⟨hfit0, rfl⟩ := addU_eq_some.mp ht0
            obtain ⟨hfit1, rfl⟩ := addU_eq_some.mp ht1
            obtain ⟨hsound, hordered, hsum0, hsum1⟩ :=
              (ih (i + 1) r.tickUpper _ _ hfit0 hfit1).mp ⟨totals, h⟩
            have hr : Sound inTicks spacing r :=
              { nonempty := not_le.mp hrange
                inside := fun hin => by
                  by_contra hout
                  exact hticks ⟨hin, by omega⟩
                aligned_lower := Int.dvd_of_tmod_eq_zero (not_not.mp hlower)
                aligned_upper := Int.dvd_of_tmod_eq_zero (not_not.mp hupper)
                funded := by omega }
            refine ⟨?_, ⟨not_lt.mp horder, hordered⟩, ?_, ?_⟩
            · intro s hs
              rcases List.mem_cons.mp hs with rfl | hs
              · exact hr
              · exact hsound s hs
            · rw [List.map_cons, List.sum_cons]
              omega
            · rw [List.map_cons, List.sum_cons]
              omega
        next => cases h
      · rintro ⟨hsound, ⟨hle, hordered⟩, hsum0, hsum1⟩
        have hr := hsound r List.mem_cons_self
        rw [List.map_cons, List.sum_cons] at hsum0 hsum1
        have ht0 : addU total0 r.amount0 = some (total0 + r.amount0) :=
          addU_eq_some.mpr ⟨by omega, rfl⟩
        have ht1 : addU total1 r.amount1 = some (total1 + r.amount1) :=
          addU_eq_some.mpr ⟨by omega, rfl⟩
        have hin : ¬ (inTicks = true ∧ (r.tickLower < MIN_TICK ∨ MAX_TICK < r.tickUpper)) := by
          rintro ⟨hin, hout⟩
          have := hr.inside hin
          omega
        have hfunded : ¬ (r.amount0 = 0 ∧ r.amount1 = 0) := by
          have := hr.funded
          omega
        rw [validateFrom, if_neg (not_le.mpr hr.nonempty), if_neg hin,
          if_neg (not_not_intro (Int.tmod_eq_zero_of_dvd hr.aligned_lower)),
          if_neg (not_not_intro (Int.tmod_eq_zero_of_dvd hr.aligned_upper)),
          if_neg (not_lt.mpr hle), if_neg hfunded, ht0, ht1]
        exact (ih (i + 1) r.tickUpper _ _ (by omega) (by omega)).mpr
          ⟨fun s hs => hsound s (List.mem_cons_of_mem _ hs), hordered, by omega, by omega⟩

/-- Rungs below one another are in order. -/
theorem ordered_of_pairwise {rungs : List Rung}
    (h : rungs.Pairwise fun r s => r.tickUpper ≤ s.tickLower) :
    ∀ previousUpper : Int, (∀ r ∈ rungs, previousUpper ≤ r.tickLower) →
      Ordered previousUpper rungs := by
  induction rungs with
  | nil => exact fun _ _ => trivial
  | cons r rungs ih =>
      intro previousUpper hfirst
      obtain ⟨hr, hrest⟩ := List.pairwise_cons.mp h
      exact ⟨hfirst r List.mem_cons_self, ih hrest r.tickUpper hr⟩

/-- Few sound rungs below one another, within the words, are accepted. -/
theorem accepted_of_sound {spacing : Int} {rungs : List Rung} (hcount : rungs.length ≤ MAX_RUNGS)
    (hsound : ∀ r ∈ rungs, Sound true spacing r)
    (hordered : rungs.Pairwise fun r s => r.tickUpper ≤ s.tickLower)
    (hsum0 : (rungs.map (·.amount0)).sum < 2 ^ 256)
    (hsum1 : (rungs.map (·.amount1)).sum < 2 ^ 256) : Accepted spacing rungs := by
  have hfirst : ∀ r ∈ rungs, -2 ^ 23 ≤ r.tickLower := by
    intro r hr
    have hmin : MIN_TICK ≤ r.tickLower := ((hsound r hr).inside rfl).1
    rw [MIN_TICK] at hmin
    omega
  have horder := ordered_of_pairwise hordered (-2 ^ 23) hfirst
  refine ⟨hcount, ?_, ?_⟩
  · apply (validateFrom_isOk_iff false spacing rungs 0 (-2 ^ 23) 0 0 (by decide) (by decide)).mpr
    refine ⟨?_, horder, by omega, by omega⟩
    intro r hr
    exact { hsound r hr with inside := fun h => nomatch h }
  · apply (validateFrom_isOk_iff true spacing rungs 0 (-2 ^ 23) 0 0 (by decide) (by decide)).mpr
    exact ⟨hsound, horder, by omega, by omega⟩

/-- Accepted rungs are few and sound. -/
theorem sound_of_accepted {spacing : Int} {rungs : List Rung} (h : Accepted spacing rungs) :
    rungs.length ≤ MAX_RUNGS ∧ ∀ r ∈ rungs, Sound true spacing r :=
  ⟨h.1, ((validateFrom_isOk_iff true spacing rungs 0 (-2 ^ 23) 0 0 (by decide)
    (by decide)).mp h.2.2).1⟩

end Ladder

end Ordo
