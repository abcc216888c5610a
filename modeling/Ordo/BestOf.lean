import Mathlib.Data.List.Induction
import Mathlib.Order.Lattice
import Mathlib.Tactic.Common

/-!
# The best of a list, kept on the way

A loop keeps the best of what it has seen.  What it keeps beside it, to compare the next one
with, may be less than its price: the price less a fee.

* `best_eq_some` — after the one that is kept there comes nothing above its figure;
* `best_greatest_iff` — it has the greatest price exactly when after one that does nothing
  comes that is above its figure; with the price itself as the figure it always has.
-/

namespace Ordo

namespace BestOf

variable {α β : Type*} [LinearOrder β] (price : α → Option β) (figure : β → β)

/-- One turn of the loop. -/
def keep (best : Option (α × β)) (x : α) : Option (α × β) :=
  match price x, best with
  | none, best => best
  | some g, none => some (x, figure g)
  | some g, some b => if b.2 < g then some (x, figure g) else some b

def best (xs : List α) : Option (α × β) := xs.foldl (keep price figure) none

/-- No price of the list is above a bound. -/
def Below (xs : List α) (bound : β) : Prop := ∀ x ∈ xs, ∀ g, price x = some g → g ≤ bound

/-- After one with the greatest price nothing comes that is above its figure. -/
def Leads (xs : List α) : Prop :=
  ∃ pre x g post, xs = pre ++ x :: post ∧ price x = some g ∧ Below price xs g ∧
    Below price post (figure g)

variable {price figure} {xs ys : List α} {x : α} {b : α × β}

theorem best_concat :
    best price figure (xs ++ [x]) = keep price figure (best price figure xs) x := by
  rw [best, List.foldl_append]
  rfl

theorem Below.mono {c d : β} (h : Below price xs c) (hcd : c ≤ d) : Below price xs d :=
  fun x hx g hg => (h x hx g hg).trans hcd

theorem below_cons {bound : β} : Below price (x :: xs) bound ↔
    (∀ g, price x = some g → g ≤ bound) ∧ Below price xs bound := by
  simp [Below]

theorem below_append {bound : β} : Below price (xs ++ ys) bound ↔
    Below price xs bound ∧ Below price ys bound := by
  simp only [Below, List.mem_append]
  constructor
  · intro h
    exact ⟨fun y hy => h y (Or.inl hy), fun y hy => h y (Or.inr hy)⟩
  · rintro ⟨hxs, hys⟩ y (hy | hy)
    · exact hxs y hy
    · exact hys y hy

/-- What is not above the figure changes nothing. -/
theorem foldl_keep_of_below (h : Below price xs b.2) :
    xs.foldl (keep price figure) (some b) = some b := by
  induction xs with
  | nil => rfl
  | cons x xs ih =>
      obtain ⟨hfirst, hrest⟩ := below_cons.mp h
      have hkeep : keep price figure (some b) x = some b := by
        unfold keep
        split
        next => rfl
        next hnone => cases hnone
        next g b' hg hb =>
          cases hb
          rw [if_neg (not_lt.mpr (hfirst g hg))]
      rw [List.foldl_cons, hkeep]
      exact ih hrest

/-- **What is kept.**  It has a price and its figure, and nothing after it is above that. -/
theorem best_eq_some (h : best price figure xs = some b) :
    ∃ pre g post, xs = pre ++ b.1 :: post ∧ price b.1 = some g ∧ b.2 = figure g ∧
      Below price post b.2 := by
  induction xs using List.reverseRecOn generalizing b with
  | nil => cases h
  | append_singleton xs x ih =>
      rw [best_concat] at h
      unfold keep at h
      split at h
      next hunpriced =>
        obtain ⟨pre, g, post, hsplit, hg, hfigure, hbelow⟩ := ih h
        refine ⟨pre, g, post ++ [x], by rw [hsplit, List.append_assoc]; rfl, hg, hfigure, ?_⟩
        refine below_append.mpr ⟨hbelow, below_cons.mpr ⟨fun g' hg' => ?_, by simp [Below]⟩⟩
        rw [hunpriced] at hg'
        cases hg'
      next g hg hnone =>
        cases h
        exact ⟨xs, g, [], rfl, hg, rfl, by simp [Below]⟩
      next g b' hg hb =>
        split at h
        next =>
          cases h
          exact ⟨xs, g, [], rfl, hg, rfl, by simp [Below]⟩
        next hnot =>
          cases h
          obtain ⟨pre, g', post, hsplit, hg', hfigure, hbelow⟩ := ih hb
          refine ⟨pre, g', post ++ [x], by rw [hsplit, List.append_assoc]; rfl, hg', hfigure, ?_⟩
          refine below_append.mpr ⟨hbelow, below_cons.mpr ⟨fun g'' hg'' => ?_, by simp [Below]⟩⟩
          rw [hg] at hg''
          cases hg''
          exact not_lt.mp hnot

theorem best_mem (h : best price figure xs = some b) : b.1 ∈ xs := by
  obtain ⟨pre, g, post, hsplit, -⟩ := best_eq_some h
  rw [hsplit]
  exact List.mem_append_right _ List.mem_cons_self

/-- Nothing is kept exactly where nothing has a price. -/
theorem best_eq_none_iff : best price figure xs = none ↔ ∀ x ∈ xs, price x = none := by
  induction xs using List.reverseRecOn with
  | nil => simp [best]
  | append_singleton xs x ih =>
      rw [best_concat]
      unfold keep
      split
      next hunpriced => simp [ih, hunpriced, or_imp, forall_and]
      next g hg hnone => simp [hg]
      next g b hg hb =>
        have hsome : (if b.2 < g then some (x, figure g) else some b) ≠ none := by
          split
          · exact Option.some_ne_none _
          · exact Option.some_ne_none _
        simp [hg, hsome]

/-- **The greatest price.** -/
theorem best_greatest_iff (hfigure : ∀ x ∈ xs, ∀ g, price x = some g → figure g ≤ g)
    (h : best price figure xs = some b) :
    (∃ g, price b.1 = some g ∧ Below price xs g) ↔ Leads price figure xs := by
  obtain ⟨pre, g, post, hsplit, hg, hstored, hafter⟩ := best_eq_some h
  constructor
  · rintro ⟨g', hg', hgreatest⟩
    rw [hg] at hg'
    cases hg'
    exact ⟨pre, b.1, g, post, hsplit, hg, hgreatest, hstored ▸ hafter⟩
  · rintro ⟨before, y, m, after, hlead, hm, hgreatest, hlast⟩
    refine ⟨g, hg, ?_⟩
    have hwhole : best price figure xs =
        after.foldl (keep price figure) (keep price figure (best price figure before) y) := by
      rw [hlead, best, List.foldl_append]
      rfl
    -- after the lead, what is kept has its price and its figure
    have hleader : ∃ c, keep price figure (best price figure before) y = some c ∧
        price c.1 = some m ∧ c.2 = figure m := by
      unfold keep
      split
      next hunpriced =>
        rw [hm] at hunpriced
        cases hunpriced
      next m' hm' hnone =>
        rw [hm] at hm'
        cases hm'
        exact ⟨_, rfl, hm, rfl⟩
      next m' c hm' hc =>
        rw [hm] at hm'
        cases hm'
        split
        next => exact ⟨_, rfl, hm, rfl⟩
        next hnot =>
          obtain ⟨pre', n, post', hsplit', hn, hstored', -⟩ := best_eq_some hc
          have hin : c.1 ∈ xs := by
            rw [hlead, hsplit']
            simp
          have hle : n ≤ m := hgreatest c.1 hin n hn
          have hge : m ≤ n := (not_lt.mp hnot).trans (hstored' ▸ hfigure c.1 hin n hn)
          have hsame : n = m := le_antisymm hle hge
          subst hsame
          exact ⟨c, rfl, hn, hstored'⟩
    obtain ⟨c, hkeep, hprice, hfig⟩ := hleader
    rw [hwhole, hkeep, foldl_keep_of_below (hfig ▸ hlast)] at h
    cases h
    rw [hg] at hprice
    cases hprice
    exact hgreatest

/-- Where the figure is the price itself, what is kept has the greatest price. -/
theorem best_greatest (h : best price id xs = some b) :
    ∃ g, price b.1 = some g ∧ b.2 = g ∧ Below price xs g := by
  induction xs using List.reverseRecOn generalizing b with
  | nil => cases h
  | append_singleton xs x ih =>
      rw [best_concat] at h
      unfold keep at h
      split at h
      next hunpriced =>
        obtain ⟨g, hg, hstored, hbelow⟩ := ih h
        refine ⟨g, hg, hstored, below_append.mpr ⟨hbelow, below_cons.mpr ⟨?_, by simp [Below]⟩⟩⟩
        intro g' hg'
        rw [hunpriced] at hg'
        cases hg'
      next g hg hnone =>
        cases h
        refine ⟨g, hg, rfl, below_append.mpr ⟨?_, below_cons.mpr ⟨?_, by simp [Below]⟩⟩⟩
        · intro y hy g' hg'
          rw [best_eq_none_iff.mp hnone y hy] at hg'
          cases hg'
        · intro g' hg'
          rw [hg] at hg'
          cases hg'
          exact le_refl g
      next g b' hg hb =>
        obtain ⟨m, hm, hstored, hbelow⟩ := ih hb
        split at h
        next hless =>
          cases h
          refine ⟨g, hg, rfl, below_append.mpr ⟨hbelow.mono (hstored ▸ hless.le),
            below_cons.mpr ⟨?_, by simp [Below]⟩⟩⟩
          intro g' hg'
          rw [hg] at hg'
          cases hg'
          exact le_refl g
        next hnot =>
          cases h
          refine ⟨m, hm, hstored, below_append.mpr ⟨hbelow, below_cons.mpr ⟨?_, by simp [Below]⟩⟩⟩
          intro g' hg'
          rw [hg] at hg'
          cases hg'
          exact hstored ▸ not_lt.mp hnot

end BestOf

end Ordo
