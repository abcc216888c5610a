import Mathlib.Algebra.BigOperators.Group.List.Basic
import Mathlib.Algebra.GroupWithZero.Nat
import Mathlib.Algebra.Order.Group.Int
import Mathlib.Algebra.Ring.Int.Defs
import Mathlib.Data.List.Nodup
import Mathlib.Tactic.Common

/-!
# Running totals

A tally keeps a total for each key that something was added under, in the order in which the
keys came.

* `amount_add` — adding changes the total of its key and no other;
* `sum_where` — where the entries that pass a test are added up key by key, a key has its total
  if that passes, and nothing otherwise.
-/

namespace Ordo

structure Tally (K : Type*) where
  entries : List (K × Int)
  nodup : (entries.map Prod.fst).Nodup

namespace Tally

variable {K : Type*} [DecidableEq K]

/-- What the entries of a list have under a key. -/
def sumAt (k : K) (es : List (K × Int)) : Int := ((es.filter fun e => e.1 = k).map Prod.snd).sum

def addTo (k : K) (delta : Int) : List (K × Int) → List (K × Int)
  | [] => [(k, delta)]
  | e :: es => if e.1 = k then (k, e.2 + delta) :: es else e :: addTo k delta es

section Entries

variable {k k' : K} {delta : Int} {e : K × Int} {es : List (K × Int)}

@[simp] theorem sumAt_nil : sumAt k ([] : List (K × Int)) = 0 := rfl

theorem sumAt_cons : sumAt k (e :: es) = (if e.1 = k then e.2 else 0) + sumAt k es := by
  unfold sumAt
  by_cases h : e.1 = k
  · rw [List.filter_cons_of_pos (by simpa using h), if_pos h]
    rfl
  · rw [List.filter_cons_of_neg (by simpa using h), if_neg h, Int.zero_add]

theorem sumAt_of_notMem (h : k ∉ es.map Prod.fst) : sumAt k es = 0 := by
  induction es with
  | nil => rfl
  | cons e es ih =>
      rw [List.map_cons, List.mem_cons, not_or] at h
      rw [sumAt_cons, if_neg (Ne.symm h.1), ih h.2]
      rfl

theorem sumAt_of_mem (h : (es.map Prod.fst).Nodup) (he : e ∈ es) : sumAt e.1 es = e.2 := by
  induction es with
  | nil => cases he
  | cons e' es ih =>
      rw [List.map_cons, List.nodup_cons] at h
      rcases List.mem_cons.mp he with rfl | hmem
      · rw [sumAt_cons, if_pos rfl, sumAt_of_notMem h.1, Int.add_zero]
      · have hne : e'.1 ≠ e.1 := fun heq => h.1 (heq ▸ List.mem_map_of_mem hmem)
        rw [sumAt_cons, if_neg hne, ih h.2 hmem, Int.zero_add]

theorem keys_addTo :
    ∀ k', k' ∈ (addTo k delta es).map Prod.fst ↔ k' = k ∨ k' ∈ es.map Prod.fst := by
  induction es with
  | nil => simp [addTo]
  | cons e es ih =>
      intro k'
      unfold addTo
      split
      next h => simp [h]
      next h =>
        rw [List.map_cons, List.mem_cons, ih, List.map_cons, List.mem_cons]
        tauto

theorem nodup_addTo (h : (es.map Prod.fst).Nodup) : ((addTo k delta es).map Prod.fst).Nodup := by
  induction es with
  | nil => simp [addTo]
  | cons e es ih =>
      rw [List.map_cons, List.nodup_cons] at h
      unfold addTo
      split
      next hk =>
        rw [List.map_cons, List.nodup_cons, ← hk]
        exact h
      next hk =>
        rw [List.map_cons, List.nodup_cons, keys_addTo]
        exact ⟨not_or.mpr ⟨hk, h.1⟩, ih h.2⟩

theorem sumAt_addTo :
    sumAt k' (addTo k delta es) = sumAt k' es + if k = k' then delta else 0 := by
  induction es with
  | nil => simp [addTo, sumAt_cons]
  | cons e es ih =>
      unfold addTo
      split
      next hk =>
        rw [sumAt_cons, sumAt_cons, hk]
        split <;> omega
      next hk =>
        rw [sumAt_cons, sumAt_cons, ih]
        omega

theorem sumAt_where {p : Int → Bool} (hp : p 0 = false) (h : (es.map Prod.fst).Nodup) :
    sumAt k (es.filter fun e => p e.2) = if p (sumAt k es) then sumAt k es else 0 := by
  induction es with
  | nil => simp [hp]
  | cons e es ih =>
      rw [List.map_cons, List.nodup_cons] at h
      have hrest := ih h.2
      rw [List.filter_cons]
      by_cases hk : e.1 = k
      · have hnone : sumAt k es = 0 := sumAt_of_notMem (hk ▸ h.1)
        rw [hnone, hp] at hrest
        rw [sumAt_cons, if_pos hk, hnone, Int.add_zero]
        by_cases hpe : p e.2 = true
        · rw [if_pos hpe, if_pos hpe, sumAt_cons, if_pos hk, hrest]
          exact Int.add_zero _
        · rw [if_neg hpe, if_neg hpe]
          exact hrest
      · rw [sumAt_cons, if_neg hk, Int.zero_add]
        by_cases hpe : p e.2 = true
        · rw [if_pos hpe, sumAt_cons, if_neg hk, Int.zero_add]
          exact hrest
        · rw [if_neg hpe]
          exact hrest

end Entries

def empty : Tally K := ⟨[], List.nodup_nil⟩

def amount (t : Tally K) (k : K) : Int := sumAt k t.entries

def add (t : Tally K) (k : K) (delta : Int) : Tally K :=
  ⟨addTo k delta t.entries, nodup_addTo t.nodup⟩

variable {t : Tally K} {k k' : K} {delta : Int}

@[simp] theorem amount_empty : (empty : Tally K).amount k = 0 := rfl

theorem amount_add : (t.add k delta).amount k' = t.amount k' + if k = k' then delta else 0 :=
  sumAt_addTo

theorem amount_of_mem {e : K × Int} (he : e ∈ t.entries) : t.amount e.1 = e.2 :=
  sumAt_of_mem t.nodup he

/-- The entries that pass a test, added up key by key. -/
theorem sum_where {p : Int → Bool} (hp : p 0 = false) (t : Tally K) (k : K) :
    sumAt k (t.entries.filter fun e => p e.2) = if p (t.amount k) then t.amount k else 0 :=
  sumAt_where hp t.nodup

end Tally

end Ordo
