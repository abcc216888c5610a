import Mathlib.Data.List.Basic
import Mathlib.Tactic.Common

/-!
# What a range of blocks holds

A chain has a list for each of its blocks.  What a range of blocks holds is their lists
one after the other, and ranges that follow each other hold together what the whole does.
-/

namespace Ordo

namespace Blocks

variable {α : Type*} (logs : Nat → List α)

/-- What the blocks from `first` to `last` hold. -/
def between (first last : Int) : List α :=
  (List.range' first.toNat (last + 1 - first).toNat).flatMap logs

variable {logs} {a b d : Int} {x : α}

theorem mem_between (ha : 0 ≤ a) :
    x ∈ between logs a b ↔ ∃ n : Nat, a ≤ n ∧ (n : Int) ≤ b ∧ x ∈ logs n := by
  rw [between, List.mem_flatMap]
  constructor
  · rintro ⟨n, hn, hx⟩
    rw [List.mem_range'_1] at hn
    exact ⟨n, by omega, by omega, hx⟩
  · rintro ⟨n, hfirst, hlast, hx⟩
    refine ⟨n, ?_, hx⟩
    rw [List.mem_range'_1]
    omega

theorem between_empty (h : b < a) : between logs a b = [] := by
  have hzero : (b + 1 - a).toNat = 0 := by omega
  rw [between, hzero]
  rfl

/-- Ranges one after the other. -/
theorem between_append (ha : 0 ≤ a) (hab : a - 1 ≤ b) (hbd : b ≤ d) :
    between logs a b ++ between logs (b + 1) d = between logs a d := by
  have hstart : (b + 1).toNat = a.toNat + (b + 1 - a).toNat := by omega
  have hcount : (d + 1 - a).toNat = (b + 1 - a).toNat + (d + 1 - (b + 1)).toNat := by omega
  rw [between, between, between, ← List.flatMap_append, hstart, hcount, List.range'_append_1]

/-- Blocks that hold nothing may be left out in front. -/
theorem between_drop (ha : 0 ≤ a) (hab : a - 1 ≤ d)
    (hnothing : ∀ n : Nat, a ≤ n → (n : Int) ≤ d → logs n = []) (hdb : d ≤ b) :
    between logs a b = between logs (d + 1) b := by
  rw [← between_append ha hab hdb]
  have hnone : between logs a d = [] := by
    rw [List.eq_nil_iff_forall_not_mem]
    intro x hx
    obtain ⟨n, hfirst, hlast, hx⟩ := (mem_between ha).mp hx
    rw [hnothing n hfirst hlast] at hx
    cases hx
  rw [hnone, List.nil_append]

theorem filter_between (p : α → Bool) :
    (between logs a b).filter p = between (fun n => (logs n).filter p) a b := by
  rw [between, between, List.filter_flatMap]

theorem between_congr {logs' : Nat → List α} (ha : 0 ≤ a)
    (h : ∀ n : Nat, a ≤ n → (n : Int) ≤ b → logs n = logs' n) :
    between logs a b = between logs' a b := by
  rw [between, between]
  apply List.flatMap_congr
  intro n hn
  rw [List.mem_range'_1] at hn
  exact h n (by omega) (by omega)

/-- What is ordered by block, and in each block, is ordered. -/
theorem pairwise_between {R : α → α → Prop} (hblock : ∀ n, (logs n).Pairwise R)
    (hapart : ∀ n m, n < m → ∀ x ∈ logs n, ∀ y ∈ logs m, R x y) :
    (between logs a b).Pairwise R := by
  rw [between, List.pairwise_flatMap]
  refine ⟨fun n _ => hblock n, ?_⟩
  exact (List.pairwise_lt_range' (s := a.toNat)).imp fun hlt x hx y hy => hapart _ _ hlt x hx y hy

end Blocks

end Ordo
