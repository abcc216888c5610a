import Mathlib.Data.List.Basic
import Mathlib.Tactic.Common

/-!
# Things that are numbered as they come

A list that is only appended to, and whose entries change in place: what stands at a number
after either, and how many entries have a property.
-/

namespace Ordo

namespace Numbered

variable {α : Type*} {xs : List α} {i : Nat} {x y : α}

theorem lt_of_lookup (h : xs[i]? = some x) : i < xs.length :=
  (List.getElem?_eq_some_iff.mp h).1

/-- An entry has changed. -/
theorem lookup_set (h : xs[i]? = some x) (j : Nat) :
    (xs.set i y)[j]? = if j = i then some y else xs[j]? := by
  by_cases hj : j = i
  · subst hj
    rw [List.getElem?_set_self (lt_of_lookup h), if_pos rfl]
  · rw [List.getElem?_set_ne (Ne.symm hj), if_neg hj]

/-- One more has come. -/
theorem lookup_append (j : Nat) :
    (xs ++ [x])[j]? = if j = xs.length then some x else xs[j]? := by
  rcases Nat.lt_trichotomy j xs.length with hlt | rfl | hgt
  · rw [List.getElem?_append_left hlt, if_neg (Nat.ne_of_lt hlt)]
  · rw [List.getElem?_concat_length, if_pos rfl]
  · have hlast : (xs ++ [x]).length ≤ j := by
      rw [List.length_append]
      exact hgt
    rw [if_neg (Nat.ne_of_gt hgt), List.getElem?_eq_none hlast,
      List.getElem?_eq_none (Nat.le_of_lt hgt)]

/-- What one change does to a count. -/
theorem countP_set_add (p : α → Bool) (h : xs[i]? = some x) :
    (xs.set i y).countP p + (if p x then 1 else 0) =
      xs.countP p + if p y then 1 else 0 := by
  obtain ⟨hlt, hget⟩ := List.getElem?_eq_some_iff.mp h
  have hset := List.countP_set (p := p) (a := y) hlt
  have hle := List.boole_getElem_le_countP (p := p) hlt
  rw [hget] at hset hle
  rw [hset]
  omega

theorem countP_pos_of_lookup {p : α → Bool} (h : xs[i]? = some x) (hx : p x = true) :
    0 < xs.countP p :=
  List.countP_pos_iff.mpr ⟨x, List.mem_of_getElem? h, hx⟩

end Numbered

end Ordo
