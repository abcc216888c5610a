import Mathlib.Data.List.Basic
import Mathlib.Logic.Function.Basic
import Mathlib.Tactic.Common

/-!
# Tables whose rows are inserted once

A row is kept under its key, and a row that comes later under the same key is ignored.

* `insertAll_apply` — what a list of rows leaves under a key: the row that was there, or
  else the first of the list;
* `insertAll_batches_iff` — where rows come in batches whose keys are apart, inserting some
  of the batches, in any order and any number of times, leaves what inserting them all does
  if and only if every row of every batch was there or is in a batch that was inserted.
-/

namespace Ordo

namespace Keyed

/-- A table: the row under each key. -/
abbrev Rows (K R : Type*) := K → Option R

variable {K R ι : Type*} [DecidableEq K] (key : R → K)

/-- `INSERT OR IGNORE` -/
def insertOrIgnore (t : Rows K R) (row : R) : Rows K R :=
  if (t (key row)).isSome then t else Function.update t (key row) (some row)

def insertAll (t : Rows K R) (rows : List R) : Rows K R := rows.foldl (insertOrIgnore key) t

variable {key} {t : Rows K R} {k : K}

theorem insertOrIgnore_apply (row : R) :
    insertOrIgnore key t row k = (t k).or (if key row = k then some row else none) := by
  unfold insertOrIgnore
  by_cases hkey : key row = k
  · subst hkey
    cases h : t (key row) with
    | none => simp
    | some old => simp [h]
  · rw [if_neg hkey, Option.or_none]
    split
    · rfl
    · exact Function.update_of_ne (Ne.symm hkey) _ _

/-- A row that is found is in the list, and has the key. -/
theorem of_found {rows : List R} {row : R}
    (h : (rows.find? fun r => key r = k) = some row) : row ∈ rows ∧ key row = k := by
  have hkey := List.find?_some h
  exact ⟨List.mem_of_find?_eq_some h, of_decide_eq_true hkey⟩

theorem insertAll_append (rows more : List R) :
    insertAll key t (rows ++ more) = insertAll key (insertAll key t rows) more :=
  List.foldl_append

/-- **What is kept.**  Under a key there stays what was there; where nothing was, there comes
the first row of the list that has the key. -/
theorem insertAll_apply (rows : List R) :
    insertAll key t rows k = (t k).or (rows.find? fun row => key row = k) := by
  induction rows generalizing t with
  | nil => simp [insertAll]
  | cons row rows ih =>
      have hrest : insertAll key t (row :: rows) = insertAll key (insertOrIgnore key t row) rows :=
        rfl
      rw [hrest, ih, insertOrIgnore_apply, Option.or_assoc, List.find?_cons]
      by_cases hkey : key row = k <;> simp [hkey]

theorem isSome_insertAll_of_isSome (h : (t k).isSome) (rows : List R) :
    (insertAll key t rows k).isSome := by
  rw [insertAll_apply, Option.isSome_or, h]
  rfl

theorem isSome_insertAll_of_mem {rows : List R} {row : R} (h : row ∈ rows) :
    (insertAll key t rows (key row)).isSome := by
  have hfound : (rows.find? fun other => key other = key row).isSome :=
    List.find?_isSome.mpr ⟨row, h, decide_eq_true rfl⟩
  rw [insertAll_apply, Option.isSome_or, hfound, Bool.or_true]

section Batches

variable {batch : ι → List R}

/-- The batches `i` and `j` share no key, unless they are the same batch. -/
def Apart (key : R → K) (batch : ι → List R) : Prop :=
  ∀ i j, ∀ row ∈ batch i, ∀ other ∈ batch j, key row = key other → i = j

/-- What is found under a key in a list of batches is what the key's own batch has. -/
theorem find?_flatMap_eq (hapart : Apart key batch) {is : List ι} {i : ι} (hi : i ∈ is)
    {row : R} (hrow : (batch i).find? (fun r => key r = k) = some row) :
    (is.flatMap batch).find? (fun r => key r = k) = some row := by
  obtain ⟨hmem, hkey⟩ := of_found hrow
  have hagree : ∀ j other, (batch j).find? (fun r => key r = k) = some other → other = row := by
    intro j other hother
    obtain ⟨hmem', hkey'⟩ := of_found hother
    have hij : i = j := hapart i j row hmem other hmem' (hkey.trans hkey'.symm)
    subst hij
    exact Option.some.inj (hother.symm.trans hrow)
  induction is with
  | nil => cases hi
  | cons j is ih =>
      rw [List.flatMap_cons, List.find?_append]
      cases hj : (batch j).find? (fun r => key r = k) with
      | some other => rw [hagree j other hj, Option.some_or]
      | none =>
          rw [Option.none_or]
          rcases List.mem_cons.mp hi with rfl | hi
          · rw [hj] at hrow
            cases hrow
          · exact ih hi

/-- **Only which batches matters.**  Of the batches `all`, those in `used` are inserted, in
any order and any number of times. -/
theorem insertAll_batches_iff (hapart : Apart key batch) {used all : List ι}
    (hsub : ∀ i ∈ used, i ∈ all) :
    insertAll key t (used.flatMap batch) = insertAll key t (all.flatMap batch) ↔
      ∀ i ∈ all, ∀ row ∈ batch i, (t (key row)).isSome ∨ i ∈ used := by
  constructor
  · intro hsame i hi row hrow
    have hall : (insertAll key t (all.flatMap batch) (key row)).isSome :=
      isSome_insertAll_of_mem (List.mem_flatMap.mpr ⟨i, hi, hrow⟩)
    rw [← hsame, insertAll_apply, Option.isSome_or, Bool.or_eq_true] at hall
    refine hall.imp_right fun hfound => ?_
    obtain ⟨other, hother⟩ := Option.isSome_iff_exists.mp hfound
    obtain ⟨hin, hkey⟩ := of_found hother
    obtain ⟨j, hj, hmem⟩ := List.mem_flatMap.mp hin
    rwa [hapart i j row hrow other hmem hkey.symm]
  · intro hcovered
    funext k
    rw [insertAll_apply, insertAll_apply]
    cases ht : t k with
    | some old => rw [Option.some_or, Option.some_or]
    | none =>
        rw [Option.none_or, Option.none_or]
        cases hused : (used.flatMap batch).find? fun r => key r = k with
        | some row =>
            obtain ⟨hin, hkey⟩ := of_found hused
            obtain ⟨i, hi, hmem⟩ := List.mem_flatMap.mp hin
            have hfound : ((batch i).find? fun r => key r = k).isSome :=
              List.find?_isSome.mpr ⟨row, hmem, decide_eq_true hkey⟩
            obtain ⟨own, hown⟩ := Option.isSome_iff_exists.mp hfound
            rw [← hused, find?_flatMap_eq hapart hi hown,
              find?_flatMap_eq hapart (hsub i hi) hown]
        | none =>
            refine (List.find?_eq_none.mpr fun row hmem hkey => ?_).symm
            obtain ⟨i, hi, hrow⟩ := List.mem_flatMap.mp hmem
            have hk : key row = k := of_decide_eq_true hkey
            rcases hcovered i hi row hrow with hthere | hused'
            · rw [hk, ht] at hthere
              cases hthere
            · exact List.find?_eq_none.mp hused row
                (List.mem_flatMap.mpr ⟨i, hused', hrow⟩) hkey

end Batches

end Keyed

end Ordo
