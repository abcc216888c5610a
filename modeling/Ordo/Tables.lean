import Mathlib.Algebra.BigOperators.Group.List.Basic
import Mathlib.Algebra.GroupWithZero.Nat
import Mathlib.Algebra.Order.BigOperators.Group.List
import Mathlib.Algebra.Order.Group.Int
import Mathlib.Algebra.Ring.Int.Defs
import Mathlib.Data.List.AList

/-!
# Tables and their sums

A table has at most one entry for a key.  What is added here to association lists is
keeping the entries that pass a test, and sums over all entries.

`sum_le_of_covered` is the main fact: amounts for different keys, none above its
entry, are together no more than the table.
-/

namespace Ordo

abbrev Table (κ α : Type*) := AList fun _ : κ => α

namespace Table

variable {κ α : Type*}

/-- The entries that pass a test. -/
def keep (p : κ → α → Bool) (t : Table κ α) : Table κ α :=
  ⟨t.entries.filter fun e => p e.1 e.2, t.nodupKeys.sublist List.filter_sublist⟩

/-- Another value under each key. -/
def mapValues (f : κ → α → α) (t : Table κ α) : Table κ α where
  entries := t.entries.map fun e => ⟨e.1, f e.1 e.2⟩
  nodupKeys := by
    have hkeys : (t.entries.map fun e => (⟨e.1, f e.1 e.2⟩ : Sigma fun _ : κ => α)).keys =
        t.entries.keys := by
      rw [List.keys, List.map_map]
      rfl
    rw [List.NodupKeys, hkeys]
    exact t.nodupKeys

def sum (f : κ → α → Int) (t : Table κ α) : Int := (t.entries.map fun e => f e.1 e.2).sum

theorem keep_eq_self {p : κ → α → Bool} {t : Table κ α} (h : ∀ e ∈ t.entries, p e.1 e.2) :
    keep p t = t := AList.ext (List.filter_eq_self.mpr h)

theorem sum_congr {f g : κ → α → Int} {t : Table κ α}
    (h : ∀ e ∈ t.entries, f e.1 e.2 = g e.1 e.2) : sum f t = sum g t :=
  congrArg List.sum (List.map_congr_left h)

variable [DecidableEq κ] {f : κ → α → Int} {t : Table κ α} {k : κ} {v : α}

theorem mem_entries : (⟨k, v⟩ : Sigma fun _ : κ => α) ∈ t.entries ↔ t.lookup k = some v :=
  AList.mem_lookup_iff.symm

/-- Only what passes is found. -/
theorem lookup_keep {p : κ → α → Bool} :
    (keep p t).lookup k = some v ↔ t.lookup k = some v ∧ p k v := by
  rw [← mem_entries, ← mem_entries]
  exact List.mem_filter

theorem lookup_mapValues (g : κ → α → α) (t : Table κ α) (k : κ) :
    (mapValues g t).lookup k = (t.lookup k).map (g k) := by
  cases h : t.lookup k with
  | none =>
      have hkeys : k ∉ t.keys := AList.lookup_eq_none.mp h
      refine AList.lookup_eq_none.mpr fun hin => hkeys ?_
      obtain ⟨v, hv⟩ := List.exists_of_mem_keys hin
      obtain ⟨e, he, heq⟩ := List.mem_map.mp hv
      cases heq
      exact List.mem_keys_of_mem he
  | some v =>
      have hmem := mem_entries.mpr h
      exact mem_entries.mp (List.mem_map.mpr ⟨_, hmem, rfl⟩)

theorem lookup_insert_iff {k' : κ} {v' : α} :
    (t.insert k' v').lookup k = some v ↔
      k = k' ∧ v = v' ∨ k ≠ k' ∧ t.lookup k = some v := by
  rcases eq_or_ne k k' with rfl | hne
  · rw [AList.lookup_insert]
    simp [eq_comm]
  · rw [AList.lookup_insert_ne hne]
    simp [hne]

theorem lookup_erase_iff {k' : κ} :
    (t.erase k').lookup k = some v ↔ k ≠ k' ∧ t.lookup k = some v := by
  rcases eq_or_ne k k' with rfl | hne
  · rw [AList.lookup_erase]
    simp
  · rw [AList.lookup_erase_ne hne]
    simp [hne]

theorem lookup_erase_none (h : t.lookup k = none) (k' : κ) : (t.erase k').lookup k = none := by
  rcases eq_or_ne k k' with rfl | hne
  · exact AList.lookup_erase _ _
  · exact (AList.lookup_erase_ne hne).trans h

theorem sum_insert : sum f (t.insert k v) = f k v + sum f (t.erase k) := by
  rw [sum, AList.entries_insert, List.map_cons, List.sum_cons]
  rfl

/-- One entry taken out of the sum. -/
theorem sum_erase (h : t.lookup k = some v) : sum f t = f k v + sum f (t.erase k) := by
  have hmem := mem_entries.mpr h
  obtain ⟨w, before, after, -, hentries, herase⟩ :=
    List.exists_of_kerase (List.mem_keys_of_mem hmem)
  have hw : w = v := by
    have hlookup : t.lookup k = some w := by
      rw [← mem_entries, hentries]
      exact List.mem_append_right _ List.mem_cons_self
    exact Option.some.inj (hlookup.symm.trans h)
  have hrest : (t.erase k).entries = before ++ after := herase
  rw [sum, sum, hrest, hentries, hw]
  simp only [List.map_append, List.map_cons, List.sum_append, List.sum_cons]
  omega

theorem sum_erase_none (h : t.lookup k = none) : sum f (t.erase k) = sum f t := by
  have hkeys : k ∉ t.entries.keys := AList.lookup_eq_none.mp h
  have herase : (t.erase k).entries = t.entries := List.kerase_of_notMem_keys hkeys
  rw [sum, herase, sum]

theorem sum_nonneg (h : ∀ k v, t.lookup k = some v → 0 ≤ f k v) : 0 ≤ sum f t := by
  apply List.sum_nonneg
  intro x hx
  obtain ⟨e, he, rfl⟩ := List.mem_map.mp hx
  exact h e.1 e.2 (mem_entries.mp he)

/-- **Covered amounts.**  Each of them has an entry of its own that is not less. -/
theorem sum_le_of_covered {items : List (κ × Int)} :
    ∀ {t : Table κ α}, (items.map Prod.fst).Nodup →
      (∀ k v, t.lookup k = some v → 0 ≤ f k v) →
      (∀ i ∈ items, ∃ v, t.lookup i.1 = some v ∧ i.2 ≤ f i.1 v) →
      (items.map Prod.snd).sum ≤ sum f t := by
  induction items with
  | nil => exact fun _ hnonneg _ => sum_nonneg hnonneg
  | cons i items ih =>
      intro t hnodup hnonneg hcovered
      obtain ⟨hfresh, hrest⟩ := List.nodup_cons.mp hnodup
      obtain ⟨v, hv, hle⟩ := hcovered i List.mem_cons_self
      have hsum : (items.map Prod.snd).sum ≤ sum f (t.erase i.1) := by
        apply ih hrest
        · intro k w hk
          exact hnonneg k w (lookup_erase_iff.mp hk).2
        · intro j hj
          obtain ⟨w, hw, hle'⟩ := hcovered j (List.mem_cons_of_mem _ hj)
          have hne : j.1 ≠ i.1 := fun heq => hfresh (heq ▸ List.mem_map_of_mem hj)
          exact ⟨w, lookup_erase_iff.mpr ⟨hne, hw⟩, hle'⟩
      rw [List.map_cons, List.sum_cons, sum_erase hv]
      omega

end Table

end Ordo
