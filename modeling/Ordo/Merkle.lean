import Mathlib.Data.List.Perm.Basic
import Mathlib.Data.Set.Basic
import Mathlib.Tactic.Common

/-!
# Hash trees with carried odd nodes

A level of a tree is a list; the next level combines neighbours and carries an
odd node up as it is.  The levels end with a single node, the root.  The same
recursion run with the free combination builds the tree itself, so a root is
the value of a tree whose leaves are the list, and what two equal roots say is
an induction over two trees.

Nothing is assumed of the combination as a whole, since a hash of bounded
length is never injective.  The assumption is made of the pairs that were
combined in the trees at hand.
-/

namespace Ordo.Merkle

variable {α β : Type*}

/-- The next level: neighbours are combined, an odd node is carried. -/
def levelUp (h : α → α → α) : List α → List α
  | a :: b :: rest => h a b :: levelUp h rest
  | level => level

/-- What stands beside position `i` of a level, if anything does. -/
def sibling : List α → Nat → List α
  | _ :: b :: _, 0 => [b]
  | a :: _ :: _, 1 => [a]
  | _ :: _ :: rest, i + 2 => sibling rest i
  | _, _ => []

theorem levelUp_length (h : α → α → α) (level : List α) :
    (levelUp h level).length = (level.length + 1) / 2 := by
  fun_induction levelUp h level with
  | case1 a b rest ih =>
      simp only [List.length_cons, ih]
      omega
  | case2 level hshort =>
      match level with
      | [] => simp
      | [_] => simp
      | a :: b :: rest => exact (hshort a b rest rfl).elim

/-- The nodes left when the levels have been climbed: one, if there was any. -/
def climb (h : α → α → α) (level : List α) : List α :=
  if 1 < level.length then climb h (levelUp h level) else level
termination_by level.length
decreasing_by
  rw [levelUp_length]
  omega

/-- The siblings on the way up from position `i`. -/
def proof (h : α → α → α) (level : List α) (i : Nat) : List α :=
  if 1 < level.length then sibling level i ++ proof h (levelUp h level) (i / 2) else []
termination_by level.length
decreasing_by
  rw [levelUp_length]
  omega

/-- Climbing leaves one node. -/
theorem climb_length (h : α → α → α) {level : List α} (hlevel : level ≠ []) :
    (climb h level).length = 1 := by
  fun_induction climb h level with
  | case1 level hlong ih =>
      refine ih fun hnil => ?_
      have hlength := levelUp_length h level
      rw [hnil, List.length_nil] at hlength
      omega
  | case2 level hshort =>
      have hpos := List.length_pos_iff.mpr hlevel
      omega

theorem levelUp_map {g : α → α → α} {h : β → β → β} {f : α → β}
    (hf : ∀ a b, f (g a b) = h (f a) (f b)) (level : List α) :
    (levelUp g level).map f = levelUp h (level.map f) := by
  fun_induction levelUp g level with
  | case1 a b rest ih => simp [levelUp, hf, ih]
  | case2 level hshort =>
      match level with
      | [] => rfl
      | [_] => rfl
      | a :: b :: rest => exact (hshort a b rest rfl).elim

/-- Climbing commutes with a map that respects the combination. -/
theorem climb_map {g : α → α → α} {h : β → β → β} {f : α → β}
    (hf : ∀ a b, f (g a b) = h (f a) (f b)) (level : List α) :
    (climb g level).map f = climb h (level.map f) := by
  fun_induction climb g level with
  | case1 level hlong ih =>
      rw [ih, levelUp_map hf]
      conv_rhs => rw [climb, if_pos (by simpa using hlong)]
  | case2 level hshort =>
      rw [climb, if_neg (by simpa using hshort)]

/-! ### Proofs of membership -/

/-- Combining a node with its sibling gives the node above it. -/
theorem fold_sibling {h : α → α → α} (hcomm : ∀ a b, h a b = h b a) {level : List α}
    {i : Nat} {x : α} (hx : level[i]? = some x) :
    (levelUp h level)[i / 2]? = some ((sibling level i).foldl h x) := by
  fun_induction sibling level i with
  | case1 a b rest =>
      cases hx
      rfl
  | case2 a b rest =>
      cases hx
      simp [levelUp, hcomm]
  | case3 a b rest i ih =>
      have hhalf : (i + 2) / 2 = i / 2 + 1 := by omega
      rw [hhalf, levelUp, List.getElem?_cons_succ]
      exact ih hx
  | case4 level i h0 h1 h2 =>
      match level, i with
      | [], _ => cases hx
      | [_], 0 => exact hx
      | [_], i + 1 => cases hx
      | a :: b :: rest, 0 => exact (h0 a b rest rfl rfl).elim
      | a :: b :: rest, 1 => exact (h1 a b rest rfl rfl).elim
      | a :: b :: rest, i + 2 => exact (h2 a b rest i rfl rfl).elim

/-- **Every position has a proof** that folds to the root. -/
theorem fold_proof {h : α → α → α} (hcomm : ∀ a b, h a b = h b a) {level : List α}
    {i : Nat} {x : α} (hx : level[i]? = some x) :
    climb h level = [(proof h level i).foldl h x] := by
  fun_induction proof h level i generalizing x with
  | case1 level i hlong ih =>
      rw [climb, if_pos hlong, List.foldl_append]
      exact ih (fold_sibling hcomm hx)
  | case2 level i hshort =>
      rw [climb, if_neg hshort]
      match level, i with
      | [], _ => cases hx
      | [_], 0 =>
          cases hx
          rfl
      | [_], i + 1 => cases hx
      | _ :: _ :: _, _ => exact (hshort (by simp)).elim

/-! ### The tree of a list -/

inductive Tree (α : Type*) where
  | leaf (x : α)
  | node (l r : Tree α)

namespace Tree

/-- The value at the top. -/
def root (h : α → α → α) : Tree α → α
  | leaf x => x
  | node l r => h (l.root h) (r.root h)

/-- The leaves, from left to right. -/
def leaves : Tree α → List α
  | leaf x => [x]
  | node l r => l.leaves ++ r.leaves

/-- The pairs that are combined on the way to the top. -/
def pairs (h : α → α → α) : Tree α → List (α × α)
  | leaf _ => []
  | node l r => (l.root h, r.root h) :: (l.pairs h ++ r.pairs h)

end Tree

theorem levelUp_leaves (level : List (Tree α)) :
    (levelUp Tree.node level).flatMap Tree.leaves = level.flatMap Tree.leaves := by
  fun_induction levelUp Tree.node level with
  | case1 a b rest ih => simp [Tree.leaves, ih]
  | case2 level hshort => rfl

theorem climb_leaves (level : List (Tree α)) :
    (climb Tree.node level).flatMap Tree.leaves = level.flatMap Tree.leaves := by
  fun_induction climb Tree.node level with
  | case1 level hlong ih => rw [ih, levelUp_leaves]
  | case2 level hshort => rfl

/-- The tree the levels build over a list. -/
def forest (leaves : List α) : List (Tree α) := climb Tree.node (leaves.map .leaf)

/-- **A root is the value of a tree** with the list as its leaves. -/
theorem climb_eq_root (h : α → α → α) {leaves : List α} (hleaves : leaves ≠ []) :
    ∃ t : Tree α, forest leaves = [t] ∧ t.leaves = leaves ∧ climb h leaves = [t.root h] := by
  have hone : (forest leaves).length = 1 := climb_length _ (by simpa using hleaves)
  obtain ⟨t, ht⟩ := List.length_eq_one_iff.mp hone
  refine ⟨t, ht, ?_, ?_⟩
  · have hflat := climb_leaves (leaves.map Tree.leaf)
    rw [show climb Tree.node (leaves.map Tree.leaf) = [t] from ht] at hflat
    simpa [List.flatMap_map, Tree.leaves] using hflat
  · have hmap : (climb Tree.node (leaves.map Tree.leaf)).map (Tree.root h) =
        climb h ((leaves.map Tree.leaf).map (Tree.root h)) := climb_map (fun _ _ => rfl) _
    rw [show climb Tree.node (leaves.map Tree.leaf) = [t] from ht, List.map_map] at hmap
    have hid : Tree.root h ∘ Tree.leaf = id := rfl
    rw [hid, List.map_id] at hmap
    exact hmap.symm

/-- The pairs combined on the way to the root of a list. -/
def treePairs (h : α → α → α) (leaves : List α) : List (α × α) :=
  (forest leaves).flatMap (Tree.pairs h)

/-- The pairs combined when a proof is folded. -/
def foldPairs (h : α → α → α) : α → List α → List (α × α)
  | _, [] => []
  | x, s :: rest => (x, s) :: foldPairs h (h x s) rest

/-! ### Equal roots -/

/-- Among the pairs of `hashed` the combination is injective, up to the order of
a pair. -/
def NoCollision (h : α → α → α) (hashed : Set (α × α)) : Prop :=
  ∀ p ∈ hashed, ∀ q ∈ hashed, h p.1 p.2 = h q.1 q.2 → p = q ∨ p = q.swap

/-- `x` is not the combination of a pair of `hashed`. -/
def IsLeaf (h : α → α → α) (hashed : Set (α × α)) (x : α) : Prop :=
  ∀ p ∈ hashed, h p.1 p.2 ≠ x

/-- **Equal roots have the same leaves**, each as many times. -/
theorem leaves_perm {h : α → α → α} {hashed : Set (α × α)} (hinj : NoCollision h hashed)
    {t u : Tree α} (ht : ∀ p ∈ t.pairs h, p ∈ hashed) (hu : ∀ p ∈ u.pairs h, p ∈ hashed)
    (htleaf : ∀ x ∈ t.leaves, IsLeaf h hashed x) (huleaf : ∀ x ∈ u.leaves, IsLeaf h hashed x)
    (hroot : t.root h = u.root h) : t.leaves.Perm u.leaves := by
  induction t generalizing u with
  | leaf x =>
      cases u with
      | leaf y =>
          cases hroot
          exact .refl _
      | node l r =>
          have hpair := hu _ List.mem_cons_self
          exact (htleaf x List.mem_cons_self _ hpair hroot.symm).elim
  | node l r ihl ihr =>
      have hpair := ht _ List.mem_cons_self
      cases u with
      | leaf y => exact (huleaf y List.mem_cons_self _ hpair hroot).elim
      | node l' r' =>
          simp only [Tree.pairs, List.mem_cons, List.mem_append] at ht hu
          simp only [Tree.leaves, List.mem_append] at htleaf huleaf ⊢
          have hl := fun {u : Tree α} => ihl (u := u) (fun p hp => ht p (.inr (.inl hp)))
          have hr := fun {u : Tree α} => ihr (u := u) (fun p hp => ht p (.inr (.inr hp)))
          have hul : ∀ p ∈ l'.pairs h, p ∈ hashed := fun p hp => hu p (.inr (.inl hp))
          have hur : ∀ p ∈ r'.pairs h, p ∈ hashed := fun p hp => hu p (.inr (.inr hp))
          have hll := fun x hx => huleaf x (.inl hx)
          have hlr := fun x hx => huleaf x (.inr hx)
          rcases hinj _ hpair _ (hu _ (.inl rfl)) hroot with hsame | hswap
          · obtain ⟨hleft, hright⟩ := Prod.mk.inj hsame
            exact (hl hul (fun x hx => htleaf x (.inl hx)) hll hleft).append
              (hr hur (fun x hx => htleaf x (.inr hx)) hlr hright)
          · obtain ⟨hleft, hright⟩ := Prod.mk.inj hswap
            exact ((hl hur (fun x hx => htleaf x (.inl hx)) hlr hleft).append
              (hr hul (fun x hx => htleaf x (.inr hx)) hll hright)).trans
              List.perm_append_comm

theorem foldPairs_append (h : α → α → α) (x : α) (path : List α) (s : α) :
    foldPairs h x (path ++ [s]) = foldPairs h x path ++ [(path.foldl h x, s)] := by
  induction path generalizing x with
  | nil => rfl
  | cons a path ih => simp [foldPairs, ih]

/-- **Only leaves have proofs**: whatever folds to the root of a tree is one of
its leaves. -/
theorem mem_leaves {h : α → α → α} {hashed : Set (α × α)} (hinj : NoCollision h hashed)
    {t : Tree α} (ht : ∀ p ∈ t.pairs h, p ∈ hashed)
    (htleaf : ∀ x ∈ t.leaves, IsLeaf h hashed x) {x : α} {path : List α}
    (hpath : ∀ p ∈ foldPairs h x path, p ∈ hashed) (hx : IsLeaf h hashed x)
    (hroot : path.foldl h x = t.root h) : x ∈ t.leaves := by
  induction t generalizing path with
  | leaf y =>
      rcases List.eq_nil_or_concat path with rfl | ⟨path, s, rfl⟩
      · exact List.mem_singleton.mpr hroot
      · rw [List.concat_eq_append] at hpath hroot
        rw [foldPairs_append] at hpath
        rw [List.foldl_append] at hroot
        have hpair := hpath _ (List.mem_append_right _ List.mem_cons_self)
        exact (htleaf y List.mem_cons_self _ hpair hroot).elim
  | node l r ihl ihr =>
      have hpair := ht _ List.mem_cons_self
      rcases List.eq_nil_or_concat path with rfl | ⟨path, s, rfl⟩
      · exact (hx _ hpair hroot.symm).elim
      · rw [List.concat_eq_append] at hpath hroot
        rw [foldPairs_append] at hpath
        rw [List.foldl_append] at hroot
        simp only [Tree.pairs, List.mem_cons, List.mem_append] at ht hpath
        simp only [Tree.leaves, List.mem_append] at htleaf ⊢
        have hbefore := fun p hp => hpath p (.inl hp)
        -- the last step combined the two nodes below the root
        rcases hinj _ (hpath _ (.inr (.inl rfl))) _ hpair hroot with hsame | hswap
        · exact .inl (ihl (fun p hp => ht p (.inr (.inl hp))) (fun y hy => htleaf y (.inl hy))
            hbefore (Prod.mk.inj hsame).1)
        · exact .inr (ihr (fun p hp => ht p (.inr (.inr hp))) (fun y hy => htleaf y (.inr hy))
            hbefore (Prod.mk.inj hswap).1)

end Ordo.Merkle
