import Ordo.Merkle
import Ordo.Words

/-!
# The Merkle log of receipts

Receipt hashes are collected under a root that the auctioneer commits on chain.
The tree is written twice, with sorted pairs and carried odd nodes: the client
library builds roots and proofs and checks them, and the contract checks a proof
against a committed root.  Both are the general tree over the same pair hash.

What binds is the hash, and no hash of 32 bytes is injective.  So the pairs that
are hashed are named, `hashed`, and among them nothing collides.  The empty list
has the zero word for its root, which is a root only by convention: whoever
could hash a pair to it, or use it as a leaf, would have two lists for it.  The
contract refuses to commit it.
-/

namespace Ordo

section Receipt

variable (keccak : Bytes → Bytes32)

/-- The hash of a pair, in sorted order. -/
def pairHash (a b : Bytes32) : Bytes32 :=
  if a ≤ b then keccak (wordBytes a ++ wordBytes b) else keccak (wordBytes b ++ wordBytes a)

def merkleRoot (leaves : List Bytes32) : Bytes32 :=
  if leaves.length = 0 then 0 else (Merkle.climb (pairHash keccak) leaves).headD 0

/-- The siblings of a leaf; an index out of range throws. -/
def merkleProof (leaves : List Bytes32) (index : Nat) : Option (List Bytes32) :=
  if leaves.length ≤ index then none else some (Merkle.proof (pairHash keccak) leaves index)

def verifyMerkleProof (leaf : Bytes32) (proof : List Bytes32) (root : Bytes32) : Bool :=
  proof.foldl (pairHash keccak) leaf = root

end Receipt

namespace OrdoReceiptLog

structure Commitment where
  root : Bytes32
  count : Nat
  committedAt : Nat
  deriving DecidableEq

/-- The log's storage. -/
structure State where
  commitments : List Commitment

inductive Error where
  | NotAuctioneer
  | EmptyRoot
  | ShrinkingLog (previous submitted : Nat)
  deriving DecidableEq

/-- Anchor a root; `auctioneer` is who the settlement contract names. -/
def commit (auctioneer sender : Address) (now : Nat) (root : Bytes32) (count : Nat)
    (s : State) : Except Error State :=
  if sender ≠ auctioneer then .error .NotAuctioneer
  else if root = 0 then .error .EmptyRoot
  else
    match s.commitments.getLast? with
    | some last =>
        if count < last.count then .error (.ShrinkingLog last.count count)
        else .ok ⟨s.commitments ++ [⟨root, count, toU64 now⟩]⟩
    | none => .ok ⟨s.commitments ++ [⟨root, count, toU64 now⟩]⟩

/-- Check a leaf against a committed root; an index out of range reverts. -/
def verify (keccak : Bytes → Bytes32) (s : State) (leaf : Bytes32) (proof : List Bytes32)
    (index : Nat) : Option Bool :=
  let computed := proof.foldl (fun computed sibling =>
    if computed ≤ sibling then keccak (wordBytes computed ++ wordBytes sibling)
    else keccak (wordBytes sibling ++ wordBytes computed)) leaf
  (s.commitments[index]?).map fun c => decide (computed = c.root)

/-- The logs there can be, whoever the auctioneer was at each commitment. -/
inductive Reachable : State → Prop where
  | deployed : Reachable ⟨[]⟩
  | commit {s s' : State} {auctioneer sender : Address} {now : Nat} {root : Bytes32}
      {count : Nat} (before : Reachable s)
      (step : commit auctioneer sender now root count s = .ok s') : Reachable s'

/-- A commitment is appended, and it has a root. -/
theorem commit_eq_ok {auctioneer sender : Address} {now : Nat} {root : Bytes32} {count : Nat}
    {s s' : State} (h : commit auctioneer sender now root count s = .ok s') :
    root ≠ 0 ∧ s'.commitments = s.commitments ++ [⟨root, count, toU64 now⟩] := by
  unfold commit at h
  split at h
  · cases h
  · split at h
    · cases h
    · rename_i hroot
      split at h
      · split at h
        · cases h
        · cases h
          exact ⟨hroot, rfl⟩
      · cases h
        exact ⟨hroot, rfl⟩

/-- No committed root is that of the empty list. -/
theorem Reachable.root_ne_zero {s : State} (h : Reachable s) :
    ∀ c ∈ s.commitments, c.root ≠ 0 := by
  induction h with
  | deployed => simp
  | commit before step ih =>
      obtain ⟨hroot, hlog⟩ := commit_eq_ok step
      intro c hc
      rw [hlog, List.mem_append] at hc
      rcases hc with hc | hc
      · exact ih c hc
      · rw [List.mem_singleton.mp hc]
        exact hroot

end OrdoReceiptLog

variable {keccak : Bytes → Bytes32}

theorem pairHash_comm (a b : Bytes32) : pairHash keccak a b = pairHash keccak b a := by
  unfold pairHash
  rcases lt_trichotomy a b with h | rfl | h
  · rw [if_pos h.le, if_neg (not_le.mpr h)]
  · rfl
  · rw [if_neg (not_le.mpr h), if_pos h.le]

/-- **One fold in two languages**: the contract accepts what the library does. -/
theorem verify_eq (s : OrdoReceiptLog.State) (leaf : Bytes32) (proof : List Bytes32)
    (index : Nat) :
    OrdoReceiptLog.verify keccak s leaf proof index =
      (s.commitments[index]?).map fun c => verifyMerkleProof keccak leaf proof c.root := rfl

/-- The root of a list is that of the tree over it. -/
theorem merkleRoot_eq {leaves : List Bytes32} (hleaves : leaves ≠ []) :
    ∃ t : Merkle.Tree Bytes32, Merkle.forest leaves = [t] ∧ t.leaves = leaves ∧
      merkleRoot keccak leaves = t.root (pairHash keccak) := by
  obtain ⟨t, hforest, hsame, hclimb⟩ := Merkle.climb_eq_root (pairHash keccak) hleaves
  refine ⟨t, hforest, hsame, ?_⟩
  rw [merkleRoot, if_neg (by simpa using hleaves), hclimb]
  rfl

theorem merkleRoot_nil : merkleRoot keccak [] = 0 := rfl

/-- The proof of a leaf is accepted. -/
theorem verify_merkleProof {leaves : List Bytes32} {i : Nat} {x : Bytes32}
    (hx : leaves[i]? = some x) :
    ∃ proof, merkleProof keccak leaves i = some proof ∧
      verifyMerkleProof keccak x proof (merkleRoot keccak leaves) = true := by
  obtain ⟨hi, -⟩ := List.getElem?_eq_some_iff.mp hx
  have hleaves : leaves ≠ [] := List.ne_nil_of_length_pos (by omega)
  refine ⟨_, if_neg (Nat.not_le.mpr hi), ?_⟩
  rw [verifyMerkleProof, merkleRoot, if_neg (by simpa using hleaves),
    Merkle.fold_proof pairHash_comm hx]
  exact decide_eq_true rfl

/-- What the hash is trusted with: `leaves` are leaves, and the pairs of
`hashed`, which their tree needs, do not collide with each other or with them. -/
structure Bound (keccak : Bytes → Bytes32) (hashed : Set (Bytes32 × Bytes32))
    (leaves : List Bytes32) : Prop where
  inj : Merkle.NoCollision (pairHash keccak) hashed
  pairs : ∀ p ∈ Merkle.treePairs (pairHash keccak) leaves, p ∈ hashed
  leaf : ∀ x ∈ leaves, Merkle.IsLeaf (pairHash keccak) hashed x

/-- The zero word is nothing but the root of the empty list. -/
def ZeroFree (keccak : Bytes → Bytes32) (hashed : Set (Bytes32 × Bytes32))
    (leaves : List Bytes32) : Prop :=
  0 ∉ leaves ∧ Merkle.IsLeaf (pairHash keccak) hashed 0

variable {hashed : Set (Bytes32 × Bytes32)} {leaves leaves' : List Bytes32}

/-- The tree over a list, with its pairs among those that do not collide. -/
theorem Bound.tree (h : Bound keccak hashed leaves) (hleaves : leaves ≠ []) :
    ∃ t : Merkle.Tree Bytes32, t.leaves = leaves ∧
      merkleRoot keccak leaves = t.root (pairHash keccak) ∧
      ∀ p ∈ t.pairs (pairHash keccak), p ∈ hashed := by
  obtain ⟨t, hforest, hsame, hroot⟩ := merkleRoot_eq hleaves
  refine ⟨t, hsame, hroot, fun p hp => h.pairs p ?_⟩
  simpa [Merkle.treePairs, hforest] using hp

/-- Only the empty list has the zero root. -/
theorem Bound.root_ne_zero (h : Bound keccak hashed leaves)
    (hzero : ZeroFree keccak hashed leaves) (hleaves : leaves ≠ []) :
    merkleRoot keccak leaves ≠ 0 := by
  obtain ⟨t, hsame, hroot, hpairs⟩ := h.tree hleaves
  rw [hroot]
  cases t with
  | leaf x =>
      rintro rfl
      exact hzero.1 (by simp [← hsame, Merkle.Tree.leaves])
  | node l r => exact hzero.2 _ (hpairs _ List.mem_cons_self)

/-- Equal roots, equal leaves. -/
theorem Bound.perm (h : Bound keccak hashed leaves) (h' : Bound keccak hashed leaves')
    (hzero : leaves = [] ∨ leaves' = [] →
      ZeroFree keccak hashed leaves ∧ ZeroFree keccak hashed leaves')
    (hroot : merkleRoot keccak leaves = merkleRoot keccak leaves') :
    leaves.Perm leaves' := by
  by_cases hnil : leaves = []
  · by_cases hnil' : leaves' = []
    · rw [hnil, hnil']
    · have hnot := h'.root_ne_zero (hzero (.inl hnil)).2 hnil'
      rw [← hroot, hnil] at hnot
      exact (hnot merkleRoot_nil).elim
  · by_cases hnil' : leaves' = []
    · have hnot := h.root_ne_zero (hzero (.inr hnil')).1 hnil
      rw [hroot, hnil'] at hnot
      exact (hnot merkleRoot_nil).elim
    · obtain ⟨t, ht, htroot, htpairs⟩ := h.tree hnil
      obtain ⟨u, hu, huroot, hupairs⟩ := h'.tree hnil'
      rw [htroot, huroot] at hroot
      have hperm := Merkle.leaves_perm h.inj htpairs hupairs (ht ▸ h.leaf) (hu ▸ h'.leaf) hroot
      rwa [ht, hu] at hperm

/-- Nothing else is accepted against the root. -/
theorem Bound.mem_of_verify (h : Bound keccak hashed leaves) {x : Bytes32}
    {proof : List Bytes32} (hx : Merkle.IsLeaf (pairHash keccak) hashed x)
    (hproof : ∀ p ∈ Merkle.foldPairs (pairHash keccak) x proof, p ∈ hashed)
    (hzero : leaves = [] → x ≠ 0 ∧ Merkle.IsLeaf (pairHash keccak) hashed 0)
    (hverify : verifyMerkleProof keccak x proof (merkleRoot keccak leaves) = true) :
    x ∈ leaves := by
  have hfold := of_decide_eq_true hverify
  by_cases hnil : leaves = []
  · obtain ⟨hne, hfree⟩ := hzero hnil
    rw [hnil, merkleRoot_nil] at hfold
    rcases List.eq_nil_or_concat proof with rfl | ⟨path, s, rfl⟩
    · exact (hne hfold).elim
    · rw [List.concat_eq_append] at hproof hfold
      rw [Merkle.foldPairs_append] at hproof
      rw [List.foldl_append] at hfold
      exact (hfree _ (hproof _ (List.mem_append_right _ List.mem_cons_self)) hfold).elim
  · obtain ⟨t, ht, hroot, hpairs⟩ := h.tree hnil
    rw [hroot] at hfold
    exact ht ▸ Merkle.mem_leaves h.inj hpairs (ht ▸ h.leaf) hproof hx hfold

/-- **The log binds its history.**  Lists with one root are the same leaves, each
leaf has a proof that both verifiers accept, and neither accepts another leaf,
the zero word aside where a list is empty. -/
theorem receipt_log_binds (hbound : Bound keccak hashed leaves) :
    (∀ leaves', Bound keccak hashed leaves' →
      (leaves = [] ∨ leaves' = [] →
        ZeroFree keccak hashed leaves ∧ ZeroFree keccak hashed leaves') →
      merkleRoot keccak leaves = merkleRoot keccak leaves' → leaves.Perm leaves') ∧
    (∀ i x, leaves[i]? = some x → ∃ proof, merkleProof keccak leaves i = some proof ∧
      verifyMerkleProof keccak x proof (merkleRoot keccak leaves) = true ∧
      ∀ (s : OrdoReceiptLog.State) index c, s.commitments[index]? = some c →
        c.root = merkleRoot keccak leaves →
        OrdoReceiptLog.verify keccak s x proof index = some true) ∧
    ∀ x ∉ leaves, Merkle.IsLeaf (pairHash keccak) hashed x →
      ∀ proof, (∀ p ∈ Merkle.foldPairs (pairHash keccak) x proof, p ∈ hashed) →
        ((leaves = [] → x ≠ 0 ∧ Merkle.IsLeaf (pairHash keccak) hashed 0) →
          verifyMerkleProof keccak x proof (merkleRoot keccak leaves) = false) ∧
        ∀ s, OrdoReceiptLog.Reachable s → ∀ index c, s.commitments[index]? = some c →
          c.root = merkleRoot keccak leaves →
          OrdoReceiptLog.verify keccak s x proof index = some false := by
  refine ⟨fun leaves' h' => hbound.perm h', fun i x hx => ?_, fun x hx hleaf proof hproof => ?_⟩
  · obtain ⟨proof, hproof, haccept⟩ := verify_merkleProof hx
    refine ⟨proof, hproof, haccept, fun s index c hc hroot => ?_⟩
    rw [verify_eq, hc, Option.map_some, hroot, haccept]
  · have hreject := fun hzero => hbound.mem_of_verify hleaf hproof hzero
    refine ⟨fun hzero => ?_, fun s hs index c hc hroot => ?_⟩
    · exact Bool.eq_false_iff.mpr fun haccept => hx (hreject hzero haccept)
    · rw [verify_eq, hc, Option.map_some, hroot]
      -- a root that could be committed is not that of the empty list
      have hnonempty : leaves ≠ [] := by
        rintro rfl
        exact hs.root_ne_zero c (List.mem_of_getElem? hc) hroot
      have hfalse : verifyMerkleProof keccak x proof (merkleRoot keccak leaves) = false :=
        Bool.eq_false_iff.mpr fun haccept =>
          hx (hreject (fun hnil => (hnonempty hnil).elim) haccept)
      rw [hfalse]

/-- The hash of the pair of one and two; every other input is not asked for. -/
def pairOfOneTwo (bs : Bytes) : Bytes32 :=
  if bs = wordBytes 1 ++ wordBytes 2 then
    0xe90b7bceb6e7df5418fb78d8ee546e97c83a08bbccc01a0644d599ccd2a7c2e0
  else 0

theorem receipt_log_binds_two :
    List.Perm [(1 : Bytes32), 2] [2, 1] ∧
      (∃ proof, merkleProof pairOfOneTwo [1, 2] 1 = some proof ∧
        verifyMerkleProof pairOfOneTwo 2 proof (merkleRoot pairOfOneTwo [1, 2]) = true) ∧
      verifyMerkleProof pairOfOneTwo 3 [] (merkleRoot pairOfOneTwo [1, 2]) = false := by
  have hhash : pairHash pairOfOneTwo 1 2 =
      0xe90b7bceb6e7df5418fb78d8ee546e97c83a08bbccc01a0644d599ccd2a7c2e0 := by decide +kernel
  have hinj : Merkle.NoCollision (pairHash pairOfOneTwo) {(1, 2), (2, 1)} := by
    rintro p (rfl | rfl) q (rfl | rfl) - <;> simp
  have hleaf : ∀ x ∈ [(1 : Bytes32), 2, 3],
      Merkle.IsLeaf (pairHash pairOfOneTwo) {(1, 2), (2, 1)} x := by
    intro x hx p hp
    have hpair : pairHash pairOfOneTwo p.1 p.2 = pairHash pairOfOneTwo 1 2 := by
      rcases hp with rfl | rfl
      · rfl
      · exact pairHash_comm 2 1
    rw [hpair, hhash]
    simp only [List.mem_cons, List.not_mem_nil, or_false] at hx
    rcases hx with rfl | rfl | rfl <;> decide +kernel
  have hmem : ∀ x, x ∈ [(1 : Bytes32), 2] ∨ x ∈ [(2 : Bytes32), 1] →
      x ∈ [(1 : Bytes32), 2, 3] := by
    intro x hx
    simp only [List.mem_cons, List.not_mem_nil, or_false] at hx ⊢
    grind
  have hone : Bound pairOfOneTwo {(1, 2), (2, 1)} [1, 2] := by
    refine ⟨hinj, ?_, fun x hx => hleaf x (hmem x (.inl hx))⟩
    simp [Merkle.treePairs, Merkle.forest, Merkle.climb, Merkle.levelUp, Merkle.Tree.pairs,
      Merkle.Tree.root]
  have htwo : Bound pairOfOneTwo {(1, 2), (2, 1)} [2, 1] := by
    refine ⟨hinj, ?_, fun x hx => hleaf x (hmem x (.inr hx))⟩
    simp [Merkle.treePairs, Merkle.forest, Merkle.climb, Merkle.levelUp, Merkle.Tree.pairs,
      Merkle.Tree.root]
  obtain ⟨hperm, hproof, hreject⟩ := receipt_log_binds hone
  refine ⟨hperm [2, 1] htwo (by simp) ?_, ?_, ?_⟩
  · simp [merkleRoot, Merkle.climb, Merkle.levelUp, pairHash_comm]
  · obtain ⟨proof, hproof, haccept, -⟩ := hproof 1 2 rfl
    exact ⟨proof, hproof, haccept⟩
  · exact (hreject 3 (by decide) (hleaf 3 (by simp)) [] (by simp [Merkle.foldPairs])).1
      (by simp)

/-- The empty list and the list of the zero word have one root, and nothing is
hashed for either. -/
theorem empty_list_root :
    ¬ ∀ (keccak : Bytes → Bytes32) (hashed : Set (Bytes32 × Bytes32))
        (leaves leaves' : List Bytes32), Bound keccak hashed leaves →
      Bound keccak hashed leaves' → merkleRoot keccak leaves = merkleRoot keccak leaves' →
      leaves.Perm leaves' := by
  intro hclaim
  have hnone : ∀ leaves, Merkle.treePairs (pairHash pairOfOneTwo) leaves = [] →
      Bound pairOfOneTwo ∅ leaves := fun leaves hpairs =>
    ⟨fun p hp => hp.elim, by simp [hpairs], fun x _ p hp => hp.elim⟩
  have hperm := hclaim pairOfOneTwo ∅ [] [0] (hnone _ ?_) (hnone _ ?_) ?_
  · simpa using hperm.length_eq
  · simp [Merkle.treePairs, Merkle.forest, Merkle.climb]
  · simp [Merkle.treePairs, Merkle.forest, Merkle.climb, Merkle.Tree.pairs]
  · simp [merkleRoot, Merkle.climb]

end Ordo
