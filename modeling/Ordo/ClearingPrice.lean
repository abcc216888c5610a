import Ordo.BatchSolve
import Ordo.Guarded

/-!
# Prices that stay positive

Everything that is owed at a clearing price is divided by one of its two halves, and each
round of the search rebuilds one half: the price times what is held, less the fee, over
what is owed.  `scale` leaves the price alone where nothing is owed or nothing is held, so
that neither makes it zero.

1.  What it does not rule out is a quotient that rounds to zero, when what is owed is more
    than the price times what is held (`scale_pos_iff`).
2.  The prices of a run are positive exactly when no round's quotient does
    (`positive_iff_reaches`).
-/

namespace Ordo

namespace Solver

variable {WETH : Address}

/-- A price that every later division divides by without trouble. -/
def Clearing.Positive (c : Clearing) : Prop := 0 < c.pA ∧ 0 < c.pB

/-- What a round of the search goes by: its batch, the answer to its call, the fee and
the residual it asked about. -/
structure Answered (WETH : Address) where
  batch : PairBatch WETH
  sim : SimResult
  feeBps : Int
  res : Residual

/-- What is owed is unsigned on the wire; what is held may have any sign. -/
def Answered.Received (r : Answered WETH) : Prop := ∀ t ∈ r.sim.tokens, 0 ≤ t.owed

def moveOn (c : Clearing) (r : Answered WETH) : Clearing :=
  nextClearing r.batch c r.sim r.feeBps r.res

/-- The half of the price that the round rebuilds, and the token it goes by. -/
inductive Rebuilds (c : Clearing) (r : Answered WETH) : Int → Moved → Prop
  | a {ra rb : Moved} (ha : r.sim.tokens.find? (·.token = r.batch.a) = some ra)
      (hb : r.sim.tokens.find? (·.token = r.batch.b) = some rb)
      (hfed : fedB ra rb r.res = some true) : Rebuilds c r c.pA rb
  | b {ra rb : Moved} (ha : r.sim.tokens.find? (·.token = r.batch.a) = some ra)
      (hb : r.sim.tokens.find? (·.token = r.batch.b) = some rb)
      (hfed : fedB ra rb r.res = some false) : Rebuilds c r c.pB ra

/-- What is owed is not more than the price times what is held, less the fee. -/
def Reaches (c : Clearing) (r : Answered WETH) : Prop :=
  ∀ p t, Rebuilds c r p t → 0 < t.owed → 0 < t.delta → t.owed ≤ p * target r.feeBps t.delta

section Step

variable {c : Clearing} {r : Answered WETH}

/-- A quotient of whole numbers is positive when the divisor goes into it. -/
theorem tdiv_pos_iff {x y : Int} (hy : 0 < y) : 0 < x.tdiv y ↔ y ≤ x := by
  rcases le_or_gt 0 x with hx | hx
  · rw [Int.tdiv_eq_ediv_of_nonneg hx, ← Int.add_one_le_iff, zero_add,
      Int.le_ediv_iff_mul_le hy, one_mul]
  · have hneg : x.tdiv y ≤ 0 := by
      have hopposite := Int.tdiv_nonneg (neg_nonneg.mpr hx.le) hy.le
      rw [Int.neg_tdiv] at hopposite
      exact neg_nonneg.mp hopposite
    constructor
    · intro h
      exact absurd hneg (not_le.mpr h)
    · intro h
      exact absurd (hy.trans_le h) (not_lt.mpr hx.le)

/-- **One half of the price.**  It stays positive unless more is owed than the price times
what is held, less the fee. -/
theorem scale_pos_iff (feeBps : Int) {p : Int} {t : Moved} (hp : 0 < p) (howed : 0 ≤ t.owed) :
    0 < scale feeBps p t ↔ (0 < t.owed → 0 < t.delta → t.owed ≤ p * target feeBps t.delta) := by
  unfold scale
  split
  next hstands =>
    refine iff_of_true hp fun hsome hheld => ?_
    rcases hstands with hnone | hempty
    · exact absurd hnone hsome.ne'
    · exact absurd hheld (not_lt.mpr hempty)
  next hmoves =>
    rw [not_or] at hmoves
    obtain ⟨hsome, hheld⟩ := hmoves
    have hpos : 0 < t.owed := lt_of_le_of_ne howed (Ne.symm hsome)
    rw [tdiv_pos_iff hpos]
    constructor
    · intro h _ _
      exact h
    · intro h
      exact h hpos (not_le.mp hheld)

/-- A round leaves the price alone or rebuilds one half of it. -/
theorem moveOn_cases (c : Clearing) (r : Answered WETH) :
    (moveOn c r = c ∧ ∀ p t, ¬ Rebuilds c r p t) ∨
      (∃ t ∈ r.sim.tokens, moveOn c r = ⟨scale r.feeBps c.pA t, c.pB⟩ ∧
        ∀ p t', Rebuilds c r p t' ↔ p = c.pA ∧ t' = t) ∨
      ∃ t ∈ r.sim.tokens, moveOn c r = ⟨c.pA, scale r.feeBps c.pB t⟩ ∧
        ∀ p t', Rebuilds c r p t' ↔ p = c.pB ∧ t' = t := by
  unfold moveOn nextClearing
  split
  next ra rb ha hb =>
    split
    next hfed =>
      refine Or.inl ⟨rfl, fun p t h => ?_⟩
      cases h <;> simp_all
    next hfed =>
      refine Or.inr (Or.inl ⟨rb, List.mem_of_find?_eq_some hb, rfl, fun p t => ⟨fun h => ?_, ?_⟩⟩)
      · cases h <;> simp_all
      · rintro ⟨rfl, rfl⟩
        exact Rebuilds.a ha hb hfed
    next hfed =>
      refine Or.inr (Or.inr ⟨ra, List.mem_of_find?_eq_some ha, rfl, fun p t => ⟨fun h => ?_, ?_⟩⟩)
      · cases h <;> simp_all
      · rintro ⟨rfl, rfl⟩
        exact Rebuilds.b ha hb hfed
  next hmissing =>
    refine Or.inl ⟨rfl, fun p t h => ?_⟩
    cases h with
    | a ha hb _ => exact hmissing _ _ ha hb
    | b ha hb _ => exact hmissing _ _ ha hb

/-- **One round.** -/
theorem moveOn_positive_iff (hc : c.Positive) (hr : r.Received) :
    (moveOn c r).Positive ↔ Reaches c r := by
  rcases moveOn_cases c r with ⟨hsame, hnone⟩ | ⟨t, ht, hmoved, hrebuilds⟩ |
    ⟨t, ht, hmoved, hrebuilds⟩
  · rw [hsame]
    exact iff_of_true hc fun p t h => absurd h (hnone p t)
  · have hhalf := scale_pos_iff r.feeBps hc.1 (hr t ht)
    rw [hmoved]
    constructor
    · rintro ⟨hpos, -⟩ p t' h
      obtain ⟨rfl, rfl⟩ := (hrebuilds p t').mp h
      exact hhalf.mp hpos
    · intro h
      exact ⟨hhalf.mpr (h c.pA t ((hrebuilds _ _).mpr ⟨rfl, rfl⟩)), hc.2⟩
  · have hhalf := scale_pos_iff r.feeBps hc.2 (hr t ht)
    rw [hmoved]
    constructor
    · rintro ⟨-, hpos⟩ p t' h
      obtain ⟨rfl, rfl⟩ := (hrebuilds p t').mp h
      exact hhalf.mp hpos
    · intro h
      exact ⟨hc.1, hhalf.mpr (h c.pB t ((hrebuilds _ _).mpr ⟨rfl, rfl⟩))⟩

/-- No amount of any batch is divided by zero at a positive price. -/
theorem Clearing.Positive.divides (hc : c.Positive) (batch : PairBatch WETH) :
    divides batch c = true := by
  have hA := hc.1.ne'
  have hB := hc.2.ne'
  simp [Solver.divides, hA, hB]

/-- The search starts at a positive price. -/
theorem discoveryClearing_positive {batch : PairBatch WETH} {outB outA : Int}
    (h : discoveryClearing batch outB outA = some c) : c.Positive := by
  unfold discoveryClearing at h
  split at h
  next hA =>
    cases h
    exact ⟨hA.2, hA.1⟩
  next =>
    split at h
    next hB =>
      cases h
      exact hB
    next => cases h

end Step

/-- **Prices that stay positive.**  Along any rounds, whatever is answered, both halves of
each price are positive, and every batch can be paid at it, exactly when in no round more
is owed than the price times what is held, less the fee. -/
theorem positive_iff_reaches {c : Clearing} (hc : c.Positive) {rs : List (Answered WETH)}
    (hrs : ∀ r ∈ rs, r.Received) :
    (∀ pre post, rs = pre ++ post → (pre.foldl moveOn c).Positive ∧
        ∀ batch : PairBatch WETH, divides batch (pre.foldl moveOn c) = true) ↔
      Guarded.Along moveOn Reaches c rs := by
  have hreceived : Guarded.Along moveOn (fun _ r => r.Received) c rs := by
    rintro pre r post rfl
    exact hrs r (List.mem_append_right _ List.mem_cons_self)
  have hsteps : Guarded.Along moveOn (fun c r => (moveOn c r).Positive) c rs ↔
      Guarded.Along moveOn Reaches c rs :=
    Guarded.along_iff_of hreceived
      (fun c _ (hpos : c.Positive) hr h => (moveOn_positive_iff hpos hr).mpr h)
      (fun _ _ hpos hr => moveOn_positive_iff hpos hr) hc
  rw [← hsteps]
  constructor
  · intro h
    exact (Guarded.throughout_iff.mp fun pre post hsplit => (h pre post hsplit).1).2
  · intro h pre post hsplit
    have hpos := Guarded.throughout_iff.mpr ⟨hc, h⟩ pre post hsplit
    exact ⟨hpos, fun batch => hpos.divides batch⟩

/-- A seller of a million of token 2 and one of a single unit of token 3. -/
def lopsidedBatch : PairBatch 9 where
  a := 2
  b := 3
  sellA := [sampleOrder 2 3 1000000 0]
  sellB := [sampleOrder 3 2 1 0]
  sellsA := loneBatch.sellsA
  sellsB := by decide

/-- The answer that so much of token 3 is held against two owed. -/
def answered (held : Int) : Answered 9 where
  batch := lopsidedBatch
  sim := ⟨[⟨2, 500000, 500000⟩, ⟨3, held, 2⟩], []⟩
  feeBps := 10
  res := residual lopsidedBatch ⟨2, 1000000⟩

theorem answered_received (held : Int) : (answered held).Received := by
  intro t ht
  simp only [answered, List.mem_cons, List.not_mem_nil, or_false] at ht
  rcases ht with rfl | rfl
  · exact Int.natCast_nonneg 500000
  · exact Int.natCast_nonneg 2

/-- Three are held, which less the fee are the two that are owed. -/
theorem positive_iff_reaches_sample :
    (moveOn ⟨2, 1000000⟩ (answered 3)).Positive := by
  have hreaches : Guarded.Along moveOn Reaches ⟨2, 1000000⟩ [answered 3] := by
    refine Guarded.along_cons.mpr ⟨fun p t h _ _ => ?_, Guarded.along_nil⟩
    cases h with
    | a _ hb _ =>
        cases hb
        decide
    | b ha hb hfed =>
        cases ha
        cases hb
        exact absurd hfed (by decide)
  have hreceived : ∀ r ∈ [answered 3], r.Received := by
    intro r hr
    rw [List.mem_singleton.mp hr]
    exact answered_received 3
  exact ((positive_iff_reaches (by constructor <;> decide) hreceived).mpr hreaches
    [answered 3] [] rfl).1

/-- One is held, which less the fee is nothing: the price of token 2 becomes zero, and the
seller of token 3 is divided by it in the next round. -/
theorem rounds_to_zero :
    ¬ ∀ (c : Clearing) (r : Answered 9), c.Positive → r.Received →
      (moveOn c r).Positive ∧ divides r.batch (moveOn c r) = true := by
  intro hclaim
  have hzero := hclaim ⟨2, 1000000⟩ (answered 1) (by constructor <;> decide) (answered_received 1)
  exact absurd hzero.2 (by decide)

end Solver

end Ordo
