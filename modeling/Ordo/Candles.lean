import Mathlib.Algebra.BigOperators.Group.List.Basic
import Mathlib.Order.Lattice
import Mathlib.Order.MinMax
import Mathlib.Data.List.Basic
import Mathlib.Data.List.Induction
import Mathlib.Logic.Function.Basic
import Mathlib.Tactic.Common

/-!
# Minute candles

Swap prices are merged into one candle for each pool and minute.  The points of a
call are first collapsed into groups, in memory, and each group is then merged into
the stored row by one statement.

Prices are any linear order and volumes any commutative monoid: the code's are
floating-point numbers, and what rounding does to a sum of volumes is not modelled.
-/

namespace Ordo

/-- A swap as the watcher reports it. -/
structure SwapPoint (P V : Type) where
  pool : String
  bucket : Nat
  price : P
  vol0 : V
  vol1 : V
  block : Nat
  deriving DecidableEq

/-- What a candle says of a minute, in memory and in its row. -/
structure Candle (P V : Type) where
  opening : P
  high : P
  low : P
  close : P
  vol0 : V
  vol1 : V
  swaps : Nat
  firstBlock : Nat
  lastBlock : Nat
  deriving DecidableEq

/-- The points of a call with one pool, as spelled, and one bucket. -/
structure CandleGroup (P V : Type) where
  pool : String
  bucket : Nat
  candle : Candle P V
  deriving DecidableEq

/-- The table `candles`, by its primary key. -/
abbrev CandleTable (P V : Type) := String × Nat → Option (Candle P V)

section Model

variable {P V : Type} [LinearOrder P] [AddCommMonoid V]

namespace SwapPoint

/-- The key of the in-memory map: the pool as spelled, and the bucket. -/
def groupKey (p : SwapPoint P V) : String × Nat := (p.pool, p.bucket)

/-- The key of the row: the pool is stored in lower case. -/
def rowKey (p : SwapPoint P V) : String × Nat := (p.pool.toLower, p.bucket)

end SwapPoint

namespace Candle

/-- The candle of one point. -/
def single (p : SwapPoint P V) : Candle P V where
  opening := p.price
  high := p.price
  low := p.price
  close := p.price
  vol0 := p.vol0
  vol1 := p.vol1
  swaps := 1
  firstBlock := p.block
  lastBlock := p.block

/-- Another point of the same call.  Its block is compared with `<=` and `>=`. -/
def add (c : Candle P V) (p : SwapPoint P V) : Candle P V where
  opening := if p.block ≤ c.firstBlock then p.price else c.opening
  high := max c.high p.price
  low := min c.low p.price
  close := if c.lastBlock ≤ p.block then p.price else c.close
  vol0 := c.vol0 + p.vol0
  vol1 := c.vol1 + p.vol1
  swaps := c.swaps + 1
  firstBlock := if p.block ≤ c.firstBlock then p.block else c.firstBlock
  lastBlock := if c.lastBlock ≤ p.block then p.block else c.lastBlock

/-- `ON CONFLICT(pool, bucket) DO UPDATE`: the blocks are compared with `<` and `>`. -/
def merge (row excluded : Candle P V) : Candle P V where
  opening := if excluded.firstBlock < row.firstBlock then excluded.opening else row.opening
  close := if row.lastBlock < excluded.lastBlock then excluded.close else row.close
  high := max row.high excluded.high
  low := min row.low excluded.low
  vol0 := row.vol0 + excluded.vol0
  vol1 := row.vol1 + excluded.vol1
  swaps := row.swaps + excluded.swaps
  firstBlock := min row.firstBlock excluded.firstBlock
  lastBlock := max row.lastBlock excluded.lastBlock

end Candle

namespace CandleGroup

def groupKey (g : CandleGroup P V) : String × Nat := (g.pool, g.bucket)

def rowKey (g : CandleGroup P V) : String × Nat := (g.pool.toLower, g.bucket)

/-- One round of the loop over the points: the map keeps the order in which its keys
were first set. -/
def collect : List (CandleGroup P V) → SwapPoint P V → List (CandleGroup P V)
  | [], p => [⟨p.pool, p.bucket, Candle.single p⟩]
  | g :: rest, p =>
      if g.groupKey = p.groupKey then { g with candle := g.candle.add p } :: rest
      else g :: collect rest p

/-- The groups of a call. -/
def ofPoints (points : List (SwapPoint P V)) : List (CandleGroup P V) :=
  points.foldl collect []

end CandleGroup

/-- The statement for one group. -/
def upsertGroup (table : CandleTable P V) (g : CandleGroup P V) : CandleTable P V :=
  Function.update table g.rowKey
    (some (match table g.rowKey with
      | none => g.candle
      | some row => row.merge g.candle))

/-- The table after a call: its groups are written in one transaction. -/
def upsertCandles (table : CandleTable P V) (points : List (SwapPoint P V)) : CandleTable P V :=
  if points = [] then table else (CandleGroup.ofPoints points).foldl upsertGroup table

/-! ### What a candle should say -/

/-- The points of a candle. -/
def pointsOf (key : String × Nat) (points : List (SwapPoint P V)) : List (SwapPoint P V) :=
  points.filter (·.rowKey = key)

/-- The points of a block. -/
def inBlock (block : Nat) (points : List (SwapPoint P V)) : List (SwapPoint P V) :=
  points.filter (·.block = block)

/-- The earliest block of a list of points that is not empty. -/
def earliest (p : SwapPoint P V) (rest : List (SwapPoint P V)) : Nat :=
  rest.foldl (fun m q => min m q.block) p.block

def latest (p : SwapPoint P V) (rest : List (SwapPoint P V)) : Nat :=
  rest.foldl (fun m q => max m q.block) p.block

/-- **The reference.**  The candle of some points: it opens with the first swap of the
earliest block and closes with the last swap of the latest. -/
def referenceCandle : List (SwapPoint P V) → Option (Candle P V)
  | [] => none
  | p :: rest =>
      let first := earliest p rest
      let last := latest p rest
      some {
        opening := ((inBlock first (p :: rest)).head?.getD p).price
        high := rest.foldl (fun m q => max m q.price) p.price
        low := rest.foldl (fun m q => min m q.price) p.price
        close := ((inBlock last (p :: rest)).getLast?.getD p).price
        vol0 := ((p :: rest).map (·.vol0)).sum
        vol1 := ((p :: rest).map (·.vol1)).sum
        swaps := (p :: rest).length
        firstBlock := first
        lastBlock := last }

/-! ### What the code's candles say -/

/-- The candle is that of the points, except that it opens with the last swap of the
earliest block. -/
structure Describes (c : Candle P V) (points : List (SwapPoint P V)) : Prop where
  first_le : ∀ p ∈ points, c.firstBlock ≤ p.block
  le_last : ∀ p ∈ points, p.block ≤ c.lastBlock
  opening : ∃ p, (inBlock c.firstBlock points).getLast? = some p ∧ c.opening = p.price
  close : ∃ p, (inBlock c.lastBlock points).getLast? = some p ∧ c.close = p.price
  high : (∃ p ∈ points, p.price = c.high) ∧ ∀ p ∈ points, p.price ≤ c.high
  low : (∃ p ∈ points, p.price = c.low) ∧ ∀ p ∈ points, c.low ≤ p.price
  vol0 : c.vol0 = (points.map (·.vol0)).sum
  vol1 : c.vol1 = (points.map (·.vol1)).sum
  swaps : c.swaps = points.length

theorem inBlock_append {P V : Type} {points more : List (SwapPoint P V)} {block : Nat} :
    inBlock block (points ++ more) = inBlock block points ++ inBlock block more :=
  List.filter_append ..

theorem inBlock_eq_nil {P V : Type} {points : List (SwapPoint P V)} {block : Nat}
    (h : ∀ p ∈ points, p.block ≠ block) : inBlock block points = [] := by
  rw [inBlock, List.filter_eq_nil_iff]
  intro p hp
  simpa using h p hp

theorem mem_of_getLast {P V : Type} {points : List (SwapPoint P V)} {p : SwapPoint P V}
    {block : Nat} (h : (inBlock block points).getLast? = some p) :
    p ∈ points ∧ p.block = block := by
  have hmem := List.mem_of_getLast? h
  simpa [inBlock] using hmem

namespace Describes

variable {c d : Candle P V} {points more : List (SwapPoint P V)} {p : SwapPoint P V}

theorem single (p : SwapPoint P V) : Describes (Candle.single p) [p] where
  first_le q hq := by
    rw [List.mem_singleton.mp hq]
    exact le_rfl
  le_last q hq := by
    rw [List.mem_singleton.mp hq]
    exact le_rfl
  opening := ⟨p, by simp [inBlock, Candle.single], rfl⟩
  close := ⟨p, by simp [inBlock, Candle.single], rfl⟩
  high := by simp [Candle.single]
  low := by simp [Candle.single]
  vol0 := by simp [Candle.single]
  vol1 := by simp [Candle.single]
  swaps := rfl

/-- **A point more in memory.**  Of several points of the earliest block the last one
gives the opening price: the comparison lets equal blocks through. -/
theorem add (h : Describes c points) (p : SwapPoint P V) :
    Describes (c.add p) (points ++ [p]) := by
  have hone : inBlock p.block [p] = [p] := by simp [inBlock]
  have hnone : ∀ block, p.block ≠ block → inBlock block [p] = [] := by
    intro block hne
    exact inBlock_eq_nil (by simpa using hne)
  constructor
  · intro q hq
    simp only [Candle.add]
    rcases List.mem_append.mp hq with hq | hq
    · have := h.first_le q hq
      split <;> omega
    · rw [List.mem_singleton.mp hq]
      split <;> omega
  · intro q hq
    simp only [Candle.add]
    rcases List.mem_append.mp hq with hq | hq
    · have := h.le_last q hq
      split <;> omega
    · rw [List.mem_singleton.mp hq]
      split <;> omega
  · simp only [Candle.add]
    split
    · exact ⟨p, by rw [inBlock_append, hone, List.getLast?_concat], rfl⟩
    · obtain ⟨q, hq, hprice⟩ := h.opening
      refine ⟨q, ?_, hprice⟩
      rw [inBlock_append, hnone _ (by omega), List.append_nil, hq]
  · simp only [Candle.add]
    split
    · exact ⟨p, by rw [inBlock_append, hone, List.getLast?_concat], rfl⟩
    · obtain ⟨q, hq, hprice⟩ := h.close
      refine ⟨q, ?_, hprice⟩
      rw [inBlock_append, hnone _ (by omega), List.append_nil, hq]
  · obtain ⟨⟨q, hq, hprice⟩, hle⟩ := h.high
    constructor
    · rcases le_total c.high p.price with hmax | hmax
      · exact ⟨p, by simp, (max_eq_right hmax).symm⟩
      · exact ⟨q, by simp [hq], hprice.trans (max_eq_left hmax).symm⟩
    · intro r hr
      rcases List.mem_append.mp hr with hr | hr
      · exact (hle r hr).trans (le_max_left _ _)
      · rw [List.mem_singleton.mp hr]
        exact le_max_right _ _
  · obtain ⟨⟨q, hq, hprice⟩, hle⟩ := h.low
    constructor
    · rcases le_total c.low p.price with hmin | hmin
      · exact ⟨q, by simp [hq], hprice.trans (min_eq_left hmin).symm⟩
      · exact ⟨p, by simp, (min_eq_right hmin).symm⟩
    · intro r hr
      rcases List.mem_append.mp hr with hr | hr
      · exact (min_le_left _ _).trans (hle r hr)
      · rw [List.mem_singleton.mp hr]
        exact min_le_right _ _
  · simp [Candle.add, h.vol0]
  · simp [Candle.add, h.vol1]
  · simp [Candle.add, h.swaps]

/-- **A group more in the row.**  With no block in both, each block's points stay
together. -/
theorem merge (h : Describes c points) (hmore : Describes d more)
    (apart : ∀ p ∈ points, ∀ q ∈ more, p.block ≠ q.block) :
    Describes (c.merge d) (points ++ more) := by
  obtain ⟨p, hp, hpprice⟩ := h.opening
  obtain ⟨q, hq, hqprice⟩ := hmore.opening
  obtain ⟨p', hp', hpprice'⟩ := h.close
  obtain ⟨q', hq', hqprice'⟩ := hmore.close
  obtain ⟨hpm, hpb⟩ := mem_of_getLast hp
  obtain ⟨hqm, hqb⟩ := mem_of_getLast hq
  obtain ⟨hpm', hpb'⟩ := mem_of_getLast hp'
  obtain ⟨hqm', hqb'⟩ := mem_of_getLast hq'
  have hfirst : c.firstBlock ≠ d.firstBlock := by
    rw [← hpb, ← hqb]
    exact apart p hpm q hqm
  have hlast : c.lastBlock ≠ d.lastBlock := by
    rw [← hpb', ← hqb']
    exact apart p' hpm' q' hqm'
  constructor
  · intro r hr
    rcases List.mem_append.mp hr with hr | hr
    · exact (min_le_left _ _).trans (h.first_le r hr)
    · exact (min_le_right _ _).trans (hmore.first_le r hr)
  · intro r hr
    rcases List.mem_append.mp hr with hr | hr
    · exact (h.le_last r hr).trans (le_max_left _ _)
    · exact (hmore.le_last r hr).trans (le_max_right _ _)
  · simp only [Candle.merge]
    by_cases hlt : d.firstBlock < c.firstBlock
    · have hnone : inBlock d.firstBlock points = [] := inBlock_eq_nil fun r hr => by
        have := h.first_le r hr
        omega
      refine ⟨q, ?_, by rw [if_pos hlt, hqprice]⟩
      rw [min_eq_right hlt.le, inBlock_append, hnone, List.nil_append, hq]
    · have hnone : inBlock c.firstBlock more = [] := inBlock_eq_nil fun r hr => by
        have := hmore.first_le r hr
        omega
      refine ⟨p, ?_, by rw [if_neg hlt, hpprice]⟩
      rw [min_eq_left (not_lt.mp hlt), inBlock_append, hnone, List.append_nil, hp]
  · simp only [Candle.merge]
    by_cases hlt : c.lastBlock < d.lastBlock
    · have hnone : inBlock d.lastBlock points = [] := inBlock_eq_nil fun r hr => by
        have := h.le_last r hr
        omega
      refine ⟨q', ?_, by rw [if_pos hlt, hqprice']⟩
      rw [max_eq_right hlt.le, inBlock_append, hnone, List.nil_append, hq']
    · have hnone : inBlock c.lastBlock more = [] := inBlock_eq_nil fun r hr => by
        have := hmore.le_last r hr
        omega
      refine ⟨p', ?_, by rw [if_neg hlt, hpprice']⟩
      rw [max_eq_left (not_lt.mp hlt), inBlock_append, hnone, List.append_nil, hp']
  · obtain ⟨⟨r, hr, hrprice⟩, hrle⟩ := h.high
    obtain ⟨⟨t, ht, htprice⟩, htle⟩ := hmore.high
    constructor
    · rcases le_total c.high d.high with hmax | hmax
      · exact ⟨t, by simp [ht], htprice.trans (max_eq_right hmax).symm⟩
      · exact ⟨r, by simp [hr], hrprice.trans (max_eq_left hmax).symm⟩
    · intro x hx
      rcases List.mem_append.mp hx with hx | hx
      · exact (hrle x hx).trans (le_max_left _ _)
      · exact (htle x hx).trans (le_max_right _ _)
  · obtain ⟨⟨r, hr, hrprice⟩, hrle⟩ := h.low
    obtain ⟨⟨t, ht, htprice⟩, htle⟩ := hmore.low
    constructor
    · rcases le_total c.low d.low with hmin | hmin
      · exact ⟨r, by simp [hr], hrprice.trans (min_eq_left hmin).symm⟩
      · exact ⟨t, by simp [ht], htprice.trans (min_eq_right hmin).symm⟩
    · intro x hx
      rcases List.mem_append.mp hx with hx | hx
      · exact (min_le_left _ _).trans (hrle x hx)
      · exact (min_le_right _ _).trans (htle x hx)
  · simp [Candle.merge, h.vol0, hmore.vol0]
  · simp [Candle.merge, h.vol1, hmore.vol1]
  · simp [Candle.merge, h.swaps, hmore.swaps]

/-- Only the order within each block matters. -/
theorem congr (h : Describes c points) (hperm : points.Perm more)
    (hblocks : ∀ block, inBlock block points = inBlock block more) : Describes c more where
  first_le p hp := h.first_le p (hperm.mem_iff.mpr hp)
  le_last p hp := h.le_last p (hperm.mem_iff.mpr hp)
  opening := by
    rw [← hblocks]
    exact h.opening
  close := by
    rw [← hblocks]
    exact h.close
  high := by
    simp only [← hperm.mem_iff]
    exact h.high
  low := by
    simp only [← hperm.mem_iff]
    exact h.low
  vol0 := h.vol0.trans (hperm.map _).sum_eq
  vol1 := h.vol1.trans (hperm.map _).sum_eq
  swaps := h.swaps.trans hperm.length_eq

end Describes

/-! ### The groups of a call -/

/-- The groups are those of the points so far, one for each key. -/
structure Collected (groups : List (CandleGroup P V)) (points : List (SwapPoint P V)) : Prop where
  describes : ∀ g ∈ groups, Describes g.candle (points.filter (·.groupKey = g.groupKey))
  distinct : (groups.map (·.groupKey)).Nodup
  covers : ∀ p ∈ points, p.groupKey ∈ groups.map (·.groupKey)

namespace CandleGroup

variable {groups : List (CandleGroup P V)} {points : List (SwapPoint P V)}

theorem collect_keys (p : SwapPoint P V) : (collect groups p).map (·.groupKey)
    = if p.groupKey ∈ groups.map (·.groupKey) then groups.map (·.groupKey)
      else groups.map (·.groupKey) ++ [p.groupKey] := by
  induction groups with
  | nil => rfl
  | cons g rest ih =>
      unfold collect
      by_cases hkey : g.groupKey = p.groupKey
      · rw [if_pos hkey, List.map_cons, List.map_cons, if_pos (by simp [hkey])]
        rfl
      · rw [if_neg hkey, List.map_cons, ih, List.map_cons]
        have hmem : p.groupKey ∈ g.groupKey :: rest.map (·.groupKey) ↔
            p.groupKey ∈ rest.map (·.groupKey) := by
          simp only [List.mem_cons]
          exact or_iff_right (Ne.symm hkey)
        by_cases hin : p.groupKey ∈ rest.map (·.groupKey)
        · rw [if_pos hin, if_pos (hmem.mpr hin)]
        · rw [if_neg hin, if_neg (mt hmem.mp hin), List.cons_append]

/-- A group after a point is an old one, the one the point is added to, or a new
one. -/
theorem mem_collect {p : SwapPoint P V} {g : CandleGroup P V}
    (hdistinct : (groups.map (·.groupKey)).Nodup) (hg : g ∈ collect groups p) :
    (g ∈ groups ∧ g.groupKey ≠ p.groupKey) ∨
    (∃ g₀ ∈ groups, g₀.groupKey = p.groupKey ∧ g = { g₀ with candle := g₀.candle.add p }) ∨
    (p.groupKey ∉ groups.map (·.groupKey) ∧ g = ⟨p.pool, p.bucket, Candle.single p⟩) := by
  induction groups with
  | nil =>
      right; right
      exact ⟨by simp, List.mem_singleton.mp hg⟩
  | cons g₁ rest ih =>
      obtain ⟨hfresh, hrest⟩ := List.nodup_cons.mp hdistinct
      unfold collect at hg
      split at hg
      · rename_i hkey
        rcases List.mem_cons.mp hg with rfl | hg
        · right; left
          exact ⟨g₁, List.mem_cons_self, hkey, rfl⟩
        · left
          refine ⟨List.mem_cons_of_mem _ hg, fun hsame => hfresh ?_⟩
          show g₁.groupKey ∈ rest.map (·.groupKey)
          rw [hkey, ← hsame]
          exact List.mem_map_of_mem hg
      · rename_i hkey
        rcases List.mem_cons.mp hg with rfl | hg
        · left
          exact ⟨List.mem_cons_self, hkey⟩
        · rcases ih hrest hg with hold | hadded | hnew
          · left
            exact ⟨List.mem_cons_of_mem _ hold.1, hold.2⟩
          · obtain ⟨g₀, hg₀, hrest⟩ := hadded
            right; left
            exact ⟨g₀, List.mem_cons_of_mem _ hg₀, hrest⟩
          · right; right
            refine ⟨?_, hnew.2⟩
            simp only [List.map_cons, List.mem_cons, not_or]
            exact ⟨Ne.symm hkey, hnew.1⟩

/-- A point more keeps the groups right. -/
theorem collected_step (h : Collected groups points) (p : SwapPoint P V) :
    Collected (collect groups p) (points ++ [p]) where
  describes g hg := by
    rw [List.filter_append]
    rcases mem_collect h.distinct hg with hold | hadded | hnew
    · have hskip : [p].filter (·.groupKey = g.groupKey) = [] := by
        simp [Ne.symm hold.2]
      rw [hskip, List.append_nil]
      exact h.describes g hold.1
    · obtain ⟨g₀, hg₀, hkey, rfl⟩ := hadded
      have htake : [p].filter (·.groupKey = g₀.groupKey) = [p] := by
        simp [hkey]
      show Describes (g₀.candle.add p) (points.filter (·.groupKey = g₀.groupKey)
        ++ [p].filter (·.groupKey = g₀.groupKey))
      rw [htake]
      exact (h.describes g₀ hg₀).add p
    · obtain ⟨hfresh, rfl⟩ := hnew
      have hnone : points.filter (·.groupKey = p.groupKey) = [] := by
        rw [List.filter_eq_nil_iff]
        intro q hq
        have hcovered := h.covers q hq
        simp only [decide_eq_true_eq]
        intro hsame
        exact hfresh (hsame ▸ hcovered)
      show Describes (Candle.single p) (points.filter (·.groupKey = p.groupKey)
        ++ [p].filter (·.groupKey = p.groupKey))
      rw [hnone]
      simpa using Describes.single p
  distinct := by
    rw [collect_keys]
    split
    · exact h.distinct
    · rename_i hfresh
      refine List.nodup_append.mpr ⟨h.distinct, by simp, ?_⟩
      intro key hkey other hother hsame
      rw [List.mem_singleton.mp hother] at hsame
      exact hfresh (hsame ▸ hkey)
  covers q hq := by
    rw [collect_keys]
    have hin : q.groupKey ∈ groups.map (·.groupKey) ∨ q.groupKey = p.groupKey := by
      rcases List.mem_append.mp hq with hq | hq
      · exact Or.inl (h.covers q hq)
      · exact Or.inr (congrArg _ (List.mem_singleton.mp hq))
    split
    · rename_i hold
      rcases hin with hin | hin
      · exact hin
      · exact hin ▸ hold
    · rcases hin with hin | hin
      · exact List.mem_append_left _ hin
      · exact List.mem_append_right _ (by simp [hin])

/-- **The groups of a call are right.** -/
theorem collected_ofPoints (points : List (SwapPoint P V)) :
    Collected (ofPoints points) points := by
  have hrun : ∀ (rest : List (SwapPoint P V)) (groups : List (CandleGroup P V))
      (start : List (SwapPoint P V)), Collected groups start →
      Collected (rest.foldl collect groups) (start ++ rest) := by
    intro rest
    induction rest with
    | nil =>
        intro groups start h
        rw [List.append_nil]
        exact h
    | cons p rest ih =>
        intro groups start h
        have hstep := ih _ _ (collected_step h p)
        rw [List.append_assoc] at hstep
        exact hstep
  have hempty : Collected ([] : List (CandleGroup P V)) [] :=
    ⟨(by simp), List.nodup_nil, (by simp)⟩
  exact hrun points [] [] hempty

end CandleGroup

/-! ### The rows -/

/-- The row of a candle describes these points, and there is none without points. -/
def Stored (table : CandleTable P V) (key : String × Nat) (points : List (SwapPoint P V)) : Prop :=
  (points = [] ∧ table key = none) ∨ ∃ c, table key = some c ∧ Describes c points

theorem Describes.ne_nil {c : Candle P V} {points : List (SwapPoint P V)}
    (h : Describes c points) : points ≠ [] := by
  intro hnil
  obtain ⟨p, hp, _⟩ := h.opening
  rw [hnil] at hp
  cases hp

/-- A group of the candle is merged into its row. -/
theorem Stored.upsert {table : CandleTable P V} {g : CandleGroup P V}
    {points more : List (SwapPoint P V)} (h : Stored table g.rowKey points)
    (hmore : Describes g.candle more)
    (apart : ∀ p ∈ points, ∀ q ∈ more, p.block ≠ q.block) :
    Stored (upsertGroup table g) g.rowKey (points ++ more) := by
  right
  unfold upsertGroup
  rw [Function.update_self]
  rcases h with hnone | hsome
  · rw [hnone.1, hnone.2]
    exact ⟨_, rfl, hmore⟩
  · obtain ⟨c, hc, hdescribes⟩ := hsome
    rw [hc]
    exact ⟨_, rfl, hdescribes.merge hmore apart⟩

theorem Stored.upsert_other {table : CandleTable P V} {g : CandleGroup P V}
    {key : String × Nat} {points : List (SwapPoint P V)} (h : Stored table key points)
    (hkey : key ≠ g.rowKey) : Stored (upsertGroup table g) key points := by
  unfold Stored upsertGroup
  rw [Function.update_of_ne hkey]
  exact h

theorem Stored.congr {table : CandleTable P V} {key : String × Nat}
    {points more : List (SwapPoint P V)} (h : Stored table key points)
    (hperm : points.Perm more)
    (hblocks : ∀ block, inBlock block points = inBlock block more) : Stored table key more := by
  rcases h with hnone | hsome
  · left
    rw [hnone.1] at hperm
    exact ⟨hperm.nil_eq.symm, hnone.2⟩
  · obtain ⟨c, hc, hdescribes⟩ := hsome
    exact Or.inr ⟨c, hc, hdescribes.congr hperm hblocks⟩

/-- Two kinds of points that share no block, one after the other. -/
theorem filter_or {P V : Type} (points : List (SwapPoint P V)) (A B : SwapPoint P V → Prop)
    [DecidablePred A] [DecidablePred B]
    (apart : ∀ p ∈ points, ∀ q ∈ points, A p → B q → p.block ≠ q.block) :
    (points.filter A ++ points.filter B).Perm (points.filter fun p => A p ∨ B p) ∧
    ∀ block, inBlock block (points.filter A ++ points.filter B)
      = inBlock block (points.filter fun p => A p ∨ B p) := by
  constructor
  · have hsplit := List.filter_append_perm A (points.filter fun p => A p ∨ B p)
    refine List.Perm.trans (List.Perm.of_eq ?_) hsplit
    rw [List.filter_filter, List.filter_filter]
    congr 1
    · apply List.filter_congr
      intro p _
      by_cases hA : A p <;> simp [hA]
    · apply List.filter_congr
      intro p hp
      by_cases hA : A p
      · have hB : ¬B p := fun hB => apart p hp p hp hA hB rfl
        simp [hA, hB]
      · simp [hA]
  · intro block
    rw [inBlock_append]
    simp only [inBlock, List.filter_filter]
    by_cases hin : ∃ q ∈ points, B q ∧ q.block = block
    · obtain ⟨q, hq, hB, hblock⟩ := hin
      have hA : ∀ p ∈ points, p.block = block → ¬A p := fun p hp hpb hAp =>
        apart p hp q hq hAp hB (hpb.trans hblock.symm)
      have hnone : points.filter (fun p => decide (p.block = block) && decide (A p)) = [] := by
        rw [List.filter_eq_nil_iff]
        intro p hp
        simp only [Bool.and_eq_true, decide_eq_true_eq, not_and]
        exact hA p hp
      rw [hnone, List.nil_append]
      apply List.filter_congr
      intro p hp
      by_cases hpb : p.block = block
      · simp [hpb, hA p hp hpb]
      · simp [hpb]
    · have hB : ∀ p ∈ points, p.block = block → ¬B p := fun p hp hpb hBp =>
        hin ⟨p, hp, hBp, hpb⟩
      have hnone : points.filter (fun p => decide (p.block = block) && decide (B p)) = [] := by
        rw [List.filter_eq_nil_iff]
        intro p hp
        simp only [Bool.and_eq_true, decide_eq_true_eq, not_and]
        exact hB p hp
      rw [hnone, List.append_nil]
      apply List.filter_congr
      intro p hp
      by_cases hpb : p.block = block
      · simp [hpb, hB p hp hpb]
      · simp [hpb]

/-- Within a call, the points of a block of a candle spell the pool the same way. -/
def OneSpelling (points : List (SwapPoint P V)) : Prop :=
  ∀ p ∈ points, ∀ q ∈ points, p.rowKey = q.rowKey → p.block = q.block → p.pool = q.pool

/-- No block of a candle is in both lists of points. -/
def BlocksApart (points more : List (SwapPoint P V)) : Prop :=
  ∀ p ∈ points, ∀ q ∈ more, p.rowKey = q.rowKey → p.block ≠ q.block

/-- The points of a candle whose group has one of the keys. -/
def seenPoints (key : String × Nat) (seen : List (String × Nat)) (points : List (SwapPoint P V)) :
    List (SwapPoint P V) :=
  points.filter fun p => p.rowKey = key ∧ p.groupKey ∈ seen

omit [LinearOrder P] [AddCommMonoid V] in
theorem rowKey_of_groupKey {p : SwapPoint P V} {g : CandleGroup P V}
    (h : p.groupKey = g.groupKey) : p.rowKey = g.rowKey := by
  obtain ⟨hpool, hbucket⟩ := Prod.mk.inj h
  rw [SwapPoint.rowKey, CandleGroup.rowKey, hpool, hbucket]

/-- The groups of a call, merged one after the other into the row of a candle. -/
theorem Stored.upsertGroups {table : CandleTable P V} {key : String × Nat}
    {old points : List (SwapPoint P V)} {groups : List (CandleGroup P V)}
    {seen : List (String × Nat)} (h : Stored table key (old ++ seenPoints key seen points))
    (hdescribes : ∀ g ∈ groups, Describes g.candle (points.filter (·.groupKey = g.groupKey)))
    (hdistinct : (groups.map (·.groupKey)).Nodup)
    (hnew : ∀ g ∈ groups, g.groupKey ∉ seen)
    (spelling : OneSpelling points)
    (apart : ∀ p ∈ old, ∀ q ∈ points, q.rowKey = key → p.block ≠ q.block) :
    Stored (groups.foldl upsertGroup table) key
      (old ++ seenPoints key (seen ++ groups.map (·.groupKey)) points) := by
  induction groups generalizing table seen with
  | nil =>
      rw [List.map_nil, List.append_nil]
      exact h
  | cons g rest ih =>
      obtain ⟨hfresh, hrest⟩ := List.nodup_cons.mp hdistinct
      have hstep : Stored (upsertGroup table g) key
          (old ++ seenPoints key (seen ++ [g.groupKey]) points) := by
        by_cases hkey : g.rowKey = key
        · have hgroup := hdescribes g List.mem_cons_self
          have hseen : ∀ p ∈ points, ∀ q ∈ points, (p.rowKey = key ∧ p.groupKey ∈ seen) →
              q.groupKey = g.groupKey → p.block ≠ q.block := by
            intro p hp q hq hpk hqk hblock
            have hqrow := rowKey_of_groupKey hqk
            have hpool := spelling p hp q hq (by rw [hpk.1, hqrow, hkey]) hblock
            have hsame : p.groupKey = q.groupKey := by
              have hbucket := congrArg Prod.snd (hpk.1.trans (hkey.symm.trans hqrow.symm))
              rw [SwapPoint.groupKey, SwapPoint.groupKey, hpool]
              exact congrArg _ hbucket
            apply hnew g List.mem_cons_self
            rw [← hqk, ← hsame]
            exact hpk.2
          have hmerge := (hkey ▸ h).upsert hgroup (by
            intro p hp q hq
            obtain ⟨hqin, hqk⟩ := List.mem_filter.mp hq
            have hqk' : q.groupKey = g.groupKey := by simpa using hqk
            rcases List.mem_append.mp hp with hp | hp
            · exact apart p hp q hqin ((rowKey_of_groupKey hqk').trans hkey)
            · obtain ⟨hpin, hpk⟩ := List.mem_filter.mp hp
              exact hseen p hpin q hqin (by simpa [hkey] using hpk) hqk')
          rw [hkey, List.append_assoc] at hmerge
          obtain ⟨hperm, hblocks⟩ := filter_or points
            (fun p => p.rowKey = key ∧ p.groupKey ∈ seen) (fun p => p.groupKey = g.groupKey) hseen
          have hboth : (points.filter fun p => (p.rowKey = key ∧ p.groupKey ∈ seen) ∨
              p.groupKey = g.groupKey) = seenPoints key (seen ++ [g.groupKey]) points := by
            apply List.filter_congr
            intro p _
            have hrow : p.groupKey = g.groupKey → p.rowKey = key :=
              fun hsame => (rowKey_of_groupKey hsame).trans hkey
            simp only [List.mem_append, List.mem_singleton]
            grind
          rw [hboth] at hperm hblocks
          refine hmerge.congr (hperm.append_left old) ?_
          intro block
          have hblock := hblocks block
          rw [inBlock_append] at hblock
          rw [inBlock_append, inBlock_append, inBlock_append]
          exact congrArg _ hblock
        · have hsame : seenPoints key (seen ++ [g.groupKey]) points
              = seenPoints key seen points := by
            apply List.filter_congr
            intro p _
            have hrow : p.groupKey = g.groupKey → p.rowKey ≠ key :=
              fun hsame hp => hkey ((rowKey_of_groupKey hsame).symm.trans hp)
            simp only [List.mem_append, List.mem_singleton]
            grind
          rw [hsame]
          exact h.upsert_other (Ne.symm hkey)
      have hall := ih hstep (fun g' hg' => hdescribes g' (List.mem_cons_of_mem _ hg')) hrest
        (by
          intro g' hg' hin
          rcases List.mem_append.mp hin with hin | hin
          · exact hnew g' (List.mem_cons_of_mem _ hg') hin
          · apply hfresh
            show g.groupKey ∈ rest.map (·.groupKey)
            rw [← List.mem_singleton.mp hin]
            exact List.mem_map_of_mem hg')
      rw [List.append_assoc] at hall
      exact hall

/-- **A call adds its points to each candle.** -/
theorem Stored.upsertCandles {table : CandleTable P V} {key : String × Nat}
    {old points : List (SwapPoint P V)} (h : Stored table key old)
    (spelling : OneSpelling points)
    (apart : ∀ p ∈ old, ∀ q ∈ points, q.rowKey = key → p.block ≠ q.block) :
    Stored (upsertCandles table points) key (old ++ pointsOf key points) := by
  unfold Ordo.upsertCandles
  split
  · rename_i hnil
    rw [hnil]
    simpa [pointsOf] using h
  · have hgroups := CandleGroup.collected_ofPoints points
    have hnone : seenPoints key [] points = [] := by
      simp [seenPoints]
    have hstart : Stored table key (old ++ seenPoints key [] points) := by
      rw [hnone, List.append_nil]
      exact h
    have hall := hstart.upsertGroups hgroups.describes hgroups.distinct (by simp) spelling apart
    have hpoints : seenPoints key ([] ++ (CandleGroup.ofPoints points).map (·.groupKey)) points
        = pointsOf key points := by
      apply List.filter_congr
      intro p hp
      simp [hgroups.covers p hp]
    rw [hpoints] at hall
    exact hall

/-- The points of every block of a candle are in one call, with one spelling of the
pool. -/
def WholeBlocks (calls : List (List (SwapPoint P V))) : Prop :=
  calls.Pairwise BlocksApart ∧ ∀ call ∈ calls, OneSpelling call

/-- **The rows after all calls.** -/
theorem stored_calls {calls : List (List (SwapPoint P V))} (whole : WholeBlocks calls)
    (key : String × Nat) :
    Stored (calls.foldl upsertCandles fun _ => none) key (pointsOf key calls.flatten) := by
  have hrun : ∀ (calls : List (List (SwapPoint P V))) (table : CandleTable P V)
      (old : List (SwapPoint P V)), Stored table key old →
      (∀ p ∈ old, ∀ call ∈ calls, ∀ q ∈ call, q.rowKey = key → p.block ≠ q.block) →
      WholeBlocks calls →
      Stored (calls.foldl Ordo.upsertCandles table) key (old ++ pointsOf key calls.flatten) := by
    intro calls
    induction calls with
    | nil =>
        intro table old h _ _
        simpa [pointsOf] using h
    | cons call rest ih =>
        intro table old h hold hwhole
        obtain ⟨happart, hrest⟩ := List.pairwise_cons.mp hwhole.1
        have hcall := h.upsertCandles (hwhole.2 call List.mem_cons_self)
          (fun p hp => hold p hp call List.mem_cons_self)
        have hall := ih _ _ hcall (by
          intro p hp call' hcall' q hq hqk
          rcases List.mem_append.mp hp with hp | hp
          · exact hold p hp call' (List.mem_cons_of_mem _ hcall') q hq hqk
          · obtain ⟨hpin, hpk⟩ := List.mem_filter.mp hp
            have hpk' : p.rowKey = key := by simpa using hpk
            exact happart call' hcall' p hpin q hq (hpk'.trans hqk.symm))
          ⟨hrest, fun call' hcall' => hwhole.2 call' (List.mem_cons_of_mem _ hcall')⟩
        rw [List.flatten_cons, pointsOf, List.filter_append]
        rw [List.append_assoc] at hall
        exact hall
  have hall := hrun calls (fun _ => none) [] (Or.inl ⟨rfl, rfl⟩)
    (fun p hp => by cases hp) whole
  rw [List.nil_append] at hall
  exact hall

/-! ### Against the reference -/

theorem foldl_min_spec {α β : Type} [LinearOrder α] (f : β → α) (p : β) (rest : List β) :
    (∃ q ∈ p :: rest, f q = rest.foldl (fun m q => min m (f q)) (f p)) ∧
      ∀ q ∈ p :: rest, rest.foldl (fun m q => min m (f q)) (f p) ≤ f q := by
  induction rest using List.reverseRecOn with
  | nil => simp
  | append_singleton rest r ih =>
      obtain ⟨⟨q, hq, hfq⟩, hle⟩ := ih
      rw [List.foldl_append]
      dsimp only [List.foldl_cons, List.foldl_nil]
      constructor
      · rcases le_total (rest.foldl (fun m q => min m (f q)) (f p)) (f r) with h | h
        · exact ⟨q, List.mem_append_left [r] hq, hfq.trans (min_eq_left h).symm⟩
        · exact ⟨r, List.mem_append_right (p :: rest) (by simp), (min_eq_right h).symm⟩
      · intro t ht
        rcases List.mem_append.mp (show t ∈ (p :: rest) ++ [r] from ht) with ht | ht
        · exact (min_le_left _ _).trans (hle t ht)
        · rw [List.mem_singleton.mp ht]
          exact min_le_right _ _

theorem foldl_max_spec {α β : Type} [LinearOrder α] (f : β → α) (p : β) (rest : List β) :
    (∃ q ∈ p :: rest, f q = rest.foldl (fun m q => max m (f q)) (f p)) ∧
      ∀ q ∈ p :: rest, f q ≤ rest.foldl (fun m q => max m (f q)) (f p) :=
  foldl_min_spec (α := αᵒᵈ) f p rest

/-- The points of the earliest block of a candle. -/
def openingPoints : List (SwapPoint P V) → List (SwapPoint P V)
  | [] => []
  | p :: rest => inBlock (earliest p rest) (p :: rest)

/-- The first and the last swap of the earliest block have the same price. -/
def OpensAtOnePrice (points : List (SwapPoint P V)) : Prop :=
  (openingPoints points).head?.map (·.price) = (openingPoints points).getLast?.map (·.price)

/-- **What the code makes of a candle's points**: the reference, but for the opening
price, and that too exactly when the earliest block opens at one price. -/
theorem Describes.eq_reference_iff {c : Candle P V} {points : List (SwapPoint P V)}
    (h : Describes c points) :
    some c = referenceCandle points ↔ OpensAtOnePrice points := by
  cases points with
  | nil => exact absurd rfl h.ne_nil
  | cons p rest =>
      obtain ⟨⟨qf, hqf, hfirst⟩, hfirst_le⟩ := foldl_min_spec (·.block) p rest
      obtain ⟨⟨ql, hql, hlast⟩, hle_last⟩ := foldl_max_spec (·.block) p rest
      obtain ⟨⟨qh, hqh, hhigh⟩, hle_high⟩ := foldl_max_spec (·.price) p rest
      obtain ⟨⟨qlo, hqlo, hlow⟩, hlow_le⟩ := foldl_min_spec (·.price) p rest
      obtain ⟨po, hpo, hopening⟩ := h.opening
      obtain ⟨pc, hpc, hclose⟩ := h.close
      have hfirst_eq : c.firstBlock = earliest p rest := by
        apply le_antisymm
        · exact (h.first_le qf hqf).trans hfirst.le
        · obtain ⟨hin, hb⟩ := mem_of_getLast hpo
          rw [← hb]
          exact hfirst_le po hin
      have hlast_eq : c.lastBlock = latest p rest := by
        apply le_antisymm
        · obtain ⟨hin, hb⟩ := mem_of_getLast hpc
          rw [← hb]
          exact hle_last pc hin
        · exact hlast.ge.trans (h.le_last ql hql)
      have hhigh_eq : c.high = rest.foldl (fun m q => max m q.price) p.price := by
        obtain ⟨⟨r, hr, hrp⟩, hrle⟩ := h.high
        exact le_antisymm (hrp ▸ hle_high r hr) (hhigh ▸ hrle qh hqh)
      have hlow_eq : c.low = rest.foldl (fun m q => min m q.price) p.price := by
        obtain ⟨⟨r, hr, hrp⟩, hrle⟩ := h.low
        exact le_antisymm (hlow ▸ hrle qlo hqlo) (hrp ▸ hlow_le r hr)
      rw [hfirst_eq] at hpo
      rw [hlast_eq] at hpc
      have hhead : ∃ ph, (inBlock (earliest p rest) (p :: rest)).head? = some ph := by
        cases hpoints : inBlock (earliest p rest) (p :: rest) with
        | nil =>
            rw [hpoints] at hpo
            cases hpo
        | cons ph _ => exact ⟨ph, rfl⟩
      obtain ⟨ph, hph⟩ := hhead
      have hone : OpensAtOnePrice (p :: rest) ↔ c.opening = ph.price := by
        unfold OpensAtOnePrice openingPoints
        rw [hph, hpo, hopening]
        simp [eq_comm]
      rw [hone]
      obtain ⟨opening, high, low, close, vol0, vol1, swaps, firstBlock, lastBlock⟩ := c
      have hvol0 := h.vol0
      have hvol1 := h.vol1
      have hswaps := h.swaps
      dsimp only at *
      simp only [referenceCandle, hph, hpc, Option.getD_some, Option.some.injEq, Candle.mk.injEq]
      exact ⟨fun heq => heq.1, fun heq => ⟨heq, hhigh_eq, hlow_eq, hclose, hvol0, hvol1, hswaps,
        hfirst_eq, hlast_eq⟩⟩

end Model

/-- Two calls, the later blocks first. -/
def lateCalls : List (List (SwapPoint Nat Nat)) :=
  [[⟨"0xpool", 600, 9, 1, 2, 105⟩, ⟨"0xpool", 600, 7, 1, 2, 103⟩],
    [⟨"0xpool", 600, 5, 1, 2, 101⟩]]

/-- Two swaps of one block, at 5 and then at 7, in one call. -/
def twoSwaps : List (SwapPoint Nat Nat) :=
  [⟨"0xpool", 600, 5, 1, 2, 101⟩, ⟨"0xpool", 600, 7, 1, 2, 101⟩]

end Ordo
