import Mathlib.Algebra.Order.Group.Int
import Mathlib.Data.List.Basic
import Mathlib.Tactic.Linarith
import Ordo.LadderRungs

/-!
# The split planner

A range is rounded to the spacing and cut into bins, and each of two budgets is
spread over the bins that can hold its token, by the weights of a shape.

The weights are computed in floating point; what a shape makes of a bin, in
millionths, is a field of `SplitWeights`.
-/

namespace Ordo

namespace SplitLadder

open Ladder

inductive Shape where
  | spot
  | curve
  | bidask
  deriving DecidableEq

inductive Side where
  | token0
  | token1
  | both
  deriving DecidableEq

/-- `Math.round(weight * 1e6)` of a tent over `bins` bins, and of a V with its floor at
`anchor`.  No weight is over one. -/
structure SplitWeights where
  curve : (bins index : Nat) → Nat
  bidask : (bins anchor index : Nat) → Nat
  curve_le : ∀ bins index, curve bins index ≤ 1000000
  bidask_le : ∀ bins anchor index, bidask bins anchor index ≤ 1000000

structure SplitRung where
  index : Nat
  tickLower : Int
  tickUpper : Int
  side : Side
  weight : Nat
  amount0 : Nat
  amount1 : Nat
  deriving DecidableEq

/-- `Math.round(n / d)`; a half is rounded up. -/
def roundDiv (n d : Int) : Int := (2 * n + d) / (2 * d)

def sideOf (tick tickLower tickUpper : Int) : Side :=
  if tickUpper ≤ tick then .token1 else if tick < tickLower then .token0 else .both

/-- The bin that a bid-ask ladder is lightest at. -/
def anchorOf (tick : Int) (rungs : List SplitRung) : Nat :=
  match rungs.findIdx? (·.side = .both) with
  | some i => i
  | none =>
      match rungs.getLast? with
      | some last => if last.tickUpper ≤ tick then rungs.length - 1 else 0
      | none => 0

def weightOf (w : SplitWeights) (shape : Shape) (bins anchor index : Nat) : Nat :=
  match shape with
  | .spot => 1000000
  | .curve => w.curve bins index
  | .bidask => w.bidask bins anchor index

/-- Shares of `total` for weights that add up to `sum`, when `given` has been given:
rounded down, and what is left for the last. -/
def shareFrom (total sum : Nat) : Nat → List Nat → List Nat
  | _, [] => []
  | given, [_] => [total - given]
  | given, w :: w' :: ws =>
      let amt := total * w / sum
      amt :: shareFrom total sum (given + amt) (w' :: ws)

def share (total : Nat) (ws : List Nat) : List Nat :=
  if total = 0 then [] else shareFrom total ws.sum 0 ws

/-- Hand amounts to the rungs that can hold them, in order. -/
def deal (holds : SplitRung → Bool) (put : SplitRung → Nat → SplitRung) :
    List SplitRung → List Nat → List SplitRung
  | [], _ => []
  | r :: rungs, [] => r :: rungs
  | r :: rungs, amt :: amts =>
      if holds r then put r amt :: deal holds put rungs amts
      else r :: deal holds put rungs (amt :: amts)

def holds0 (r : SplitRung) : Bool := r.side ≠ .token1

def holds1 (r : SplitRung) : Bool := r.side ≠ .token0

def put0 (r : SplitRung) (amt : Nat) : SplitRung := { r with amount0 := amt }

def put1 (r : SplitRung) (amt : Nat) : SplitRung := { r with amount1 := amt }

/-- A straddling bin needs both tokens, any other one of them. -/
def kept (r : SplitRung) : Bool :=
  (0 < r.amount0 || 0 < r.amount1) && (r.side ≠ .both || (0 < r.amount0 && 0 < r.amount1))

/-- The bins before anything is spread over them. -/
def bare (tick : Int) (bounds : List (Int × Int)) : List SplitRung :=
  bounds.mapIdx fun i b => ⟨i, b.1, b.2, sideOf tick b.1 b.2, 0, 0, 0⟩

def weighted (w : SplitWeights) (tick : Int) (shape : Shape) (bounds : List (Int × Int)) :
    List SplitRung :=
  let rungs := bare tick bounds
  rungs.map fun r =>
    { r with weight := weightOf w shape rungs.length (anchorOf tick rungs) r.index }

/-- The weights of the bins that hold a token, none below one. -/
def weightsOf (holds : SplitRung → Bool) (rungs : List SplitRung) : List Nat :=
  (rungs.filter holds).map fun r => max 1 r.weight

def spread (rungs : List SplitRung) (budget0 budget1 : Nat) : List SplitRung :=
  deal holds1 put1 (deal holds0 put0 rungs (share budget0 (weightsOf holds0 rungs)))
    (share budget1 (weightsOf holds1 rungs))

def allocateRungs (w : SplitWeights) (bounds : List (Int × Int)) (tick : Int) (shape : Shape)
    (budget0 budget1 : Nat) : List SplitRung :=
  (spread (weighted w tick shape bounds) budget0 budget1).filter kept

/-- The width and the rungs asked for.  Ticks are numbers that doubles hold exactly. -/
structure Request where
  tick : Int
  tickSpacing : Int
  minTick : Int
  maxTick : Int
  bins : Int
  shape : Shape
  spacing_pos : 0 < tickSpacing
  minTick_lt : minTick.natAbs < 2 ^ 52
  maxTick_lt : maxTick.natAbs < 2 ^ 52

namespace Request

def low (r : Request) : Int :=
  roundDiv (min r.minTick r.maxTick) r.tickSpacing * r.tickSpacing

def high (r : Request) : Int :=
  roundDiv (max r.minTick r.maxTick) r.tickSpacing * r.tickSpacing

def spacings (r : Request) : Int := roundDiv (r.high - r.low) r.tickSpacing

/-- `Math.max(1, Math.min(Math.floor(bins) || 1, spacings))`. -/
def count (r : Request) : Nat :=
  (max 1 (min (if r.bins = 0 then 1 else r.bins) r.spacings)).toNat

/-- Where bin `i` begins. -/
def cutAt (r : Request) (i : Nat) : Int :=
  r.low + r.spacings * i / r.count * r.tickSpacing

def cut (r : Request) : List (Int × Int) :=
  (List.range r.count).filterMap fun i =>
    if r.cutAt (i + 1) ≤ r.cutAt i then none else some (r.cutAt i, r.cutAt (i + 1))

end Request

def splitLadder (w : SplitWeights) (r : Request) (budget0 budget1 : Nat) : List SplitRung :=
  if r.high ≤ r.low then []
  else allocateRungs w r.cut r.tick r.shape budget0 budget1

/-- A rung as it is sent, with minimums of zero. -/
def SplitRung.toRung (r : SplitRung) : Rung where
  tickLower := r.tickLower
  tickUpper := r.tickUpper
  amount0 := r.amount0
  amount1 := r.amount1
  amount0Min := 0
  amount1Min := 0

section Share

variable {total sum : Nat}

/-- What has been given and what is to come make the total. -/
theorem shareFrom_sum (hsum : 0 < sum) : ∀ (ws : List Nat) {given : Nat},
    given * sum + total * ws.sum ≤ total * sum → ws ≠ [] →
      given + (shareFrom total sum given ws).sum = total
  | [], _, _, hne => absurd rfl hne
  | [w], given, h, _ => by
      have hle : given ≤ total := by
        apply Nat.le_of_mul_le_mul_right _ hsum
        exact (Nat.le_add_right _ _).trans h
      simp only [shareFrom, List.sum_cons, List.sum_nil]
      omega
  | w :: w' :: ws, given, h, _ => by
      have hfloor : total * w / sum * sum ≤ total * w := Nat.div_mul_le_self _ _
      have hnext : (given + total * w / sum) * sum + total * (w' :: ws).sum ≤ total * sum := by
        rw [List.sum_cons] at h
        linarith
      have hrest := shareFrom_sum hsum (w' :: ws) hnext (List.cons_ne_nil _ _)
      rw [shareFrom, List.sum_cons]
      omega

/-- A total that is not below the weights leaves nobody without. -/
theorem shareFrom_pos (hsum : 0 < sum) (htotal : sum ≤ total) : ∀ (ws : List Nat) {given : Nat},
    given * sum + total * ws.sum ≤ total * sum → (∀ w ∈ ws, 0 < w) →
      ∀ a ∈ shareFrom total sum given ws, 0 < a
  | [], _, _, _, a, ha => by cases ha
  | [w], given, h, hpos, a, ha => by
      rw [List.mem_singleton.mp ha]
      have hw : 0 < total * w :=
        Nat.mul_pos (hsum.trans_le htotal) (hpos w (List.mem_singleton.mpr rfl))
      have hlt : given < total := by
        apply Nat.lt_of_mul_lt_mul_right (a := sum)
        rw [List.sum_singleton] at h
        omega
      omega
  | w :: w' :: ws, given, h, hpos, a, ha => by
      have hfloor : total * w / sum * sum ≤ total * w := Nat.div_mul_le_self _ _
      have hnext : (given + total * w / sum) * sum + total * (w' :: ws).sum ≤ total * sum := by
        rw [List.sum_cons] at h
        linarith
      rw [shareFrom] at ha
      rcases List.mem_cons.mp ha with rfl | ha
      · have hw : 0 < w := hpos w List.mem_cons_self
        apply Nat.div_pos _ hsum
        calc sum ≤ total := htotal
          _ = total * 1 := (Nat.mul_one total).symm
          _ ≤ total * w := Nat.mul_le_mul_left total hw
      · exact shareFrom_pos hsum htotal (w' :: ws) hnext
          (fun v hv => hpos v (List.mem_cons_of_mem _ hv)) a ha

theorem length_shareFrom : ∀ (ws : List Nat) {given : Nat},
    (shareFrom total sum given ws).length = ws.length
  | [], _ => rfl
  | [_], _ => rfl
  | _ :: w' :: ws, given => by
      rw [shareFrom, List.length_cons, length_shareFrom (w' :: ws)]
      rfl

/-- No more than the budget is shared out. -/
theorem share_sum_le (total : Nat) {ws : List Nat} (hpos : ∀ w ∈ ws, 0 < w) :
    (share total ws).sum ≤ total := by
  rw [share]
  split
  · simp
  · cases ws with
    | nil => simp [shareFrom]
    | cons w ws =>
        have hsum : 0 < (w :: ws).sum := by
          rw [List.sum_cons]
          exact Nat.add_pos_left (hpos w List.mem_cons_self) _
        have h : 0 + (shareFrom total (w :: ws).sum 0 (w :: ws)).sum = total :=
          shareFrom_sum hsum (w :: ws) (by omega) (List.cons_ne_nil _ _)
        omega

/-- A budget of at least the weights gives every bin its share. -/
theorem share_pos {ws : List Nat} (hpos : ∀ w ∈ ws, 0 < w) (htotal : ws.sum ≤ total)
    (hne : 0 < total) :
    (share total ws).length = ws.length ∧ ∀ a ∈ share total ws, 0 < a := by
  rw [share, if_neg (by omega)]
  refine ⟨length_shareFrom ws, ?_⟩
  cases ws with
  | nil =>
      intro a ha
      cases ha
  | cons w ws =>
      have hsum : 0 < (w :: ws).sum := by
        rw [List.sum_cons]
        exact Nat.add_pos_left (hpos w List.mem_cons_self) _
      exact shareFrom_pos hsum htotal (w :: ws) (by omega) hpos

end Share

/-- The ticks of a rung. -/
def SplitRung.ends (r : SplitRung) : Int × Int := (r.tickLower, r.tickUpper)

section Deal

variable {holds : SplitRung → Bool} {put : SplitRung → Nat → SplitRung}

/-- What `put` leaves alone is left alone. -/
theorem deal_map (holds : SplitRung → Bool) {β : Type} {f : SplitRung → β}
    (hput : ∀ r a, f (put r a) = f r) (rungs : List SplitRung) :
    ∀ amts : List Nat, (deal holds put rungs amts).map f = rungs.map f := by
  induction rungs with
  | nil => exact fun amts => rfl
  | cons r rungs ih =>
      intro amts
      cases amts with
      | nil => rfl
      | cons amt amts =>
          rw [deal]
          split
          · rw [List.map_cons, List.map_cons, hput, ih amts]
          · rw [List.map_cons, List.map_cons, ih (amt :: amts)]

theorem deal_sum_le {g : SplitRung → Nat} (hput : ∀ r a, g (put r a) = a)
    {rungs : List SplitRung} (hzero : ∀ r ∈ rungs, g r = 0) :
    ∀ amts : List Nat, ((deal holds put rungs amts).map g).sum ≤ amts.sum := by
  induction rungs with
  | nil => exact fun amts => Nat.zero_le _
  | cons r rungs ih =>
      have hr := hzero r List.mem_cons_self
      have hrest := ih fun s hs => hzero s (List.mem_cons_of_mem _ hs)
      intro amts
      cases amts with
      | nil =>
          have hsum := hrest []
          have hdeal : deal holds put rungs [] = rungs := by cases rungs <;> rfl
          rw [hdeal] at hsum
          rw [deal, List.map_cons, List.sum_cons, hr]
          omega
      | cons amt amts =>
          rw [deal]
          split
          · have hsum := hrest amts
            rw [List.map_cons, List.sum_cons, List.sum_cons, hput]
            omega
          · have hsum := hrest (amt :: amts)
            rw [List.map_cons, List.sum_cons, hr]
            omega

/-- With an amount for every rung that can hold one, each of them gets one. -/
theorem deal_pos {g : SplitRung → Nat} (hput : ∀ r a, g (put r a) = a)
    {rungs : List SplitRung} :
    ∀ {amts : List Nat}, amts.length = (rungs.filter holds).length → (∀ a ∈ amts, 0 < a) →
      ∀ r ∈ deal holds put rungs amts, holds r → 0 < g r := by
  induction rungs with
  | nil =>
      intro amts _ _ r hr
      cases hr
  | cons first rungs ih =>
      intro amts hlen hpos r hr hold
      by_cases hfirst : holds first
      · rw [List.filter_cons_of_pos hfirst, List.length_cons] at hlen
        cases amts with
        | nil => simp at hlen
        | cons amt amts =>
            rw [deal, if_pos hfirst] at hr
            rcases List.mem_cons.mp hr with rfl | hr
            · rw [hput]
              exact hpos amt List.mem_cons_self
            · exact ih (Nat.succ_injective hlen)
                (fun a ha => hpos a (List.mem_cons_of_mem _ ha)) r hr hold
      · rw [List.filter_cons_of_neg hfirst] at hlen
        cases amts with
        | nil =>
            have hdeal : deal holds put rungs [] = rungs := by cases rungs <;> rfl
            rw [deal] at hr
            rcases List.mem_cons.mp hr with rfl | hr
            · exact absurd hold hfirst
            · exact ih hlen hpos r (by rw [hdeal]; exact hr) hold
        | cons amt amts =>
            rw [deal, if_neg hfirst] at hr
            rcases List.mem_cons.mp hr with rfl | hr
            · exact absurd hold hfirst
            · exact ih hlen hpos r hr hold

end Deal

section Allocate

variable (w : SplitWeights) (bounds : List (Int × Int)) (tick : Int) (shape : Shape)

theorem weighted_bounds :
    (weighted w tick shape bounds).map SplitRung.ends = bounds := by
  apply List.ext_getElem
  · simp [weighted, bare]
  · intro i _ _
    simp [weighted, bare, SplitRung.ends]

theorem weighted_zero : ∀ r ∈ weighted w tick shape bounds, r.amount0 = 0 ∧ r.amount1 = 0 := by
  intro r hr
  simp only [weighted, bare, List.mem_map, List.mem_mapIdx] at hr
  obtain ⟨s, ⟨i, h, rfl⟩, rfl⟩ := hr
  exact ⟨rfl, rfl⟩

theorem spread_bounds (rungs : List SplitRung) (budget0 budget1 : Nat) :
    (spread rungs budget0 budget1).map SplitRung.ends = rungs.map SplitRung.ends := by
  have hput0 : ∀ (r : SplitRung) (a : Nat), (put0 r a).ends = r.ends := fun _ _ => rfl
  have hput1 : ∀ (r : SplitRung) (a : Nat), (put1 r a).ends = r.ends := fun _ _ => rfl
  rw [spread, deal_map holds1 hput1, deal_map holds0 hput0]

theorem weightsOf_pos (holds : SplitRung → Bool) (rungs : List SplitRung) :
    ∀ v ∈ weightsOf holds rungs, 0 < v := by
  intro v hv
  obtain ⟨r, _, rfl⟩ := List.mem_map.mp hv
  exact Nat.lt_of_lt_of_le Nat.one_pos (le_max_left _ _)

/-- Rungs are bins, some left out. -/
theorem allocateRungs_sublist (budget0 budget1 : Nat) :
    ((allocateRungs w bounds tick shape budget0 budget1).map SplitRung.ends).Sublist
      bounds := by
  have hsub : (allocateRungs w bounds tick shape budget0 budget1).Sublist
      (spread (weighted w tick shape bounds) budget0 budget1) := List.filter_sublist
  have hends := hsub.map SplitRung.ends
  rwa [spread_bounds, weighted_bounds] at hends

theorem allocateRungs_funded (budget0 budget1 : Nat) :
    ∀ r ∈ allocateRungs w bounds tick shape budget0 budget1, 0 < r.amount0 ∨ 0 < r.amount1 := by
  intro r hr
  have hkept := (List.mem_filter.mp hr).2
  simp only [kept, Bool.and_eq_true, Bool.or_eq_true, decide_eq_true_eq] at hkept
  exact hkept.1

/-- No budget is exceeded. -/
theorem allocateRungs_sum_le (budget0 budget1 : Nat) :
    ((allocateRungs w bounds tick shape budget0 budget1).map (·.amount0)).sum ≤ budget0 ∧
      ((allocateRungs w bounds tick shape budget0 budget1).map (·.amount1)).sum ≤ budget1 := by
  have hzero := weighted_zero w bounds tick shape
  have hsub : ((spread (weighted w tick shape bounds) budget0 budget1).filter kept).Sublist
      (spread (weighted w tick shape bounds) budget0 budget1) := List.filter_sublist
  generalize hrungs : weighted w tick shape bounds = rungs at hzero hsub
  rw [allocateRungs, hrungs]
  constructor
  · have hfilter := (hsub.map (·.amount0)).sum_le_sum fun _ _ => Nat.zero_le _
    refine hfilter.trans ?_
    have hput1 : ∀ (r : SplitRung) (a : Nat), (put1 r a).amount0 = r.amount0 := fun _ _ => rfl
    rw [spread, deal_map holds1 hput1]
    exact (deal_sum_le (fun _ _ => rfl) (fun r hr => (hzero r hr).1) _).trans
      (share_sum_le budget0 (weightsOf_pos holds0 rungs))
  · have hfilter := (hsub.map (·.amount1)).sum_le_sum fun _ _ => Nat.zero_le _
    refine hfilter.trans ?_
    rw [spread]
    refine (deal_sum_le (fun _ _ => rfl) ?_ _).trans
      (share_sum_le budget1 (weightsOf_pos holds1 rungs))
    intro r hr
    have hput0 : ∀ (r : SplitRung) (a : Nat), (put0 r a).amount1 = r.amount1 := fun _ _ => rfl
    have hmem : r.amount1 ∈ rungs.map (·.amount1) := by
      rw [← deal_map holds0 hput0 rungs (share budget0 (weightsOf holds0 rungs))]
      exact List.mem_map_of_mem hr
    obtain ⟨s, hs, heq⟩ := List.mem_map.mp hmem
    rw [← heq]
    exact (hzero s hs).2

theorem weightOf_le (bins anchor index : Nat) :
    weightOf w shape bins anchor index ≤ 1000000 := by
  cases shape with
  | spot => exact le_refl _
  | curve => exact w.curve_le bins index
  | bidask => exact w.bidask_le bins anchor index

theorem weightsOf_sum_le (holds : SplitRung → Bool) :
    (weightsOf holds (weighted w tick shape bounds)).sum ≤ bounds.length * 1000000 := by
  have hle : ∀ v ∈ weightsOf holds (weighted w tick shape bounds), v ≤ 1000000 := by
    intro v hv
    obtain ⟨r, hr, rfl⟩ := List.mem_map.mp hv
    obtain ⟨s, _, rfl⟩ := List.mem_map.mp (List.mem_filter.mp hr).1
    exact max_le (by decide) (weightOf_le w shape _ _ _)
  have hlen : (weightsOf holds (weighted w tick shape bounds)).length ≤ bounds.length := by
    have hends := congrArg List.length (weighted_bounds w bounds tick shape)
    rw [List.length_map] at hends
    rw [weightsOf, List.length_map, ← hends]
    exact List.length_filter_le _ _
  calc _ ≤ (weightsOf holds (weighted w tick shape bounds)).length * 1000000 :=
        List.sum_le_card_nsmul _ _ hle
    _ ≤ bounds.length * 1000000 := Nat.mul_le_mul_right _ hlen

theorem length_weightsOf (holds : SplitRung → Bool) (rungs : List SplitRung) :
    (weightsOf holds rungs).length = (rungs.filter holds).length := by
  rw [weightsOf, List.length_map]

def sideAndAmount0 (r : SplitRung) : Side × Nat := (r.side, r.amount0)

/-- Budgets of at least a whole weight for each bin leave no bin out. -/
theorem allocateRungs_all {budget : Nat} (hbudget : bounds.length * 1000000 ≤ budget)
    (hpos : 0 < budget) :
    (allocateRungs w bounds tick shape budget budget).map SplitRung.ends = bounds := by
  have hkept : ∀ r ∈ spread (weighted w tick shape bounds) budget budget, kept r := by
    have hsum0 := (weightsOf_sum_le w bounds tick shape holds0).trans hbudget
    have hsum1 := (weightsOf_sum_le w bounds tick shape holds1).trans hbudget
    generalize weighted w tick shape bounds = rungs at hsum0 hsum1
    obtain ⟨hlen0, hshare0⟩ := share_pos (weightsOf_pos holds0 rungs) hsum0 hpos
    obtain ⟨hlen1, hshare1⟩ := share_pos (weightsOf_pos holds1 rungs) hsum1 hpos
    rw [length_weightsOf] at hlen0 hlen1
    have hside : ∀ (r : SplitRung) (a : Nat), (put0 r a).side = r.side := fun _ _ => rfl
    have hfirst : ∀ (r : SplitRung) (a : Nat), sideAndAmount0 (put1 r a) = sideAndAmount0 r :=
      fun _ _ => rfl
    rw [spread]
    generalize share budget (weightsOf holds0 rungs) = amts0 at hlen0 hshare0
    generalize share budget (weightsOf holds1 rungs) = amts1 at hlen1 hshare1
    -- the first deal gives every rung that holds token0 its amount
    have hamount0 : ∀ r ∈ deal holds0 put0 rungs amts0, holds0 r → 0 < r.amount0 :=
      deal_pos (fun _ _ => rfl) hlen0 hshare0
    have hcount : ((deal holds0 put0 rungs amts0).filter holds1).length =
        (rungs.filter holds1).length := by
      have hmap := congrArg (List.countP (· ≠ Side.token0)) (deal_map holds0 hside rungs amts0)
      rw [List.countP_map, List.countP_map] at hmap
      rw [← List.countP_eq_length_filter, ← List.countP_eq_length_filter]
      exact hmap
    -- the second gives every rung that holds token1 its, and keeps the first
    have hamount1 : ∀ r ∈ deal holds1 put1 (deal holds0 put0 rungs amts0) amts1,
        holds1 r → 0 < r.amount1 :=
      deal_pos (fun _ _ => rfl) (hlen1.trans hcount.symm) hshare1
    intro r hr
    have hmem : sideAndAmount0 r ∈ (deal holds0 put0 rungs amts0).map sideAndAmount0 := by
      rw [← deal_map holds1 hfirst _ amts1]
      exact List.mem_map_of_mem hr
    obtain ⟨s, hs, heq⟩ := List.mem_map.mp hmem
    obtain ⟨hsame, hsame0⟩ := Prod.mk.inj heq
    have h0 : r.side ≠ .token1 → 0 < r.amount0 := by
      intro hne
      rw [← hsame0]
      exact hamount0 s hs (by simpa [holds0, hsame] using hne)
    have h1 : r.side ≠ .token0 → 0 < r.amount1 := by
      intro hne
      exact hamount1 r hr (by simpa [holds1] using hne)
    cases hr : r.side with
    | token0 => simp [kept, hr, h0 (by simp [hr])]
    | token1 => simp [kept, hr, h1 (by simp [hr])]
    | both => simp [kept, hr, h0 (by simp [hr]), h1 (by simp [hr])]
  rw [allocateRungs, List.filter_eq_self.mpr hkept, spread_bounds, weighted_bounds]

end Allocate

section Cut

theorem roundDiv_mul (k : Int) {d : Int} (hd : 0 < d) : roundDiv (k * d) d = k := by
  have hsplit : 2 * (k * d) + d = d + k * (2 * d) := by ring
  rw [roundDiv, hsplit, Int.add_mul_ediv_right _ _ (by omega),
    Int.ediv_eq_zero_of_lt (by omega) (by omega)]
  omega

namespace Request

variable (r : Request)

theorem high_eq : r.high = r.low + r.spacings * r.tickSpacing := by
  have hdiff : r.high - r.low =
      (roundDiv (max r.minTick r.maxTick) r.tickSpacing -
        roundDiv (min r.minTick r.maxTick) r.tickSpacing) * r.tickSpacing := by
    rw [high, low]
    ring
  rw [spacings, hdiff, roundDiv_mul _ r.spacing_pos, ← hdiff]
  omega

theorem spacings_pos (h : r.low < r.high) : 0 < r.spacings := by
  rw [high_eq] at h
  exact pos_of_mul_pos_left (by omega) r.spacing_pos.le

/-- There are bins, and no more of them than spacings. -/
theorem count_bounds (h : r.low < r.high) : 0 < r.count ∧ (r.count : Int) ≤ r.spacings := by
  have hpos := r.spacings_pos h
  rw [count]
  omega

theorem dvd_cutAt (i : Nat) : r.tickSpacing ∣ r.cutAt i := by
  rw [cutAt, low]
  exact Int.dvd_add (Int.dvd_mul_left _ _) (Int.dvd_mul_left _ _)

theorem cutAt_zero : r.cutAt 0 = r.low := by simp [cutAt]

theorem cutAt_count (h : r.low < r.high) : r.cutAt r.count = r.high := by
  have hne : (r.count : Int) ≠ 0 := by
    have := (r.count_bounds h).1
    omega
  rw [cutAt, Int.mul_ediv_cancel _ hne, high_eq]

/-- Every bin is at least a spacing wide. -/
theorem cutAt_lt (h : r.low < r.high) (i : Nat) : r.cutAt i < r.cutAt (i + 1) := by
  obtain ⟨hpos, hle⟩ := r.count_bounds h
  have hstep : r.spacings * i / r.count + 1 ≤ r.spacings * ((i + 1 : Nat) : Int) / r.count := by
    have hne : (r.count : Int) ≠ 0 := by omega
    rw [← Int.add_mul_ediv_right _ 1 hne]
    apply Int.ediv_le_ediv (by omega)
    have hexpand : r.spacings * ((i + 1 : Nat) : Int) = r.spacings * i + r.spacings := by
      rw [Nat.cast_add, Nat.cast_one]
      ring
    rw [hexpand]
    omega
  have hmul := Int.mul_le_mul_of_nonneg_right hstep r.spacing_pos.le
  have hspacing := r.spacing_pos
  rw [cutAt, cutAt]
  linarith

theorem cutAt_mono (h : r.low < r.high) {i j : Nat} (hij : i ≤ j) : r.cutAt i ≤ r.cutAt j := by
  induction j, hij using Nat.le_induction with
  | base => exact le_refl _
  | succ j _ ih => exact ih.trans (r.cutAt_lt h j).le

/-- The bins, none of them empty. -/
theorem cut_eq (h : r.low < r.high) :
    r.cut = (List.range r.count).map fun i => (r.cutAt i, r.cutAt (i + 1)) := by
  rw [cut, ← List.filterMap_eq_map]
  apply List.filterMap_congr
  intro i _
  rw [if_neg (not_le.mpr (r.cutAt_lt h i))]
  rfl

end Request

end Cut

/-- The rounded range lies within the ticks, and no more bins are asked for than a
ladder holds; or the range is rounded away. -/
def Fits (r : Request) : Prop :=
  r.high ≤ r.low ∨
    TickMath.MIN_TICK ≤ r.low ∧ r.high ≤ TickMath.MAX_TICK ∧ r.count ≤ MAX_RUNGS

/-- **Split ladders are accepted when they fit.** -/
theorem splitLadder_accepted (w : SplitWeights) {r : Request} (hfits : Fits r)
    {budget0 budget1 : Nat} (h0 : budget0 < 2 ^ 256) (h1 : budget1 < 2 ^ 256) :
    Accepted r.tickSpacing ((splitLadder w r budget0 budget1).map SplitRung.toRung) := by
  rw [splitLadder]
  split
  · exact accepted_of_sound (Nat.zero_le _) (fun _ h => nomatch h) List.Pairwise.nil
      (by decide) (by decide)
  next hempty =>
  have hlt : r.low < r.high := not_le.mp hempty
  obtain ⟨hmin, hmax, hcount⟩ := hfits.resolve_left hempty
  have hsub := allocateRungs_sublist w r.cut r.tick r.shape budget0 budget1
  have hfunded := allocateRungs_funded w r.cut r.tick r.shape budget0 budget1
  obtain ⟨hsum0, hsum1⟩ := allocateRungs_sum_le w r.cut r.tick r.shape budget0 budget1
  generalize allocateRungs w r.cut r.tick r.shape budget0 budget1 = rungs at *
  rw [r.cut_eq hlt] at hsub
  have hlength := hsub.length_le
  rw [List.length_map, List.length_map, List.length_range] at hlength
  apply accepted_of_sound
  · rw [List.length_map]
    exact hlength.trans hcount
  · intro s hs
    obtain ⟨q, hq, rfl⟩ := List.mem_map.mp hs
    obtain ⟨i, hi, heq⟩ := List.mem_map.mp (hsub.subset (List.mem_map_of_mem hq))
    obtain ⟨hlower, hupper⟩ := Prod.mk.inj heq
    have hi' : i < r.count := List.mem_range.mp hi
    have hfirst := r.cutAt_mono hlt (Nat.zero_le i)
    have hlast : r.cutAt (i + 1) ≤ r.cutAt r.count := r.cutAt_mono hlt hi'
    rw [r.cutAt_zero] at hfirst
    rw [r.cutAt_count hlt] at hlast
    have hstep := r.cutAt_lt hlt i
    exact
      { nonempty := by
          change q.tickLower < q.tickUpper
          omega
        inside := fun _ => by
          change _ ≤ q.tickLower ∧ q.tickUpper ≤ _
          omega
        aligned_lower := by
          change _ ∣ q.tickLower
          rw [← hlower]
          exact r.dvd_cutAt i
        aligned_upper := by
          change _ ∣ q.tickUpper
          rw [← hupper]
          exact r.dvd_cutAt (i + 1)
        funded := hfunded q hq }
  · rw [List.pairwise_map]
    have hcut : ((List.range r.count).map fun i => (r.cutAt i, r.cutAt (i + 1))).Pairwise
        fun a b => a.2 ≤ b.1 := by
      rw [List.pairwise_map]
      exact List.pairwise_lt_range.imp fun hij => r.cutAt_mono hlt hij
    exact List.pairwise_map.mp (hcut.sublist hsub)
  · rw [List.map_map]
    exact hsum0.trans_lt h0
  · rw [List.map_map]
    exact hsum1.trans_lt h1

/-- Budgets of this size reach every bin, of which there are less than `2 ^ 54`. -/
def plenty : Nat := 2 ^ 128

theorem count_le_plenty (r : Request) (h : r.low < r.high) :
    r.count * 1000000 ≤ plenty := by
  have hspacing := r.spacing_pos
  have hround : ∀ n : Int, n.natAbs < 2 ^ 52 →
      -2 ^ 52 ≤ roundDiv n r.tickSpacing ∧ roundDiv n r.tickSpacing < 2 ^ 52 + 1 := by
    intro n hn
    constructor
    · apply Int.le_ediv_of_mul_le (by omega)
      omega
    · apply Int.ediv_lt_of_lt_mul (by omega)
      omega
  have hmin := hround (min r.minTick r.maxTick) (by
    have := r.minTick_lt
    have := r.maxTick_lt
    omega)
  have hmax := hround (max r.minTick r.maxTick) (by
    have := r.minTick_lt
    have := r.maxTick_lt
    omega)
  have hspacings : r.spacings = roundDiv (max r.minTick r.maxTick) r.tickSpacing -
      roundDiv (min r.minTick r.maxTick) r.tickSpacing := by
    have heq := r.high_eq
    rw [Request.high, Request.low, ← Int.add_mul] at heq
    have := Int.eq_of_mul_eq_mul_right (by omega) heq
    omega
  have hle := (r.count_bounds h).2
  rw [plenty]
  omega

/-- **Split ladders that do not fit are not accepted**, when there is something for
every bin. -/
theorem fits_of_accepted (w : SplitWeights) {r : Request}
    (h : Accepted r.tickSpacing ((splitLadder w r plenty plenty).map SplitRung.toRung)) :
    Fits r := by
  by_cases hempty : r.high ≤ r.low
  · exact Or.inl hempty
  have hlt : r.low < r.high := not_le.mp hempty
  have hcount := (r.count_bounds hlt).1
  rw [splitLadder, if_neg hempty] at h
  have hlength : r.cut.length = r.count := by
    rw [r.cut_eq hlt, List.length_map, List.length_range]
  have hall := allocateRungs_all w r.cut r.tick r.shape
    (hlength ▸ count_le_plenty r hlt) (by decide)
  generalize allocateRungs w r.cut r.tick r.shape plenty plenty = rungs at h hall
  rw [r.cut_eq hlt] at hall
  obtain ⟨hfew, hsound⟩ := sound_of_accepted h
  -- each bin is a rung
  have hbin : ∀ i < r.count,
      TickMath.MIN_TICK ≤ r.cutAt i ∧ r.cutAt (i + 1) ≤ TickMath.MAX_TICK := by
    intro i hi
    have hmem : (r.cutAt i, r.cutAt (i + 1)) ∈ rungs.map SplitRung.ends := by
      rw [hall]
      exact List.mem_map.mpr ⟨i, List.mem_range.mpr hi, rfl⟩
    obtain ⟨q, hq, heq⟩ := List.mem_map.mp hmem
    obtain ⟨hlower, hupper⟩ := Prod.mk.inj heq
    have hin := (hsound q.toRung (List.mem_map_of_mem hq)).inside rfl
    rw [← hlower, ← hupper]
    exact hin
  right
  refine ⟨?_, ?_, ?_⟩
  · rw [← r.cutAt_zero]
    exact (hbin 0 hcount).1
  · rw [← r.cutAt_count hlt]
    have hlast := (hbin (r.count - 1) (by omega)).2
    rwa [Nat.sub_add_cancel hcount] at hlast
  · have hlen := congrArg List.length hall
    rw [List.length_map, List.length_map, List.length_range] at hlen
    rw [List.length_map, hlen] at hfew
    exact hfew

end SplitLadder

end Ordo
