import Mathlib.Data.List.Nodup
import Ordo.Words

/-!
# Ladders

What a ladder manager keeps, in either generation: ladders of bins, each bin a position of the
position manager, and for each owner the ladders that it has opened.  A rung tops up the open
bin of its ticks, or becomes a new bin.

* `openIndices_eq` — the array of open bins is filled to its end and no further;
* `Placed.counted` — what stays right of a ladder while rungs are placed;
* `Ladder.Sound.placed`, `Ladder.Sound.emptied` — what a call makes of a ladder.

A sum that does not fit in 256 bits reverts, and is left out; so are the events.
-/

namespace Ordo

namespace Ladders

/-- A bin's budget. -/
structure Rung where
  tickLower : Int
  tickUpper : Int
  amount0 : Nat
  amount1 : Nat
  amount0Min : Nat
  amount1Min : Nat
  deriving DecidableEq

structure Permit where
  token : Address
  value : Nat
  deadline : Nat
  v : Nat
  r : Bytes32
  s : Bytes32

structure Bin where
  tokenId : Nat
  tickLower : Int
  tickUpper : Int
  isOpen : Bool
  deriving DecidableEq

structure Ladder (Pool : Type) where
  owner : Address
  pool : Pool
  shape : Nat
  openedAt : Nat
  /-- Zero while any bin is open. -/
  closedAt : Nat
  openBins : Nat
  /-- Principal put in, over the ladder's life. -/
  deposited0 : Nat
  deposited1 : Nat
  /-- Principal taken out. -/
  withdrawn0 : Nat
  withdrawn1 : Nat
  /-- Fees paid to the owner, net of the cut. -/
  collected0 : Nat
  collected1 : Nat
  bins : List Bin

/-- `_ladders` and `_byOwner`. -/
structure Book (Pool : Type) where
  ladders : List (Ladder Pool)
  byOwner : Address → List Nat

inductive LadderError where
  | expired
  | noRungs
  | tooManyRungs
  | notAPool
  | priceOutOfBounds (tick minTick maxTick : Int)
  | badRange (tickLower tickUpper : Int)
  | rangeNotAligned (tick spacing : Int)
  | rungsOutOfOrder (index : Nat)
  | emptyRung (index : Nat)
  | nothingMinted (index : Nat)
  | tokenIdMismatch
  | slippage (index amount0 amount1 : Nat)
  | ethNotAccepted
  | insufficientETH (sent needed : Nat)
  | notOwner
  | alreadyClosed
  | binNotOpen (index : Nat)
  | duplicateBin (index : Nat)
  | noBins
  | transferFailed
  | permitFailed (token : Address)
  /-- Another contract reverts. -/
  | reverted
  /-- A write past the end of an array. -/
  | pastTheEnd
  /-- Any other panic. -/
  | panicked
  deriving DecidableEq

abbrev Call := Except LadderError

def revertIf (condition : Prop) [Decidable condition] (e : LadderError) : Call Unit :=
  if condition then .error e else .ok ()

def FEE_BPS : Nat := 100

def MAX_RUNGS : Nat := 40

/-! ### One ladder -/

section Source

variable {Pool : Type}

def Bin.matches (tickLower tickUpper : Int) (b : Bin) : Bool :=
  b.isOpen && b.tickLower = tickLower && b.tickUpper = tickUpper

/-- `none` stands for the greatest `uint256`. -/
def findOpen (l : Ladder Pool) (tickLower tickUpper : Int) : Option Nat :=
  l.bins.findIdx? (Bin.matches tickLower tickUpper)

def countNew (l : Ladder Pool) (rungs : List Rung) : Nat :=
  rungs.countP fun r => (findOpen l r.tickLower r.tickUpper).isNone

/-- The loop of `_openIndices`, from a bin and an entry of the array on. -/
def fillOpen : List Bin → Nat → Nat → List Nat → Call (List Nat)
  | [], _, _, idx => .ok idx
  | b :: bins, i, k, idx =>
      if b.isOpen then
        if k < idx.length then fillOpen bins (i + 1) (k + 1) (idx.set k i)
        else .error .pastTheEnd
      else fillOpen bins (i + 1) k idx

def openIndices (l : Ladder Pool) : Call (List Nat) :=
  fillOpen l.bins 0 0 (List.replicate l.openBins 0)

/-- `if (at >= l.bins.length || !l.bins[at].open) revert`, and whether it came before. -/
def checkBin (l : Ladder Pool) (earlier : List Nat) (at' : Nat) : Call Bin :=
  match l.bins[at']? with
  | some b => do
      revertIf (b.isOpen = false) (.binNotOpen at')
      revertIf (at' ∈ earlier) (.duplicateBin at')
      return b
  | none => .error (.binNotOpen at')

def Ladder.push (l : Ladder Pool) (b : Bin) : Ladder Pool :=
  { l with bins := l.bins ++ [b], openBins := l.openBins + 1 }

/-- `b.open = false` -/
def Ladder.shutBin (l : Ladder Pool) (at' : Nat) : Ladder Pool :=
  { l with bins := l.bins.modify at' fun b => { b with isOpen := false } }

def Ladder.deposit (l : Ladder Pool) (added : Nat × Nat) : Ladder Pool :=
  { l with deposited0 := l.deposited0 + added.1, deposited1 := l.deposited1 + added.2 }

/-- The treasury's part of the fees. -/
def cut (fees : Nat) : Nat := fees * FEE_BPS / 10000

/-- The accounting of `_splitFees` and `_keepFees`. -/
def Ladder.collect (l : Ladder Pool) (fees : Nat × Nat) : Ladder Pool :=
  { l with
    collected0 := l.collected0 + (fees.1 - cut fees.1)
    collected1 := l.collected1 + (fees.2 - cut fees.2) }

/-- The accounting at the end of `_closeBins`. -/
def Ladder.withdraw (l : Ladder Pool) (count : Nat) (principal : Nat × Nat) :
    Call (Ladder Pool) := do
  revertIf (l.openBins < count % 2 ^ 32) .panicked
  return { l with
    openBins := l.openBins - count % 2 ^ 32
    withdrawn0 := l.withdrawn0 + principal.1
    withdrawn1 := l.withdrawn1 + principal.2 }

/-- `if (l.openBins == 0) l.closedAt = uint64(block.timestamp)` -/
def Ladder.finish (l : Ladder Pool) (now : Nat) : Ladder Pool :=
  if l.openBins = 0 then { l with closedAt := now % 2 ^ 64 } else l

/-- The loop of `_validate`, from a rung on.  The second generation keeps ticks in bounds. -/
def validateFrom (bounds : Option (Int × Int)) (spacing : Int) :
    Int → Nat → List Rung → Call (Nat × Nat)
  | _, _, [] => .ok (0, 0)
  | previousUpper, i, r :: rungs => do
      revertIf (r.tickUpper ≤ r.tickLower) (.badRange r.tickLower r.tickUpper)
      revertIf (∃ b ∈ bounds, r.tickLower < b.1 ∨ b.2 < r.tickUpper)
        (.badRange r.tickLower r.tickUpper)
      revertIf (spacing = 0) .panicked
      revertIf (r.tickLower.tmod spacing ≠ 0) (.rangeNotAligned r.tickLower spacing)
      revertIf (r.tickUpper.tmod spacing ≠ 0) (.rangeNotAligned r.tickUpper spacing)
      revertIf (r.tickLower < previousUpper) (.rungsOutOfOrder i)
      revertIf (r.amount0 = 0 ∧ r.amount1 = 0) (.emptyRung i)
      let (total0, total1) ← validateFrom bounds spacing r.tickUpper (i + 1) rungs
      return (r.amount0 + total0, r.amount1 + total1)

def validate (bounds : Option (Int × Int)) (spacing : Int) (rungs : List Rung) :
    Call (Nat × Nat) :=
  validateFrom bounds spacing (-2 ^ 23) 0 rungs

/-- `_ladder` -/
def ladderOf (book : Book Pool) (sender : Address) (ladderId : Nat) : Call (Ladder Pool) :=
  match book.ladders[ladderId]? with
  | some l => do
      revertIf (l.owner ≠ sender) .notOwner
      return l
  | none => .error .panicked

def Book.write (book : Book Pool) (ladderId : Nat) (l : Ladder Pool) : Book Pool :=
  { book with ladders := book.ladders.set ladderId l }

/-- `_ladders.push()` and `_byOwner[msg.sender].push(ladderId)` -/
def Book.append (book : Book Pool) (l : Ladder Pool) : Book Pool where
  ladders := book.ladders ++ [l]
  byOwner := Function.update book.byOwner l.owner
    (book.byOwner l.owner ++ [book.ladders.length])

end Source

/-! ### The array of open bins -/

section Indices

/-- The open bins, by their places. -/
def openFrom : List Bin → Nat → List Nat
  | [], _ => []
  | b :: bins, i => if b.isOpen then i :: openFrom bins (i + 1) else openFrom bins (i + 1)

theorem fillOpen_eq (bins : List Bin) : ∀ (i k : Nat) (idx : List Nat),
    k + bins.countP Bin.isOpen ≤ idx.length → fillOpen bins i k idx =
      .ok (idx.take k ++ openFrom bins i ++ idx.drop (k + bins.countP Bin.isOpen)) := by
  induction bins with
  | nil =>
      intro i k idx _
      simp [fillOpen, openFrom]
  | cons b bins ih =>
      intro i k idx hroom
      unfold fillOpen openFrom
      by_cases hopen : b.isOpen = true
      · rw [List.countP_cons_of_pos hopen] at hroom ⊢
        have hk : k < idx.length := by omega
        have hroom' : k + 1 + bins.countP Bin.isOpen ≤ (idx.set k i).length := by
          rw [List.length_set]
          omega
        rw [if_pos hopen, if_pos hk, if_pos hopen, ih _ _ _ hroom']
        have htake : (idx.set k i).take (k + 1) = idx.take k ++ [i] := by
          rw [List.take_add_one, List.getElem?_set_self hk, List.take_set_of_le (Nat.le_refl k)]
          rfl
        have hdrop : (idx.set k i).drop (k + 1 + bins.countP Bin.isOpen) =
            idx.drop (k + (bins.countP Bin.isOpen + 1)) := by
          rw [List.drop_set_of_lt (by omega)]
          congr 1
          omega
        rw [htake, hdrop, List.append_assoc, List.append_assoc, List.append_assoc]
        rfl
      · rw [List.countP_cons_of_neg hopen] at hroom ⊢
        rw [if_neg hopen, if_neg hopen]
        exact ih _ _ _ hroom

theorem mem_openFrom {bins : List Bin} {i j : Nat} :
    j ∈ openFrom bins i ↔ ∃ n b, bins[n]? = some b ∧ b.isOpen = true ∧ j = i + n := by
  induction bins generalizing i with
  | nil => simp [openFrom]
  | cons b bins ih =>
      have hrest : (∃ n b', (b :: bins)[n + 1]? = some b' ∧ b'.isOpen = true ∧ j = i + (n + 1)) ↔
          j ∈ openFrom bins (i + 1) := by
        rw [ih]
        refine exists_congr fun n => exists_congr fun b' => ?_
        rw [List.getElem?_cons_succ, Nat.add_right_comm, Nat.add_assoc i n 1]
      unfold openFrom
      constructor
      · intro hj
        split at hj
        next hopen =>
          rcases List.mem_cons.mp hj with rfl | hj
          · exact ⟨0, b, rfl, hopen, rfl⟩
          · obtain ⟨n, b', h⟩ := hrest.mpr hj
            exact ⟨n + 1, b', h⟩
        next =>
          obtain ⟨n, b', h⟩ := hrest.mpr hj
          exact ⟨n + 1, b', h⟩
      · rintro ⟨n, b', hb, hopen, rfl⟩
        cases n with
        | zero =>
            obtain rfl := Option.some.inj hb
            rw [if_pos hopen]
            exact List.mem_cons_self
        | succ n =>
            have hj := hrest.mp ⟨n, b', hb, hopen, rfl⟩
            split
            · exact List.mem_cons_of_mem _ hj
            · exact hj

/-- **The array is filled to its end.** -/
theorem openIndices_eq {Pool : Type} {l : Ladder Pool}
    (h : l.openBins = l.bins.countP Bin.isOpen) : openIndices l = .ok (openFrom l.bins 0) := by
  have hroom : 0 + l.bins.countP Bin.isOpen ≤ (List.replicate l.openBins 0).length := by
    rw [List.length_replicate, h, Nat.zero_add]
  rw [openIndices, fillOpen_eq _ _ _ _ hroom, Nat.zero_add, List.drop_eq_nil_of_le, List.take_zero,
    List.nil_append, List.append_nil]
  rw [List.length_replicate, h]

end Indices

/-! ### What is right of a ladder -/

section Sound

variable {Pool : Type} {l l' : Ladder Pool}

def Bin.ticks (b : Bin) : Int × Int := (b.tickLower, b.tickUpper)

def Ladder.ids (l : Ladder Pool) : List Nat := l.bins.map Bin.tokenId

/-- The open bins are counted, and no two of them have the same ticks. -/
structure Ladder.Counted (l : Ladder Pool) : Prop where
  openBins_eq : l.openBins = l.bins.countP Bin.isOpen
  apart : ((l.bins.filter Bin.isOpen).map Bin.ticks).Nodup

/-- **A ladder between calls.** -/
structure Ladder.Sound (l : Ladder Pool) : Prop where
  counted : l.Counted
  closed_iff : l.closedAt ≠ 0 ↔ l.openBins = 0
  openBins_le : l.openBins ≤ MAX_RUNGS

theorem Bin.matches_iff {b : Bin} {tickLower tickUpper : Int} :
    b.matches tickLower tickUpper = true ↔
      b.isOpen = true ∧ b.ticks = (tickLower, tickUpper) := by
  rw [Bin.matches, Bin.ticks, Bool.and_eq_true, Bool.and_eq_true, decide_eq_true_eq,
    decide_eq_true_eq, Prod.mk.injEq, and_assoc]

/-- No open bin has the ticks. -/
theorem findOpen_eq_none {tickLower tickUpper : Int} :
    findOpen l tickLower tickUpper = none ↔
      (tickLower, tickUpper) ∉ (l.bins.filter Bin.isOpen).map Bin.ticks := by
  rw [findOpen, List.findIdx?_eq_none_iff]
  constructor
  · intro hnone hmem
    obtain ⟨b, hb, hticks⟩ := List.mem_map.mp hmem
    obtain ⟨hb, hopen⟩ := List.mem_filter.mp hb
    have hmatches := Bin.matches_iff.mpr ⟨hopen, hticks⟩
    rw [hnone b hb] at hmatches
    cases hmatches
  · intro hnone b hb
    rw [← Bool.not_eq_true, Bin.matches_iff]
    rintro ⟨hopen, hticks⟩
    exact hnone (List.mem_map.mpr ⟨b, List.mem_filter.mpr ⟨hb, hopen⟩, hticks⟩)

/-- A bin that is found is open. -/
theorem findOpen_eq_some {tickLower tickUpper : Int} {at' : Nat}
    (h : findOpen l tickLower tickUpper = some at') :
    ∃ b, l.bins[at']? = some b ∧ b.isOpen = true ∧ b.ticks = (tickLower, tickUpper) := by
  obtain ⟨hlt, hmatches, -⟩ := List.findIdx?_eq_some_iff_getElem.mp h
  obtain ⟨hopen, hticks⟩ := Bin.matches_iff.mp hmatches
  exact ⟨l.bins[at'], List.getElem?_eq_getElem hlt, hopen, hticks⟩

/-! Rungs that are placed -/

/-- Rungs are placed: each tops up the open bin of its ticks, or becomes a bin of a position
of its own. -/
inductive Placed : Ladder Pool → List Rung → List Nat → Ladder Pool → Prop where
  | done {l : Ladder Pool} : Placed l [] [] l
  | found {l l' : Ladder Pool} {r : Rung} {rungs : List Rung} {new : List Nat} {at' : Nat}
      (hfound : findOpen l r.tickLower r.tickUpper = some at')
      (hrest : Placed l rungs new l') : Placed l (r :: rungs) new l'
  | pushed {l l' : Ladder Pool} {r : Rung} {rungs : List Rung} {new : List Nat} {id : Nat}
      (hnone : findOpen l r.tickLower r.tickUpper = none)
      (hrest : Placed (l.push ⟨id, r.tickLower, r.tickUpper, true⟩) rungs new l') :
      Placed l (r :: rungs) (id :: new) l'

theorem Ladder.Counted.push (h : l.Counted) {b : Bin} (hopen : b.isOpen = true)
    (hnone : findOpen l b.tickLower b.tickUpper = none) : (l.push b).Counted where
  openBins_eq := by
    change l.openBins + 1 = (l.bins ++ [b]).countP Bin.isOpen
    rw [List.countP_append, List.countP_singleton, if_pos hopen, h.openBins_eq]
  apart := by
    change (((l.bins ++ [b]).filter Bin.isOpen).map Bin.ticks).Nodup
    rw [List.filter_append, List.filter_singleton, hopen, List.map_append]
    exact h.apart.append (List.nodup_singleton _)
      (List.disjoint_singleton.mpr (findOpen_eq_none.mp hnone))

/-- **Placing rungs** keeps the count, and the ticks apart. -/
theorem Placed.counted {rungs : List Rung} {new : List Nat} (h : Placed l rungs new l')
    (hl : l.Counted) : l'.Counted := by
  induction h with
  | done => exact hl
  | found _ _ ih => exact ih hl
  | pushed hnone _ ih => exact ih (hl.push rfl hnone)

/-- What is found is found later. -/
theorem findOpen_push {b : Bin} {tickLower tickUpper : Int}
    (h : findOpen (l.push b) tickLower tickUpper = none) :
    findOpen l tickLower tickUpper = none := by
  rw [findOpen_eq_none] at h ⊢
  change _ ∉ ((l.bins ++ [b]).filter Bin.isOpen).map Bin.ticks at h
  rw [List.filter_append, List.map_append, List.mem_append, not_or] at h
  exact h.1

theorem countNew_push {b : Bin} (rungs : List Rung) :
    countNew (l.push b) rungs ≤ countNew l rungs := by
  refine List.countP_mono_left fun r _ hnone => ?_
  rw [Option.isNone_iff_eq_none] at hnone ⊢
  exact findOpen_push hnone

/-- There are no more new bins than were counted. -/
theorem Placed.openBins_le {rungs : List Rung} {new : List Nat} (h : Placed l rungs new l') :
    l'.openBins ≤ l.openBins + countNew l rungs := by
  induction h with
  | done => exact Nat.le_add_right _ _
  | found hfound _ ih =>
      rw [countNew, List.countP_cons_of_neg (by rw [hfound]; exact Bool.false_ne_true)]
      exact ih
  | @pushed l _ r rungs _ id hnone _ ih =>
      have hfewer := countNew_push (l := l) (b := ⟨id, r.tickLower, r.tickUpper, true⟩) rungs
      rw [countNew, List.countP_cons_of_pos (by rw [hnone]; rfl)]
      change _ ≤ l.openBins + (countNew l rungs + 1)
      have hone : (l.push ⟨id, r.tickLower, r.tickUpper, true⟩).openBins = l.openBins + 1 := rfl
      omega

/-- A ladder that rungs were placed on has an open bin. -/
theorem Placed.openBins_pos {rungs : List Rung} {new : List Nat} (h : Placed l rungs new l')
    (hl : l.Counted) (hsome : rungs ≠ [] ∨ 0 < l.openBins) : 0 < l'.openBins := by
  induction h with
  | done => exact hsome.resolve_left (fun h => h rfl)
  | found hfound _ ih =>
      obtain ⟨b, hb, hopen, -⟩ := findOpen_eq_some hfound
      refine ih hl (Or.inr ?_)
      rw [hl.openBins_eq]
      exact List.countP_pos_iff.mpr ⟨b, List.mem_of_getElem? hb, hopen⟩
  | pushed hnone _ ih => exact ih (hl.push rfl hnone) (Or.inr (Nat.succ_pos _))

theorem Placed.ids {rungs : List Rung} {new : List Nat} (h : Placed l rungs new l') :
    l'.ids = l.ids ++ new := by
  induction h with
  | done => exact (List.append_nil _).symm
  | found _ _ ih => exact ih
  | @pushed l _ r _ new id _ _ ih =>
      have hpushed : (l.push ⟨id, r.tickLower, r.tickUpper, true⟩).ids = l.ids ++ [id] :=
        List.map_append
      rw [ih, hpushed, List.append_assoc]
      rfl

/-- Only the bins change. -/
theorem Placed.frame {rungs : List Rung} {new : List Nat} (h : Placed l rungs new l') :
    l' = { l with bins := l'.bins, openBins := l'.openBins } := by
  induction h with
  | done => rfl
  | found _ _ ih => exact ih
  | pushed _ _ ih => exact ih

/-! Bins that are shut -/

theorem countP_shut {bins : List Bin} {at' : Nat} {b : Bin} (hb : bins[at']? = some b)
    (hopen : b.isOpen = true) :
    (bins.modify at' fun b => { b with isOpen := false }).countP Bin.isOpen + 1 =
      bins.countP Bin.isOpen := by
  induction bins generalizing at' with
  | nil => cases hb
  | cons b' bins ih =>
      cases at' with
      | zero =>
          obtain rfl := Option.some.inj hb
          rw [List.modify_zero_cons, List.countP_cons_of_neg Bool.false_ne_true,
            List.countP_cons_of_pos hopen]
      | succ at' =>
          have hrest := ih hb
          rw [List.modify_succ_cons, List.countP_cons, List.countP_cons]
          omega

theorem sublist_shut (bins : List Bin) (at' : Nat) :
    ((bins.modify at' fun b => { b with isOpen := false }).filter Bin.isOpen).Sublist
      (bins.filter Bin.isOpen) := by
  induction bins generalizing at' with
  | nil => rw [List.modify_nil]
  | cons b bins ih =>
      cases at' with
      | zero =>
          rw [List.modify_zero_cons, List.filter_cons_of_neg Bool.false_ne_true]
          exact (List.sublist_cons_self b bins).filter _
      | succ at' =>
          rw [List.modify_succ_cons, List.filter_cons, List.filter_cons]
          split
          · exact (ih at').cons_cons b
          · exact ih at'

theorem map_tokenId_shut (bins : List Bin) (at' : Nat) :
    (bins.modify at' fun b => { b with isOpen := false }).map Bin.tokenId =
      bins.map Bin.tokenId := by
  induction bins generalizing at' with
  | nil => rw [List.modify_nil]
  | cons b bins ih =>
      cases at' with
      | zero => rw [List.modify_zero_cons, List.map_cons, List.map_cons]
      | succ at' => rw [List.modify_succ_cons, List.map_cons, List.map_cons, ih]

/-- The bins at a list of places are open, and no place is listed twice. -/
structure AllOpen (l : Ladder Pool) (indices : List Nat) : Prop where
  once : indices.Nodup
  isOpen : ∀ at' ∈ indices, ∃ b, l.bins[at']? = some b ∧ b.isOpen = true

/-- `b.open = false`, for each bin. -/
def Ladder.shutBins (l : Ladder Pool) (indices : List Nat) : Ladder Pool :=
  indices.foldl Ladder.shutBin l

theorem AllOpen.shutBin {at' : Nat} {indices : List Nat} (h : AllOpen l (at' :: indices)) :
    AllOpen (l.shutBin at') indices := by
  obtain ⟨hnot, honce⟩ := List.nodup_cons.mp h.once
  refine ⟨honce, fun j hj => ?_⟩
  obtain ⟨b, hb, hopen⟩ := h.isOpen j (List.mem_cons_of_mem _ hj)
  have hne : at' ≠ j := fun heq => hnot (heq ▸ hj)
  exact ⟨b, (List.getElem?_modify_ne _ _ hne).trans hb, hopen⟩

/-- Shutting open bins takes each off the count. -/
theorem AllOpen.countP {indices : List Nat} (h : AllOpen l indices) :
    (l.shutBins indices).bins.countP Bin.isOpen + indices.length =
      l.bins.countP Bin.isOpen := by
  induction indices generalizing l with
  | nil => rfl
  | cons at' indices ih =>
      obtain ⟨b, hb, hopen⟩ := h.isOpen at' List.mem_cons_self
      have hone := countP_shut hb hopen
      have hrest := ih h.shutBin
      change ((l.shutBin at').shutBins indices).bins.countP Bin.isOpen + (indices.length + 1) = _
      change _ = (l.shutBin at').bins.countP Bin.isOpen at hrest
      change (l.shutBin at').bins.countP Bin.isOpen + 1 = _ at hone
      omega

/-- Only the bins change, and only by being shut. -/
theorem shutBins_frame (l : Ladder Pool) (indices : List Nat) :
    l.shutBins indices = { l with bins := (l.shutBins indices).bins } ∧
      (l.shutBins indices).ids = l.ids ∧
      ((l.shutBins indices).bins.filter Bin.isOpen).Sublist (l.bins.filter Bin.isOpen) := by
  induction indices generalizing l with
  | nil => exact ⟨rfl, rfl, List.Sublist.refl _⟩
  | cons at' indices ih =>
      obtain ⟨hframe, hids, hsub⟩ := ih (l.shutBin at')
      exact ⟨hframe, hids.trans (map_tokenId_shut l.bins at'),
        hsub.trans (sublist_shut l.bins at')⟩

/-! A call -/

/-- What a call on a ladder leaves, with the positions that it minted. -/
structure Ladder.Turned (l : Ladder Pool) (new : List Nat) (l' : Ladder Pool) : Prop where
  sound : l'.Sound
  ids : l'.ids = l.ids ++ new
  owner : l'.owner = l.owner

theorem Ladder.Sound.closedAt_eq_zero (h : l.Sound) : l.closedAt = 0 ↔ 0 < l.openBins := by
  have := h.closed_iff
  omega

theorem Ladder.Sound.collect (h : l.Sound) (fees : Nat × Nat) : (l.collect fees).Sound :=
  ⟨⟨h.counted.openBins_eq, h.counted.apart⟩, h.closed_iff, h.openBins_le⟩

/-- **A ladder with rungs placed** on it, within the bound that was checked. -/
theorem Ladder.Counted.placed {rungs : List Rung} {new : List Nat} (h : l.Counted)
    (hplaced : Placed l rungs new l') (hopen : l.closedAt = 0) (hsome : rungs ≠ [])
    (hroom : l.openBins + countNew l rungs ≤ MAX_RUNGS) : l.Turned new l' where
  sound :=
    { counted := hplaced.counted h
      closed_iff := by
        have hpos := hplaced.openBins_pos h (Or.inl hsome)
        have hframe : l'.closedAt = l.closedAt := by rw [hplaced.frame]
        omega
      openBins_le := hplaced.openBins_le.trans hroom }
  ids := hplaced.ids
  owner := by rw [hplaced.frame]

theorem Ladder.Turned.deposit {new : List Nat} (h : l.Turned new l') (added : Nat × Nat) :
    l.Turned new (l'.deposit added) :=
  ⟨⟨⟨h.sound.counted.openBins_eq, h.sound.counted.apart⟩, h.sound.closed_iff,
    h.sound.openBins_le⟩, h.ids, h.owner⟩

theorem withdraw_eq_ok {count : Nat} {principal : Nat × Nat}
    (h : l.withdraw count principal = .ok l') : count % 2 ^ 32 ≤ l.openBins ∧ l' = { l with
      openBins := l.openBins - count % 2 ^ 32
      withdrawn0 := l.withdrawn0 + principal.1
      withdrawn1 := l.withdrawn1 + principal.2 } := by
  obtain ⟨_, hchecked, h⟩ := bind_ok.mp h
  unfold revertIf at hchecked
  split at hchecked
  next => cases hchecked
  next hle =>
    cases h
    exact ⟨Nat.le_of_not_lt hle, rfl⟩

/-- A ladder is closed when no bin is left. -/
theorem Ladder.Counted.finish {now : Nat} (h : l.Counted) (hle : l.openBins ≤ MAX_RUNGS)
    (hopen : l.closedAt = 0) (hnow : 0 < now) (hnow' : now < 2 ^ 64) :
    l.Turned [] (l.finish now) := by
  unfold Ladder.finish
  split
  next hnone =>
    refine ⟨⟨⟨h.openBins_eq, h.apart⟩, ?_, hle⟩, (List.append_nil _).symm, rfl⟩
    change now % 2 ^ 64 ≠ 0 ↔ l.openBins = 0
    rw [Nat.mod_eq_of_lt hnow']
    exact ⟨fun _ => hnone, fun _ => Nat.ne_of_gt hnow⟩
  next hsome =>
    exact ⟨⟨h, ⟨fun hne => absurd hopen hne, fun hnone => absurd hnone hsome⟩, hle⟩,
      (List.append_nil _).symm, rfl⟩

theorem Ladder.Counted.shutBins {indices : List Nat} {principal : Nat × Nat} (h : l.Counted)
    (hle : l.openBins ≤ MAX_RUNGS) (hindices : AllOpen l indices)
    (hwithdrawn : (l.shutBins indices).withdraw indices.length principal = .ok l') :
    l'.Counted ∧ l'.openBins ≤ MAX_RUNGS := by
  obtain ⟨hframe, -, hsub⟩ := shutBins_frame l indices
  have hcount := hindices.countP
  have heq := h.openBins_eq
  have hsmall : indices.length % 2 ^ 32 = indices.length := by
    refine Nat.mod_eq_of_lt ?_
    unfold MAX_RUNGS at hle
    omega
  have hbins : (l.shutBins indices).openBins = l.openBins := by rw [hframe]
  obtain ⟨-, rfl⟩ := withdraw_eq_ok hwithdrawn
  rw [hsmall, hbins]
  refine ⟨⟨?_, h.apart.sublist (hsub.map _)⟩, (Nat.sub_le _ _).trans hle⟩
  change l.openBins - indices.length = (l.shutBins indices).bins.countP Bin.isOpen
  omega

/-- **A ladder with bins emptied.** -/
theorem Ladder.Sound.emptied {indices : List Nat} {principal : Nat × Nat} {now : Nat}
    (h : l.Sound) (hopen : l.closedAt = 0) (hindices : AllOpen l indices)
    (hwithdrawn : (l.shutBins indices).withdraw indices.length principal = .ok l')
    (hnow : 0 < now) (hnow' : now < 2 ^ 64) : l.Turned [] (l'.finish now) := by
  obtain ⟨hcounted, hle⟩ := h.counted.shutBins h.openBins_le hindices hwithdrawn
  obtain ⟨hframe, hids, -⟩ := shutBins_frame l indices
  obtain ⟨-, rfl⟩ := withdraw_eq_ok hwithdrawn
  have hclosed : (l.shutBins indices).closedAt = 0 := by rw [hframe, hopen]
  have howner : (l.shutBins indices).owner = l.owner := by rw [hframe]
  have hfinish := hcounted.finish hle hclosed hnow hnow'
  exact ⟨hfinish.sound, hfinish.ids.trans (congrArg (· ++ []) hids),
    hfinish.owner.trans howner⟩

end Sound

end Ladders

end Ordo
