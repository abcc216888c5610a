import Ordo.Bonds

/-!
# Bids that are worked off at the same time

Handlers take turns: each of them goes from one `await` to the next, in any order.
Between a bid's exposure check and its hold another handler may run, and the check
knows nothing of what that one is about to hold.
-/

namespace Ordo

namespace Bonds

/-- A bid under way, and the collateral that was read for it. -/
structure Request where
  bid : Bid
  stage : Stage
  read : Int

/-- The desk with its handlers, and for each searcher the collateral that was read for
the last bid to be held. -/
structure Office where
  desk : Desk
  requests : List Request
  read : AddressText → Option Int

inductive Turn where
  | arrive (bid : Bid)
  | advance (i : Nat) (reached : Bool)
  | wait (ms : Nat)
  | chain (a : Address) (collateral : Nat)
  | opened (id : IdText)
  | closed (id : IdText)
  | released (searcher : AddressText) (id : IdText)
  deriving DecidableEq

/-- What a handler has read once it is about to check. -/
def noted (s : Stage) (old : Int) : Int :=
  match s with
  | .exposing _ _ c => c
  | _ => old

section Turns

variable (cfg : Config)

def takeTurn (o : Office) (i : Nat) (r : Request) (reached : Bool) : Office :=
  let p := advance cfg reached r.bid o.desk r.stage
  { desk := p.1
    requests := o.requests.set i ⟨r.bid, p.2, noted p.2 r.read⟩
    read :=
      if r.stage = .placing ∧ p.2 = .accepted then
        Function.update o.read r.bid.searcher.toLowerCase (some r.read)
      else o.read }

def turn (o : Office) : Turn → Office
  | .arrive bid =>
      let s := arrive cfg bid o.desk
      { o with requests := o.requests ++ [⟨bid, s, noted s 0⟩] }
  | .advance i reached =>
      match o.requests[i]? with
      | none => o
      | some r => takeTurn cfg o i r reached
  | .wait ms => { o with desk := { o.desk with now := o.desk.now + ms } }
  | .chain a collateral =>
      { o with
        desk := { o.desk with collateral := Function.update o.desk.collateral a collateral } }
  | .opened id => { o with desk := openAuction id o.desk }
  | .closed id =>
      { o with desk := { o.desk with activeAuctions := o.desk.activeAuctions.erase id } }
  | .released searcher id => { o with desk := release o.desk searcher id }

def turns (o : Office) (ts : List Turn) : Office := ts.foldl (turn cfg) o

end Turns

def idle (now : Int) (collateral : Address → Nat) : Office :=
  ⟨fresh now collateral, [], fun _ => none⟩

/-- A searcher and an opportunity. -/
def Request.key (r : Request) : AddressText × IdText :=
  (r.bid.searcher.toLowerCase, r.bid.opportunityId)

def Turn.key : Turn → Option (AddressText × IdText)
  | .arrive bid => some (bid.searcher.toLowerCase, bid.opportunityId)
  | _ => none

/-- A bid that has passed its check and is not on hold. -/
def Stage.isChecked : Stage → Bool
  | .deciding _ _ _ => true
  | .placing => true
  | _ => false

/-- No other bid of the searcher is between its check and its hold when a bid is
checked. -/
def Apart (o : Office) : Turn → Prop
  | .advance i _ => ∀ r, o.requests[i]? = some r → ∀ own needed c,
      r.stage = .exposing own needed c → ∀ r' ∈ o.requests,
        r'.bid.searcher.toLowerCase = r.bid.searcher.toLowerCase → r'.stage.isChecked = false
  | _ => True

def AllApart (cfg : Config) (o : Office) : List Turn → Prop
  | [] => True
  | t :: ts => Apart o t ∧ AllApart cfg (turn cfg o t) ts

section Fits

/-- Nothing is held yet for the bid. -/
def Unheld (d : Desk) (bid : Bid) : Prop :=
  d.holds.lookup (bid.searcher.toLowerCase, bid.opportunityId) = none

/-- What a handler knows is still true: after its check, the bid fits beside the holds. -/
def Fits (d : Desk) (bid : Bid) (read : Int) : Stage → Prop
  | .reading own needed => Unheld d bid ∧ own = 0 ∧ bid.bidWei = some needed
  | .exposing own needed c => Unheld d bid ∧ own = 0 ∧ bid.bidWei = some needed ∧ c = read
  | .deciding _ needed free => Unheld d bid ∧ bid.bidWei = some needed ∧
      free ≤ max 0 (read - d.held bid.searcher.toLowerCase)
  | .placing => Unheld d bid ∧
      Auction.amount bid ≤ max 0 (read - d.held bid.searcher.toLowerCase)
  | _ => True

variable {d d' : Desk} {bid : Bid} {read : Int} {s : Stage}

/-- Fewer holds do no harm; more do none to a bid that has not been checked. -/
theorem Fits.mono (h : Fits d bid read s) (hunheld : Unheld d bid → Unheld d' bid)
    (hheld : s.isChecked → d'.held bid.searcher.toLowerCase ≤ d.held bid.searcher.toLowerCase) :
    Fits d' bid read s := by
  cases s with
  | reading own needed => exact ⟨hunheld h.1, h.2⟩
  | exposing own needed c => exact ⟨hunheld h.1, h.2⟩
  | deciding own needed free =>
      have hle := hheld rfl
      obtain ⟨hnone, hneeded, hfree⟩ := h
      exact ⟨hunheld hnone, hneeded, hfree.trans (max_le_max (le_refl 0) (by omega))⟩
  | placing =>
      have hle := hheld rfl
      obtain ⟨hnone, hamount⟩ := h
      exact ⟨hunheld hnone, hamount.trans (max_le_max (le_refl 0) (by omega))⟩
  | explaining own needed c => trivial
  | refused why => trivial
  | accepted => trivial

end Fits

/-- What holds between turns. -/
structure Orderly (o : Office) : Prop where
  nonneg : ∀ k h, o.desk.holds.lookup k = some h → 0 ≤ h.wei
  asked : ∀ k h, o.desk.holds.lookup k = some h → k ∈ o.requests.map Request.key
  fits : ∀ r ∈ o.requests, Fits o.desk r.bid r.read r.stage
  alone : ∀ (i j : Nat) (r r' : Request), o.requests[i]? = some r → o.requests[j]? = some r' →
    r.stage.isChecked → r'.stage.isChecked →
    r.bid.searcher.toLowerCase = r'.bid.searcher.toLowerCase → i = j
  within : ∀ s, o.desk.held s ≤ (o.read s).getD 0

section Shrink

variable {o : Office} {d : Desk}

/-- Some holds are gone, nothing else has changed that matters. -/
structure Shrinks (d d' : Desk) : Prop where
  sub : ∀ k h, d'.holds.lookup k = some h → d.holds.lookup k = some h
  held : ∀ s, d'.held s ≤ d.held s

theorem Shrinks.unheld {d' : Desk} (h : Shrinks d d') {bid : Bid} (hnone : Unheld d bid) :
    Unheld d' bid := by
  cases hcase : d'.holds.lookup (bid.searcher.toLowerCase, bid.opportunityId) with
  | none => exact hcase
  | some v =>
      have hsome := h.sub _ v hcase
      rw [hnone] at hsome
      cases hsome

theorem Shrinks.of_eq {d' : Desk} (h : d'.holds = d.holds) : Shrinks d d' where
  sub := fun k v hk => h ▸ hk
  held := fun s => by rw [Desk.held, Desk.held, h]

theorem Shrinks.trans {d' d'' : Desk} (h : Shrinks d d') (h' : Shrinks d' d'') : Shrinks d d'' where
  sub := fun k v hk => h.sub k v (h'.sub k v hk)
  held := fun s => (h'.held s).trans (h.held s)

variable (hnonneg : ∀ k h, d.holds.lookup k = some h → 0 ≤ h.wei)

include hnonneg

theorem weiOf_nonneg (s : AddressText) {k : AddressText × IdText} {v : Hold}
    (hk : d.holds.lookup k = some v) : 0 ≤ weiOf s k v := by
  rw [weiOf]
  split
  · exact hnonneg k v hk
  · exact le_refl 0

theorem shrinks_heldBy (cfg : Config) (searcher : AddressText) :
    Shrinks d (heldBy cfg d searcher).2 where
  sub := fun k v hk => (Table.lookup_keep.mp hk).1
  held := fun s => by
    apply List.Sublist.sum_le_sum (List.filter_sublist.map _)
    intro x hx
    obtain ⟨e, he, rfl⟩ := List.mem_map.mp hx
    exact weiOf_nonneg hnonneg s (Table.mem_entries.mp he)

theorem shrinks_release (searcher : AddressText) (id : IdText) :
    Shrinks d (release d searcher id) where
  sub := fun k v hk => (Table.lookup_erase_iff.mp hk).2
  held := fun s => by
    have hrelease : (release d searcher id).held s =
        Table.sum (weiOf s) (d.holds.erase (searcher.toLowerCase, id)) := rfl
    rw [hrelease, Desk.held]
    cases hcase : d.holds.lookup (searcher.toLowerCase, id) with
    | none => exact (Table.sum_erase_none hcase).le
    | some v =>
        have hpos := weiOf_nonneg hnonneg s hcase
        rw [Table.sum_erase hcase]
        omega

end Shrink

section Turns

variable {cfg : Config} {o : Office}

theorem Orderly.shrinks (h : Orderly o) {d : Desk} (hd : Shrinks o.desk d) :
    Orderly { o with desk := d } where
  nonneg := fun k v hk => h.nonneg k v (hd.sub k v hk)
  asked := fun k v hk => h.asked k v (hd.sub k v hk)
  fits := fun r hr => (h.fits r hr).mono hd.unheld fun _ => hd.held _
  alone := h.alone
  within := fun s => (hd.held s).trans (h.within s)

/-- Handlers keep their bids. -/
theorem map_key_set {i : Nat} {r : Request} (hi : o.requests[i]? = some r) (s : Stage) (c : Int) :
    (o.requests.set i ⟨r.bid, s, c⟩).map Request.key = o.requests.map Request.key := by
  have hkey : Request.key ⟨r.bid, s, c⟩ = r.key := rfl
  apply List.ext_getElem?
  intro j
  rw [List.map_set, hkey]
  rcases eq_or_ne j i with rfl | hne
  · have hlt := (List.getElem?_eq_some_iff.mp hi).1
    rw [List.getElem?_set_self (by rw [List.length_map]; exact hlt), List.getElem?_map, hi,
      Option.map_some]
  · rw [List.getElem?_set_ne hne.symm]

/-- A turn of one handler: the others must still fit, and it may pass its check only if
no other bid of its searcher has. -/
theorem Orderly.set (h : Orderly o) {i : Nat} {r : Request} (hi : o.requests[i]? = some r)
    {d : Desk} {s : Stage} {c : Int} {read : AddressText → Option Int}
    (hnonneg : ∀ k h, d.holds.lookup k = some h → 0 ≤ h.wei)
    (hasked : ∀ k h, d.holds.lookup k = some h → k ∈ o.requests.map Request.key)
    (hnew : Fits d r.bid c s)
    (hothers : ∀ j r', j ≠ i → o.requests[j]? = some r' → Fits d r'.bid r'.read r'.stage)
    (hchecked : s.isChecked → r.stage.isChecked ∨ ∀ r' ∈ o.requests,
      r'.bid.searcher.toLowerCase = r.bid.searcher.toLowerCase → r'.stage.isChecked = false)
    (hwithin : ∀ s, d.held s ≤ (read s).getD 0) :
    Orderly ⟨d, o.requests.set i ⟨r.bid, s, c⟩, read⟩ := by
  have hget : ∀ {j r'}, (o.requests.set i ⟨r.bid, s, c⟩)[j]? = some r' →
      j = i ∧ r' = ⟨r.bid, s, c⟩ ∨ j ≠ i ∧ o.requests[j]? = some r' := by
    intro j r' hj
    rcases eq_or_ne j i with rfl | hne
    · have hlt := (List.getElem?_eq_some_iff.mp hi).1
      rw [List.getElem?_set_self hlt] at hj
      exact Or.inl ⟨rfl, (Option.some.inj hj).symm⟩
    · rw [List.getElem?_set_ne hne.symm] at hj
      exact Or.inr ⟨hne, hj⟩
  have hkeys := map_key_set hi s c
  refine ⟨hnonneg, ?_, ?_, ?_, hwithin⟩
  · intro k v hk
    rw [hkeys]
    exact hasked k v hk
  · intro r' hr'
    obtain ⟨j, hj⟩ := List.mem_iff_getElem?.mp hr'
    rcases hget hj with ⟨-, rfl⟩ | ⟨hne, hj⟩
    · exact hnew
    · exact hothers j r' hne hj
  · intro j k r₁ r₂ hj₀ hk₀ h₁ h₂ hsame
    -- a bid that has been checked before leaves no room for another
    have hclash : ∀ {j r'}, j ≠ i → o.requests[j]? = some r' → r'.stage.isChecked →
        s.isChecked → r'.bid.searcher.toLowerCase = r.bid.searcher.toLowerCase → False := by
      intro j r' hne hj hr' hs hlower
      rcases hchecked hs with hold | hfree
      · exact hne (h.alone j i r' r hj hi hr' hold hlower)
      · rw [hfree r' (List.mem_iff_getElem?.mpr ⟨j, hj⟩) hlower] at hr'
        cases hr'
    rcases hget hj₀ with ⟨rfl, rfl⟩ | ⟨hj', hj⟩
    · rcases hget hk₀ with ⟨rfl, rfl⟩ | ⟨hk', hk⟩
      · rfl
      · exact (hclash hk' hk h₂ h₁ hsame.symm).elim
    · rcases hget hk₀ with ⟨rfl, rfl⟩ | ⟨hk', hk⟩
      · exact (hclash hj' hj h₁ h₂ hsame).elim
      · exact h.alone j k r₁ r₂ hj hk h₁ h₂ hsame

/-- The same when some holds are gone. -/
theorem Orderly.set_shrinks (h : Orderly o) {i : Nat} {r : Request}
    (hi : o.requests[i]? = some r) {d : Desk} (hd : Shrinks o.desk d) {s : Stage} {c : Int}
    (hnew : Fits d r.bid c s)
    (hchecked : s.isChecked → r.stage.isChecked ∨ ∀ r' ∈ o.requests,
      r'.bid.searcher.toLowerCase = r.bid.searcher.toLowerCase → r'.stage.isChecked = false) :
    Orderly ⟨d, o.requests.set i ⟨r.bid, s, c⟩, o.read⟩ := by
  apply h.set hi (fun k v hk => h.nonneg k v (hd.sub k v hk))
    (fun k v hk => h.asked k v (hd.sub k v hk)) hnew _ hchecked
    (fun s => (hd.held s).trans (h.within s))
  intro j r' _ hj
  have hmem : r' ∈ o.requests := List.mem_iff_getElem?.mpr ⟨j, hj⟩
  exact (h.fits r' hmem).mono hd.unheld fun _ => hd.held _

/-- A bid that is put on hold still fits beside the holds that are there. -/
theorem Orderly.placed (h : Orderly o) (honce : (o.requests.map Request.key).Nodup) {i : Nat}
    {r : Request} (hi : o.requests[i]? = some r) (hstage : r.stage = .placing)
    {a a' : Auction.State} (htaken : Auction.submitBid r.bid a = .ok a') :
    Orderly ⟨hold { o.desk with
          activeAuctions := o.desk.activeAuctions.insert r.bid.opportunityId a' }
        r.bid.searcher r.bid.opportunityId (Auction.amount r.bid),
      o.requests.set i ⟨r.bid, .accepted, r.read⟩,
      Function.update o.read r.bid.searcher.toLowerCase (some r.read)⟩ := by
  have hmem : r ∈ o.requests := List.mem_iff_getElem?.mpr ⟨i, hi⟩
  have hpos := submitBid_pos htaken
  have hfits := h.fits r hmem
  rw [hstage] at hfits
  obtain ⟨hunheld, hroom⟩ := hfits
  have hnone : o.desk.holds.lookup r.key = none := hunheld
  generalize hd : hold { o.desk with
      activeAuctions := o.desk.activeAuctions.insert r.bid.opportunityId a' }
    r.bid.searcher r.bid.opportunityId (Auction.amount r.bid) = d
  have hholds : d.holds = o.desk.holds.insert r.key ⟨Auction.amount r.bid, o.desk.now⟩ := by
    rw [← hd]
    rfl
  have hheld : ∀ s, d.held s =
      (if r.key.1 = s then Auction.amount r.bid else 0) + o.desk.held s := by
    intro s
    rw [Desk.held, hholds, Table.sum_insert, Table.sum_erase_none hnone, weiOf]
    rfl
  have hlookup : ∀ {k v}, d.holds.lookup k = some v →
      k = r.key ∧ v = ⟨Auction.amount r.bid, o.desk.now⟩ ∨
        k ≠ r.key ∧ o.desk.holds.lookup k = some v := by
    intro k v hk
    rw [hholds] at hk
    exact Table.lookup_insert_iff.mp hk
  apply h.set hi
  · intro k v hk
    rcases hlookup hk with ⟨-, rfl⟩ | ⟨-, hold⟩
    · exact hpos.le
    · exact h.nonneg k v hold
  · intro k v hk
    rcases hlookup hk with ⟨rfl, -⟩ | ⟨-, hold⟩
    · exact List.mem_map_of_mem hmem
    · exact h.asked k v hold
  · trivial
  · intro j r' hne hj
    have hmem' : r' ∈ o.requests := List.mem_iff_getElem?.mpr ⟨j, hj⟩
    have hkey : r'.key ≠ r.key := by
      intro heq
      apply hne
      have hj' : (o.requests.map Request.key)[j]? = some r.key := by
        rw [List.getElem?_map, hj, Option.map_some, heq]
      have hi' : (o.requests.map Request.key)[i]? = some r.key := by
        rw [List.getElem?_map, hi, Option.map_some]
      have hlt := (List.getElem?_eq_some_iff.mp hj').1
      exact (List.getElem?_inj hlt honce).mp (hj'.trans hi'.symm)
    apply (h.fits r' hmem').mono
    · intro hunheld
      rw [Unheld, hholds]
      exact (AList.lookup_insert_ne hkey).trans hunheld
    · -- no other bid of this searcher has been checked
      intro hchecked
      have hother : r.key.1 ≠ r'.bid.searcher.toLowerCase := by
        intro hlower
        exact hne (h.alone j i r' r hj hi hchecked (by rw [hstage]; rfl) hlower.symm)
      rw [hheld, if_neg hother, Int.zero_add]
  · intro hchecked
    cases hchecked
  · intro s
    rw [hheld]
    rcases eq_or_ne s r.bid.searcher.toLowerCase with rfl | hs
    · have hkey : r.key.1 = r.bid.searcher.toLowerCase := rfl
      rw [Function.update_self, Option.getD_some, if_pos hkey]
      omega
    · rw [Function.update_of_ne hs, if_neg (fun heq => hs heq.symm), Int.zero_add]
      exact h.within s

/-- **One turn of a handler.** -/
theorem Orderly.advance (h : Orderly o) (honce : (o.requests.map Request.key).Nodup) {i : Nat}
    {r : Request} (hi : o.requests[i]? = some r) (reached : Bool)
    (hapart : Apart o (.advance i reached)) : Orderly (takeTurn cfg o i r reached) := by
  have hfits := h.fits r (List.mem_iff_getElem?.mpr ⟨i, hi⟩)
  have hprune := shrinks_heldBy h.nonneg cfg r.bid.searcher
  have hsame : Shrinks o.desk o.desk := Shrinks.of_eq rfl
  have hcached : ∀ cache, Shrinks o.desk { o.desk with cache := cache } :=
    fun _ => Shrinks.of_eq rfl
  -- stages that are no longer of interest
  have hdone : ∀ {d : Desk} {s : Stage} {c : Int}, Shrinks o.desk d → Fits d r.bid c s →
      s.isChecked = false → Orderly ⟨d, o.requests.set i ⟨r.bid, s, c⟩, o.read⟩ := by
    intro d s c hd hnew hs
    apply h.set_shrinks hi hd hnew
    intro hchecked
    rw [hs] at hchecked
    cases hchecked
  unfold takeTurn
  cases hstage : r.stage with
  | reading own needed =>
      rw [hstage] at hfits
      obtain ⟨c, cache, hread, -⟩ := readCollateral_spec o.desk r.bid.searcher reached
      simp only [Bonds.advance, hread, noted, reduceCtorEq, false_and, if_false]
      exact hdone (hcached cache) ⟨hfits.1, hfits.2.1, hfits.2.2, rfl⟩ rfl
  | exposing own needed c =>
      rw [hstage] at hfits
      obtain ⟨hunheld, rfl, hneeded, rfl⟩ := hfits
      have hfree := hapart r hi _ _ _ hstage
      have hvalue : (heldBy cfg o.desk r.bid.searcher).1 =
          (heldBy cfg o.desk r.bid.searcher).2.held r.bid.searcher.toLowerCase := rfl
      simp only [Bonds.advance, hvalue, noted, reduceCtorEq, false_and, if_false]
      apply h.set_shrinks hi hprune _ fun _ => Or.inr hfree
      refine ⟨hprune.unheld hunheld, hneeded, ?_⟩
      rw [Int.add_zero]
      split
      · exact le_max_right _ _
      · exact le_max_left _ _
  | deciding own needed free =>
      rw [hstage] at hfits
      obtain ⟨hunheld, hneeded, hroom⟩ := hfits
      have hamount : Auction.amount r.bid = needed := by
        rw [Auction.amount, hneeded, Option.getD_some]
      by_cases hless : free < needed
      · simp only [Bonds.advance, if_pos hless, noted, reduceCtorEq, false_and, if_false]
        exact hdone hsame trivial rfl
      · simp only [Bonds.advance, if_neg hless, noted, reduceCtorEq, false_and, if_false]
        apply h.set_shrinks hi hsame _ fun _ => Or.inl (by rw [hstage]; rfl)
        exact ⟨hunheld, hamount.trans_le ((not_lt.mp hless).trans hroom)⟩
  | explaining own needed c =>
      cases c with
      | some c =>
          simp only [Bonds.advance, noted, reduceCtorEq, false_and, if_false]
          exact hdone hprune trivial rfl
      | none =>
          obtain ⟨c, cache, hread, -⟩ := readCollateral_spec o.desk r.bid.searcher reached
          simp only [Bonds.advance, hread, noted, reduceCtorEq, false_and, if_false]
          have hprune' := shrinks_heldBy (d := { o.desk with cache := cache }) h.nonneg cfg
            r.bid.searcher
          exact hdone ((hcached cache).trans hprune') trivial rfl
  | placing =>
      cases hlookup : o.desk.activeAuctions.lookup r.bid.opportunityId with
      | none =>
          simp only [Bonds.advance, place, hlookup, noted, reduceCtorEq, and_false, if_false]
          exact hdone hsame trivial rfl
      | some a =>
          cases htaken : Auction.submitBid r.bid a with
          | error why =>
              simp only [Bonds.advance, place, hlookup, htaken, noted, reduceCtorEq, and_false,
                if_false]
              exact hdone hsame trivial rfl
          | ok a' =>
              simp only [Bonds.advance, place, hlookup, htaken, noted, and_self, if_true]
              exact h.placed honce hi hstage htaken
  | refused why =>
      simp only [Bonds.advance, noted, reduceCtorEq, false_and, if_false]
      exact hdone hsame trivial rfl
  | accepted =>
      simp only [Bonds.advance, noted, reduceCtorEq, false_and, if_false]
      exact hdone hsame trivial rfl

/-- A bid for an opportunity that its searcher has not bid for. -/
theorem Orderly.arrive (h : Orderly o) {bid : Bid}
    (hfirst : (bid.searcher.toLowerCase, bid.opportunityId) ∉ o.requests.map Request.key) :
    Orderly (turn cfg o (.arrive bid)) := by
  have hunheld : Unheld o.desk bid := by
    cases hcase : o.desk.holds.lookup (bid.searcher.toLowerCase, bid.opportunityId) with
    | none => exact hcase
    | some v => exact absurd (h.asked _ v hcase) hfirst
  have hown : own o.desk bid = 0 := by
    rw [own, hunheld]
    rfl
  have hnew : Fits o.desk bid (noted (Bonds.arrive cfg bid o.desk) 0)
      (Bonds.arrive cfg bid o.desk) ∧ (Bonds.arrive cfg bid o.desk).isChecked = false := by
    unfold Bonds.arrive
    split
    · exact ⟨trivial, rfl⟩
    split
    · exact ⟨trivial, rfl⟩
    split
    · exact ⟨trivial, rfl⟩
    next needed hneeded =>
    split
    · exact ⟨⟨hunheld, hown, hneeded, rfl⟩, rfl⟩
    · exact ⟨⟨hunheld, hown, hneeded⟩, rfl⟩
  have hget : ∀ {j : Nat} {r' : Request}, (o.requests ++ [⟨bid, Bonds.arrive cfg bid o.desk,
      noted (Bonds.arrive cfg bid o.desk) 0⟩])[j]? = some r' → r'.stage.isChecked →
      o.requests[j]? = some r' := by
    intro j r' hj hchecked
    rcases List.mem_append.mp (List.mem_iff_getElem?.mpr ⟨j, hj⟩) with _ | hlast
    · rcases lt_or_ge j o.requests.length with hlt | hge
      · rwa [List.getElem?_append_left hlt] at hj
      · rw [List.getElem?_append_right hge] at hj
        have hr' := List.mem_singleton.mp (List.mem_iff_getElem?.mpr ⟨_, hj⟩)
        rw [hr', hnew.2] at hchecked
        cases hchecked
    · rw [List.mem_singleton.mp hlast, hnew.2] at hchecked
      cases hchecked
  refine ⟨h.nonneg, ?_, ?_, ?_, h.within⟩
  · intro k v hk
    change k ∈ (o.requests ++ [_]).map Request.key
    rw [List.map_append]
    exact List.mem_append_left _ (h.asked k v hk)
  · intro r hr
    rcases List.mem_append.mp hr with hr | hr
    · exact h.fits r hr
    · rw [List.mem_singleton.mp hr]
      exact hnew.1
  · intro i j r r' hi hj hr hr' hsame
    exact h.alone i j r r' (hget hi hr) (hget hj hr') hr hr' hsame

/-- **One turn.** -/
theorem Orderly.turn (h : Orderly o) (honce : (o.requests.map Request.key).Nodup) (t : Turn)
    (hfirst : ∀ k, t.key = some k → k ∉ o.requests.map Request.key) (hapart : Apart o t) :
    Orderly (turn cfg o t) ∧ (Bonds.turn cfg o t).requests.map Request.key =
      o.requests.map Request.key ++ t.key.toList := by
  have hnothing : o.requests.map Request.key = o.requests.map Request.key ++ [] := by simp
  cases t with
  | arrive bid =>
      refine ⟨h.arrive (hfirst _ rfl), ?_⟩
      simp [Bonds.turn, Turn.key, Request.key]
  | advance i reached =>
      cases hi : o.requests[i]? with
      | none =>
          simp only [Bonds.turn, hi]
          exact ⟨h, hnothing⟩
      | some r =>
          simp only [Bonds.turn, hi]
          exact ⟨h.advance honce hi reached hapart, (map_key_set hi _ _).trans hnothing⟩
  | wait ms => exact ⟨h.shrinks (Shrinks.of_eq rfl), hnothing⟩
  | chain a collateral => exact ⟨h.shrinks (Shrinks.of_eq rfl), hnothing⟩
  | opened id =>
      refine ⟨h.shrinks (Shrinks.of_eq ?_), hnothing⟩
      unfold openAuction
      split <;> rfl
  | closed id => exact ⟨h.shrinks (Shrinks.of_eq rfl), hnothing⟩
  | released searcher id => exact ⟨h.shrinks (shrinks_release h.nonneg searcher id), hnothing⟩

/-- **Any number of turns.** -/
theorem Orderly.turns (ts : List Turn) : ∀ {o : Office}, Orderly o →
    (o.requests.map Request.key ++ ts.filterMap Turn.key).Nodup → AllApart cfg o ts →
      Orderly (turns cfg o ts) := by
  induction ts with
  | nil => exact fun h _ _ => h
  | cons t ts ih =>
      intro o h honce hapart
      have hcons : (t :: ts).filterMap Turn.key = t.key.toList ++ ts.filterMap Turn.key := by
        rw [List.filterMap_cons]
        cases t.key <;> rfl
      rw [hcons, ← List.append_assoc] at honce
      obtain ⟨hsofar, -, -⟩ := List.nodup_append.mp honce
      obtain ⟨hold, -, hdisjoint⟩ := List.nodup_append.mp hsofar
      have hfirst : ∀ k, t.key = some k → k ∉ o.requests.map Request.key := by
        intro k hk hmem
        exact hdisjoint k hmem k (by rw [hk]; exact List.mem_singleton.mpr rfl) rfl
      obtain ⟨hnext, hkeys⟩ := h.turn hold t hfirst hapart.1
      exact ih hnext (hkeys ▸ honce) hapart.2

end Turns

theorem orderly_idle (now : Int) (collateral : Address → Nat) :
    Orderly (idle now collateral) where
  nonneg := fun _ _ h => by cases h
  asked := fun _ _ h => by cases h
  fits := fun _ h => by cases h
  alone := fun _ _ _ _ h => by cases h
  within := fun _ => le_refl 0

/-- **One bond backs one win**, in any order of the handlers' steps, as long as no bid
is checked while another of its searcher is between its check and its hold.  A searcher
bids once for an opportunity. -/
theorem held_within_collateral (cfg : Config) (now : Int) (collateral : Address → Nat)
    (ts : List Turn) (honce : (ts.filterMap Turn.key).Nodup)
    (hapart : AllApart cfg (idle now collateral) ts) (s : AddressText) :
    (turns cfg (idle now collateral) ts).desk.held s ≤
      ((turns cfg (idle now collateral) ts).read s).getD 0 :=
  (Orderly.turns ts (orderly_idle now collateral) honce hapart).within s

theorem held_within_collateral_sample :
    let ts : List Turn := [.opened (.name "a"), .arrive (bidOf 1 "a" 70), .advance 0 true,
      .advance 0 true]
    AllApart defaults (idle 0 fun _ => 100) ts ∧
      (turns defaults (idle 0 fun _ => 100) ts).desk.held (.digits 1 .lower) ≤
        ((turns defaults (idle 0 fun _ => 100) ts).read (.digits 1 .lower)).getD 0 := by
  intro ts
  have hapart : AllApart defaults (idle 0 fun _ => 100) ts := by
    refine ⟨trivial, trivial, ?_, ?_, trivial⟩
    · intro r hr own needed c hs
      cases hr
      cases hs
    · intro r _ own needed c _ r' hr' _
      rw [List.mem_singleton.mp hr']
      rfl
  exact ⟨hapart, held_within_collateral defaults 0 (fun _ => 100) ts (by decide) hapart _⟩

/-- Two bids of 100 wei with 100 wei of collateral: both are checked before either is
on hold. -/
theorem bond_held_twice :
    let ts : List Turn := [.opened (.name "a"), .opened (.name "b"),
      .arrive (bidOf 1 "a" 100), .arrive (bidOf 1 "b" 100),
      .advance 0 true, .advance 1 true, .advance 0 true, .advance 1 true,
      .advance 0 true, .advance 1 true, .advance 0 true, .advance 1 true]
    (ts.filterMap Turn.key).Nodup ∧
      (turns defaults (idle 0 fun _ => 100) ts).read (.digits 1 .lower) = some 100 ∧
      (turns defaults (idle 0 fun _ => 100) ts).desk.held (.digits 1 .lower) = 200 := by
  decide +kernel

end Bonds

end Ordo
