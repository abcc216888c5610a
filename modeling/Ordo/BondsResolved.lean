import Ordo.BidOrigins
import Ordo.Guarded

/-!
# Holds after an auction is resolved

When an auction is resolved its losers' holds are given up, and the winner's is narrowed
to the clearing price and kept until the attempt to settle is over.  The loop goes over
the bids in the order they came and compares the letters of `searcher`; the holds are
kept under small letters.  So of a searcher's bids the last one decides.

Handlers of other bids go on meanwhile, from one `await` to the next, and drop what has
outlived its time.
-/

namespace Ordo

namespace Bonds

/-- The winner's hold is the clearing price, and no one else has one. -/
def Narrowed (id : IdText) (out : Auction.Outcome) (d : Desk) : Prop :=
  ∀ s, (d.holds.lookup (s, id)).map (·.wei) =
    if out.winner.map (·.searcher.toLowerCase) = some s then some out.clearingPriceWei else none

/-- The bids of one account. -/
def bidsOf (s : AddressText) (bids : List Bid) : List Bid :=
  bids.filter (·.searcher.toLowerCase = s)

/-- The account's last bid is spelled as its winning one. -/
def SpelledLast (bids : List Bid) (winner : Bid) : Prop :=
  (bidsOf winner.searcher.toLowerCase bids).getLast?.map (·.searcher) = some winner.searcher

/-- The handler is about to add up a searcher's holds. -/
def Stage.isSumming : Stage → Bool
  | .exposing _ _ _ => true
  | .explaining _ _ _ => true
  | _ => false

/-- Holds are not added up once those of `since` have outlived their time. -/
def InTime (cfg : Config) (since : Int) (o : Service) : Action → Prop
  | .advance i _ => ∀ r, o.requests[i]? = some r → r.2.isSumming →
      o.desk.now - since ≤ cfg.holdTtlMs
  | _ => True

section Loop

variable (id : IdText) (out : Auction.Outcome)

/-- Of the bids of one account the last decides. -/
theorem lookup_narrow (s : AddressText) (d : Desk) (bids : List Bid) :
    (bids.foldl (narrow id out) d).holds.lookup (s, id) =
      match (bidsOf s bids).getLast? with
      | none => d.holds.lookup (s, id)
      | some b =>
          if out.winner.map (·.searcher) = some b.searcher
          then some ⟨out.clearingPriceWei, d.now⟩ else none := by
  induction bids using List.reverseRecOn with
  | nil => rfl
  | append_singleton bids b ih =>
      obtain ⟨holds, hfold, -, -, -⟩ := narrow_run id out bids d
      rw [List.foldl_append, List.foldl_cons, List.foldl_nil, bidsOf, List.filter_append]
      by_cases hs : b.searcher.toLowerCase = s
      · rw [List.filter_cons_of_pos (by simpa using hs), List.filter_nil, List.getLast?_concat,
          hfold, narrow]
        subst hs
        by_cases hwon : out.winner.map (·.searcher) = some b.searcher
        · rw [if_pos hwon]
          simp only [if_pos hwon]
          exact AList.lookup_insert _
        · rw [if_neg hwon]
          simp only [if_neg hwon]
          exact AList.lookup_erase _ _
      · rw [List.filter_cons_of_neg (by simpa using hs), List.filter_nil, List.append_nil]
        refine Eq.trans ?_ ih
        have hne : (s, id) ≠ (b.searcher.toLowerCase, id) :=
          fun heq => hs (Prod.mk.inj heq).1.symm
        rw [narrow]
        split
        · exact AList.lookup_insert_ne hne
        · exact AList.lookup_erase_ne hne

end Loop

/-- Holds are for bids of auctions that are open, or for charges. -/
structure Owned (d : Desk) : Prop where
  asked : ∀ s id h, d.holds.lookup (s, id) = some h →
    (∃ a, d.activeAuctions.lookup id = some a ∧ ∃ b ∈ a.bids, b.searcher.toLowerCase = s) ∨
      id ∈ d.charges.map (·.opportunityId)
  resolved : ∀ c ∈ d.charges, d.activeAuctions.lookup c.opportunityId = none
  bid_pos : ∀ id a, d.activeAuctions.lookup id = some a → ∀ b ∈ a.bids, 0 < Auction.amount b

section Handlers

variable {cfg : Config}

/-- What a handler does to the desk until its next `await`. -/
inductive Moved (cfg : Config) (bid : Bid) (d : Desk) (s : Stage) : Desk → Prop
  | same (cache : AddressText → Option Cached) (hs : s.isSumming = false) :
      Moved cfg bid d s { d with cache := cache }
  | summed (cache : AddressText → Option Cached) (hs : s.isSumming) :
      Moved cfg bid d s
        { d with cache := cache, holds := d.holds.keep fun _ h => isLive cfg d h }
  | placed {a a' : Auction.State} (hs : s.isSumming = false)
      (hlookup : d.activeAuctions.lookup bid.opportunityId = some a)
      (htaken : Auction.submitBid bid a = .ok a') :
      Moved cfg bid d s
        (hold { d with activeAuctions := d.activeAuctions.insert bid.opportunityId a' }
          bid.searcher bid.opportunityId (Auction.amount bid))

theorem moved_advance (bid : Bid) (d : Desk) (s : Stage) (reached : Bool) :
    Moved cfg bid d s (advance cfg reached bid d s).1 := by
  cases s with
  | reading own needed =>
      obtain ⟨c, cache, hread, -⟩ := readCollateral_spec d bid.searcher reached
      simp only [advance, hread]
      exact .same cache rfl
  | exposing own needed c => exact .summed d.cache rfl
  | deciding own needed free =>
      rw [advance]
      split
      · exact .same d.cache rfl
      · exact .same d.cache rfl
  | explaining own needed c =>
      cases c with
      | some c => exact .summed d.cache rfl
      | none =>
          obtain ⟨c, cache, hread, -⟩ := readCollateral_spec d bid.searcher reached
          simp only [advance, hread]
          exact .summed cache rfl
  | placing =>
      rw [advance, place]
      split
      · exact .same d.cache rfl
      next a hlookup =>
        split
        · exact .same d.cache rfl
        next a' htaken => exact .placed rfl hlookup htaken
  | refused why => exact .same d.cache rfl
  | accepted => exact .same d.cache rfl

end Handlers

section Owners

variable {cfg : Config} {engine : Engine} {d d' : Desk}

/-- Fewer holds have owners too. -/
theorem Owned.sub (h : Owned d)
    (hholds : ∀ k v, d'.holds.lookup k = some v → ∃ v', d.holds.lookup k = some v')
    (hactive : d'.activeAuctions = d.activeAuctions)
    (hcharges : d'.charges.map (·.opportunityId) = d.charges.map (·.opportunityId)) :
    Owned d' where
  asked := fun s id v hv => by
    obtain ⟨v', hv'⟩ := hholds _ v hv
    rw [hactive, hcharges]
    exact h.asked s id v' hv'
  resolved := fun c hc => by
    have hmem : c.opportunityId ∈ d.charges.map (·.opportunityId) :=
      hcharges ▸ List.mem_map_of_mem hc
    obtain ⟨c₀, hc₀, heq⟩ := List.mem_map.mp hmem
    rw [hactive, ← heq]
    exact h.resolved c₀ hc₀
  bid_pos := fun id a ha => h.bid_pos id a (hactive ▸ ha)

theorem Owned.moved (h : Owned d) {bid : Bid} {s : Stage} (hmoved : Moved cfg bid d s d') :
    Owned d' := by
  cases hmoved with
  | same cache hs => exact h.sub (fun k v hk => ⟨v, hk⟩) rfl rfl
  | summed cache hs => exact h.sub (fun k v hk => ⟨v, (Table.lookup_keep.mp hk).1⟩) rfl rfl
  | @placed a a' hs hlookup htaken =>
      have hpos := submitBid_pos htaken
      obtain ⟨-, -, rfl⟩ := Auction.submitBid_eq_ok htaken
      refine ⟨?_, ?_, ?_⟩
      · intro s id v hv
        rcases Table.lookup_insert_iff.mp hv with ⟨heq, -⟩ | ⟨-, hold⟩
        · obtain ⟨rfl, rfl⟩ := Prod.mk.inj heq
          exact Or.inl ⟨_, AList.lookup_insert _, bid,
            List.mem_append_right _ (List.mem_singleton.mpr rfl), rfl⟩
        rcases h.asked s id v hold with ⟨b, hb, other, hother, hlower⟩ | hcharged
        · rcases eq_or_ne id bid.opportunityId with rfl | hne
          · rw [hlookup] at hb
            cases hb
            exact Or.inl ⟨_, AList.lookup_insert _, other, List.mem_append_left _ hother, hlower⟩
          · exact Or.inl ⟨b, (AList.lookup_insert_ne hne).trans hb, other, hother, hlower⟩
        · exact Or.inr hcharged
      · intro c hc
        have hnone := h.resolved c hc
        have hne : c.opportunityId ≠ bid.opportunityId := by
          intro heq
          rw [heq, hlookup] at hnone
          cases hnone
        exact (AList.lookup_insert_ne hne).trans hnone
      · intro id b hb other hmem
        rcases Table.lookup_insert_iff.mp hb with ⟨rfl, rfl⟩ | ⟨-, hold⟩
        · rcases List.mem_append.mp hmem with hmem | hmem
          · exact h.bid_pos _ a hlookup other hmem
          · rw [List.mem_singleton.mp hmem]
            exact hpos
        · exact h.bid_pos id b hold other hmem

theorem Owned.opened (h : Owned d) (id : IdText) : Owned (openAuction id d) := by
  unfold openAuction
  split
  · exact h
  next hnew =>
  obtain ⟨hinactive, hcharges⟩ := not_or.mp hnew
  have hnone : d.activeAuctions.lookup id = none := by
    simpa using hinactive
  refine ⟨?_, ?_, ?_⟩
  · intro s id' v hv
    rcases h.asked s id' v hv with ⟨a, ha, hbid⟩ | hcharged
    · have hne : id' ≠ id := by
        rintro rfl
        rw [hnone] at ha
        cases ha
      exact Or.inl ⟨a, (AList.lookup_insert_ne hne).trans ha, hbid⟩
    · exact Or.inr hcharged
  · intro c hc
    have hne : c.opportunityId ≠ id := fun heq => hcharges (heq ▸ List.mem_map_of_mem hc)
    exact (AList.lookup_insert_ne hne).trans (h.resolved c hc)
  · intro id' a ha b hb
    rcases Table.lookup_insert_iff.mp ha with ⟨-, rfl⟩ | ⟨-, hold⟩
    · cases hb
    · exact h.bid_pos id' a hold b hb

theorem Owned.attempted (h : Owned d) (id : IdText) : Owned (attempt id d) := by
  unfold attempt
  split
  · exact h
  next c hfind =>
    refine h.sub ?_ rfl ?_
    · exact fun k v hk => ⟨v, (Table.lookup_erase_iff.mp hk).2⟩
    · apply map_change
      exact fun _ => rfl

theorem Owned.charged (h : Owned d) (id : IdText) : Owned (charge id d) := by
  unfold charge
  split
  · exact h
  next c hfind =>
    refine h.sub ?_ rfl ?_
    · exact fun k v hk => ⟨v, hk⟩
    · apply map_change
      exact fun _ => rfl

/-- An auction without bids has no winner, and only such a one. -/
theorem winner_eq_none {engine : Engine} {bids : List Bid} :
    (Auction.outcome engine bids).winner = none ↔ bids = [] := by
  have hperm := engine.sorted_perm Auction.amount bids
  rw [Auction.outcome]
  generalize engine.sorted Auction.amount bids = sorted at hperm ⊢
  rcases sorted with _ | ⟨b, _ | ⟨b', rest⟩⟩
  · exact iff_of_true rfl hperm.nil_eq.symm
  · refine iff_of_false (fun h => by cases h) fun hnil => ?_
    rw [hnil] at hperm
    cases hperm.eq_nil
  · refine iff_of_false (fun h => by cases h) fun hnil => ?_
    rw [hnil] at hperm
    cases hperm.eq_nil

/-- What is owed for an auction. -/
def owed (id : IdText) (out : Auction.Outcome) : List Charge :=
  (out.winner.map fun w => ⟨id, w.searcher, out.clearingPriceWei, false, false⟩).toList

/-- An open auction that is resolved. -/
theorem resolve_spec (engine : Engine) (h : Owned d) {id : IdText} {a : Auction.State}
    (ha : d.activeAuctions.lookup id = some a) : ∃ holds,
      a.bids.foldl (narrow id (Auction.outcome engine a.bids))
          { d with activeAuctions := d.activeAuctions.erase id } =
        { d with activeAuctions := d.activeAuctions.erase id, holds := holds } ∧
      resolve engine id d =
        { d with
          activeAuctions := d.activeAuctions.erase id
          holds := holds
          charges := d.charges ++ owed id (Auction.outcome engine a.bids) } ∧
      ∀ k : AddressText × IdText, k.2 ≠ id → holds.lookup k = d.holds.lookup k := by
  have hprice := fun winner => @clearing_le_topBid engine a.bids winner (h.bid_pos id a ha)
  rw [resolve, ha]
  dsimp only
  generalize Auction.outcome engine a.bids = out at hprice ⊢
  obtain ⟨holds, hfold, hother, -, -⟩ := narrow_run id out a.bids
    { d with activeAuctions := d.activeAuctions.erase id }
  refine ⟨holds, hfold, ?_, hother⟩
  simp only [hfold, owed]
  cases hwinner : out.winner with
  | none => simp only [Option.map_none, Option.toList_none, List.append_nil]
  | some winner =>
      obtain ⟨-, hpos, -⟩ := hprice winner hwinner
      simp only [if_neg (not_le.mpr hpos), Option.map_some, Option.toList_some]

/-- The holds of other auctions stay. -/
theorem lookup_resolve_other (h : Owned d) {id : IdText} {k : AddressText × IdText}
    (hk : k.2 ≠ id) : (resolve engine id d).holds.lookup k = d.holds.lookup k := by
  cases ha : d.activeAuctions.lookup id with
  | none => rw [resolve, ha]
  | some a =>
      obtain ⟨holds, -, heq, hother⟩ := resolve_spec engine h ha
      rw [heq]
      exact hother k hk

/-- The holds of the auction itself are as its bids' last ones say. -/
theorem lookup_resolve (engine : Engine) (h : Owned d) {id : IdText} {a : Auction.State}
    (ha : d.activeAuctions.lookup id = some a) (s : AddressText) :
    (resolve engine id d).holds.lookup (s, id) =
      (bidsOf s a.bids).getLast?.bind fun b =>
        if (Auction.outcome engine a.bids).winner.map (·.searcher) = some b.searcher
        then some ⟨(Auction.outcome engine a.bids).clearingPriceWei, d.now⟩ else none := by
  obtain ⟨holds, hfold, heq, -⟩ := resolve_spec engine h ha
  have hlookup := lookup_narrow id (Auction.outcome engine a.bids) s
    { d with activeAuctions := d.activeAuctions.erase id } a.bids
  rw [hfold] at hlookup
  rw [heq]
  refine hlookup.trans ?_
  cases hlast : (bidsOf s a.bids).getLast? with
  | some b => rfl
  | none =>
      -- no bid of the account, so nothing on hold for it
      change d.holds.lookup (s, id) = none
      cases hcase : d.holds.lookup (s, id) with
      | none => rfl
      | some v =>
          rcases h.asked s id v hcase with ⟨a', ha', b, hb, hlower⟩ | hcharged
          · rw [ha] at ha'
            cases ha'
            rw [List.getLast?_eq_none_iff] at hlast
            have hmem : b ∈ bidsOf s a.bids := List.mem_filter.mpr ⟨hb, by simpa using hlower⟩
            rw [hlast] at hmem
            cases hmem
          · obtain ⟨c, hc, heq⟩ := List.mem_map.mp hcharged
            have hnone := h.resolved c hc
            rw [heq, ha] at hnone
            cases hnone

theorem Owned.resolve (h : Owned d) (id : IdText) : Owned (resolve engine id d) := by
  cases ha : d.activeAuctions.lookup id with
  | none =>
      rw [Bonds.resolve, ha]
      exact h
  | some a =>
      have hown := fun s => lookup_resolve engine h ha s
      obtain ⟨holds, -, heq, hother⟩ := resolve_spec engine h ha
      rw [heq] at hown ⊢
      refine ⟨?_, ?_, ?_⟩
      · intro s id' v hv
        rw [List.map_append]
        rcases eq_or_ne id' id with rfl | hne
        · -- the winner's hold is for its charge
          refine Or.inr (List.mem_append_right _ ?_)
          have hv' := (hown s).symm.trans hv
          obtain ⟨b, -, hb⟩ := Option.bind_eq_some_iff.mp hv'
          rw [Option.ite_none_right_eq_some] at hb
          obtain ⟨w, hw, -⟩ := Option.map_eq_some_iff.mp hb.1
          rw [owed, hw]
          exact List.mem_singleton.mpr rfl
        · rcases h.asked s id' v ((hother (s, id') hne).symm.trans hv) with ⟨b, hb, hbid⟩ | hcharged
          · exact Or.inl ⟨b, (AList.lookup_erase_ne hne).trans hb, hbid⟩
          · exact Or.inr (List.mem_append_left _ hcharged)
      · intro c hc
        rcases List.mem_append.mp hc with hc | hc
        · exact Table.lookup_erase_none (h.resolved c hc) id
        · obtain ⟨w, -, rfl⟩ := Option.map_eq_some_iff.mp (Option.mem_toList.mp hc)
          exact AList.lookup_erase _ _
      · intro id' a' ha' b hb
        exact h.bid_pos id' a' (Table.lookup_erase_iff.mp ha').2 b hb

/-- **One act.** -/
theorem Owned.act {o : Service} (h : Owned o.desk) (e : Action) :
    Owned (act cfg engine o e).desk := by
  cases e with
  | message bid => exact h
  | wait ms => exact h.sub (fun k v hk => ⟨v, hk⟩) rfl rfl
  | chain a collateral => exact h.sub (fun k v hk => ⟨v, hk⟩) rfl rfl
  | opened id => exact h.opened id
  | resolved id => exact h.resolve id
  | attempted id => exact h.attempted id
  | charged id => exact h.charged id
  | advance i reached =>
      cases hi : o.requests[i]? with
      | none =>
          simp only [Bonds.act, hi]
          exact h
      | some r =>
          simp only [Bonds.act, hi]
          exact h.moved (moved_advance r.1 o.desk r.2 reached)

end Owners

section After

variable {cfg : Config} {engine : Engine} {id : IdText} {out : Auction.Outcome} {since : Int}
  {d d' : Desk} {o : Service}

/-- What a resolution at a time `since` is to leave on hold. -/
def leftOnHold (out : Auction.Outcome) (since : Int) (s : AddressText) : Option Hold :=
  if out.winner.map (·.searcher.toLowerCase) = some s then some ⟨out.clearingPriceWei, since⟩
  else none

/-- The auction is over and its holds are as its resolution is to leave them. -/
structure After (id : IdText) (out : Auction.Outcome) (since : Int) (d : Desk) : Prop where
  lookup : ∀ s, d.holds.lookup (s, id) = leftOnHold out since s
  inactive : d.activeAuctions.lookup id = none

theorem After.narrowed (h : After id out since d) : Narrowed id out d := by
  intro s
  rw [h.lookup, leftOnHold]
  split <;> rfl

/-- What neither these holds nor this auction are changed by. -/
theorem After.congr (h : After id out since d)
    (hholds : ∀ s, d'.holds.lookup (s, id) = d.holds.lookup (s, id))
    (hactive : d'.activeAuctions.lookup id = d.activeAuctions.lookup id) :
    After id out since d' :=
  ⟨fun s => (hholds s).trans (h.lookup s), hactive.trans h.inactive⟩

/-- Holds that are in time are kept when holds are added up. -/
theorem After.moved (h : After id out since d) {bid : Bid} {s : Stage}
    (hmoved : Moved cfg bid d s d')
    (htime : ∀ winner, out.winner = some winner → s.isSumming → d.now - since ≤ cfg.holdTtlMs) :
    After id out since d' := by
  cases hmoved with
  | same cache hs => exact h.congr (fun _ => rfl) rfl
  | summed cache hs =>
      refine ⟨fun s' => ?_, h.inactive⟩
      apply Option.ext
      intro v
      rw [Table.lookup_keep, h.lookup]
      refine ⟨And.left, fun hv => ⟨hv, ?_⟩⟩
      rw [leftOnHold, Option.ite_none_right_eq_some] at hv
      obtain ⟨w, hw, -⟩ := Option.map_eq_some_iff.mp hv.1
      obtain rfl := Option.some.inj hv.2
      simpa [isLive] using htime w hw hs
  | @placed a a' hs hlookup htaken =>
      have hne : bid.opportunityId ≠ id := by
        rintro rfl
        rw [h.inactive] at hlookup
        cases hlookup
      apply h.congr
      · exact fun s' => AList.lookup_insert_ne fun heq => hne (Prod.mk.inj heq).2.symm
      · exact AList.lookup_insert_ne hne.symm

/-- Once they have outlived their time, adding up drops the winner's. -/
theorem After.dropped (h : After id out since d) {bid : Bid} {s : Stage} {winner : Bid}
    (hmoved : Moved cfg bid d s d') (hwinner : out.winner = some winner) (hs : s.isSumming)
    (hlate : ¬ d.now - since ≤ cfg.holdTtlMs) : ¬ Narrowed id out d' := by
  have hfound := h.lookup winner.searcher.toLowerCase
  rw [leftOnHold, hwinner, Option.map_some, if_pos rfl] at hfound
  cases hmoved with
  | same cache hs' =>
      rw [hs] at hs'
      cases hs'
  | placed hs' _ _ =>
      rw [hs] at hs'
      cases hs'
  | summed cache hs' =>
      intro hnarrowed
      have hheld := hnarrowed winner.searcher.toLowerCase
      rw [hwinner, Option.map_some, if_pos rfl] at hheld
      obtain ⟨v, hv, -⟩ := Option.map_eq_some_iff.mp hheld
      obtain ⟨hold, hlive⟩ := Table.lookup_keep.mp hv
      obtain rfl := Option.some.inj (hfound.symm.trans hold)
      apply hlate
      simpa [isLive] using hlive

/-- What is done for another auction. -/
theorem After.other (h : After id out since d) (id' : IdText) (hne : id' ≠ id) :
    After id out since (openAuction id' d) ∧ After id out since (attempt id' d) := by
  constructor
  · unfold openAuction
    split
    · exact h
    · exact h.congr (fun _ => rfl) (AList.lookup_insert_ne hne.symm)
  · unfold attempt
    split
    · exact h
    · apply h.congr
      · exact fun s => AList.lookup_erase_ne fun heq => hne (Prod.mk.inj heq).2.symm
      · rfl

/-- Resolutions, also one of the auction itself, as it is no longer there. -/
theorem After.resolve (h : After id out since d) (id' : IdText) :
    After id out since (resolve engine id' d) := by
  unfold Bonds.resolve
  split
  · exact h
  next a ha =>
    have hne : id' ≠ id := by
      rintro rfl
      rw [h.inactive] at ha
      cases ha
    obtain ⟨holds, hfold, hother, -, -⟩ := narrow_run id' (Auction.outcome engine a.bids) a.bids
      { d with activeAuctions := d.activeAuctions.erase id' }
    have hrest : After id out since
        { d with activeAuctions := d.activeAuctions.erase id', holds := holds } :=
      h.congr (fun s => hother (s, id) hne.symm) (AList.lookup_erase_ne hne.symm)
    simp only [hfold]
    split
    · exact hrest
    · split
      · exact hrest
      · exact hrest.congr (fun _ => rfl) rfl

theorem After.charge (h : After id out since d) (id' : IdText) :
    After id out since (charge id' d) := by
  unfold Bonds.charge
  split
  · exact h
  · exact h.congr (fun _ => rfl) rfl

/-- The auction's id is not used again, and the attempt to settle is not over. -/
def Pending (id : IdText) (_ : Service) (e : Action) : Prop := e ≠ .opened id ∧ e ≠ .attempted id

/-- **One act after the resolution** keeps its holds if it is in time. -/
theorem After.act (h : After id out since o.desk) {e : Action} (hpending : Pending id o e)
    (htime : ∀ winner, out.winner = some winner → InTime cfg since o e) :
    After id out since (act cfg engine o e).desk := by
  cases e with
  | message bid => exact h
  | wait ms => exact h.congr (fun _ => rfl) rfl
  | chain a collateral => exact h.congr (fun _ => rfl) rfl
  | opened id' => exact (h.other id' fun heq => hpending.1 (heq ▸ rfl)).1
  | resolved id' => exact h.resolve id'
  | attempted id' => exact (h.other id' fun heq => hpending.2 (heq ▸ rfl)).2
  | charged id' => exact h.charge id'
  | advance i reached =>
      cases hi : o.requests[i]? with
      | none =>
          simp only [Bonds.act, hi]
          exact h
      | some r =>
          simp only [Bonds.act, hi]
          exact h.moved (moved_advance r.1 o.desk r.2 reached)
            fun winner hwinner hs => htime winner hwinner r hi hs

/-- And only then. -/
theorem After.narrowed_act_iff (h : After id out since o.desk) {e : Action}
    (hpending : Pending id o e) : Narrowed id out (Bonds.act cfg engine o e).desk ↔
      ∀ winner, out.winner = some winner → InTime cfg since o e := by
  refine ⟨fun hnarrowed winner hwinner => ?_, fun htime => (h.act hpending htime).narrowed⟩
  cases e with
  | message bid => trivial
  | wait ms => trivial
  | chain a collateral => trivial
  | opened id' => trivial
  | resolved id' => trivial
  | attempted id' => trivial
  | charged id' => trivial
  | advance i reached =>
      intro r hi hs
      by_contra hlate
      simp only [Bonds.act, hi] at hnarrowed
      exact h.dropped (moved_advance r.1 o.desk r.2 reached) hwinner hs hlate hnarrowed

end After

section Resolution

variable {cfg : Config} {engine : Engine} {d : Desk} {id : IdText} {a : Auction.State}

/-- What a resolution leaves on hold is right only if the winner's last bid is spelled as
its winning one. -/
theorem spelledLast_of_narrowed (h : Owned d) (ha : d.activeAuctions.lookup id = some a)
    (hnarrowed : Narrowed id (Auction.outcome engine a.bids) (resolve engine id d))
    {winner : Bid} (hwinner : (Auction.outcome engine a.bids).winner = some winner) :
    SpelledLast a.bids winner := by
  have hheld := hnarrowed winner.searcher.toLowerCase
  rw [lookup_resolve engine h ha, hwinner, Option.map_some, if_pos (by rfl)] at hheld
  obtain ⟨v, hv, -⟩ := Option.map_eq_some_iff.mp hheld
  obtain ⟨b, hlast, hb⟩ := Option.bind_eq_some_iff.mp hv
  rw [Option.ite_none_right_eq_some] at hb
  rw [SpelledLast, hlast]
  exact hb.1.symm

/-- And then it is. -/
theorem after_resolve (h : Owned d) (ha : d.activeAuctions.lookup id = some a)
    (hspelled : ∀ winner, (Auction.outcome engine a.bids).winner = some winner →
      SpelledLast a.bids winner) :
    After id (Auction.outcome engine a.bids) d.now (resolve engine id d) := by
  have hlookup := fun s => lookup_resolve engine h ha s
  have hinactive : (resolve engine id d).activeAuctions.lookup id = none := by
    obtain ⟨holds, -, heq, -⟩ := resolve_spec engine h ha
    rw [heq]
    exact AList.lookup_erase _ _
  generalize Auction.outcome engine a.bids = out at hlookup hspelled ⊢
  refine ⟨fun s => ?_, hinactive⟩
  rw [hlookup, leftOnHold]
  cases hwinner : out.winner with
  | none =>
      cases (bidsOf s a.bids).getLast? with
      | none => rfl
      | some b => rfl
  | some winner =>
      have hlast := hspelled winner hwinner
      rcases eq_or_ne winner.searcher.toLowerCase s with rfl | hne
      · obtain ⟨b, hb, heq⟩ := Option.map_eq_some_iff.mp hlast
        rw [hb, Option.bind_some, heq, Option.map_some, if_pos rfl, Option.map_some, if_pos rfl]
      · -- another account's last bid is not spelled so
        rw [Option.map_some, Option.map_some, if_neg (fun heq => hne (Option.some.inj heq))]
        cases hb : (bidsOf s a.bids).getLast? with
        | none => rfl
        | some b =>
            have hmem := (List.mem_filter.mp (List.mem_of_getLast? hb)).2
            have hlower : b.searcher.toLowerCase = s := by simpa using hmem
            rw [Option.bind_some, if_neg]
            intro heq
            exact hne (by rw [Option.some.inj heq, hlower])

end Resolution

theorem owned_started (now : Int) (collateral : Address → Nat) :
    Owned (started now collateral).desk where
  asked := fun _ _ _ h => by cases h
  resolved := fun _ h => by cases h
  bid_pos := fun _ _ h => by cases h

/-- **Any number of acts.** -/
theorem owned_run (cfg : Config) (engine : Engine) (acts : List Action) :
    ∀ {o : Service}, Owned o.desk → Owned (acts.foldl (act cfg engine) o).desk := by
  induction acts with
  | nil => exact fun h => h
  | cons e acts ih => exact fun h => ih (h.act e)

/-- **Holds after a resolution.**  An auction is resolved in any state that the desk comes
to.  Until the attempt to settle is over its winner has the clearing price on hold and no
one else has a hold for it, and the holds for others stay as they are, if and only if the
winner's last bid is spelled as its winning one and no handler adds up holds once this
one has outlived its time. -/
theorem holds_after_iff (cfg : Config) (engine : Engine) (now : Int)
    (collateral : Address → Nat) (before after : List Action) (id : IdText) (a : Auction.State)
    (ha : (before.foldl (act cfg engine) (started now collateral)).desk.activeAuctions.lookup id =
      some a)
    (hpending : Action.opened id ∉ after ∧ Action.attempted id ∉ after) :
    let o := before.foldl (act cfg engine) (started now collateral)
    let out := Auction.outcome engine a.bids
    ((∀ pre post, after = pre ++ post → Narrowed id out
          (pre.foldl (act cfg engine) (act cfg engine o (.resolved id))).desk) ∧
        ∀ k : AddressText × IdText, k.2 ≠ id →
          (act cfg engine o (.resolved id)).desk.holds.lookup k = o.desk.holds.lookup k) ↔
      ∀ winner, out.winner = some winner → SpelledLast a.bids winner ∧
        Guarded.Along (act cfg engine) (InTime cfg o.desk.now)
          (act cfg engine o (.resolved id)) after := by
  intro o out
  have howned : Owned o.desk := owned_run cfg engine before (owned_started now collateral)
  have hother : ∀ k : AddressText × IdText, k.2 ≠ id →
      (act cfg engine o (.resolved id)).desk.holds.lookup k = o.desk.holds.lookup k :=
    fun k hk => lookup_resolve_other howned hk
  have halong : Guarded.Along (act cfg engine) (Pending id)
      (act cfg engine o (.resolved id)) after := by
    rintro pre e post rfl
    constructor
    · rintro rfl
      exact hpending.1 (List.mem_append_right _ List.mem_cons_self)
    · rintro rfl
      exact hpending.2 (List.mem_append_right _ List.mem_cons_self)
  have hthroughout : (∀ pre post, after = pre ++ post → Narrowed id out
        (pre.foldl (act cfg engine) (act cfg engine o (.resolved id))).desk) ↔
      Narrowed id out (act cfg engine o (.resolved id)).desk ∧
        Guarded.Along (act cfg engine) (fun o e => Narrowed id out (act cfg engine o e).desk)
          (act cfg engine o (.resolved id)) after :=
    @Guarded.throughout_iff _ _ _ _ _ fun o : Service => Narrowed id out o.desk
  rw [and_iff_left hother, hthroughout]
  -- the same of the run, once the resolution has left what it should
  have hrun : After id out o.desk.now (act cfg engine o (.resolved id)).desk →
      (Guarded.Along (act cfg engine)
          (fun o e => Narrowed id out (act cfg engine o e).desk)
          (act cfg engine o (.resolved id)) after ↔
        Guarded.Along (act cfg engine)
          (fun o' e => ∀ winner, out.winner = some winner → InTime cfg o.desk.now o' e)
          (act cfg engine o (.resolved id)) after) := by
    have hkeeps : ∀ (o' : Service) (e : Action), After id out o.desk.now o'.desk →
        Pending id o' e → (∀ winner, out.winner = some winner → InTime cfg o.desk.now o' e) →
          After id out o.desk.now (act cfg engine o' e).desk :=
      fun _ _ h hnow htime => h.act hnow htime
    exact Guarded.along_iff_of halong hkeeps fun _ _ h hnow => h.narrowed_act_iff hnow
  constructor
  · rintro ⟨hnarrowed, hsteps⟩ winner hwinner
    have hspelled : ∀ winner, out.winner = some winner → SpelledLast a.bids winner :=
      fun winner hw => spelledLast_of_narrowed howned ha hnarrowed hw
    have hlater := (hrun (after_resolve howned ha hspelled)).mp hsteps
    exact ⟨hspelled winner hwinner, fun pre e post hsplit =>
      hlater pre e post hsplit winner hwinner⟩
  · intro hmeets
    have hafter := after_resolve howned ha fun winner hw => (hmeets winner hw).1
    refine ⟨hafter.narrowed, (hrun hafter).mpr ?_⟩
    exact fun pre e post hsplit winner hw => (hmeets winner hw).2 pre e post hsplit

/-- The bid of an account whose text has capitals. -/
def capitals (bid : Bid) : Bid :=
  { bid with
    searcher :=
      match bid.searcher with
      | .digits a _ => .digits a .checksum
      | .other text => .other text }

/-- A handler that runs through. -/
def through (i : Nat) (bid : Bid) : List Action :=
  .message bid :: List.replicate 4 (.advance i true)

theorem holds_after_sample :
    let o := (.opened (.name "a") :: through 0 (bidOf 1 "a" 70)).foldl (act defaults .insertion)
      (started 0 fun _ => 100)
    ((∀ pre post, [Action.wait 10] = pre ++ post →
        Narrowed (.name "a") (Auction.outcome .insertion [bidOf 1 "a" 70])
          (pre.foldl (act defaults .insertion)
            (act defaults .insertion o (.resolved (.name "a")))).desk) ∧
        ∀ k : AddressText × IdText, k.2 ≠ .name "a" →
          (act defaults .insertion o (.resolved (.name "a"))).desk.holds.lookup k =
            o.desk.holds.lookup k) ↔
      ∀ winner, (Auction.outcome .insertion [bidOf 1 "a" 70]).winner = some winner →
        SpelledLast [bidOf 1 "a" 70] winner ∧
          Guarded.Along (act defaults .insertion) (InTime defaults o.desk.now)
            (act defaults .insertion o (.resolved (.name "a"))) [.wait 10] :=
  holds_after_iff defaults .insertion 0 (fun _ => 100) _ [.wait 10] (.name "a")
    ⟨[bidOf 1 "a" 70], false, none⟩ (by decide +kernel) (by decide +kernel)

/-- A searcher bids 90, then 40 under its address in capitals: it wins at 40, and nothing
is on hold for it. -/
theorem winner_hold_released :
    let o := (.opened (.name "a") :: through 0 (bidOf 1 "a" 90) ++
        through 1 (capitals (bidOf 1 "a" 40))).foldl (act defaults .insertion)
          (started 0 fun _ => 100)
    o.desk.activeAuctions.lookup (.name "a") =
        some ⟨[bidOf 1 "a" 90, capitals (bidOf 1 "a" 40)], false, none⟩ ∧
      Auction.outcome .insertion [bidOf 1 "a" 90, capitals (bidOf 1 "a" 40)] =
        ⟨some (bidOf 1 "a" 90), 40⟩ ∧
      (act defaults .insertion o (.resolved (.name "a"))).desk.holds.lookup
        (.digits 1 .lower, .name "a") = none := by
  decide +kernel

end Bonds

end Ordo
