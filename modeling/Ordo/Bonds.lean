import Ordo.Auction
import Ordo.Tables

/-!
# Bonds behind bids

A bid is taken when the searcher's collateral in the settlement contract, less what is
already held for other bids, covers it.  An accepted bid is held until its auction
resolves, the clearing price of a win until the attempt to settle it is over.

A bid is worked off in stages, one for each `await` of its handler.  Here the handler
runs through at once (`process`); the stages are what other handlers come between.
The settlement contract is configured, as without it there is no collateral.
-/

namespace Ordo

namespace Bonds

/-- `ORDO_BOND_CACHE_MS` and `ORDO_BOND_HOLD_TTL_MS`. -/
structure Config where
  cacheTtlMs : Int
  holdTtlMs : Int

structure Cached where
  value : Int
  readAt : Int
  deriving DecidableEq

structure Hold where
  wei : Int
  heldAt : Int
  deriving DecidableEq

/-- What a winner is to be charged.  The attempt to settle ends when `settle` has been
sent or cannot be; the charge is made when the chain has executed it. -/
structure Charge where
  opportunityId : IdText
  searcher : AddressText
  wei : Int
  attempted : Bool
  charged : Bool
  deriving DecidableEq

/-- The auctioneer's memory, and the chain's `collateral`. -/
structure Desk where
  now : Int
  collateral : Address → Nat
  cache : AddressText → Option Cached
  holds : Table (AddressText × IdText) Hold
  activeAuctions : Table IdText Auction.State
  charges : List Charge

/-- The collateral of the account that a text names, whatever its letters. -/
def Desk.onChain (d : Desk) (searcher : AddressText) : Int :=
  match searcher.toLowerCase with
  | .digits a _ => d.collateral a
  | .other _ => 0

section Collateral

variable (cfg : Config) (d : Desk) (searcher : AddressText)

/-- The value that was read a moment ago. -/
def cached : Option Int :=
  (d.cache searcher.toLowerCase).bind fun hit =>
    if d.now - hit.readAt < cfg.cacheTtlMs then some hit.value else none

/-- The read from the contract, if the node is `reached`; a read that fails is zero. -/
def readCollateral (reached : Bool) : Int × Desk :=
  match searcher.account?, reached with
  | some a, true =>
      (d.collateral a,
        { d with
          cache := Function.update d.cache searcher.toLowerCase
            (some ⟨d.collateral a, d.now⟩) })
  | _, _ => (0, d)

/-- The part of a hold that counts for a searcher. -/
def weiOf (s : AddressText) (k : AddressText × IdText) (h : Hold) : Int :=
  if k.1 = s then h.wei else 0

def Desk.held (d : Desk) (s : AddressText) : Int := d.holds.sum (weiOf s)

def isLive (h : Hold) : Bool := ¬ (cfg.holdTtlMs < d.now - h.heldAt)

/-- Sum of live holds on a searcher, dropping any that have expired. -/
def heldBy : Int × Desk :=
  let d' := { d with holds := d.holds.keep fun _ h => isLive cfg d h }
  (d'.held searcher.toLowerCase, d')

/-- Put `wei` on hold for this searcher against this opportunity. -/
def hold (opportunityId : IdText) (wei : Int) : Desk :=
  { d with holds := d.holds.insert (searcher.toLowerCase, opportunityId) ⟨wei, d.now⟩ }

def release (opportunityId : IdText) : Desk :=
  { d with holds := d.holds.erase (searcher.toLowerCase, opportunityId) }

end Collateral

/-- Why a bid is turned down. -/
inductive Refusal where
  | notAddress
  | invalidBidWei
  | insufficient (bonded backing bid : Int)
  | auction (why : Auction.Refusal)
  deriving DecidableEq

/-- Where the handler of a bid stands. -/
inductive Stage where
  | reading (own needed : Int)
  | exposing (own needed collateral : Int)
  | deciding (own needed free : Int)
  | explaining (own needed : Int) (collateral : Option Int)
  | placing
  | refused (why : Refusal)
  | accepted
  deriving DecidableEq

/-- `searcher?.startsWith("0x")`. -/
def startsWith0x : AddressText → Bool
  | .digits _ _ => true
  | .other text => "0x".toList.isPrefixOf text.toList

section Handler

variable (cfg : Config)

/-- The wei that the searcher has on hold for the same opportunity. -/
def own (d : Desk) (bid : Bid) : Int :=
  ((d.holds.lookup (bid.searcher.toLowerCase, bid.opportunityId)).map (·.wei)).getD 0

/-- The handler up to its first `await`. -/
def arrive (bid : Bid) (d : Desk) : Stage :=
  match d.activeAuctions.lookup bid.opportunityId with
  | none => .refused (.auction .unknownAuction)
  | some _ =>
      if ¬ startsWith0x bid.searcher then .refused .notAddress
      else
        match bid.bidWei with
        | none => .refused .invalidBidWei
        | some needed =>
            match cached cfg d bid.searcher with
            | some c => .exposing (own d bid) needed c
            | none => .reading (own d bid) needed

/-- The bid goes to the auction, which may have closed, and is held when it is taken. -/
def place (bid : Bid) (d : Desk) : Desk × Stage :=
  match d.activeAuctions.lookup bid.opportunityId with
  | none => (d, .refused (.auction .auctionClosed))
  | some a =>
      match Auction.submitBid bid a with
      | .error why => (d, .refused (.auction why))
      | .ok a' =>
          (hold { d with activeAuctions := d.activeAuctions.insert bid.opportunityId a' }
            bid.searcher bid.opportunityId (Auction.amount bid), .accepted)

/-- The handler from one `await` to the next. -/
def advance (reached : Bool) (bid : Bid) (d : Desk) : Stage → Desk × Stage
  | .reading own needed =>
      let (c, d) := readCollateral d bid.searcher reached
      (d, .exposing own needed c)
  | .exposing own needed c =>
      let (h, d) := heldBy cfg d bid.searcher
      (d, .deciding own needed ((if h < c then c - h else 0) + own))
  | .deciding own needed free =>
      if free < needed then (d, .explaining own needed (cached cfg d bid.searcher))
      else (d, .placing)
  | .explaining own needed c =>
      let (c, d) :=
        match c with
        | some c => (c, d)
        | none => readCollateral d bid.searcher reached
      let (h, d) := heldBy cfg d bid.searcher
      (d, .refused (.insufficient c (h - own) needed))
  | .placing => place bid d
  | .refused why => (d, .refused why)
  | .accepted => (d, .accepted)

/-- The handler from arrival to answer; the last two arguments say whether the node
answers a first and a second read. -/
def process (bid : Bid) (d : Desk) (reached again : Bool) : Desk × Stage :=
  [reached, again, again, again].foldl (fun p reached => advance cfg reached bid p.1 p.2)
    (d, arrive cfg bid d)

end Handler

section Resolve

variable (engine : Engine)

/-- Losers' holds are released; the winner's is narrowed to what they will be charged. -/
def narrow (id : IdText) (o : Auction.Outcome) (d : Desk) (b : Bid) : Desk :=
  if o.winner.map (·.searcher) = some b.searcher then hold d b.searcher id o.clearingPriceWei
  else release d b.searcher id

def resolve (id : IdText) (d : Desk) : Desk :=
  match d.activeAuctions.lookup id with
  | none => d
  | some a =>
      let o := Auction.outcome engine a.bids
      let d := a.bids.foldl (narrow id o) { d with activeAuctions := d.activeAuctions.erase id }
      match o.winner with
      | none => d
      | some winner =>
          if o.clearingPriceWei ≤ 0 then d
          else
            { d with
              charges := d.charges ++ [⟨id, winner.searcher, o.clearingPriceWei, false, false⟩] }

end Resolve

/-- Change the charge of an auction. -/
def change (id : IdText) (f : Charge → Charge) (charges : List Charge) : List Charge :=
  charges.map fun c => if c.opportunityId = id then f c else c

/-- The attempt to settle is over; without the auctioneer's key it is over at once. -/
def attempt (id : IdText) (d : Desk) : Desk :=
  match d.charges.find? (·.opportunityId = id) with
  | none => d
  | some c =>
      release { d with charges := change id (fun c => { c with attempted := true }) d.charges }
        c.searcher id

/-- `settle` has been executed. -/
def charge (id : IdText) (d : Desk) : Desk :=
  match d.charges.find? (·.opportunityId = id) with
  | none => d
  | some c =>
      { d with
        charges := change id (fun c => { c with charged := true }) d.charges
        collateral :=
          match c.searcher.toLowerCase, c.charged with
          | .digits a _, false =>
              Function.update d.collateral a (d.collateral a - c.wei.toNat)
          | _, _ => d.collateral }

/-- What happens at the desk and on the chain, one thing after the other. -/
inductive Event where
  | wait (ms : Nat)
  | chain (a : Address) (collateral : Nat)
  | opened (id : IdText)
  | bid (bid : Bid) (reached again : Bool)
  | resolved (id : IdText)
  | attempted (id : IdText)
  | charged (id : IdText)
  deriving DecidableEq

section Runs

variable (cfg : Config) (engine : Engine)

/-- An opportunity's id is a new uuid. -/
def openAuction (id : IdText) (d : Desk) : Desk :=
  if (d.activeAuctions.lookup id).isSome ∨ id ∈ d.charges.map (·.opportunityId) then d
  else { d with activeAuctions := d.activeAuctions.insert id Auction.opened }

def step (d : Desk) : Event → Desk
  | .wait ms => { d with now := d.now + ms }
  | .chain a collateral => { d with collateral := Function.update d.collateral a collateral }
  | .opened id => openAuction id d
  | .bid bid reached again => (process cfg bid d reached again).1
  | .resolved id => resolve engine id d
  | .attempted id => attempt id d
  | .charged id => charge id d

/-- The collateral on the chain when the last bid of a searcher was accepted. -/
abbrev Backing := AddressText → Option Int

def backing (d : Desk) (b : Backing) : Event → Backing
  | .bid bid reached again =>
      if (process cfg bid d reached again).2 = .accepted then
        Function.update b bid.searcher.toLowerCase (some (d.onChain bid.searcher))
      else b
  | _ => b

/-- A new desk; nothing is held and nothing owed. -/
def fresh (now : Int) (collateral : Address → Nat) : Desk :=
  ⟨now, collateral, fun _ => none, ∅, ∅, []⟩

def run (d : Desk) (b : Backing) : List Event → Desk × Backing
  | [] => (d, b)
  | e :: es => run (step cfg engine d e) (backing cfg d b e) es

end Runs

section Exposure

/-- The most that bids can still cost a searcher in an auction. -/
def topBid (s : AddressText) (bids : List Bid) : Int :=
  ((bids.filter (·.searcher.toLowerCase = s)).map Auction.amount).foldr max 0

/-- What a charge still takes from a searcher. -/
def Charge.due (s : AddressText) (c : Charge) : Int :=
  if c.searcher.toLowerCase = s ∧ c.charged = false then c.wei else 0

/-- The most that a searcher can still be charged in open auctions, and what it owes. -/
def Desk.exposure (d : Desk) (s : AddressText) : Int :=
  d.activeAuctions.sum (fun _ a => topBid s a.bids) + (d.charges.map (Charge.due s)).sum

end Exposure

/-- No hold has outlived its time. -/
def Live (cfg : Config) (d : Desk) : Prop :=
  ∀ k h, d.holds.lookup k = some h → d.now - h.heldAt ≤ cfg.holdTtlMs

/-- A bid that its auction takes, and that is checked against what is on the chain. -/
structure Clear (cfg : Config) (d : Desk) (bid : Bid) (a : Auction.State) : Prop where
  /-- A value from the cache is not above the chain's. -/
  current : ∀ c, cached cfg d bid.searcher = some c → c ≤ d.onChain bid.searcher
  /-- What a re-bid finds on hold is still covered. -/
  backed : (d.holds.lookup (bid.searcher.toLowerCase, bid.opportunityId)).isSome →
    d.held bid.searcher.toLowerCase ≤ d.onChain bid.searcher
  /-- A re-bid is spelled as the bid before, and not below it. -/
  raised : ∀ b ∈ a.bids, b.searcher.toLowerCase = bid.searcher.toLowerCase →
    b.searcher = bid.searcher ∧ Auction.amount b ≤ Auction.amount bid
  /-- No charge has lost its hold before it was made. -/
  settled : ∀ c ∈ d.charges, c.searcher.toLowerCase = bid.searcher.toLowerCase →
    c.attempted → c.charged

/-- The condition on a step. -/
def Meets (cfg : Config) (d : Desk) : Event → Prop
  | .bid bid _ _ =>
      Live cfg d ∧ ∀ a a', d.activeAuctions.lookup bid.opportunityId = some a →
        Auction.submitBid bid a = .ok a' → Clear cfg d bid a
  | _ => True

/-- Every step of a run meets it. -/
def AllMeet (cfg : Config) (engine : Engine) (d : Desk) : List Event → Prop
  | [] => True
  | e :: es => Meets cfg d e ∧ AllMeet cfg engine (step cfg engine d e) es

section Process

variable {cfg : Config} {d : Desk}

theorem onChain_nonneg (d : Desk) (searcher : AddressText) : 0 ≤ d.onChain searcher := by
  rw [Desk.onChain]
  split
  · exact Int.natCast_nonneg _
  · exact le_refl 0

/-- Nothing is dropped while all holds live. -/
theorem heldBy_live (h : Live cfg d) (searcher : AddressText) :
    heldBy cfg d searcher = (d.held searcher.toLowerCase, d) := by
  have hkeep : (d.holds.keep fun _ h => isLive cfg d h) = d.holds := by
    apply Table.keep_eq_self
    intro e he
    have hle := h e.1 e.2 (Table.mem_entries.mp he)
    simpa [isLive] using hle
  rw [heldBy, hkeep]

/-- A read changes the cache, and gives no more than the chain has. -/
theorem readCollateral_spec (d : Desk) (searcher : AddressText) (reached : Bool) :
    ∃ c cache, readCollateral d searcher reached = (c, { d with cache := cache }) ∧
      c ≤ d.onChain searcher := by
  unfold readCollateral
  split
  next a haccount =>
    refine ⟨d.collateral a, _, rfl, ?_⟩
    rw [Desk.onChain, AddressText.lower_of_account haccount]
  next => exact ⟨0, d.cache, rfl, onChain_nonneg d searcher⟩

/-- A handler that has come to its exposure check, three steps on. -/
theorem exposing_spec (h : Live cfg d) (bid : Bid) (own needed c : Int) (r : Bool) :
    ∃ cache, ∀ r' r'',
      ([r', r'', r].foldl (fun p reached => advance cfg reached bid p.1 p.2)
          (d, .exposing own needed c) = place bid d ∧
        needed ≤ (if d.held bid.searcher.toLowerCase < c
          then c - d.held bid.searcher.toLowerCase else 0) + own) ∨
      ∃ why, [r', r'', r].foldl (fun p reached => advance cfg reached bid p.1 p.2)
        (d, .exposing own needed c) = ({ d with cache := cache }, .refused why) := by
  generalize hfree : (if d.held bid.searcher.toLowerCase < c
    then c - d.held bid.searcher.toLowerCase else 0) + own = free
  by_cases hless : free < needed
  · -- the refusal is explained from the cache or from another read
    cases hcached : cached cfg d bid.searcher with
    | some c' =>
        refine ⟨d.cache, fun r' r'' => Or.inr
          ⟨.insufficient c' (d.held bid.searcher.toLowerCase - own) needed, ?_⟩⟩
        simp only [List.foldl_cons, List.foldl_nil, advance, heldBy_live h, hfree, if_pos hless,
          hcached]
    | none =>
        obtain ⟨c', cache, hread, -⟩ := readCollateral_spec d bid.searcher r
        have hlive : Live cfg { d with cache := cache } := h
        refine ⟨cache, fun r' r'' => Or.inr
          ⟨.insufficient c' (d.held bid.searcher.toLowerCase - own) needed, ?_⟩⟩
        simp only [List.foldl_cons, List.foldl_nil, advance, heldBy_live h, hfree, if_pos hless,
          hcached, hread, heldBy_live hlive]
        rfl
  · refine ⟨d.cache, fun r' r'' => Or.inl ⟨?_, not_lt.mp hless⟩⟩
    simp only [List.foldl_cons, List.foldl_nil, advance, heldBy_live h, hfree, if_neg hless]

/-- What a handler leaves that runs through, while all holds live. -/
inductive Processed (cfg : Config) (d : Desk) (bid : Bid) : Desk × Stage → Prop
  | refused (cache : AddressText → Option Cached) (why : Refusal) :
      Processed cfg d bid ({ d with cache := cache }, .refused why)
  | accepted (cache : AddressText → Option Cached) {a a' : Auction.State} {c : Int}
      (hlookup : d.activeAuctions.lookup bid.opportunityId = some a)
      (htaken : Auction.submitBid bid a = .ok a')
      (hread : cached cfg d bid.searcher = some c ∨ c ≤ d.onChain bid.searcher)
      (hfree : Auction.amount bid ≤ (if d.held bid.searcher.toLowerCase < c
        then c - d.held bid.searcher.toLowerCase else 0) + own d bid) :
      Processed cfg d bid
        (hold { d with
            cache := cache
            activeAuctions := d.activeAuctions.insert bid.opportunityId a' }
          bid.searcher bid.opportunityId (Auction.amount bid), .accepted)

theorem processed_place {bid : Bid} {needed c : Int} (cache : AddressText → Option Cached)
    (hneeded : bid.bidWei = some needed)
    (hread : cached cfg d bid.searcher = some c ∨ c ≤ d.onChain bid.searcher)
    (hfree : needed ≤ (if d.held bid.searcher.toLowerCase < c
      then c - d.held bid.searcher.toLowerCase else 0) + own d bid) :
    Processed cfg d bid (place bid { d with cache := cache }) := by
  have hamount : Auction.amount bid = needed := by rw [Auction.amount, hneeded, Option.getD_some]
  rw [← hamount] at hfree
  unfold place
  split
  · exact .refused cache _
  next a hlookup =>
    split
    · exact .refused cache _
    next a' htaken => exact .accepted cache hlookup htaken hread hfree

/-- Answers do not change. -/
theorem Processed.advance {bid : Bid} {p : Desk × Stage} (h : Processed cfg d bid p)
    (reached : Bool) : advance cfg reached bid p.1 p.2 = p := by
  cases h with
  | refused cache why => rfl
  | accepted cache hlookup htaken hread hfree => rfl

/-- **A handler that runs through.** -/
theorem process_spec (h : Live cfg d) (bid : Bid) (reached again : Bool) :
    Processed cfg d bid (process cfg bid d reached again) := by
  rw [process]
  generalize harrive : arrive cfg bid d = s
  have hrefused : ∀ why, Processed cfg d bid ([reached, again, again, again].foldl
      (fun p reached => Bonds.advance cfg reached bid p.1 p.2) (d, .refused why)) :=
    fun why => .refused d.cache why
  unfold arrive at harrive
  split at harrive
  · cases harrive
    exact hrefused _
  split at harrive
  · cases harrive
    exact hrefused _
  split at harrive
  · cases harrive
    exact hrefused _
  next needed hneeded =>
  split at harrive
  next c hcached =>
    -- the first three steps, and one that changes nothing
    cases harrive
    obtain ⟨cache, hspec⟩ := exposing_spec h bid (own d bid) needed c again
    have hthree : Processed cfg d bid ([reached, again, again].foldl
        (fun p reached => Bonds.advance cfg reached bid p.1 p.2)
        (d, .exposing (own d bid) needed c)) := by
      rcases hspec reached again with ⟨heq, hfree⟩ | ⟨why, heq⟩
      · rw [heq]
        exact processed_place d.cache hneeded (Or.inl hcached) hfree
      · rw [heq]
        exact .refused cache why
    rw [show [reached, again, again, again] = [reached, again, again] ++ [again] from rfl,
      List.foldl_append, List.foldl_cons, List.foldl_nil, hthree.advance]
    exact hthree
  next hcached =>
    cases harrive
    obtain ⟨c, cache, hread, hle⟩ := readCollateral_spec d bid.searcher reached
    have hlive : Live cfg { d with cache := cache } := h
    obtain ⟨cache', hspec⟩ := exposing_spec hlive bid (own d bid) needed c again
    have hfirst : Bonds.advance cfg reached bid d (.reading (own d bid) needed) =
        ({ d with cache := cache }, .exposing (own d bid) needed c) := by
      simp only [Bonds.advance, hread]
    change Processed cfg d bid ([again, again, again].foldl
      (fun p reached => Bonds.advance cfg reached bid p.1 p.2)
      (Bonds.advance cfg reached bid d (.reading (own d bid) needed)))
    rw [hfirst]
    rcases hspec again again with ⟨heq, hfree⟩ | ⟨why, heq⟩
    · rw [heq]
      exact processed_place cache hneeded (Or.inr hle) hfree
    · rw [heq]
      exact .refused cache' why

end Process

section TopBid

variable {s : AddressText} {bids : List Bid}

theorem topBid_cons (b : Bid) (bids : List Bid) : topBid s (b :: bids) =
    if b.searcher.toLowerCase = s then max (Auction.amount b) (topBid s bids)
    else topBid s bids := by
  by_cases hs : b.searcher.toLowerCase = s
  · simp [topBid, hs]
  · simp [topBid, hs]

theorem topBid_nonneg (s : AddressText) (bids : List Bid) : 0 ≤ topBid s bids := by
  induction bids with
  | nil => exact le_refl 0
  | cons b bids ih =>
      rw [topBid_cons]
      split
      · exact le_max_of_le_right ih
      · exact ih

/-- It is no less than any of the searcher's bids, and no more than all bounds on them. -/
theorem topBid_le_iff {x : Int} (hx : 0 ≤ x) : topBid s bids ≤ x ↔
    ∀ b ∈ bids, b.searcher.toLowerCase = s → Auction.amount b ≤ x := by
  induction bids with
  | nil => simpa [topBid] using hx
  | cons b bids ih =>
      rw [topBid_cons, List.forall_mem_cons, ← ih]
      split
      next hs => simp [hs]
      next hs => simp [hs]

theorem le_topBid {b : Bid} (hb : b ∈ bids) (hs : b.searcher.toLowerCase = s) :
    Auction.amount b ≤ topBid s bids :=
  (topBid_le_iff (topBid_nonneg s bids)).mp (le_refl _) b hb hs

/-- What is not zero is a bid. -/
theorem exists_topBid (h : 0 < topBid s bids) :
    ∃ b ∈ bids, b.searcher.toLowerCase = s ∧ Auction.amount b = topBid s bids := by
  by_contra hno
  have hle : topBid s bids ≤ topBid s bids - 1 := by
    apply (topBid_le_iff (by omega)).mpr
    intro b hb hs
    have hbid := le_topBid hb hs
    have hne : Auction.amount b ≠ topBid s bids := fun heq => hno ⟨b, hb, hs, heq⟩
    omega
  omega

/-- Others' bids do not count. -/
theorem topBid_append_other {b : Bid} (hs : b.searcher.toLowerCase ≠ s) :
    topBid s (bids ++ [b]) = topBid s bids := by
  simp [topBid, List.filter_append, hs]

/-- **The top bid is the most that can be charged**, whatever others bid later. -/
theorem clearing_le_topBid (engine : Engine) {bids : List Bid} {winner : Bid}
    (hpos : ∀ b ∈ bids, 0 < Auction.amount b)
    (hwinner : (Auction.outcome engine bids).winner = some winner) :
    winner ∈ bids ∧ 0 < (Auction.outcome engine bids).clearingPriceWei ∧
      (Auction.outcome engine bids).clearingPriceWei ≤
        topBid winner.searcher.toLowerCase bids := by
  have hperm := engine.sorted_perm Auction.amount bids
  have hdescending := engine.sorted_descending Auction.amount bids
  rw [Auction.outcome] at hwinner ⊢
  generalize engine.sorted Auction.amount bids = sorted at hwinner hperm hdescending ⊢
  rcases sorted with _ | ⟨b, _ | ⟨b', rest⟩⟩
  · cases hwinner
  · cases hwinner
    have hmem : winner ∈ bids := hperm.subset List.mem_cons_self
    exact ⟨hmem, hpos winner hmem, le_topBid hmem rfl⟩
  · cases hwinner
    have hmem : winner ∈ bids := hperm.subset List.mem_cons_self
    have hsecond : b' ∈ bids := hperm.subset (List.mem_cons_of_mem _ List.mem_cons_self)
    have hle : Auction.amount b' ≤ Auction.amount winner :=
      (List.pairwise_cons.mp hdescending).1 b' List.mem_cons_self
    exact ⟨hmem, hpos b' hsecond, hle.trans (le_topBid hmem rfl)⟩

theorem clearing_nonneg (engine : Engine) {bids : List Bid}
    (hpos : ∀ b ∈ bids, 0 < Auction.amount b) :
    0 ≤ (Auction.outcome engine bids).clearingPriceWei := by
  cases hcase : (Auction.outcome engine bids).winner with
  | some winner => exact (clearing_le_topBid engine hpos hcase).2.1.le
  | none =>
      unfold Auction.outcome at hcase ⊢
      split at hcase
      · exact le_refl 0
      · cases hcase

end TopBid

/-! ### What holds between events -/

/-- The amount that is on hold for a bid or a charge is not below it. -/
def IsHeld (d : Desk) (searcher : AddressText) (id : IdText) (wei : Int) : Prop :=
  ∃ h, d.holds.lookup (searcher.toLowerCase, id) = some h ∧ wei ≤ h.wei

structure Kept (d : Desk) : Prop where
  holds_nonneg : ∀ k h, d.holds.lookup k = some h → 0 ≤ h.wei
  charges_nodup : (d.charges.map (·.opportunityId)).Nodup
  resolved : ∀ c ∈ d.charges, d.activeAuctions.lookup c.opportunityId = none
  bid_pos : ∀ id a, d.activeAuctions.lookup id = some a → ∀ b ∈ a.bids, 0 < Auction.amount b
  bid_held : ∀ id a, d.activeAuctions.lookup id = some a → ∀ b ∈ a.bids,
    IsHeld d b.searcher id (Auction.amount b)
  spelled : ∀ id a, d.activeAuctions.lookup id = some a → ∀ b ∈ a.bids, ∀ b' ∈ a.bids,
    b.searcher.toLowerCase = b'.searcher.toLowerCase → b.searcher = b'.searcher
  charge_nonneg : ∀ c ∈ d.charges, 0 ≤ c.wei
  charge_held : ∀ c ∈ d.charges, c.attempted = false →
    IsHeld d c.searcher c.opportunityId c.wei

/-- Every searcher's exposure is covered. -/
def Covered (d : Desk) (b : Backing) : Prop := ∀ s, d.exposure s ≤ (b s).getD 0

section Held

variable {d : Desk}

theorem due_eq {s : AddressText} (c : Charge) :
    c.due s = if c.searcher.toLowerCase = s ∧ c.charged = false then c.wei else 0 := rfl

/-- **What is held covers what is at stake**, while no charge has lost its hold. -/
theorem exposure_le_held (h : Kept d) {s : AddressText}
    (hsettled : ∀ c ∈ d.charges, c.searcher.toLowerCase = s → c.attempted → c.charged) :
    d.exposure s ≤ d.held s := by
  -- one item for each auction that the searcher bids in, and for each charge it owes
  let stakes : List ((AddressText × IdText) × Int) :=
    (d.activeAuctions.entries.filter fun e => 0 < topBid s e.2.bids).map fun e =>
      ((s, e.1), topBid s e.2.bids)
  let debts : List ((AddressText × IdText) × Int) :=
    (d.charges.filter fun c => c.searcher.toLowerCase = s ∧ c.charged = false).map fun c =>
      ((s, c.opportunityId), c.wei)
  have hstakes : (stakes.map Prod.snd).sum =
      d.activeAuctions.sum fun _ a => topBid s a.bids := by
    rw [List.map_map, Table.sum]
    generalize d.activeAuctions.entries = entries
    induction entries with
    | nil => rfl
    | cons e entries ih =>
        have hnonneg := topBid_nonneg s e.2.bids
        by_cases hpos : 0 < topBid s e.2.bids
        · rw [List.filter_cons_of_pos (by simpa using hpos), List.map_cons, List.map_cons,
            List.sum_cons, List.sum_cons, ih]
          rfl
        · rw [List.filter_cons_of_neg (by simpa using hpos), List.map_cons, List.sum_cons, ih]
          omega
  have hdebts : (debts.map Prod.snd).sum = (d.charges.map (Charge.due s)).sum := by
    rw [List.map_map]
    generalize d.charges = charges
    induction charges with
    | nil => rfl
    | cons c charges ih =>
        rw [List.map_cons, List.sum_cons, ← ih, due_eq]
        by_cases hdue : c.searcher.toLowerCase = s ∧ c.charged = false
        · rw [if_pos hdue, List.filter_cons_of_pos (by simpa using hdue), List.map_cons,
            List.sum_cons]
          rfl
        · rw [if_neg hdue, List.filter_cons_of_neg (by simpa using hdue), Int.zero_add]
  have hsum : ((stakes ++ debts).map Prod.snd).sum = d.exposure s := by
    rw [List.map_append, List.sum_append, hstakes, hdebts]
    rfl
  rw [← hsum]
  apply Table.sum_le_of_covered
  · have hstake_keys : stakes.map Prod.fst =
        ((d.activeAuctions.entries.filter fun e => 0 < topBid s e.2.bids).map
          Sigma.fst).map fun id => (s, id) := by
      simp [stakes, List.map_map, Function.comp_def]
    have hdebt_keys : debts.map Prod.fst =
        ((d.charges.filter fun c => c.searcher.toLowerCase = s ∧ c.charged = false).map
          (·.opportunityId)).map fun id => (s, id) := by
      simp [debts, List.map_map, Function.comp_def]
    rw [List.map_append, hstake_keys, hdebt_keys, ← List.map_append]
    apply List.Nodup.map (fun _ _ heq => (Prod.mk.inj heq).2)
    apply List.nodup_append.mpr
    refine ⟨?_, ?_, ?_⟩
    · exact d.activeAuctions.keys_nodup.sublist (List.filter_sublist.map Sigma.fst)
    · exact h.charges_nodup.sublist (List.filter_sublist.map _)
    · intro id hid id' hid' heq
      obtain ⟨e, he, rfl⟩ := List.mem_map.mp hid
      obtain ⟨c, hc, rfl⟩ := List.mem_map.mp hid'
      have hactive := Table.mem_entries.mp (List.mem_filter.mp he).1
      rw [heq, h.resolved c (List.mem_filter.mp hc).1] at hactive
      cases hactive
  · intro k v hk
    rw [weiOf]
    split
    · exact h.holds_nonneg k v hk
    · exact le_refl 0
  · intro i hi
    rcases List.mem_append.mp hi with hi | hi
    · obtain ⟨e, he, rfl⟩ := List.mem_map.mp hi
      obtain ⟨hmem, hpos⟩ := List.mem_filter.mp he
      obtain ⟨b, hb, hs, heq⟩ := exists_topBid (of_decide_eq_true hpos)
      obtain ⟨v, hv, hle⟩ := h.bid_held e.1 e.2 (Table.mem_entries.mp hmem) b hb
      rw [hs] at hv
      refine ⟨v, hv, ?_⟩
      rw [weiOf, if_pos rfl, ← heq]
      exact hle
    · obtain ⟨c, hc, rfl⟩ := List.mem_map.mp hi
      obtain ⟨hmem, hdue⟩ := List.mem_filter.mp hc
      obtain ⟨hs, hcharged⟩ := of_decide_eq_true hdue
      have hattempted : c.attempted = false := by
        cases hatt : c.attempted with
        | false => rfl
        | true => rw [hsettled c hmem hs hatt] at hcharged; cases hcharged
      obtain ⟨v, hv, hle⟩ := h.charge_held c hmem hattempted
      rw [hs] at hv
      refine ⟨v, hv, ?_⟩
      rw [weiOf, if_pos rfl]
      exact hle

end Held

section Steps

variable {cfg : Config} {engine : Engine} {d d' : Desk} {b : Backing}

/-- What is held, open and owed decides; time, the chain and the cache do not matter. -/
theorem Kept.congr (h : Kept d) (hholds : d'.holds = d.holds)
    (hactive : d'.activeAuctions = d.activeAuctions) (hcharges : d'.charges = d.charges) :
    Kept d' ∧ ∀ s, d'.exposure s = d.exposure s := by
  obtain ⟨_, _, _, holds, active, charges⟩ := d'
  subst hholds hactive hcharges
  exact ⟨⟨h.holds_nonneg, h.charges_nodup, h.resolved, h.bid_pos, h.bid_held, h.spelled,
    h.charge_nonneg, h.charge_held⟩, fun _ => rfl⟩

/-- Holds that other keys are changed in. -/
theorem IsHeld.congr {searcher : AddressText} {id : IdText} {wei : Int}
    (h : IsHeld d searcher id wei)
    (hsame : d'.holds.lookup (searcher.toLowerCase, id) =
      d.holds.lookup (searcher.toLowerCase, id)) : IsHeld d' searcher id wei := by
  obtain ⟨v, hv, hle⟩ := h
  exact ⟨v, hsame.trans hv, hle⟩

theorem Kept.opened (h : Kept d) (id : IdText) :
    Kept (openAuction id d) ∧ ∀ s, (openAuction id d).exposure s = d.exposure s := by
  unfold openAuction
  split
  · exact ⟨h, fun _ => rfl⟩
  next hnew =>
  obtain ⟨hinactive, hcharges⟩ := not_or.mp hnew
  have hnone : d.activeAuctions.lookup id = none := by
    simpa using hinactive
  have hcases : ∀ {id' a}, (d.activeAuctions.insert id Auction.opened).lookup id' = some a →
      a = Auction.opened ∨ d.activeAuctions.lookup id' = some a := by
    intro id' a ha
    rcases Table.lookup_insert_iff.mp ha with ⟨-, rfl⟩ | ⟨-, hold⟩
    · exact Or.inl rfl
    · exact Or.inr hold
  constructor
  · refine ⟨h.holds_nonneg, h.charges_nodup, ?_, ?_, ?_, ?_, h.charge_nonneg, h.charge_held⟩
    · intro c hc
      have hne : c.opportunityId ≠ id := fun heq => hcharges (heq ▸ List.mem_map_of_mem hc)
      exact (AList.lookup_insert_ne hne).trans (h.resolved c hc)
    · intro id' a ha bid hbid
      rcases hcases ha with rfl | hold
      · cases hbid
      · exact h.bid_pos id' a hold bid hbid
    · intro id' a ha bid hbid
      rcases hcases ha with rfl | hold
      · cases hbid
      · exact h.bid_held id' a hold bid hbid
    · intro id' a ha bid hbid
      rcases hcases ha with rfl | hold
      · cases hbid
      · exact h.spelled id' a hold bid hbid
  · intro s
    rw [Desk.exposure, Desk.exposure, Table.sum_insert, Table.sum_erase_none hnone]
    simp [topBid, Auction.opened]

section Change

variable {id : IdText} {f : Charge → Charge} (hf : ∀ c, (f c).opportunityId = c.opportunityId)
  {charges : List Charge}

include hf

theorem map_change :
    (change id f charges).map (·.opportunityId) = charges.map (·.opportunityId) := by
  rw [change, List.map_map]
  apply List.map_congr_left
  intro c _
  rw [Function.comp_apply]
  split
  · exact hf c
  · rfl

theorem nodup_change (h : (charges.map (·.opportunityId)).Nodup) :
    ((change id f charges).map (·.opportunityId)).Nodup := by
  rw [map_change hf]
  exact h

omit hf

/-- A changed charge is the old one or one of this auction. -/
theorem mem_change {c : Charge} (h : c ∈ change id f charges) :
    ∃ c₀ ∈ charges, (c₀.opportunityId = id ∧ c = f c₀) ∨ (c₀.opportunityId ≠ id ∧ c = c₀) := by
  obtain ⟨c₀, hc₀, rfl⟩ := List.mem_map.mp h
  by_cases hid : c₀.opportunityId = id
  · exact ⟨c₀, hc₀, Or.inl ⟨hid, if_pos hid⟩⟩
  · exact ⟨c₀, hc₀, Or.inr ⟨hid, if_neg hid⟩⟩

end Change

/-- The end of an attempt gives up its own hold only. -/
theorem Kept.attempted (h : Kept d) (id : IdText) :
    Kept (attempt id d) ∧ ∀ s, (attempt id d).exposure s = d.exposure s := by
  unfold attempt
  split
  · exact ⟨h, fun _ => rfl⟩
  next c hfind =>
  have hc := List.mem_of_find?_eq_some hfind
  have hid : c.opportunityId = id := by
    have hfound := List.find?_some hfind
    simpa using hfound
  have hinactive : d.activeAuctions.lookup id = none := hid ▸ h.resolved c hc
  have hother : ∀ (searcher : AddressText) (id' : IdText), id' ≠ id →
      (d.holds.erase (c.searcher.toLowerCase, id)).lookup (searcher.toLowerCase, id') =
        d.holds.lookup (searcher.toLowerCase, id') := by
    intro searcher id' hne
    exact AList.lookup_erase_ne fun heq => hne (Prod.mk.inj heq).2
  constructor
  · refine ⟨?_, ?_, ?_, h.bid_pos, ?_, h.spelled, ?_, ?_⟩
    · intro k v hk
      exact h.holds_nonneg k v (Table.lookup_erase_iff.mp hk).2
    · apply nodup_change _ h.charges_nodup
      exact fun _ => rfl
    · intro c' hc'
      obtain ⟨c₀, hc₀, ⟨-, rfl⟩ | ⟨-, rfl⟩⟩ := mem_change hc'
      · exact h.resolved c₀ hc₀
      · exact h.resolved c' hc₀
    · intro id' a ha bid hbid
      have hne : id' ≠ id := by
        intro heq
        have hnone : some a = none := ha.symm.trans (heq ▸ hinactive)
        cases hnone
      exact (h.bid_held id' a ha bid hbid).congr (hother _ _ hne)
    · intro c' hc'
      obtain ⟨c₀, hc₀, ⟨-, rfl⟩ | ⟨-, rfl⟩⟩ := mem_change hc'
      · exact h.charge_nonneg c₀ hc₀
      · exact h.charge_nonneg c' hc₀
    · intro c' hc' hattempted
      obtain ⟨c₀, hc₀, ⟨-, rfl⟩ | ⟨hne, rfl⟩⟩ := mem_change hc'
      · cases hattempted
      · exact (h.charge_held c' hc₀ hattempted).congr (hother _ _ hne)
  · intro s
    have hdue : (change id (fun c => { c with attempted := true }) d.charges).map (Charge.due s) =
        d.charges.map (Charge.due s) := by
      rw [change, List.map_map]
      apply List.map_congr_left
      intro c _
      rw [Function.comp_apply]
      split <;> rfl
    rw [Desk.exposure, Desk.exposure, ← hdue]
    rfl

/-- A charge that is made is owed no more. -/
theorem Kept.charged (h : Kept d) (id : IdText) :
    Kept (charge id d) ∧ ∀ s, (charge id d).exposure s ≤ d.exposure s := by
  unfold charge
  split
  · exact ⟨h, fun _ => le_refl _⟩
  constructor
  · refine ⟨h.holds_nonneg, ?_, ?_, h.bid_pos, h.bid_held, h.spelled, ?_, ?_⟩
    · apply nodup_change _ h.charges_nodup
      exact fun _ => rfl
    · intro c' hc'
      obtain ⟨c₀, hc₀, ⟨-, rfl⟩ | ⟨-, rfl⟩⟩ := mem_change hc'
      · exact h.resolved c₀ hc₀
      · exact h.resolved c' hc₀
    · intro c' hc'
      obtain ⟨c₀, hc₀, ⟨-, rfl⟩ | ⟨-, rfl⟩⟩ := mem_change hc'
      · exact h.charge_nonneg c₀ hc₀
      · exact h.charge_nonneg c' hc₀
    · intro c' hc' hattempted
      obtain ⟨c₀, hc₀, ⟨-, rfl⟩ | ⟨-, rfl⟩⟩ := mem_change hc'
      · exact h.charge_held c₀ hc₀ hattempted
      · exact h.charge_held c' hc₀ hattempted
  · intro s
    have hdue : ((change id (fun c => { c with charged := true }) d.charges).map
        (Charge.due s)).sum ≤ (d.charges.map (Charge.due s)).sum := by
      rw [change, List.map_map]
      apply List.sum_le_sum
      intro c hc
      have hnonneg := h.charge_nonneg c hc
      rw [Function.comp_apply]
      split
      · have hzero : Charge.due s { c with charged := true } = 0 := by simp [Charge.due]
        rw [hzero, due_eq]
        split
        · exact hnonneg
        · exact le_refl 0
      · exact le_refl _
    exact Int.add_le_add_left hdue _

section Narrow

variable (id : IdText) (o : Auction.Outcome)

/-- One bid's hold is set or given up. -/
theorem narrow_spec (d : Desk) (bid : Bid) : ∃ holds,
    narrow id o d bid = { d with holds := holds } ∧
    (∀ k : AddressText × IdText, k.2 ≠ id → holds.lookup k = d.holds.lookup k) ∧
    (∀ k h, holds.lookup k = some h → h = ⟨o.clearingPriceWei, d.now⟩ ∨ d.holds.lookup k = some h) ∧
    ∀ winner, o.winner = some winner →
      (bid.searcher.toLowerCase = winner.searcher.toLowerCase → bid.searcher = winner.searcher) →
      d.holds.lookup (winner.searcher.toLowerCase, id) = some ⟨o.clearingPriceWei, d.now⟩ ∨
        bid = winner →
      holds.lookup (winner.searcher.toLowerCase, id) = some ⟨o.clearingPriceWei, d.now⟩ := by
  have hkey : ∀ k : AddressText × IdText, k.2 ≠ id → k ≠ (bid.searcher.toLowerCase, id) :=
    fun k hk heq => hk (heq ▸ rfl)
  unfold narrow
  split
  next hwon =>
    refine ⟨_, rfl, fun k hk => AList.lookup_insert_ne (hkey k hk), ?_, ?_⟩
    · intro k h hk
      rcases Table.lookup_insert_iff.mp hk with ⟨-, rfl⟩ | ⟨-, hold⟩
      · exact Or.inl rfl
      · exact Or.inr hold
    · intro winner hwinner _ _
      rw [hwinner, Option.map_some, Option.some.injEq] at hwon
      rw [hwon]
      exact AList.lookup_insert _
  next hlost =>
    refine ⟨_, rfl, fun k hk => AList.lookup_erase_ne (hkey k hk), ?_, ?_⟩
    · intro k h hk
      exact Or.inr (Table.lookup_erase_iff.mp hk).2
    · intro winner hwinner hspelled hheld
      rw [hwinner, Option.map_some, Option.some.injEq] at hlost
      rcases hheld with hheld | rfl
      · have hne : (winner.searcher.toLowerCase, id) ≠ (bid.searcher.toLowerCase, id) :=
          fun heq => hlost (hspelled (Prod.mk.inj heq).1.symm).symm
        exact (AList.lookup_erase_ne hne).trans hheld
      · exact absurd rfl hlost

/-- All bids' holds, one after the other. -/
theorem narrow_run (bids : List Bid) : ∀ d : Desk, ∃ holds,
    bids.foldl (narrow id o) d = { d with holds := holds } ∧
    (∀ k : AddressText × IdText, k.2 ≠ id → holds.lookup k = d.holds.lookup k) ∧
    (∀ k h, holds.lookup k = some h → h = ⟨o.clearingPriceWei, d.now⟩ ∨ d.holds.lookup k = some h) ∧
    ∀ winner, o.winner = some winner →
      (∀ bid ∈ bids, bid.searcher.toLowerCase = winner.searcher.toLowerCase →
        bid.searcher = winner.searcher) →
      d.holds.lookup (winner.searcher.toLowerCase, id) = some ⟨o.clearingPriceWei, d.now⟩ ∨
        winner ∈ bids →
      holds.lookup (winner.searcher.toLowerCase, id) = some ⟨o.clearingPriceWei, d.now⟩ := by
  induction bids with
  | nil =>
      intro d
      refine ⟨d.holds, rfl, fun _ _ => rfl, fun _ _ hk => Or.inr hk, ?_⟩
      intro winner _ _ hheld
      exact hheld.resolve_right List.not_mem_nil
  | cons bid bids ih =>
      intro d
      obtain ⟨first, heq, hother, hsome, hwon⟩ := narrow_spec id o d bid
      obtain ⟨holds, hrest, hother', hsome', hwon'⟩ := ih { d with holds := first }
      refine ⟨holds, ?_, ?_, ?_, ?_⟩
      · rw [List.foldl_cons, heq, hrest]
      · intro k hk
        exact (hother' k hk).trans (hother k hk)
      · intro k h hk
        rcases hsome' k h hk with hnew | hfirst
        · exact Or.inl hnew
        · exact hsome k h hfirst
      · intro winner hwinner hspelled hheld
        obtain ⟨hbid, hbids⟩ := List.forall_mem_cons.mp hspelled
        apply hwon' winner hwinner hbids
        rcases hheld with hheld | hmem
        · exact Or.inl (hwon winner hwinner hbid (Or.inl hheld))
        rcases List.mem_cons.mp hmem with rfl | hmem
        · exact Or.inl (hwon winner hwinner hbid (Or.inr rfl))
        · exact Or.inr hmem

end Narrow

/-- A charge more is owed. -/
theorem exposure_append (s : AddressText) (d : Desk) (c : Charge) :
    Desk.exposure { d with charges := d.charges ++ [c] } s = d.exposure s + c.due s := by
  rw [Desk.exposure, Desk.exposure, List.map_append, List.sum_append, List.map_singleton,
    List.sum_singleton, Int.add_assoc]

/-- A resolved auction charges its winner no more than was at stake. -/
theorem Kept.resolve (h : Kept d) (id : IdText) :
    Kept (Bonds.resolve engine id d) ∧
      ∀ s, (Bonds.resolve engine id d).exposure s ≤ d.exposure s := by
  unfold Bonds.resolve
  split
  · exact ⟨h, fun _ => le_refl _⟩
  next a hlookup =>
  have hpos := h.bid_pos id a hlookup
  have hfresh : ∀ c ∈ d.charges, c.opportunityId ≠ id := by
    intro c hc heq
    have hnone : some a = none := hlookup.symm.trans (heq ▸ h.resolved c hc)
    cases hnone
  have hwinner := fun winner => @clearing_le_topBid engine a.bids winner hpos
  have hclearing := clearing_nonneg engine hpos
  generalize Auction.outcome engine a.bids = o at hwinner hclearing
  obtain ⟨holds, hfold, hother, hsome, hwon⟩ := narrow_run id o a.bids
    { d with activeAuctions := d.activeAuctions.erase id }
  simp only [hfold]
  have hactive : ∀ {id' a'}, (d.activeAuctions.erase id).lookup id' = some a' →
      id' ≠ id ∧ d.activeAuctions.lookup id' = some a' := Table.lookup_erase_iff.mp
  have hheld : ∀ {searcher id' wei}, id' ≠ id → IsHeld d searcher id' wei →
      ∀ d' : Desk, d'.holds = holds → IsHeld d' searcher id' wei := by
    intro searcher id' wei hne hheld d' hholds
    apply hheld.congr
    rw [hholds]
    exact hother _ hne
  -- what is left without the auction
  have hrest : Kept { d with activeAuctions := d.activeAuctions.erase id, holds := holds } := by
    refine ⟨?_, h.charges_nodup, ?_, ?_, ?_, ?_, h.charge_nonneg, ?_⟩
    · intro k v hk
      rcases hsome k v hk with rfl | hold
      · exact hclearing
      · exact h.holds_nonneg k v hold
    · exact fun c hc => Table.lookup_erase_none (h.resolved c hc) id
    · exact fun id' a' ha => h.bid_pos id' a' (hactive ha).2
    · intro id' a' ha bid hbid
      exact hheld (hactive ha).1 (h.bid_held id' a' (hactive ha).2 bid hbid) _ rfl
    · exact fun id' a' ha => h.spelled id' a' (hactive ha).2
    · intro c hc hattempted
      exact hheld (hfresh c hc) (h.charge_held c hc hattempted) _ rfl
  have hsum : ∀ s, d.exposure s = topBid s a.bids +
      Desk.exposure { d with activeAuctions := d.activeAuctions.erase id, holds := holds } s := by
    intro s
    rw [Desk.exposure, Desk.exposure, Table.sum_erase hlookup, Int.add_assoc]
  have hless : ∀ s,
      Desk.exposure { d with activeAuctions := d.activeAuctions.erase id, holds := holds } s ≤
        d.exposure s := by
    intro s
    have hnonneg := topBid_nonneg s a.bids
    have hs := hsum s
    omega
  split
  · exact ⟨hrest, hless⟩
  next winner hcase =>
  split
  · exact ⟨hrest, hless⟩
  obtain ⟨hmem, hprice, hle⟩ := hwinner winner hcase
  constructor
  · refine ⟨hrest.holds_nonneg, ?_, ?_, hrest.bid_pos, hrest.bid_held, hrest.spelled, ?_, ?_⟩
    · rw [List.map_append, List.nodup_append]
      refine ⟨h.charges_nodup, List.nodup_singleton _, ?_⟩
      intro id' hid' id'' hid''
      obtain ⟨c, hc, rfl⟩ := List.mem_map.mp hid'
      rw [List.mem_singleton.mp hid'']
      exact hfresh c hc
    · intro c hc
      rcases List.mem_append.mp hc with hc | hc
      · exact hrest.resolved c hc
      · rw [List.mem_singleton.mp hc]
        exact AList.lookup_erase _ _
    · intro c hc
      rcases List.mem_append.mp hc with hc | hc
      · exact h.charge_nonneg c hc
      · rw [List.mem_singleton.mp hc]
        exact hclearing
    · intro c hc hattempted
      rcases List.mem_append.mp hc with hc | hc
      · exact hrest.charge_held c hc hattempted
      · rw [List.mem_singleton.mp hc]
        have hspelled : ∀ bid ∈ a.bids,
            bid.searcher.toLowerCase = winner.searcher.toLowerCase →
              bid.searcher = winner.searcher :=
          fun bid hbid => h.spelled id a hlookup bid hbid winner hmem
        exact ⟨_, hwon winner hcase hspelled (Or.inr hmem), le_refl _⟩
  · intro s
    have hs := hsum s
    have hnonneg := topBid_nonneg s a.bids
    have hdue : Charge.due s ⟨id, winner.searcher, o.clearingPriceWei, false, false⟩ ≤
        topBid s a.bids := by
      rw [due_eq]
      split
      next hmine => exact hmine.1 ▸ hle
      · exact hnonneg
    have hnew := exposure_append s
      { d with activeAuctions := d.activeAuctions.erase id, holds := holds }
      ⟨id, winner.searcher, o.clearingPriceWei, false, false⟩
    calc _ = _ := hnew
      _ ≤ d.exposure s := by omega

theorem submitBid_pos {bid : Bid} {a a' : Auction.State} (h : Auction.submitBid bid a = .ok a') :
    0 < Auction.amount bid := by
  unfold Auction.submitBid at h
  split at h
  · cases h
  split at h
  · cases h
  next wei hwei =>
  split at h
  · cases h
  next hpos =>
  rw [Auction.amount, hwei, Option.getD_some]
  omega

section Accepted

variable {bid : Bid} {a a' : Auction.State}

/-- The desk after a bid is accepted. -/
def accept (d : Desk) (bid : Bid) (a' : Auction.State) (cache : AddressText → Option Cached) :
    Desk :=
  hold { d with
      cache := cache
      activeAuctions := d.activeAuctions.insert bid.opportunityId a' }
    bid.searcher bid.opportunityId (Auction.amount bid)

variable (h : Kept d) (hlookup : d.activeAuctions.lookup bid.opportunityId = some a)
  (htaken : Auction.submitBid bid a = .ok a') (cache : AddressText → Option Cached)

include h hlookup htaken

theorem Kept.accepted (hclear : Clear cfg d bid a) : Kept (accept d bid a' cache) := by
  have hpos := submitBid_pos htaken
  obtain ⟨-, -, rfl⟩ := Auction.submitBid_eq_ok htaken
  have hactive : ∀ {id b}, (d.activeAuctions.insert bid.opportunityId
      { a with bids := a.bids ++ [bid] }).lookup id = some b →
      id = bid.opportunityId ∧ b.bids = a.bids ++ [bid] ∨
        id ≠ bid.opportunityId ∧ d.activeAuctions.lookup id = some b := by
    intro id b hb
    rcases Table.lookup_insert_iff.mp hb with ⟨hid, rfl⟩ | hother
    · exact Or.inl ⟨hid, rfl⟩
    · exact Or.inr hother
  have hnew : IsHeld (accept d bid { a with bids := a.bids ++ [bid] } cache) bid.searcher
      bid.opportunityId (Auction.amount bid) := ⟨_, AList.lookup_insert _, le_refl _⟩
  have hother : ∀ {searcher id wei}, IsHeld d searcher id wei →
      (searcher.toLowerCase, id) ≠ (bid.searcher.toLowerCase, bid.opportunityId) →
      IsHeld (accept d bid { a with bids := a.bids ++ [bid] } cache) searcher id wei :=
    fun hheld hne => hheld.congr (AList.lookup_insert_ne hne)
  refine ⟨?_, h.charges_nodup, ?_, ?_, ?_, ?_, h.charge_nonneg, ?_⟩
  · intro k v hk
    rcases Table.lookup_insert_iff.mp hk with ⟨-, rfl⟩ | ⟨-, hold⟩
    · exact hpos.le
    · exact h.holds_nonneg k v hold
  · intro c hc
    have hnone := h.resolved c hc
    have hne : c.opportunityId ≠ bid.opportunityId := by
      intro heq
      rw [heq, hlookup] at hnone
      cases hnone
    exact (AList.lookup_insert_ne hne).trans hnone
  · intro id b hb other hmem
    rcases hactive hb with ⟨-, hbids⟩ | ⟨-, hold⟩
    · rw [hbids] at hmem
      rcases List.mem_append.mp hmem with hmem | hmem
      · exact h.bid_pos _ a hlookup other hmem
      · rw [List.mem_singleton.mp hmem]
        exact hpos
    · exact h.bid_pos id b hold other hmem
  · intro id b hb other hmem
    rcases hactive hb with ⟨rfl, hbids⟩ | ⟨hne, hold⟩
    · rw [hbids] at hmem
      rcases List.mem_append.mp hmem with hmem | hmem
      · by_cases hsame : other.searcher.toLowerCase = bid.searcher.toLowerCase
        · -- the new hold is not below the earlier bid
          obtain ⟨-, hraised⟩ := hclear.raised other hmem hsame
          obtain ⟨v, hv, hle⟩ := hnew
          exact ⟨v, hsame ▸ hv, hraised.trans hle⟩
        · exact hother (h.bid_held _ a hlookup other hmem)
            fun heq => hsame (Prod.mk.inj heq).1
      · rw [List.mem_singleton.mp hmem]
        exact hnew
    · exact hother (h.bid_held id b hold other hmem) fun heq => hne (Prod.mk.inj heq).2
  · intro id b hb b₁ h₁ b₂ h₂ hlower
    rcases hactive hb with ⟨rfl, hbids⟩ | ⟨-, hold⟩
    · rw [hbids] at h₁ h₂
      rcases List.mem_append.mp h₁ with h₁ | h₁
      · rcases List.mem_append.mp h₂ with h₂ | h₂
        · exact h.spelled _ a hlookup b₁ h₁ b₂ h₂ hlower
        · rw [List.mem_singleton.mp h₂] at hlower ⊢
          exact (hclear.raised b₁ h₁ hlower).1
      · rw [List.mem_singleton.mp h₁] at hlower ⊢
        rcases List.mem_append.mp h₂ with h₂ | h₂
        · exact (hclear.raised b₂ h₂ hlower.symm).1.symm
        · rw [List.mem_singleton.mp h₂]
    · exact h.spelled id b hold b₁ h₁ b₂ h₂ hlower
  · intro c hc hattempted
    have hne : c.opportunityId ≠ bid.opportunityId := by
      intro heq
      have hnone := h.resolved c hc
      rw [heq, hlookup] at hnone
      cases hnone
    exact hother (h.charge_held c hc hattempted) fun heq => hne (Prod.mk.inj heq).2

omit h in
/-- Other searchers stand where they stood. -/
theorem exposure_accept_other {s : AddressText} (hs : s ≠ bid.searcher.toLowerCase) :
    (accept d bid a' cache).exposure s = d.exposure s := by
  obtain ⟨-, -, rfl⟩ := Auction.submitBid_eq_ok htaken
  have hsum : Table.sum (fun _ a => topBid s a.bids)
      (d.activeAuctions.insert bid.opportunityId { a with bids := a.bids ++ [bid] }) =
        Table.sum (fun _ a => topBid s a.bids) d.activeAuctions := by
    rw [Table.sum_insert, Table.sum_erase hlookup, topBid_append_other (Ne.symm hs)]
  rw [Desk.exposure, Desk.exposure, ← hsum]
  rfl

omit h hlookup in
/-- The holds after a bid that its check let through are within the collateral. -/
theorem held_accept_le (hclear : Clear cfg d bid a) {c : Int}
    (hread : cached cfg d bid.searcher = some c ∨ c ≤ d.onChain bid.searcher)
    (hfree : Auction.amount bid ≤ (if d.held bid.searcher.toLowerCase < c
      then c - d.held bid.searcher.toLowerCase else 0) + own d bid) :
    (accept d bid a' cache).held bid.searcher.toLowerCase ≤ d.onChain bid.searcher := by
  have hpos := submitBid_pos htaken
  have hc : c ≤ d.onChain bid.searcher := hread.elim (hclear.current c) id
  have hheld : (accept d bid a' cache).held bid.searcher.toLowerCase = Auction.amount bid +
      Table.sum (weiOf bid.searcher.toLowerCase)
        (d.holds.erase (bid.searcher.toLowerCase, bid.opportunityId)) := by
    have hinsert := Table.sum_insert (f := weiOf bid.searcher.toLowerCase) (t := d.holds)
      (k := (bid.searcher.toLowerCase, bid.opportunityId)) (v := ⟨Auction.amount bid, d.now⟩)
    rw [weiOf, if_pos rfl] at hinsert
    exact hinsert
  rw [hheld]
  cases hown : d.holds.lookup (bid.searcher.toLowerCase, bid.opportunityId) with
  | none =>
      have hzero : own d bid = 0 := by rw [own, hown]; rfl
      have herase : d.held bid.searcher.toLowerCase = Table.sum (weiOf bid.searcher.toLowerCase)
          (d.holds.erase (bid.searcher.toLowerCase, bid.opportunityId)) :=
        (Table.sum_erase_none hown).symm
      rw [hzero] at hfree
      split at hfree <;> omega
  | some v =>
      have hsome : own d bid = v.wei := by rw [own, hown]; rfl
      have herase : d.held bid.searcher.toLowerCase = v.wei +
          Table.sum (weiOf bid.searcher.toLowerCase)
            (d.holds.erase (bid.searcher.toLowerCase, bid.opportunityId)) := by
        have hsum := Table.sum_erase (f := weiOf bid.searcher.toLowerCase) hown
        rw [weiOf, if_pos rfl] at hsum
        exact hsum
      have hbacked := hclear.backed (by rw [hown]; rfl)
      rw [hsome] at hfree
      split at hfree <;> omega

end Accepted

/-- **One step.** -/
theorem Kept.step (h : Kept d) (hcovered : Covered d b) (e : Event) (hmeets : Meets cfg d e) :
    Kept (step cfg engine d e) ∧ Covered (step cfg engine d e) (backing cfg d b e) := by
  have hsame : ∀ {d' : Desk}, (Kept d' ∧ ∀ s, d'.exposure s = d.exposure s) →
      Kept d' ∧ Covered d' b := by
    rintro d' ⟨hkept, hequal⟩
    exact ⟨hkept, fun s => (hequal s).trans_le (hcovered s)⟩
  have hless : ∀ {d' : Desk}, (Kept d' ∧ ∀ s, d'.exposure s ≤ d.exposure s) →
      Kept d' ∧ Covered d' b := by
    rintro d' ⟨hkept, hle⟩
    exact ⟨hkept, fun s => (hle s).trans (hcovered s)⟩
  cases e with
  | wait ms => exact hsame (h.congr rfl rfl rfl)
  | chain a collateral => exact hsame (h.congr rfl rfl rfl)
  | opened id => exact hsame (h.opened id)
  | resolved id => exact hless (h.resolve id)
  | attempted id => exact hsame (h.attempted id)
  | charged id => exact hless (h.charged id)
  | bid bid reached again =>
      obtain ⟨hlive, hclear⟩ := hmeets
      have hprocess := process_spec hlive bid reached again
      rw [Bonds.step, backing]
      generalize process cfg bid d reached again = p at hprocess
      cases hprocess with
      | refused cache why =>
          rw [if_neg (by simp)]
          exact hsame (h.congr rfl rfl rfl)
      | @accepted cache a a' c hlookup htaken hread hfree =>
          have hclear := hclear a a' hlookup htaken
          have hkept := h.accepted hlookup htaken cache hclear
          rw [if_pos rfl]
          refine ⟨hkept, fun s => ?_⟩
          rcases eq_or_ne s bid.searcher.toLowerCase with rfl | hs
          · rw [Function.update_self, Option.getD_some]
            calc (accept d bid a' cache).exposure bid.searcher.toLowerCase
                ≤ (accept d bid a' cache).held bid.searcher.toLowerCase :=
                  exposure_le_held hkept hclear.settled
              _ ≤ d.onChain bid.searcher := held_accept_le htaken cache hclear hread hfree
          · rw [Function.update_of_ne hs]
            exact (exposure_accept_other hlookup htaken cache hs).trans_le (hcovered s)

/-- **A whole run.** -/
theorem Kept.run (events : List Event) : ∀ {d : Desk} {b : Backing}, Kept d → Covered d b →
    AllMeet cfg engine d events →
      Kept (run cfg engine d b events).1 ∧
        Covered (run cfg engine d b events).1 (run cfg engine d b events).2 := by
  induction events with
  | nil => exact fun h hcovered _ => ⟨h, hcovered⟩
  | cons e events ih =>
      intro d b h hcovered hmeet
      have hnext : Kept (Bonds.step cfg engine d e) ∧
          Covered (Bonds.step cfg engine d e) (backing cfg d b e) := h.step hcovered e hmeet.1
      exact ih hnext.1 hnext.2 hmeet.2

theorem kept_fresh (now : Int) (collateral : Address → Nat) : Kept (fresh now collateral) where
  holds_nonneg := fun _ _ h => by cases h
  charges_nodup := List.nodup_nil
  resolved := fun _ h => by cases h
  bid_pos := fun _ _ h => by cases h
  bid_held := fun _ _ h => by cases h
  spelled := fun _ _ h => by cases h
  charge_nonneg := fun _ h => by cases h
  charge_held := fun _ h => by cases h

end Steps

/-- **Exposure is covered**, one bid at a time: along a run whose steps meet the
condition, what a searcher can still be charged and what it owes are within the
collateral that it had when its last bid was accepted. -/
theorem exposure_covered (cfg : Config) (engine : Engine) (now : Int)
    (collateral : Address → Nat) (events : List Event)
    (hmeet : AllMeet cfg engine (fresh now collateral) events) (s : AddressText) :
    (run cfg engine (fresh now collateral) (fun _ => none) events).1.exposure s ≤
      ((run cfg engine (fresh now collateral) (fun _ => none) events).2 s).getD 0 :=
  (Kept.run events (kept_fresh now collateral) (fun _ => le_refl 0) hmeet).2 s

/-- A cache of five seconds, holds of a minute. -/
def defaults : Config := ⟨5000, 60000⟩

/-- A bid of an account, in small letters. -/
def bidOf (account : Address) (id : String) (wei : Int) : Bid where
  opportunityId := .name id
  searcher := .digits account .lower
  bidWei := some wei
  backrunRawTx := "0x"
  bidSig := none
  receivedAt := 0

theorem exposure_covered_sample :
    AllMeet defaults .insertion (fresh 0 fun _ => 100)
        [.opened (.name "a"), .bid (bidOf 1 "a" 70) true true] ∧
      (run defaults .insertion (fresh 0 fun _ => 100) (fun _ => none)
        [.opened (.name "a"), .bid (bidOf 1 "a" 70) true true]).1.exposure
          (.digits 1 .lower) ≤
        ((run defaults .insertion (fresh 0 fun _ => 100) (fun _ => none)
          [.opened (.name "a"), .bid (bidOf 1 "a" 70) true true]).2 (.digits 1 .lower)).getD 0 := by
  have hmeet : AllMeet defaults .insertion (fresh 0 fun _ => 100)
      [.opened (.name "a"), .bid (bidOf 1 "a" 70) true true] := by
    refine ⟨trivial, ⟨fun k h hk => (by cases hk), fun a a' ha _ => ?_⟩, trivial⟩
    have hopened : a = Auction.opened := by
      cases ha
      rfl
    subst hopened
    exact
      { current := fun _ hc => by cases hc
        backed := fun hsome => by cases hsome
        raised := fun _ hb => by cases hb
        settled := fun _ hc => by cases hc }
  exact ⟨hmeet, exposure_covered defaults .insertion 0 (fun _ => 100) _ hmeet _⟩

/-- A searcher with 100 wei bids 100, then 1 in the same auction, and 99 in another one.
With rivals just below it wins both at 99 and 98. -/
theorem lower_rebid_frees_bond :
    let events : List Event := [.opened (.name "a"), .opened (.name "b"),
      .bid (bidOf 1 "a" 100) true true, .bid (bidOf 1 "a" 1) true true,
      .bid (bidOf 1 "b" 99) true true, .bid (bidOf 2 "a" 99) true true,
      .bid (bidOf 2 "b" 98) true true, .resolved (.name "a"), .resolved (.name "b")]
    let collateral : Address → Nat := fun a => if a = 1 then 100 else 1000
    (run defaults .insertion (fresh 0 collateral) (fun _ => none) events).1.exposure
        (.digits 1 .lower) = 197 ∧
      (run defaults .insertion (fresh 0 collateral) (fun _ => none) events).2
        (.digits 1 .lower) = some 100 := by
  decide +kernel

end Bonds

end Ordo
