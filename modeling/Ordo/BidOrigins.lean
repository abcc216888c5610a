import Ordo.Bonds

/-!
# Who sent a bid

A bid names its searcher and may carry the searcher's signature.  Until the settlement
contract checks it nobody looks at the signature: the bid is acknowledged, held against
the collateral of the searcher it names, and may win.

The service takes bid messages from any connection, and its handlers run one `await` at
a time, in any order.  `genuine_run` says that bids, holds and charges come from signed
messages as long as each bid that is put down is signed.
-/

namespace Ordo

namespace Bonds

/-- The desk, the handlers under way and all bid messages so far. -/
structure Service where
  desk : Desk
  requests : List (Bid × Stage)
  messages : List Bid

inductive Action where
  | message (bid : Bid)
  | advance (i : Nat) (reached : Bool)
  | wait (ms : Nat)
  | chain (a : Address) (collateral : Nat)
  | opened (id : IdText)
  | resolved (id : IdText)
  | attempted (id : IdText)
  | charged (id : IdText)
  deriving DecidableEq

section Serve

variable (cfg : Config) (engine : Engine)

def act (s : Service) : Action → Service
  | .message bid =>
      { s with
        requests := s.requests ++ [(bid, arrive cfg bid s.desk)]
        messages := s.messages ++ [bid] }
  | .advance i reached =>
      match s.requests[i]? with
      | none => s
      | some (bid, stage) =>
          let p := advance cfg reached bid s.desk stage
          { s with desk := p.1, requests := s.requests.set i (bid, p.2) }
  | .wait ms => { s with desk := { s.desk with now := s.desk.now + ms } }
  | .chain a collateral =>
      { s with
        desk := { s.desk with collateral := Function.update s.desk.collateral a collateral } }
  | .opened id => { s with desk := openAuction id s.desk }
  | .resolved id => { s with desk := resolve engine id s.desk }
  | .attempted id => { s with desk := attempt id s.desk }
  | .charged id => { s with desk := charge id s.desk }

def serve (s : Service) (actions : List Action) : Service := actions.foldl (act cfg engine) s

end Serve

def started (now : Int) (collateral : Address → Nat) : Service := ⟨fresh now collateral, [], []⟩

section Origins

variable (recover : TypedData → Bytes → Option Address) (chainId : Nat) (settlement : Address)

/-- The bid carries its searcher's signature, over its opportunity and its amount. -/
def IsSigned (bid : Bid) : Prop :=
  Authentic recover chainId settlement bid.opportunityId bid.toReceiptBid

/-- A message that the searcher signed allows as much. -/
def Vouched (messages : List Bid) (searcher : AddressText) (id : IdText) (wei : Int) : Prop :=
  ∃ m ∈ messages, m.searcher.toLowerCase = searcher ∧ m.opportunityId = id ∧
    wei ≤ Auction.amount m ∧ IsSigned recover chainId settlement m

/-- Bids in open auctions are signed messages, and nothing is held or owed beyond what
its searcher signed. -/
structure Genuine (messages : List Bid) (d : Desk) : Prop where
  bids : ∀ id a, d.activeAuctions.lookup id = some a → ∀ b ∈ a.bids,
    b ∈ messages ∧ b.opportunityId = id ∧ IsSigned recover chainId settlement b
  holds : ∀ k h, d.holds.lookup k = some h →
    Vouched recover chainId settlement messages k.1 k.2 h.wei
  charges : ∀ c ∈ d.charges,
    Vouched recover chainId settlement messages c.searcher.toLowerCase c.opportunityId c.wei

/-- The condition on a step: a bid that has passed its check, and that its auction is
going to take, is signed. -/
def SignedPlace (s : Service) : Action → Prop
  | .advance i _ => ∀ bid, s.requests[i]? = some (bid, .placing) →
      ∀ a a', s.desk.activeAuctions.lookup bid.opportunityId = some a →
        Auction.submitBid bid a = .ok a' → IsSigned recover chainId settlement bid
  | _ => True

def AllSigned (cfg : Config) (engine : Engine) (s : Service) : List Action → Prop
  | [] => True
  | action :: actions => SignedPlace recover chainId settlement s action ∧
      AllSigned cfg engine (act cfg engine s action) actions

end Origins

/-! ### Steps that add nothing -/

/-- No bid, hold or charge is new. -/
structure Sheds (d d' : Desk) : Prop where
  bids : ∀ id a, d'.activeAuctions.lookup id = some a → ∀ b ∈ a.bids,
    ∃ a₀, d.activeAuctions.lookup id = some a₀ ∧ b ∈ a₀.bids
  holds : ∀ k h, d'.holds.lookup k = some h → d.holds.lookup k = some h
  charges : ∀ c ∈ d'.charges, ∃ c₀ ∈ d.charges, c₀.opportunityId = c.opportunityId ∧
    c₀.searcher = c.searcher ∧ c₀.wei = c.wei

section Shedding

variable {cfg : Config} {d d' d'' : Desk}

theorem Sheds.of_holds (hbids : d'.activeAuctions = d.activeAuctions)
    (hcharges : d'.charges = d.charges)
    (hholds : ∀ k h, d'.holds.lookup k = some h → d.holds.lookup k = some h) : Sheds d d' where
  bids := fun _ a ha _ hb => ⟨a, hbids ▸ ha, hb⟩
  holds := hholds
  charges := fun c hc => ⟨c, hcharges ▸ hc, rfl, rfl, rfl⟩

theorem Sheds.of_eq (hbids : d'.activeAuctions = d.activeAuctions)
    (hcharges : d'.charges = d.charges) (hholds : d'.holds = d.holds) : Sheds d d' :=
  Sheds.of_holds hbids hcharges fun _ _ hk => hholds ▸ hk

theorem Sheds.refl (d : Desk) : Sheds d d := Sheds.of_eq rfl rfl rfl

theorem Sheds.trans (h : Sheds d d') (h' : Sheds d' d'') : Sheds d d'' where
  bids := by
    intro id a ha b hb
    obtain ⟨a', ha', hb'⟩ := h'.bids id a ha b hb
    exact h.bids id a' ha' b hb'
  holds := fun k v hk => h.holds k v (h'.holds k v hk)
  charges := by
    intro c hc
    obtain ⟨c', hc', hid', hsearcher', hwei'⟩ := h'.charges c hc
    obtain ⟨c₀, hc₀, hid, hsearcher, hwei⟩ := h.charges c' hc'
    exact ⟨c₀, hc₀, hid.trans hid', hsearcher.trans hsearcher', hwei.trans hwei'⟩

theorem sheds_heldBy (d : Desk) (searcher : AddressText) : Sheds d (heldBy cfg d searcher).2 :=
  Sheds.of_holds rfl rfl fun _ _ hk => (Table.lookup_keep.mp hk).1

theorem sheds_readCollateral (d : Desk) (searcher : AddressText) (reached : Bool) :
    Sheds d (readCollateral d searcher reached).2 := by
  obtain ⟨c, cache, hread, -⟩ := readCollateral_spec d searcher reached
  rw [hread]
  exact Sheds.of_eq rfl rfl rfl

theorem sheds_release (d : Desk) (searcher : AddressText) (id : IdText) :
    Sheds d (release d searcher id) :=
  Sheds.of_holds rfl rfl fun _ _ hk => (Table.lookup_erase_iff.mp hk).2

/-- A handler adds nothing before it puts its bid down. -/
theorem sheds_advance (reached : Bool) (bid : Bid) (d : Desk) {stage : Stage}
    (h : stage ≠ .placing) : Sheds d (advance cfg reached bid d stage).1 := by
  cases stage with
  | reading own needed => exact sheds_readCollateral d bid.searcher reached
  | exposing own needed c => exact sheds_heldBy d bid.searcher
  | deciding own needed free =>
      rw [advance]
      split
      · exact Sheds.refl d
      · exact Sheds.refl d
  | explaining own needed c =>
      cases c with
      | some c => exact sheds_heldBy d bid.searcher
      | none =>
          exact (sheds_readCollateral d bid.searcher reached).trans (sheds_heldBy _ bid.searcher)
  | placing => exact absurd rfl h
  | refused why => exact Sheds.refl d
  | accepted => exact Sheds.refl d

theorem sheds_openAuction (d : Desk) (id : IdText) : Sheds d (openAuction id d) := by
  unfold openAuction
  split
  · exact Sheds.refl d
  · refine ⟨fun id' a ha b hb => ?_, fun _ _ hk => hk, fun c hc => ⟨c, hc, rfl, rfl, rfl⟩⟩
    rcases Table.lookup_insert_iff.mp ha with ⟨-, rfl⟩ | ⟨-, hold⟩
    · exact absurd hb List.not_mem_nil
    · exact ⟨a, hold, hb⟩

/-- A charge that has gone a step on is for the same searcher and amount. -/
theorem sheds_change {id : IdText} {f : Charge → Charge}
    (hf : ∀ c, (f c).opportunityId = c.opportunityId ∧ (f c).searcher = c.searcher ∧
      (f c).wei = c.wei)
    (hbids : d'.activeAuctions = d.activeAuctions) (hholds : d'.holds = d.holds)
    (hcharges : d'.charges = change id f d.charges) : Sheds d d' where
  bids := fun _ a ha _ hb => ⟨a, hbids ▸ ha, hb⟩
  holds := fun _ _ hk => hholds ▸ hk
  charges := by
    intro c hc
    rw [hcharges] at hc
    obtain ⟨c₀, hc₀, ⟨-, rfl⟩ | ⟨-, rfl⟩⟩ := mem_change hc
    · obtain ⟨hid, hsearcher, hwei⟩ := hf c₀
      exact ⟨c₀, hc₀, hid.symm, hsearcher.symm, hwei.symm⟩
    · exact ⟨c, hc₀, rfl, rfl, rfl⟩

theorem sheds_attempt (d : Desk) (id : IdText) : Sheds d (attempt id d) := by
  unfold attempt
  split
  · exact Sheds.refl d
  · have hchange : Sheds d { d with
        charges := change id (fun c => { c with attempted := true }) d.charges } :=
      sheds_change (f := fun c => { c with attempted := true }) (fun _ => ⟨rfl, rfl, rfl⟩)
        rfl rfl rfl
    exact hchange.trans (sheds_release _ _ id)

theorem sheds_charge (d : Desk) (id : IdText) : Sheds d (charge id d) := by
  unfold charge
  split
  · exact Sheds.refl d
  · exact sheds_change (f := fun c => { c with charged := true }) (fun _ => ⟨rfl, rfl, rfl⟩)
      rfl rfl rfl

end Shedding

/-! ### Steps that add something -/

section Adding

variable {recover : TypedData → Bytes → Option Address} {chainId : Nat} {settlement : Address}
  {cfg : Config} {engine : Engine} {messages : List Bid} {d d' : Desk}

theorem Genuine.sheds (h : Genuine recover chainId settlement messages d) (hd : Sheds d d') :
    Genuine recover chainId settlement messages d' where
  bids := by
    intro id a ha b hb
    obtain ⟨a₀, ha₀, hb₀⟩ := hd.bids id a ha b hb
    exact h.bids id a₀ ha₀ b hb₀
  holds := fun k v hk => h.holds k v (hd.holds k v hk)
  charges := by
    intro c hc
    obtain ⟨c₀, hc₀, hid, hsearcher, hwei⟩ := hd.charges c hc
    rw [← hid, ← hsearcher, ← hwei]
    exact h.charges c₀ hc₀

/-- Later messages change nothing. -/
theorem Genuine.append (h : Genuine recover chainId settlement messages d) (bid : Bid) :
    Genuine recover chainId settlement (messages ++ [bid]) d where
  bids := by
    intro id a ha b hb
    obtain ⟨hmem, hrest⟩ := h.bids id a ha b hb
    exact ⟨List.mem_append_left _ hmem, hrest⟩
  holds := by
    intro k v hk
    obtain ⟨m, hm, hrest⟩ := h.holds k v hk
    exact ⟨m, List.mem_append_left _ hm, hrest⟩
  charges := by
    intro c hc
    obtain ⟨m, hm, hrest⟩ := h.charges c hc
    exact ⟨m, List.mem_append_left _ hm, hrest⟩

/-- A signed message is put down. -/
theorem Genuine.place (h : Genuine recover chainId settlement messages d) {bid : Bid}
    (hmem : bid ∈ messages)
    (hsigned : ∀ a a', d.activeAuctions.lookup bid.opportunityId = some a →
      Auction.submitBid bid a = .ok a' → IsSigned recover chainId settlement bid) :
    Genuine recover chainId settlement messages (place bid d).1 := by
  unfold Bonds.place
  split
  · exact h
  rename_i a ha
  split
  · exact h
  rename_i a' ha'
  have hbid := hsigned a a' ha ha'
  obtain ⟨-, -, rfl⟩ := Auction.submitBid_eq_ok ha'
  refine ⟨fun id a₁ ha₁ b hb => ?_, fun k v hk => ?_, h.charges⟩
  · rcases Table.lookup_insert_iff.mp ha₁ with ⟨rfl, rfl⟩ | ⟨-, hold⟩
    · rcases List.mem_append.mp hb with hb | hb
      · exact h.bids _ a ha b hb
      · rw [List.mem_singleton.mp hb]
        exact ⟨hmem, rfl, hbid⟩
    · exact h.bids id a₁ hold b hb
  · rcases Table.lookup_insert_iff.mp hk with ⟨rfl, rfl⟩ | ⟨-, hold⟩
    · exact ⟨bid, hmem, rfl, rfl, le_refl _, hbid⟩
    · exact h.holds k v hold

/-- Holds that are there when an auction has been resolved: old ones, and the winner's. -/
theorem narrow_holds (id : IdText) (o : Auction.Outcome) (bids : List Bid) : ∀ d : Desk, ∃ holds,
    bids.foldl (narrow id o) d = { d with holds := holds } ∧
    ∀ k h, holds.lookup k = some h → d.holds.lookup k = some h ∨
      ∃ winner, o.winner = some winner ∧ k = (winner.searcher.toLowerCase, id) ∧
        h.wei = o.clearingPriceWei := by
  induction bids with
  | nil => exact fun d => ⟨d.holds, rfl, fun _ _ hk => Or.inl hk⟩
  | cons bid bids ih =>
      intro d
      have hfirst : ∃ holds, narrow id o d bid = { d with holds := holds } ∧
          ∀ k h, holds.lookup k = some h → d.holds.lookup k = some h ∨
            ∃ winner, o.winner = some winner ∧ k = (winner.searcher.toLowerCase, id) ∧
              h.wei = o.clearingPriceWei := by
        unfold narrow
        split
        next hwon =>
          obtain ⟨winner, hwinner, hsame⟩ := Option.map_eq_some_iff.mp hwon
          refine ⟨_, rfl, fun k h hk => ?_⟩
          rcases Table.lookup_insert_iff.mp hk with ⟨rfl, rfl⟩ | ⟨-, hold⟩
          · exact Or.inr ⟨winner, hwinner, by rw [hsame], rfl⟩
          · exact Or.inl hold
        next =>
          exact ⟨_, rfl, fun k h hk => Or.inl (Table.lookup_erase_iff.mp hk).2⟩
      obtain ⟨first, heq, hsome⟩ := hfirst
      obtain ⟨holds, hrest, hsome'⟩ := ih { d with holds := first }
      refine ⟨holds, by rw [List.foldl_cons, heq, hrest], fun k h hk => ?_⟩
      rcases hsome' k h hk with hold | hnew
      · exact hsome k h hold
      · exact Or.inr hnew

/-- The winner signed for what it is going to be charged. -/
theorem Genuine.resolve (h : Genuine recover chainId settlement messages d) (id : IdText) :
    Genuine recover chainId settlement messages (resolve engine id d) := by
  unfold Bonds.resolve
  split
  · exact h
  rename_i a ha
  have hwon : ∀ winner, (Auction.outcome engine a.bids).winner = some winner →
      Vouched recover chainId settlement messages winner.searcher.toLowerCase id
        (Auction.outcome engine a.bids).clearingPriceWei := by
    intro winner hwinner
    obtain ⟨hmem, hle⟩ := Auction.outcome_winner hwinner
    obtain ⟨hsent, hid, hsigned⟩ := h.bids id a ha winner hmem
    exact ⟨winner, hsent, rfl, hid, hle, hsigned⟩
  obtain ⟨holds, hnarrow, hsome⟩ := narrow_holds id (Auction.outcome engine a.bids) a.bids
    { d with activeAuctions := d.activeAuctions.erase id }
  simp only [hnarrow]
  have hclosed : Genuine recover chainId settlement messages
      { d with activeAuctions := d.activeAuctions.erase id, holds := holds } := by
    refine ⟨fun id' a' ha' => h.bids id' a' (Table.lookup_erase_iff.mp ha').2, ?_, h.charges⟩
    intro k v hk
    rcases hsome k v hk with hold | ⟨winner, hwinner, rfl, hwei⟩
    · exact h.holds k v hold
    · rw [hwei]
      exact hwon winner hwinner
  split
  · exact hclosed
  rename_i winner hwinner
  split
  · exact hclosed
  · refine ⟨hclosed.bids, hclosed.holds, fun c hc => ?_⟩
    rcases List.mem_append.mp hc with hc | hc
    · exact h.charges c hc
    · rw [List.mem_singleton.mp hc]
      exact hwon winner hwinner

/-- **One step.** -/
theorem Genuine.act {s : Service} (h : Genuine recover chainId settlement s.messages s.desk)
    (hsent : ∀ r ∈ s.requests, r.1 ∈ s.messages) (action : Action)
    (hplace : SignedPlace recover chainId settlement s action) :
    Genuine recover chainId settlement (act cfg engine s action).messages
        (act cfg engine s action).desk ∧
      ∀ r ∈ (act cfg engine s action).requests, r.1 ∈ (act cfg engine s action).messages := by
  cases action with
  | message bid =>
      refine ⟨h.append bid, fun r hr => ?_⟩
      rcases List.mem_append.mp hr with hr | hr
      · exact List.mem_append_left _ (hsent r hr)
      · rw [List.mem_singleton.mp hr]
        exact List.mem_append_right _ List.mem_cons_self
  | advance i reached =>
      cases hi : s.requests[i]? with
      | none =>
          simp only [Bonds.act, hi]
          exact ⟨h, hsent⟩
      | some r =>
          obtain ⟨bid, stage⟩ := r
          have hbid : bid ∈ s.messages := hsent _ (List.mem_of_getElem? hi)
          simp only [Bonds.act, hi]
          refine ⟨?_, fun r hr => ?_⟩
          · by_cases hstage : stage = .placing
            · subst hstage
              exact h.place hbid (hplace bid hi)
            · exact h.sheds (sheds_advance reached bid s.desk hstage)
          · rcases List.mem_or_eq_of_mem_set hr with hr | rfl
            · exact hsent r hr
            · exact hbid
  | wait ms => exact ⟨h.sheds (Sheds.of_eq rfl rfl rfl), hsent⟩
  | chain a collateral => exact ⟨h.sheds (Sheds.of_eq rfl rfl rfl), hsent⟩
  | opened id => exact ⟨h.sheds (sheds_openAuction _ id), hsent⟩
  | resolved id => exact ⟨h.resolve id, hsent⟩
  | attempted id => exact ⟨h.sheds (sheds_attempt _ id), hsent⟩
  | charged id => exact ⟨h.sheds (sheds_charge _ id), hsent⟩

theorem Genuine.serve (actions : List Action) : ∀ {s : Service},
    Genuine recover chainId settlement s.messages s.desk →
    (∀ r ∈ s.requests, r.1 ∈ s.messages) →
    AllSigned recover chainId settlement cfg engine s actions →
      Genuine recover chainId settlement (serve cfg engine s actions).messages
        (serve cfg engine s actions).desk := by
  induction actions with
  | nil => exact fun h _ _ => h
  | cons action actions ih =>
      intro s h hsent hsigned
      have hact : Genuine recover chainId settlement (Bonds.act cfg engine s action).messages
          (Bonds.act cfg engine s action).desk ∧ ∀ r ∈ (Bonds.act cfg engine s action).requests,
            r.1 ∈ (Bonds.act cfg engine s action).messages := h.act hsent action hsigned.1
      exact ih hact.1 hact.2 hsigned.2

theorem genuine_started (now : Int) (collateral : Address → Nat) :
    Genuine recover chainId settlement (started now collateral).messages
      (started now collateral).desk where
  bids := fun _ _ h => by cases h
  holds := fun _ _ h => by cases h
  charges := fun _ h => by cases h

end Adding

/-- **Bids come from their searchers**, in any order of messages and of the handlers'
steps, as long as each bid that is put down is signed. -/
theorem genuine_run (recover : TypedData → Bytes → Option Address) (chainId : Nat)
    (settlement : Address) (cfg : Config) (engine : Engine) (now : Int)
    (collateral : Address → Nat) (actions : List Action)
    (hsigned : AllSigned recover chainId settlement cfg engine (started now collateral) actions) :
    Genuine recover chainId settlement
      (serve cfg engine (started now collateral) actions).messages
      (serve cfg engine (started now collateral) actions).desk :=
  Genuine.serve actions (genuine_started now collateral) (fun _ h => by cases h) hsigned

/-- A message of one bid, and its handler up to the answer. -/
def oneBid (bid : Bid) : List Action :=
  [.opened bid.opportunityId, .message bid, .advance 0 true, .advance 0 true, .advance 0 true,
    .advance 0 true]

theorem genuine_run_sample :
    let bid : Bid := { bidOf 1 "a" 70 with bidSig := some [7] }
    let recover : TypedData → Bytes → Option Address := fun _ s => if s = [7] then some 1 else none
    IsSigned recover 4663 5 bid ∧
      Genuine recover 4663 5
        (serve defaults .insertion (started 0 fun _ => 100) (oneBid bid)).messages
        (serve defaults .insertion (started 0 fun _ => 100) (oneBid bid)).desk := by
  intro bid recover
  have hsigned : IsSigned recover 4663 5 bid :=
    auditBid_eq_ok.mp (by decide +kernel)
  refine ⟨hsigned, genuine_run recover 4663 5 defaults .insertion 0 (fun _ => 100) _ ?_⟩
  have hplace : ∀ (s : Service) (reached : Bool), s.requests.map Prod.fst = [bid] →
      SignedPlace recover 4663 5 s (.advance 0 reached) := by
    intro s reached hrequests b hb _ _ _ _
    have hmem : b ∈ s.requests.map Prod.fst :=
      List.mem_map_of_mem (f := Prod.fst) (List.mem_of_getElem? hb)
    rw [hrequests] at hmem
    rw [List.mem_singleton.mp hmem]
    exact hsigned
  exact ⟨trivial, trivial, hplace _ true rfl, hplace _ true rfl, hplace _ true rfl,
    hplace _ true rfl, trivial⟩

/-- Anyone can put down a bid of 100 wei in the name of searcher 1, without a signature:
its 100 wei of collateral are on hold, it wins, and it owes. -/
theorem unsigned_bid_wins :
    let actions := oneBid (bidOf 1 "a" 100)
    (∀ recover : TypedData → Bytes → Option Address, ∀ settlement : Address,
      ¬ Genuine recover 4663 settlement
        (serve defaults .insertion (started 0 fun _ => 100) actions).messages
        (serve defaults .insertion (started 0 fun _ => 100) actions).desk) ∧
      (serve defaults .insertion (started 0 fun _ => 100) actions).desk.held (.digits 1 .lower) =
        100 ∧
      (serve defaults .insertion (started 0 fun _ => 100)
        (actions ++ [.resolved (.name "a")])).desk.charges =
          [⟨.name "a", .digits 1 .lower, 100, false, false⟩] := by
  intro actions
  refine ⟨fun recover settlement hgenuine => ?_, by decide +kernel, by decide +kernel⟩
  have hcharged := hgenuine.holds (.digits 1 .lower, .name "a") ⟨100, 0⟩ (by decide +kernel)
  obtain ⟨m, hm, -, -, -, signature, -, -, hsig, -⟩ := hcharged
  have hmessages : (serve defaults .insertion (started 0 fun _ => 100) actions).messages =
      [bidOf 1 "a" 100] := by decide +kernel
  rw [hmessages] at hm
  rw [List.mem_singleton.mp hm] at hsig
  cases hsig

end Bonds

end Ordo
