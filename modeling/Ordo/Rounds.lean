import Ordo.Auction
import Ordo.Settlement
import Ordo.Tables

/-!
# The rounds of the auction service

A submitted transaction opens a round.  When its auction has closed and the receipt is
published, three things leave in one tick: `settle` for the winner, the user's
transaction and the winner's back-run.  When all are answered the rebate is recorded.

Rounds overlap, answers come in any order, and a send may fail.  A failed broadcast
never discards the result of the auction, so `charges_of_rounds` speaks of the round in
which the user's transaction was sent, whatever the upstream answered.

How long the window is and what the hint says is left open, as are the times.  Bids
have passed their bond check.
-/

namespace Ordo

namespace Rounds

/-- A settlement-ready record, produced when an auction has a winner. -/
structure SettlementRecord where
  opportunityId : IdText
  searcher : AddressText
  /-- The winner's signed max bid. -/
  maxAmountWei : Numeral
  /-- The clearing price actually owed. -/
  chargeWei : Int
  user : Address
  app : AddressText
  searcherSig : Option Bytes
  deriving DecidableEq

structure AuctionResult where
  opportunityId : IdText
  winner : Option AddressText
  clearingPriceWei : Int
  bidCount : Nat
  userTxHash : Option String
  backrunTxHash : Option String
  deriving DecidableEq

structure LedgerEntry where
  opportunityId : IdText
  totalWei : Int
  userWei : Int
  appWei : Int
  protocolWei : Int
  appRebateAddress : Option AddressText
  searcher : AddressText
  deriving DecidableEq

/-- What `/submit` answers. -/
structure Response where
  result : AuctionResult
  rebate : Option LedgerEntry
  settlement : Option SettlementRecord
  settlementTxHash : Option String
  userError : Option String
  deriving DecidableEq

/-- Where a transaction stands. -/
inductive Sending where
  | unsent
  | waiting
  | accepted (hash : String)
  | refused (error : String)
  deriving DecidableEq

namespace Sending

def hash : Sending → Option String
  | accepted hash => some hash
  | _ => none

def error : Sending → Option String
  | refused error => some error
  | _ => none

def receive (reply : Except String String) : Sending → Sending
  | waiting =>
      match reply with
      | .ok hash => accepted hash
      | .error error => refused error
  | s => s

end Sending

/-- The transactions of a round. -/
inductive Leg where
  | settlement
  | user
  | backrun
  deriving DecidableEq

structure Sends where
  settlement : Sending
  user : Sending
  backrun : Sending
  deriving DecidableEq

def Sends.receive (reply : Except String String) (s : Sends) : Leg → Sends
  | .settlement => { s with settlement := s.settlement.receive reply }
  | .user => { s with user := s.user.receive reply }
  | .backrun => { s with backrun := s.backrun.receive reply }

/-- All sends are answered. -/
def Sends.isOver (s : Sends) : Bool :=
  s.settlement ≠ .waiting ∧ s.user ≠ .waiting ∧ s.backrun ≠ .waiting

inductive Phase where
  | bidding
  /-- The auction has closed, and the receipt is being signed. -/
  | publishing
  | dispatched (record : Option SettlementRecord) (sends : Sends)
  | answered (response : Response)
  | failed
  deriving DecidableEq

structure Round where
  rawTx : String
  rebateAddress : Option AddressText
  auction : Auction.State
  phase : Phase

/-! ### Rebates -/

/-- `REBATE_SPLIT` in thousandths, rounded. -/
structure Split where
  user : Int
  app : Int

structure RebateLedger where
  owedByAddress : Table AddressText Int
  entries : List LedgerEntry

def RebateLedger.credit (l : RebateLedger) (addr : AddressText) (wei : Int) : RebateLedger :=
  { l with
    owedByAddress := l.owedByAddress.insert addr.toLowerCase
      ((l.owedByAddress.lookup addr.toLowerCase).getD 0 + wei) }

def rebateEntry (split : Split) (result : AuctionResult) (winningBid : Bid)
    (appRebateAddress : Option AddressText) : LedgerEntry :=
  let total := result.clearingPriceWei
  let userWei := (total * split.user).tdiv 1000
  let appWei := (total * split.app).tdiv 1000
  { opportunityId := result.opportunityId
    totalWei := total
    userWei
    appWei
    protocolWei := total - userWei - appWei
    appRebateAddress
    searcher := winningBid.searcher }

def RebateLedger.record (l : RebateLedger) (entry : LedgerEntry) : RebateLedger :=
  let l :=
    match entry.appRebateAddress with
    | none => l
    | some addr => if addr = AddressText.other "" then l else l.credit addr entry.appWei
  { l with entries := l.entries ++ [entry] }

/-! ### Settlement -/

def zero : AddressText := .digits 0 .lower

/-- A text that is no address stands for the zero address. -/
def asAddress : AddressText → AddressText
  | .digits a casing => .digits a casing
  | .other _ => zero

/-- The arguments of `settle`; a record that cannot be encoded has none. -/
def settleArgs (rec : SettlementRecord) : Option OrdoSettlement.Settlement := do
  let searcher ← (asAddress rec.searcher).account?
  let opportunityId ← (opportunityIdToBytes32 rec.opportunityId).word?
  let maxAmountWei ← rec.maxAmountWei.bind (uint 256)
  let chargeWei ← uint 256 rec.chargeWei
  let app ← (asAddress rec.app).account?
  return { searcher, opportunityId, maxAmountWei, chargeWei, user := rec.user, app }

/-- The call that `submitSettlement` makes, with the searcher's signature. -/
def submitSettlement (settlementEnabled : Bool) (rec : SettlementRecord) :
    Option (OrdoSettlement.Settlement × Bytes) :=
  if settlementEnabled then
    rec.searcherSig.bind fun searcherSig => (settleArgs rec).map fun args => (args, searcherSig)
  else none

/-- `outcome.winner && outcome.clearingPriceWei > 0n`. -/
def chargeable (o : Auction.Outcome) : Option (Bid × Int) :=
  o.winner.bind fun winner =>
    if 0 < o.clearingPriceWei then some (winner, o.clearingPriceWei) else none

/-! ### The service -/

/-- What is configured, and what the service calls: the signer of a transaction. -/
structure Setup where
  settlementEnabled : Bool
  split : Split
  engine : Engine
  recoverTransactionAddress : String → Option Address

/-- The service's rounds and files, what it has sent, and what it has broadcast. -/
structure House where
  rounds : Table IdText Round
  settlements : List SettlementRecord
  sent : List (IdText × OrdoSettlement.Settlement × Bytes)
  broadcast : List (IdText × String)
  ledger : RebateLedger

inductive Event where
  | submit (id : IdText) (rawTx : String) (rebateAddress : Option AddressText)
  | bid (bid : Bid)
  | close (id : IdText)
  /-- The receipt is signed, or could not be. -/
  | published (id : IdText) (signed : Bool)
  | reply (id : IdText) (leg : Leg) (reply : Except String String)

section Service

variable (cfg : Setup)

def settlementRecord (id : IdText) (r : Round) (winner : Bid) (price : Int) :
    SettlementRecord where
  opportunityId := id
  searcher := winner.searcher
  maxAmountWei := winner.bidWei
  chargeWei := price
  user := (cfg.recoverTransactionAddress r.rawTx).getD 0
  app := r.rebateAddress.getD zero
  searcherSig := winner.bidSig

/-- An opportunity's id is a new uuid. -/
def submit (id : IdText) (rawTx : String) (rebateAddress : Option AddressText) (h : House) :
    House :=
  if ¬ "0x".toList.isPrefixOf rawTx.toList ∨ (h.rounds.lookup id).isSome then h
  else { h with rounds := h.rounds.insert id ⟨rawTx, rebateAddress, Auction.opened, .bidding⟩ }

def placeBid (bid : Bid) (r : Round) (h : House) : House :=
  match Auction.onBid bid.opportunityId bid r.auction with
  | .error _ => h
  | .ok auction => { h with rounds := h.rounds.insert bid.opportunityId { r with auction } }

def closeRound (id : IdText) (r : Round) (h : House) : House :=
  { h with
    rounds := h.rounds.insert id
      { r with auction := Auction.close cfg.engine r.auction, phase := .publishing } }

/-- Settlement, user transaction and back-run, in the same tick. -/
def dispatch (id : IdText) (r : Round) (o : Auction.Outcome) (h : House) : House :=
  let record := (chargeable o).map fun p => settlementRecord cfg id r p.1 p.2
  let call := record.bind (submitSettlement cfg.settlementEnabled)
  { h with
    rounds := h.rounds.insert id
      { r with
        phase := .dispatched record
          { settlement := if call.isSome then .waiting else .unsent
            user := .waiting
            backrun := if o.winner.isSome then .waiting else .unsent } }
    settlements := h.settlements ++ record.toList
    sent := h.sent ++ call.toList.map fun call => (id, call)
    broadcast := h.broadcast ++
      (id, r.rawTx) :: o.winner.toList.map fun winner => (id, winner.backrunRawTx) }

def toResult (id : IdText) (o : Auction.Outcome) (bidCount : Nat) (sends : Sends) :
    AuctionResult where
  opportunityId := id
  winner := o.winner.map (·.searcher)
  clearingPriceWei := o.clearingPriceWei
  bidCount
  userTxHash := sends.user.hash
  backrunTxHash := sends.backrun.hash

/-- The rebate is recorded and the request answered. -/
def answer (id : IdText) (r : Round) (o : Auction.Outcome) (record : Option SettlementRecord)
    (sends : Sends) (h : House) : House :=
  let result := toResult id o r.auction.bids.length sends
  let entry := (chargeable o).map fun p => rebateEntry cfg.split result p.1 r.rebateAddress
  { h with
    rounds := h.rounds.insert id
      { r with
        phase := .answered
          { result
            rebate := entry
            settlement := record
            settlementTxHash := sends.settlement.hash
            userError := sends.user.error } }
    ledger := entry.elim h.ledger h.ledger.record }

/-- One answer more. -/
def receive (id : IdText) (r : Round) (o : Auction.Outcome) (record : Option SettlementRecord)
    (sends : Sends) (h : House) : House :=
  if sends.isOver then answer cfg id r o record sends h
  else { h with rounds := h.rounds.insert id { r with phase := .dispatched record sends } }

/-- What happens to a round depends on its phase. -/
def stepRound (h : House) (id : IdText) (r : Round) (e : Event) : House :=
  match r.phase, r.auction.settled, e with
  | .bidding, _, .bid bid => placeBid bid r h
  | .bidding, _, .close _ => closeRound cfg id r h
  | .publishing, some o, .published _ true => dispatch cfg id r o h
  | .publishing, _, .published _ false =>
      { h with rounds := h.rounds.insert id { r with phase := .failed } }
  | .dispatched record sends, some o, .reply _ leg reply =>
      receive cfg id r o record (sends.receive reply leg) h
  | _, _, _ => h

def Event.id : Event → IdText
  | .submit id _ _ => id
  | .bid b => b.opportunityId
  | .close id => id
  | .published id _ => id
  | .reply id _ _ => id

def step (h : House) (e : Event) : House :=
  match e, h.rounds.lookup e.id with
  | .submit id rawTx rebateAddress, _ => submit id rawTx rebateAddress h
  | e, some r => stepRound cfg h e.id r e
  | _, none => h

def started : House := ⟨∅, [], [], [], ⟨∅, []⟩⟩

def run (events : List Event) : House := events.foldl (step cfg) started

end Service

/-! ### What a round is charged for -/

/-- The user's transaction has left, with whatever belongs to it. -/
def Round.isOut (r : Round) : Bool :=
  match r.phase with
  | .dispatched _ _ => true
  | .answered _ => true
  | _ => false

/-- The auction of a round has a winner, who pays no more than it bid. -/
structure Won (r : Round) (winner : Bid) (price : Int) : Prop where
  settled : r.auction.settled = some ⟨some winner, price⟩
  positive : 0 < price
  listed : winner ∈ r.auction.bids
  within : price ≤ Auction.amount winner

section Charges

variable (cfg : Setup)

/-- `settle` has been sent for the winner of a round whose transaction has been sent. -/
def SentFor (h : House) (id : IdText) (call : OrdoSettlement.Settlement × Bytes) : Prop :=
  ∃ r winner price, h.rounds.lookup id = some r ∧ r.isOut = true ∧
    (id, r.rawTx) ∈ h.broadcast ∧ Won r winner price ∧
    submitSettlement cfg.settlementEnabled (settlementRecord cfg id r winner price) = some call

/-- A rebate has been recorded for the winner of a round that has been answered. -/
def RecordedFor (h : House) (e : LedgerEntry) : Prop :=
  ∃ r winner price response, h.rounds.lookup e.opportunityId = some r ∧
    r.phase = .answered response ∧ response.rebate = some e ∧
    (e.opportunityId, r.rawTx) ∈ h.broadcast ∧ Won r winner price ∧
    e = rebateEntry cfg.split response.result winner r.rebateAddress ∧ e.totalWei = price

structure Sound (h : House) : Prop where
  auctions : ∀ id r, h.rounds.lookup id = some r → Auction.Kept cfg.engine id r.auction
  out : ∀ id r, h.rounds.lookup id = some r → r.isOut = true → (id, r.rawTx) ∈ h.broadcast
  sent : ∀ p ∈ h.sent, SentFor cfg h p.1 p.2
  sent_once : (h.sent.map Prod.fst).Nodup
  recorded : ∀ e ∈ h.ledger.entries, RecordedFor cfg h e
  recorded_once : (h.ledger.entries.map (·.opportunityId)).Nodup

end Charges

section Steps

variable {cfg : Setup} {h h' : House} {id : IdText} {r r' : Round}

/-- A round that is out stays out, for the same transaction and auction; one that has
been answered does not change. -/
structure Round.Grows (r r' : Round) : Prop where
  rawTx : r'.rawTx = r.rawTx
  rebateAddress : r'.rebateAddress = r.rebateAddress
  out : r.isOut = true → r'.isOut = true ∧ r'.auction = r.auction
  answered : ∀ response, r.phase = .answered response → r'.phase = .answered response

/-- **A round begins or moves on.**  Nothing is sent for it and nothing recorded. -/
theorem Sound.put (hsound : Sound cfg h)
    (hgrows : ∀ r, h.rounds.lookup id = some r → r.Grows r')
    (hkept : Auction.Kept cfg.engine id r'.auction)
    (hrounds : h'.rounds = h.rounds.insert id r') (hsent : h'.sent = h.sent)
    (hentries : h'.ledger.entries = h.ledger.entries)
    (hbroadcast : ∀ x ∈ h.broadcast, x ∈ h'.broadcast)
    (hout : r'.isOut = true → (id, r'.rawTx) ∈ h'.broadcast) : Sound cfg h' := by
  refine ⟨?_, ?_, ?_, hsent ▸ hsound.sent_once, ?_, hentries ▸ hsound.recorded_once⟩
  · intro id₁ r₁ h₁
    rw [hrounds] at h₁
    rcases Table.lookup_insert_iff.mp h₁ with ⟨rfl, rfl⟩ | ⟨-, hold⟩
    · exact hkept
    · exact hsound.auctions id₁ r₁ hold
  · intro id₁ r₁ h₁ hout₁
    rw [hrounds] at h₁
    rcases Table.lookup_insert_iff.mp h₁ with ⟨rfl, rfl⟩ | ⟨-, hold⟩
    · exact hout hout₁
    · exact hbroadcast _ (hsound.out id₁ r₁ hold hout₁)
  · intro p hp
    rw [hsent] at hp
    obtain ⟨r₁, winner, price, h₁, hout₁, hsent₁, hwon, hcall⟩ := hsound.sent p hp
    rcases eq_or_ne p.1 id with heq | hne
    · rw [heq] at h₁
      have hgrows := hgrows r₁ h₁
      obtain ⟨hout', hauction⟩ := hgrows.out hout₁
      have hlookup' : h'.rounds.lookup p.1 = some r' := by
        rw [hrounds, heq]
        exact AList.lookup_insert _
      refine ⟨r', winner, price, hlookup', hout', ?_, ?_, ?_⟩
      · rw [hgrows.rawTx]
        exact hbroadcast _ hsent₁
      · exact ⟨hauction ▸ hwon.settled, hwon.positive, hauction ▸ hwon.listed, hwon.within⟩
      · rw [← hcall, settlementRecord, settlementRecord, hgrows.rawTx, hgrows.rebateAddress]
    · have hlookup' : h'.rounds.lookup p.1 = some r₁ := by
        rw [hrounds, AList.lookup_insert_ne hne]
        exact h₁
      exact ⟨r₁, winner, price, hlookup', hout₁, hbroadcast _ hsent₁, hwon, hcall⟩
  · intro e he
    rw [hentries] at he
    obtain ⟨r₁, winner, price, response, h₁, hphase, hrebate, hsent₁, hwon, hrest⟩ :=
      hsound.recorded e he
    rcases eq_or_ne e.opportunityId id with heq | hne
    · rw [heq] at h₁
      have hgrows := hgrows r₁ h₁
      have hisOut : r₁.isOut = true := by rw [Round.isOut, hphase]
      have hauction := (hgrows.out hisOut).2
      have hlookup' : h'.rounds.lookup e.opportunityId = some r' := by
        rw [hrounds, heq]
        exact AList.lookup_insert _
      refine ⟨r', winner, price, response, hlookup', hgrows.answered response hphase, hrebate,
        ?_, ?_, ?_⟩
      · rw [hgrows.rawTx]
        exact hbroadcast _ hsent₁
      · exact ⟨hauction ▸ hwon.settled, hwon.positive, hauction ▸ hwon.listed, hwon.within⟩
      · rw [hgrows.rebateAddress]
        exact hrest
    · have hlookup' : h'.rounds.lookup e.opportunityId = some r₁ := by
        rw [hrounds, AList.lookup_insert_ne hne]
        exact h₁
      exact ⟨r₁, winner, price, response, hlookup', hphase, hrebate, hbroadcast _ hsent₁, hwon,
        hrest⟩

theorem Sound.grows (hsound : Sound cfg h) (hlookup : h.rounds.lookup id = some r)
    (hgrows : r.Grows r') (hkept : Auction.Kept cfg.engine id r'.auction)
    (hrounds : h'.rounds = h.rounds.insert id r') (hsent : h'.sent = h.sent)
    (hentries : h'.ledger.entries = h.ledger.entries)
    (hbroadcast : ∀ x ∈ h.broadcast, x ∈ h'.broadcast)
    (hout : r'.isOut = true → (id, r'.rawTx) ∈ h'.broadcast) : Sound cfg h' := by
  refine hsound.put (fun r₁ h₁ => ?_) hkept hrounds hsent hentries hbroadcast hout
  rw [hlookup] at h₁
  cases h₁
  exact hgrows

/-- One call more, for a round that had none. -/
theorem Sound.send (hsound : Sound cfg h) {call : OrdoSettlement.Settlement × Bytes}
    (hnew : id ∉ h.sent.map Prod.fst) (hcall : SentFor cfg h id call) :
    Sound cfg { h with sent := h.sent ++ [(id, call)] } := by
  refine ⟨hsound.auctions, hsound.out, fun p hp => ?_, ?_, hsound.recorded,
    hsound.recorded_once⟩
  · rcases List.mem_append.mp hp with hp | hp
    · exact hsound.sent p hp
    · rw [List.mem_singleton.mp hp]
      exact hcall
  · rw [List.map_append]
    refine List.nodup_append.mpr ⟨hsound.sent_once, List.nodup_singleton _, ?_⟩
    intro a ha b hb hab
    rw [hab, List.mem_singleton.mp hb] at ha
    exact hnew ha

/-- One rebate more. -/
theorem Sound.record (hsound : Sound cfg h) {e : LedgerEntry} {ledger : RebateLedger}
    (hledger : ledger.entries = h.ledger.entries ++ [e])
    (hnew : e.opportunityId ∉ h.ledger.entries.map (·.opportunityId))
    (hentry : RecordedFor cfg h e) : Sound cfg { h with ledger := ledger } := by
  refine ⟨hsound.auctions, hsound.out, hsound.sent, hsound.sent_once, fun e' he => ?_, ?_⟩
  · rw [hledger] at he
    rcases List.mem_append.mp he with he | he
    · exact hsound.recorded e' he
    · rw [List.mem_singleton.mp he]
      exact hentry
  · rw [hledger, List.map_append]
    refine List.nodup_append.mpr ⟨hsound.recorded_once, List.nodup_singleton _, ?_⟩
    intro a ha b hb hab
    rw [hab, List.mem_singleton.mp hb] at ha
    exact hnew ha

/-- A round that is not out has nothing sent. -/
theorem Sound.not_sent (hsound : Sound cfg h) (hlookup : h.rounds.lookup id = some r)
    (hout : r.isOut = false) : id ∉ h.sent.map Prod.fst := by
  intro hmem
  obtain ⟨p, hp, rfl⟩ := List.mem_map.mp hmem
  obtain ⟨r₁, -, -, h₁, hout₁, -⟩ := hsound.sent p hp
  rw [hlookup] at h₁
  cases h₁
  rw [hout] at hout₁
  cases hout₁

/-- One that is not answered has nothing recorded. -/
theorem Sound.not_recorded (hsound : Sound cfg h) (hlookup : h.rounds.lookup id = some r)
    (hphase : ∀ response, r.phase ≠ .answered response) :
    id ∉ h.ledger.entries.map (·.opportunityId) := by
  intro hmem
  obtain ⟨e, he, rfl⟩ := List.mem_map.mp hmem
  obtain ⟨r₁, -, -, response, h₁, hphase₁, -⟩ := hsound.recorded e he
  rw [hlookup] at h₁
  cases h₁
  exact hphase response hphase₁

/-- A winner that can be charged won at a price it bid. -/
theorem won_of_chargeable (hkept : Auction.Kept cfg.engine id r.auction)
    {o : Auction.Outcome} (ho : r.auction.settled = some o) {p : Bid × Int}
    (hp : chargeable o = some p) : Won r p.1 p.2 := by
  obtain ⟨winner, hwinner, hp⟩ := Option.bind_eq_some_iff.mp hp
  obtain ⟨hpos, hp⟩ := Option.ite_none_right_eq_some.mp hp
  cases hp
  obtain ⟨-, rfl⟩ := hkept.settled o ho
  obtain ⟨hmem, hle⟩ := Auction.outcome_winner hwinner
  refine ⟨ho.trans (congrArg some ?_), hpos, hmem, hle⟩
  rw [← hwinner]

theorem Sound.dispatch (hsound : Sound cfg h) (hlookup : h.rounds.lookup id = some r)
    (hphase : r.phase = .publishing) {o : Auction.Outcome} (ho : r.auction.settled = some o) :
    Sound cfg (dispatch cfg id r o h) := by
  have hkept := hsound.auctions id r hlookup
  have hisOut : r.isOut = false := by rw [Round.isOut, hphase]
  have hnew := hsound.not_sent hlookup hisOut
  generalize hrecord : (chargeable o).map (fun p => settlementRecord cfg id r p.1 p.2) = record
  generalize hcall : record.bind (submitSettlement cfg.settlementEnabled) = call
  generalize hr' : ({ r with
    phase := .dispatched record
      { settlement := if call.isSome then .waiting else .unsent
        user := .waiting
        backrun := if o.winner.isSome then .waiting else .unsent } } : Round) = r'
  have hraw : r'.rawTx = r.rawTx := by rw [← hr']
  have hauction : r'.auction = r.auction := by rw [← hr']
  have hisOut' : r'.isOut = true := by rw [← hr']; rfl
  have hgrows : r.Grows r' := by
    refine ⟨hraw, by rw [← hr'], fun hout => ?_, fun response hanswered => ?_⟩
    · rw [hisOut] at hout
      cases hout
    · rw [hphase] at hanswered
      cases hanswered
  generalize hb : h.broadcast ++
    (id, r.rawTx) :: o.winner.toList.map (fun winner => (id, winner.backrunRawTx)) = broadcast
  have hmem : (id, r'.rawTx) ∈ broadcast := by
    rw [← hb, hraw]
    exact List.mem_append_right _ List.mem_cons_self
  -- first without the call
  have hfirst : Sound cfg
      { h with
        rounds := h.rounds.insert id r'
        settlements := h.settlements ++ record.toList
        broadcast } := by
    refine hsound.grows hlookup hgrows (hauction ▸ hkept) rfl rfl rfl (fun x hx => ?_)
      (fun _ => hmem)
    rw [← hb]
    exact List.mem_append_left _ hx
  have hdispatch : Rounds.dispatch cfg id r o h =
      { h with
        rounds := h.rounds.insert id r'
        settlements := h.settlements ++ record.toList
        sent := h.sent ++ call.toList.map fun call => (id, call)
        broadcast } := by
    rw [Rounds.dispatch, hrecord, hcall, hr', hb]
  rw [hdispatch]
  cases call with
  | none =>
      rw [Option.toList_none, List.map_nil, List.append_nil]
      exact hfirst
  | some call =>
      obtain ⟨rec, hrec, hsubmit⟩ := Option.bind_eq_some_iff.mp hcall
      rw [← hrecord] at hrec
      obtain ⟨p, hp, rfl⟩ := Option.map_eq_some_iff.mp hrec
      have hwon : Won r' p.1 p.2 := by
        have hwon := won_of_chargeable hkept ho hp
        exact ⟨hauction ▸ hwon.settled, hwon.positive, hauction ▸ hwon.listed, hwon.within⟩
      refine hfirst.send hnew ⟨r', p.1, p.2, AList.lookup_insert _, hisOut', hmem, hwon, ?_⟩
      rw [← hsubmit, settlementRecord, settlementRecord, hraw, hgrows.rebateAddress]

theorem record_entries (l : RebateLedger) (e : LedgerEntry) :
    (l.record e).entries = l.entries ++ [e] := by
  unfold RebateLedger.record RebateLedger.credit
  split
  · rfl
  · split
    · rfl
    · rfl

theorem Sound.answer (hsound : Sound cfg h) (hlookup : h.rounds.lookup id = some r)
    {record₀ record : Option SettlementRecord} {sends₀ sends : Sends}
    (hphase : r.phase = .dispatched record₀ sends₀) {o : Auction.Outcome}
    (ho : r.auction.settled = some o) : Sound cfg (answer cfg id r o record sends h) := by
  have hkept := hsound.auctions id r hlookup
  have hisOut : r.isOut = true := by rw [Round.isOut, hphase]
  have hsent := hsound.out id r hlookup hisOut
  have hnew := hsound.not_recorded hlookup fun response hanswered => by
    rw [hphase] at hanswered
    cases hanswered
  generalize hentry : (chargeable o).map (fun p => rebateEntry cfg.split
    (toResult id o r.auction.bids.length sends) p.1 r.rebateAddress) = entry
  generalize hresponse : (⟨toResult id o r.auction.bids.length sends, entry, record,
    sends.settlement.hash, sends.user.error⟩ : Response) = response
  have hgrows : r.Grows { r with phase := .answered response } := by
    refine ⟨rfl, rfl, fun _ => ⟨rfl, rfl⟩, fun _ hanswered => ?_⟩
    rw [hphase] at hanswered
    cases hanswered
  have hfirst : Sound cfg
      { h with rounds := h.rounds.insert id { r with phase := .answered response } } :=
    hsound.grows hlookup hgrows hkept rfl rfl rfl (fun _ hx => hx) (fun _ => hsent)
  have hanswer : Rounds.answer cfg id r o record sends h =
      { h with
        rounds := h.rounds.insert id { r with phase := .answered response }
        ledger := entry.elim h.ledger h.ledger.record } := by
    rw [Rounds.answer, hentry, hresponse]
  rw [hanswer]
  cases entry with
  | none => exact hfirst
  | some e =>
      obtain ⟨p, hp, rfl⟩ := Option.map_eq_some_iff.mp hentry
      have hwon := won_of_chargeable hkept ho hp
      have hprice : o.clearingPriceWei = p.2 := by
        have hsettled := hwon.settled
        rw [ho] at hsettled
        cases hsettled
        rfl
      refine hfirst.record (record_entries _ _) hnew
        ⟨{ r with phase := .answered response }, p.1, p.2, response, AList.lookup_insert _, rfl,
          by rw [← hresponse], hsent, ?_, by rw [← hresponse], hprice⟩
      exact ⟨hwon.settled, hwon.positive, hwon.listed, hwon.within⟩

/-- A round that is not out yet, and what it becomes. -/
theorem Sound.before (hsound : Sound cfg h) (hlookup : h.rounds.lookup id = some r)
    (hout : r.isOut = false) {auction : Auction.State} {phase : Phase}
    (hkept : Auction.Kept cfg.engine id auction) (hphase : phase = .bidding ∨
      phase = .publishing ∨ phase = .failed) :
    Sound cfg { h with rounds := h.rounds.insert id { r with auction, phase } } := by
  have hgrows : r.Grows { r with auction, phase } := by
    refine ⟨rfl, rfl, fun h => ?_, fun response h => ?_⟩
    · rw [hout] at h
      cases h
    · rw [Round.isOut, h] at hout
      cases hout
  refine hsound.grows hlookup hgrows hkept rfl rfl rfl (fun _ hx => hx) fun hout' => ?_
  rcases hphase with rfl | rfl | rfl
  · cases hout'
  · cases hout'
  · cases hout'

theorem Sound.receive (hsound : Sound cfg h) (hlookup : h.rounds.lookup id = some r)
    {record : Option SettlementRecord} {sends₀ sends : Sends}
    (hphase : r.phase = .dispatched record sends₀) {o : Auction.Outcome}
    (ho : r.auction.settled = some o) : Sound cfg (receive cfg id r o record sends h) := by
  unfold Rounds.receive
  split
  · exact hsound.answer hlookup hphase ho
  · have hisOut : r.isOut = true := by rw [Round.isOut, hphase]
    have hgrows : r.Grows { r with phase := .dispatched record sends } := by
      refine ⟨rfl, rfl, fun _ => ⟨rfl, rfl⟩, fun response hanswered => ?_⟩
      rw [hphase] at hanswered
      cases hanswered
    exact hsound.grows hlookup hgrows (hsound.auctions id r hlookup) rfl rfl rfl
      (fun _ hx => hx) (fun _ => hsound.out id r hlookup hisOut)

/-- What a round does at its phase. -/
theorem Sound.round (hsound : Sound cfg h) (e : Event)
    (hlookup : h.rounds.lookup e.id = some r) : Sound cfg (stepRound cfg h e.id r e) := by
  have hkept := hsound.auctions e.id r hlookup
  unfold stepRound
  split
  next bid hphase =>
    have hout : r.isOut = false := by rw [Round.isOut, hphase]
    have hstep : Auction.Kept cfg.engine bid.opportunityId
        (Auction.step cfg.engine bid.opportunityId r.auction (.bid bid)) := hkept.step _
    unfold placeBid
    rw [Auction.step] at hstep
    split
    next => exact hsound
    next auction htaken =>
      rw [htaken] at hstep
      have hsame : ({ r with auction } : Round) = { r with auction, phase := .bidding } := by
        rw [← hphase]
      rw [hsame]
      exact hsound.before hlookup hout hstep (Or.inl rfl)
  next id hphase =>
    have hout : r.isOut = false := by rw [Round.isOut, hphase]
    exact hsound.before hlookup hout (hkept.step .close) (Or.inr (Or.inl rfl))
  next o id hphase ho => exact hsound.dispatch hlookup hphase ho
  next id hphase =>
    have hout : r.isOut = false := by rw [Round.isOut, hphase]
    exact hsound.before hlookup hout hkept (Or.inr (Or.inr rfl))
  next record sends o id leg reply hphase ho => exact hsound.receive hlookup hphase ho
  next => exact hsound

/-- **One step.** -/
theorem Sound.step (hsound : Sound cfg h) (e : Event) : Sound cfg (step cfg h e) := by
  unfold Rounds.step
  split
  next id rawTx rebateAddress =>
    unfold submit
    split
    · exact hsound
    next hnew =>
      have hnone : h.rounds.lookup id = none := by
        cases hcase : h.rounds.lookup id with
        | none => rfl
        | some r => exact absurd (Or.inr (by rw [hcase]; rfl)) hnew
      have hgrows : ∀ r, h.rounds.lookup id = some r →
          r.Grows ⟨rawTx, rebateAddress, Auction.opened, .bidding⟩ := by
        intro r hr
        rw [hnone] at hr
        cases hr
      refine hsound.put hgrows (Auction.kept_run []) rfl rfl rfl (fun _ hx => hx) fun hout => ?_
      cases hout
  next r hlookup => exact hsound.round _ hlookup
  next => exact hsound

theorem sound_run (events : List Event) : Sound cfg (run cfg events) := by
  have hstarted : Sound cfg started := by
    refine ⟨?_, ?_, ?_, List.nodup_nil, ?_, List.nodup_nil⟩
    · exact fun _ _ h => by cases h
    · exact fun _ _ h => by cases h
    · exact fun _ h => by cases h
    · exact fun _ h => by cases h
  unfold run
  generalize started = h at hstarted
  induction events generalizing h with
  | nil => exact hstarted
  | cons e events ih => exact ih _ (hstarted.step e)

end Steps

/-- What the upstream gave for the user's transaction. -/
def Round.userTxHash (r : Round) : Option String :=
  match r.phase with
  | .dispatched _ sends => sends.user.hash
  | .answered response => response.result.userTxHash
  | _ => none

/-- The upstream has accepted the user's transaction of a round. -/
def Broadcast (h : House) (id : IdText) : Prop :=
  ((h.rounds.lookup id).bind Round.userTxHash).isSome = true

instance (h : House) (id : IdText) : Decidable (Broadcast h id) :=
  inferInstanceAs (Decidable (_ = true))

/-- Charges and rebates are for transactions that were broadcast. -/
def OnlyBroadcast (h : House) : Prop :=
  (∀ p ∈ h.sent, Broadcast h p.1) ∧ ∀ e ∈ h.ledger.entries, Broadcast h e.opportunityId

instance (h : House) : Decidable (OnlyBroadcast h) :=
  inferInstanceAs (Decidable (_ ∧ _))

/-- No transaction is charged for in two rounds. -/
def OncePerTransaction (h : House) : Prop :=
  ∀ p ∈ h.sent, ∀ q ∈ h.sent,
    (h.rounds.lookup p.1).map Round.rawTx = (h.rounds.lookup q.1).map Round.rawTx → p.1 = q.1

instance (h : House) : Decidable (OncePerTransaction h) :=
  inferInstanceAs (Decidable (∀ p ∈ h.sent, ∀ q ∈ h.sent,
    (h.rounds.lookup p.1).map Round.rawTx = (h.rounds.lookup q.1).map Round.rawTx → p.1 = q.1))

/-- Settlement is on, and the user gets nine tenths. -/
def defaults : Setup := ⟨true, ⟨900, 50⟩, .insertion, fun _ => none⟩

/-- A round with one bid, up to its last answer, that of the user's transaction. -/
def oneRound (id rawTx : String) (reply : Except String String) : List Event :=
  let bid : Bid :=
    { opportunityId := .name id, searcher := .digits 1 .lower, bidWei := some 5
      backrunRawTx := "0x02", bidSig := some [7], receivedAt := 100 }
  [.submit (.name id) rawTx none, .bid bid, .close (.name id), .published (.name id) true,
    .reply (.name id) .settlement (.ok "0xa1"), .reply (.name id) .backrun (.ok "0xb2"),
    .reply (.name id) .user reply]

end Rounds

end Ordo
