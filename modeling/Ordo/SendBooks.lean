import Ordo.KeyLedger
import Ordo.Prepaid
import Ordo.SendPaths

/-!
# Books of the sends

A send that comes off is written down twice: a row of `routed`, under the hash of the
transaction, and a charge to the key.  Beside both the books here keep what the network
took, which the gateway does not see.

* `dispatch_books` — a request that comes off records and charges exactly what was
  accepted of it, and tells the hashes; one that fails does none of the three;
* `reconciled_iff` — over a run the books agree with the network, and every caller is
  told, so long as no request fails of which a part was accepted, and no accepted send of
  a key goes at no price.
-/

namespace Ordo

namespace SendBooks

open ApiKeys PrivateSend Protect SendPaths Prepaid KeyLedger

/-! ### Tables -/

/-- The hash of a signed transaction. -/
structure TxHash where
  of : String → String
  starts : ∀ raw, (of raw).startsWith "0x" = true
  lower : ∀ raw, (of raw).toLower = of raw

/-- What one request finds around it, where the hashes are those of the network, and the
auction names the hash of no transaction that it did not get accepted. -/
structure Outside (hash : TxHash) where
  around : Surroundings
  hashes : around.hash = hash.of
  names_accepted : ∀ raw, (around.auction raw).reply = .named → (around.auction raw).accepts = true

/-- A row of `routed`; the hash is the primary key. -/
structure RoutedTx where
  txHash : String
  keyLabel : String
  via : String
  deriving DecidableEq

/-- `INSERT OR IGNORE INTO routed`, for a hash that is a text and a transaction that can be
read. -/
def recordRouted (parse : String → Except RpcError Parsed) (routed : List RoutedTx)
    (r : Recorded) : List RoutedTx :=
  match r.txHash with
  | .str txHash =>
      if txHash.startsWith "0x" then
        match parse r.raw with
        | .error _ => routed
        | .ok _ =>
            if txHash.toLower ∈ routed.map (·.txHash) then routed
            else routed ++ [⟨txHash.toLower, r.keyLabel, r.via⟩]
      else routed
  | _ => routed

/-- A transaction that the network took, and the label of the key it came with. -/
structure Taken where
  keyLabel : String
  txHash : String
  deriving DecidableEq

structure Books where
  ledger : KeyLedger := {}
  routed : List RoutedTx := []
  taken : List Taken := []

structure Event (hash : TxHash) where
  request : Request
  outside : Outside hash
  now : Int

section Run

variable (price : Int) (enforce : Bool) {hash : TxHash}

/-- What is around a request, with the credit that the ledger shows. -/
def surroundings (b : Books) (e : Event hash) : Surroundings :=
  { e.outside.around with
    canSend := b.ledger.canChargeSend e.request.key.label price enforce }

def outcome (b : Books) (e : Event hash) : Outcome :=
  dispatch (surroundings price enforce b e) e.request.method e.request.params e.request.key

/-- What the network takes of a request. -/
def takenOf (b : Books) (e : Event hash) : List Taken :=
  (outcome price enforce b e).effects.accepted.map fun raw =>
    ⟨e.request.key.label, hash.of raw⟩

def step (b : Books) (e : Event hash) : Books where
  ledger := chargeAll price e.now b.ledger (outcome price enforce b e).effects.charged
  routed := (outcome price enforce b e).effects.recorded.foldl
    (recordRouted e.outside.around.parse) b.routed
  taken := b.taken ++ takenOf price enforce b e

def run (b : Books) (es : List (Event hash)) : Books := es.foldl (step price enforce) b

/-! ### What the books should show -/

/-- How many transactions of a label the network took. -/
def Books.takenFor (b : Books) (label : String) : Nat :=
  (b.taken.filter (·.keyLabel = label)).length

def Books.routedFor (b : Books) (label : String) : Nat :=
  (b.routed.filter (·.keyLabel = label)).length

/-- For every key there are as many charges, and as many rows, as transactions taken. -/
def Reconciled (b : Books) : Prop :=
  ∀ label, ¬isAnon label →
    (b.ledger.row label).sends = b.takenFor label ∧ b.routedFor label = b.takenFor label

/-- The hash is the answer, or in the list of hashes that is the answer to a bundle. -/
def Told (o : Outcome) (hash : String) : Prop :=
  o.result = .ok (.str hash) ∨
    ∃ answer hashes, o.result = .ok answer ∧ answer.field? "txHashes" = some (.arr hashes) ∧
      .str hash ∈ hashes

/-- The caller is told the hash of every transaction of the request that was taken. -/
def AllTold (b : Books) (e : Event hash) : Prop :=
  ∀ raw ∈ (outcome price enforce b e).effects.accepted,
    Told (outcome price enforce b e) (hash.of raw)

/-- Over a run: the books agree in every state, and every caller is told. -/
def ReconciledThroughout (b : Books) (es : List (Event hash)) : Prop :=
  ∀ pre post, es = pre ++ post → Reconciled (run price enforce b pre) ∧
    ∀ e rest, post = e :: rest → AllTold price enforce (run price enforce b pre) e

/-- The network takes no transaction twice. -/
def TakenOnce (b : Books) (es : List (Event hash)) : Prop :=
  ((run price enforce b es).taken.map (·.txHash)).Nodup

/-- Every row is of a transaction that the network took. -/
def Grounded (b : Books) : Prop :=
  ∀ row ∈ b.routed, row.txHash ∈ b.taken.map (·.txHash)

end Run

/-! ### When a request goes wrong -/

section Conditions

variable (w : Surroundings)

def isSingle (method : String) : Bool :=
  method ∈ ["eth_sendRawTransaction", "ordo_sendRawTransaction", "ordo_sendPrivateTransaction"]

/-- A hop takes the transaction. -/
def HopTakes (raw : String) : Prop := w.known raw = false ∧ Takes (w.hops raw)

/-- The auction takes the transaction, or a hop that is asked after it does. -/
def SendTakes (auctioned : Bool) (raw : String) : Prop :=
  if auctioned then
    (w.auction raw).accepts = true ∨
      (∃ reason, (w.auction raw).reply = .lost reason) ∧ HopTakes w raw
  else HopTakes w raw

def rawsOf (b : Bundle) : List String := b.txs.map fun tx => rawText (some tx)

/-- A part of the bundle is taken, and not every leg is taken with its reply arriving. -/
def Splits (b : Bundle) : Prop :=
  (∃ raw ∈ rawsOf b, HopTakes w raw) ∧
    ¬ ((rawsOf b).Nodup ∧
      ∀ raw ∈ rawsOf b, HopTakes w raw ∧ ¬ LosesAcceptance (w.hops raw))

/-- The request fails after a part of it was accepted: a single send whose acceptance is
lost, or a bundle that splits. -/
def FailsTaken (r : Request) : Prop :=
  isSingle r.method = true ∧ w.canSend = true ∧
      assertSafe w.toProvider r.params.head? (waiver r.method r.params) = .ok () ∧
      AcceptanceLost w (auctioned r.method r.key) (rawText r.params.head?) ∨
    r.method = "ordo_sendBundle" ∧ ∃ b, BundlePasses w r.params b ∧ Splits w b

/-- Something of the request is accepted. -/
def TakesSome (r : Request) : Prop :=
  isSingle r.method = true ∧ w.canSend = true ∧
      assertSafe w.toProvider r.params.head? (waiver r.method r.params) = .ok () ∧
      SendTakes w (auctioned r.method r.key) (rawText r.params.head?) ∨
    r.method = "ordo_sendBundle" ∧ ∃ b, BundlePasses w r.params b ∧
      ∃ raw ∈ rawsOf b, HopTakes w raw

/-- The request does not fail in part, and what is accepted of a key has a price. -/
def Clean (price : Int) (r : Request) : Prop :=
  ¬ FailsTaken w r ∧ (TakesSome w r → ¬isAnon r.key.label → 0 < price)

end Conditions

/-! ### What a request writes down -/

section Requests

variable {w : Surroundings} {r : Request}

/-- The request is recorded and charged as it was accepted, and its hashes are told. -/
structure Matches (w : Surroundings) (label : String) (o : Outcome) : Prop where
  recorded : ∃ via, o.effects.recorded =
    o.effects.accepted.map fun raw => ⟨.str (w.hash raw), raw, label, via⟩
  charged : o.effects.charged = List.replicate o.effects.accepted.length label
  told : ∀ raw ∈ o.effects.accepted, Told o (w.hash raw)
  parsed : ∀ raw ∈ o.effects.accepted, ∃ tx, w.parse raw = .ok tx

/-- The request fails, and nothing of it is written down. -/
structure Forgotten (o : Outcome) : Prop where
  failed : ∃ e, o.result = .error e
  recorded : o.effects.recorded = []
  charged : o.effects.charged = []

theorem not_told {o : Outcome} (hfailed : ∃ e, o.result = .error e) (hash : String) :
    ¬ Told o hash := by
  obtain ⟨e, he⟩ := hfailed
  rintro (hok | ⟨answer, -, hok, -⟩)
  · rw [he] at hok
    cases hok
  · rw [he] at hok
    cases hok

theorem upstreamSend_ok {raw : String} {known : Bool} {leg : Nat} {v : Json}
    (hok : (upstreamSend w raw known leg).result = .ok v) :
    v = .str (w.hash raw) ∧ (upstreamSend w raw known leg).effects.accepted = [raw] := by
  simp only [upstreamSend] at hok ⊢
  cases hres : (sendRawTransaction (w.hash raw) (w.hops raw) known).result with
  | error e =>
      rw [hres] at hok
      cases hok
  | ok answer =>
      obtain ⟨-, rfl, hacc⟩ := sendFrom_ok hres
      rw [hres] at hok
      rw [sendRawTransaction, hacc, if_pos rfl]
      exact ⟨(Except.ok.inj hok).symm, rfl⟩

/-- What a direct send gets accepted. -/
theorem upstreamSend_accepted (w : Surroundings) (raw : String) (known : Bool) (leg : Nat) :
    ¬ (known = false ∧ Takes (w.hops raw)) ∧
        (upstreamSend w raw known leg).effects.accepted = [] ∨
      (known = false ∧ Takes (w.hops raw)) ∧
        (upstreamSend w raw known leg).effects.accepted = [raw] := by
  rw [← accepted_iff (w.hash raw)]
  by_cases hacc : (sendRawTransaction (w.hash raw) (w.hops raw) known).accepted = true
  · exact Or.inr ⟨hacc, if_pos hacc⟩
  · exact Or.inl ⟨hacc, if_neg hacc⟩

theorem accepted_upstreamSend (w : Surroundings) (raw : String) (known : Bool) (leg : Nat) :
    (upstreamSend w raw known leg).effects.accepted ≠ [] ↔
      known = false ∧ Takes (w.hops raw) := by
  rcases upstreamSend_accepted w raw known leg with ⟨hnot, hnone⟩ | ⟨htakes, hone⟩
  · exact iff_of_false (not_not.mpr hnone) hnot
  · refine iff_of_true ?_ htakes
    rw [hone]
    exact List.cons_ne_nil _ _

theorem parse_of_parseRaw {g : Provider} {rawTx : Option Json} {tx : Parsed}
    (htx : parseRaw g rawTx = .ok tx) : g.parse (rawText rawTx) = .ok tx := by
  unfold parseRaw at htx
  split at htx
  · split at htx
    · exact htx
    · cases htx
  · cases htx
  · cases htx
  · cases htx

/-- A transaction that `assertSafe` lets through can be read. -/
theorem parse_of_assertSafe {g : Provider} {rawTx : Option Json} {opts : SafetyOptions}
    (hsafe : assertSafe g rawTx opts = .ok ()) : ∃ tx, g.parse (rawText rawTx) = .ok tx := by
  obtain ⟨tx, htx, -⟩ := assertSafe_eq_ok.mp hsafe
  exact ⟨tx, parse_of_parseRaw htx⟩

/-! ### A single send -/

section Single

variable {o : Outcome} {raw via : String} {key : ApiKey}

/-- A send on the books, where the answer of one that comes off is its hash. -/
theorem booked_books (hrecorded : o.effects.recorded = []) (hcharged : o.effects.charged = [])
    (hparsed : ∃ tx, w.parse raw = .ok tx)
    (hok : ∀ v, o.result = .ok v → v = .str (w.hash raw) ∧ o.effects.accepted = [raw]) :
    Matches w key.label (booked o raw key via) ∨ Forgotten (booked o raw key via) := by
  unfold booked
  split
  · next e he => exact Or.inr ⟨⟨e, he⟩, hrecorded, hcharged⟩
  · next v hv =>
      obtain ⟨rfl, haccepted⟩ := hok v hv
      refine Or.inl ⟨⟨via, ?_⟩, ?_, ?_, ?_⟩
      · simp [haccepted]
      · simp [haccepted]
      · intro raw' hraw'
        dsimp only at hraw'
        rw [haccepted] at hraw'
        rw [List.mem_singleton.mp hraw']
        exact Or.inl hv
      · intro raw' hraw'
        dsimp only at hraw'
        rw [haccepted] at hraw'
        rw [List.mem_singleton.mp hraw']
        exact hparsed

theorem routeOrderFlow_ok {rawTx : Option Json} {opts : SafetyOptions} {v : Json}
    (hnames : ∀ raw, (w.auction raw).reply = .named → (w.auction raw).accepts = true)
    (hok : (routeOrderFlow w rawTx opts).1.result = .ok v) :
    v = .str (w.hash (rawText rawTx)) ∧
      (routeOrderFlow w rawTx opts).1.effects.accepted = [rawText rawTx] := by
  unfold routeOrderFlow at hok ⊢
  split at hok
  · cases hok
  · dsimp only at hok ⊢
    cases hreply : (w.auction (rawText rawTx)).reply with
    | named =>
        rw [hreply] at hok
        simp only [hnames _ hreply, if_true]
        exact ⟨(Except.ok.inj hok).symm, trivial⟩
    | refused userError =>
        rw [hreply] at hok
        cases hok
    | lost reason =>
        rw [hreply] at hok
        dsimp only at hok ⊢
        cases hacc : (w.auction (rawText rawTx)).accepts with
        | true =>
            obtain ⟨e, he⟩ := upstreamSend_known w (rawText rawTx) 0
            rw [hacc, Bool.or_true, he] at hok
            cases hok
        | false =>
            rw [hacc] at hok
            simpa using upstreamSend_ok hok

theorem accepted_routeOrderFlow {rawTx : Option Json} {opts : SafetyOptions}
    (hsafe : assertSafe w.toProvider rawTx opts = .ok ())
    (hnames : ∀ raw, (w.auction raw).reply = .named → (w.auction raw).accepts = true) :
    (routeOrderFlow w rawTx opts).1.effects.accepted ≠ [] ↔
      SendTakes w true (rawText rawTx) := by
  unfold routeOrderFlow SendTakes HopTakes
  rw [hsafe, if_pos rfl]
  dsimp only
  cases hreply : (w.auction (rawText rawTx)).reply with
  | named => simp [hnames _ hreply]
  | refused userError => simp
  | lost reason =>
      cases hacc : (w.auction (rawText rawTx)).accepts with
      | true => simp
      | false => simpa using accepted_upstreamSend w (rawText rawTx) (w.known (rawText rawTx)) 0

end Single

/-! ### The legs of a bundle -/

section Legs

variable {accepted : List String} {txs : List Json} {i : Nat}

/-- A bundle whose legs all come off is accepted whole, and each hash is told. -/
theorem sendLegs_ok {hashes : List Json}
    (hok : allHashes (sendLegs w i txs accepted) = .ok hashes) :
    (sendLegs w i txs accepted).flatMap (·.effects.accepted) =
        txs.map (fun tx => rawText (some tx)) ∧
      hashes = txs.map fun tx => .str (w.hash (rawText (some tx))) := by
  induction txs generalizing i accepted hashes with
  | nil =>
      obtain rfl : [] = hashes := Except.ok.inj hok
      exact ⟨rfl, rfl⟩
  | cons tx txs ih =>
      simp only [sendLegs, allHashes] at hok ⊢
      split at hok
      · cases hok
      · next hash hhash =>
          obtain ⟨rfl, hleg⟩ := upstreamSend_ok hhash
          rw [hleg] at hok ⊢
          cases hrest : allHashes (sendLegs w (i + 1) txs (accepted ++ [rawText (some tx)])) with
          | error e =>
              rw [hrest] at hok
              cases hok
          | ok rest =>
              rw [hrest] at hok
              obtain rfl := Except.ok.inj hok
              obtain ⟨htail, rfl⟩ := ih hrest
              rw [List.flatMap_cons, hleg, htail]
              exact ⟨rfl, rfl⟩

/-- Something of a bundle is accepted when a hop takes one of its legs. -/
theorem accepted_sendLegs :
    (sendLegs w i txs accepted).flatMap (·.effects.accepted) ≠ [] ↔
      ∃ raw ∈ txs.map (fun tx => rawText (some tx)), raw ∉ accepted ∧ HopTakes w raw := by
  induction txs generalizing i accepted with
  | nil => simp [sendLegs]
  | cons tx txs ih =>
      simp only [sendLegs, List.flatMap_cons, List.map_cons, List.exists_mem_cons_iff]
      have hknown : (w.known (rawText (some tx)) || decide (rawText (some tx) ∈ accepted)) =
          false ↔ w.known (rawText (some tx)) = false ∧ rawText (some tx) ∉ accepted := by
        simp
      rcases upstreamSend_accepted w (rawText (some tx))
        (w.known (rawText (some tx)) || decide (rawText (some tx) ∈ accepted)) i with
        ⟨hnot, hnone⟩ | ⟨htakes, hone⟩
      · rw [hknown] at hnot
        rw [hnone, List.append_nil, List.nil_append, ih]
        refine (or_iff_right fun hhead => hnot ?_).symm
        exact ⟨⟨hhead.2.1, hhead.1⟩, hhead.2.2⟩
      · rw [hknown] at htakes
        refine iff_of_true ?_ (Or.inl ⟨htakes.1.2, htakes.1.1, htakes.2⟩)
        rw [hone]
        exact List.cons_ne_nil _ _

/-- The legs of a bundle all come off when they differ, and each is taken by a hop whose
reply arrives. -/
theorem allHashes_sendLegs :
    (∃ hashes, allHashes (sendLegs w i txs accepted) = .ok hashes) ↔
      (txs.map fun tx => rawText (some tx)).Nodup ∧
        ∀ raw ∈ txs.map (fun tx => rawText (some tx)),
          raw ∉ accepted ∧ HopTakes w raw ∧ ¬ LosesAcceptance (w.hops raw) := by
  induction txs generalizing i accepted with
  | nil => exact iff_of_true ⟨[], rfl⟩ ⟨List.nodup_nil, fun _ h => absurd h List.not_mem_nil⟩
  | cons tx txs ih =>
      have hhead : (∃ v, (upstreamSend w (rawText (some tx))
          (w.known (rawText (some tx)) || decide (rawText (some tx) ∈ accepted)) i).result =
            .ok v) ↔ rawText (some tx) ∉ accepted ∧ HopTakes w (rawText (some tx)) ∧
              ¬ LosesAcceptance (w.hops (rawText (some tx))) := by
        have hreports := upstreamSend_reports w (rawText (some tx))
          (w.known (rawText (some tx)) || decide (rawText (some tx) ∈ accepted)) i
        rw [accepted_upstreamSend] at hreports
        simp only [Bool.or_eq_false_iff, decide_eq_false_iff_not] at hreports
        constructor
        · rintro ⟨v, hv⟩
          obtain ⟨rfl, hone⟩ := upstreamSend_ok hv
          have htakes := (accepted_upstreamSend w _ _ i).mp (by
            rw [hone]
            exact List.cons_ne_nil _ _)
          simp only [Bool.or_eq_false_iff, decide_eq_false_iff_not] at htakes
          refine ⟨htakes.1.2, ⟨htakes.1.1, htakes.2⟩, fun hloses => ?_⟩
          exact hreports.mp (fun _ => hv) ⟨htakes.1, hloses⟩
        · rintro ⟨hnew, htakes, hkeeps⟩
          exact ⟨_, hreports.mpr (fun hloses => hkeeps hloses.2) ⟨⟨htakes.1, hnew⟩, htakes.2⟩⟩
      simp only [List.map_cons, List.nodup_cons, List.forall_mem_cons]
      rw [← hhead]
      simp only [sendLegs, allHashes]
      cases hres : (upstreamSend w (rawText (some tx))
          (w.known (rawText (some tx)) || decide (rawText (some tx) ∈ accepted)) i).result with
      | error e => simp
      | ok hash =>
          rw [(upstreamSend_ok hres).2]
          have hrest : (∃ hashes, (allHashes (sendLegs w (i + 1) txs
              (accepted ++ [rawText (some tx)]))).map (hash :: ·) = .ok hashes) ↔
                ∃ hashes, allHashes (sendLegs w (i + 1) txs
                  (accepted ++ [rawText (some tx)])) = .ok hashes := by
            cases allHashes (sendLegs w (i + 1) txs (accepted ++ [rawText (some tx)])) with
            | error e => simp [Except.map]
            | ok hashes => simp [Except.map]
          rw [hrest, ih]
          simp only [List.mem_append, List.mem_singleton, not_or]
          constructor
          · rintro ⟨hnodup, hall⟩
            refine ⟨⟨fun hmem => (hall _ hmem).1.2 rfl, hnodup⟩, ⟨hash, rfl⟩, fun raw hraw => ?_⟩
            exact ⟨(hall raw hraw).1.1, (hall raw hraw).2⟩
          · rintro ⟨⟨hnew, hnodup⟩, -, hall⟩
            refine ⟨hnodup, fun raw hraw => ⟨⟨(hall raw hraw).1, ?_⟩, (hall raw hraw).2⟩⟩
            rintro rfl
            exact hnew hraw

/-- A bundle on the books. -/
theorem bundle_books {params : List Json} {label : String} :
    Matches w label { (sendBundle w params).1 with effects :=
        { (sendBundle w params).1.effects with
          recorded := (sendBundle w params).2.map fun leg => ⟨leg.1, leg.2, label, "bundle"⟩
          charged := (sendBundle w params).2.map fun _ => label } } ∨
      Forgotten { (sendBundle w params).1 with effects :=
        { (sendBundle w params).1.effects with
          recorded := (sendBundle w params).2.map fun leg => ⟨leg.1, leg.2, label, "bundle"⟩
          charged := (sendBundle w params).2.map fun _ => label } } := by
  unfold sendBundle
  split
  · exact Or.inr ⟨⟨_, rfl⟩, rfl, rfl⟩
  · next b hb =>
      split
      · exact Or.inr ⟨⟨_, rfl⟩, rfl, rfl⟩
      · split
        · exact Or.inr ⟨⟨_, rfl⟩, rfl, rfl⟩
        · split
          · exact Or.inr ⟨⟨_, rfl⟩, rfl, rfl⟩
          · next sims hsims =>
              dsimp only
              cases hall : allHashes (sendLegs w 0 b.txs []) with
              | error e => exact Or.inr ⟨⟨e, rfl⟩, rfl, rfl⟩
              | ok hashes =>
                  obtain ⟨haccepted, rfl⟩ := sendLegs_ok hall
                  refine Or.inl ⟨⟨"bundle", ?_⟩, ?_, fun raw hraw => ?_, fun raw hraw => ?_⟩
                  · dsimp only
                    rw [haccepted, List.zip_map', List.map_map, List.map_map]
                    rfl
                  · dsimp only
                    rw [haccepted, List.zip_map', List.map_map, List.length_map]
                    exact List.map_const' ..
                  · dsimp only at hraw
                    rw [haccepted] at hraw
                    refine Or.inr ⟨_, _, rfl, rfl, ?_⟩
                    obtain ⟨tx, htx, rfl⟩ := List.mem_map.mp hraw
                    exact List.mem_map_of_mem htx
                  · dsimp only at hraw
                    rw [haccepted] at hraw
                    obtain ⟨tx, htx, rfl⟩ := List.mem_map.mp hraw
                    obtain ⟨leg, hleg⟩ := List.mem_iff_getElem?.mp htx
                    obtain ⟨parsed, hparsed, -⟩ := of_checkLegs hsims hleg
                    exact ⟨parsed, parse_of_parseRaw hparsed⟩

end Legs

/-! ### What a request comes to -/

section Outcomes

/-- What becomes of a single send, by the auction or directly. -/
def sent (w : Surroundings) (r : Request) : Outcome :=
  if auctioned r.method r.key then
    (routeOrderFlow w r.params.head? (waiver r.method r.params)).1
  else protectAndSend w r.params.head? (waiver r.method r.params)

theorem dispatch_single (hsingle : isSingle r.method = true) (hcan : w.canSend = true) :
    ∃ via, dispatch w r.method r.params r.key =
      booked (sent w r) (rawText r.params.head?) r.key via := by
  have hmethod : r.method ∈ ["eth_sendRawTransaction", "ordo_sendRawTransaction",
      "ordo_sendPrivateTransaction"] := by simpa [isSingle] using hsingle
  unfold dispatch sent
  rw [if_pos hmethod, if_neg (by simp [hcan])]
  dsimp only
  split
  · exact ⟨_, rfl⟩
  · exact ⟨_, rfl⟩

theorem result_booked (o : Outcome) (raw : String) (key : ApiKey) (via : String) :
    (booked o raw key via).result = o.result := by
  unfold booked
  split
  · rfl
  · rfl

theorem accepted_booked (o : Outcome) (raw : String) (key : ApiKey) (via : String) :
    (booked o raw key via).effects.accepted = o.effects.accepted := by
  unfold booked
  split
  · rfl
  · rfl

theorem sent_blank : (sent w r).effects.recorded = [] ∧ (sent w r).effects.charged = [] := by
  unfold sent
  split
  · refine ⟨?_, charged_routeOrderFlow⟩
    unfold routeOrderFlow
    split
    · rfl
    · dsimp only
      split
      · rfl
      · rfl
      · rfl
  · refine ⟨?_, charged_protectAndSend⟩
    unfold protectAndSend
    split
    · rfl
    · rfl

theorem sent_refused {e : RpcError}
    (hsafe : assertSafe w.toProvider r.params.head? (waiver r.method r.params) = .error e) :
    sent w r = { result := .error e } := by
  unfold sent routeOrderFlow protectAndSend
  rw [hsafe]
  split
  · rfl
  · rfl

section Safe

variable (hsafe : assertSafe w.toProvider r.params.head? (waiver r.method r.params) = .ok ())
  (hnames : ∀ raw, (w.auction raw).reply = .named → (w.auction raw).accepts = true)
include hsafe

include hnames in
theorem sent_ok {v : Json} (hok : (sent w r).result = .ok v) :
    v = .str (w.hash (rawText r.params.head?)) ∧
      (sent w r).effects.accepted = [rawText r.params.head?] := by
  unfold sent at hok ⊢
  split at hok
  · next hauctioned =>
      rw [if_pos hauctioned]
      exact routeOrderFlow_ok hnames hok
  · next hdirect =>
      rw [if_neg hdirect]
      rw [protectAndSend, hsafe] at hok ⊢
      exact upstreamSend_ok hok

theorem sent_reports :
    ((sent w r).effects.accepted ≠ [] →
        (sent w r).result = .ok (.str (w.hash (rawText r.params.head?)))) ↔
      ¬ AcceptanceLost w (auctioned r.method r.key) (rawText r.params.head?) := by
  unfold sent
  cases auctioned r.method r.key with
  | true => exact routeOrderFlow_reports hsafe
  | false =>
      rw [if_neg Bool.false_ne_true, protectAndSend, hsafe]
      exact upstreamSend_reports _ _ _ _

include hnames in
theorem accepted_sent :
    (sent w r).effects.accepted ≠ [] ↔
      SendTakes w (auctioned r.method r.key) (rawText r.params.head?) := by
  unfold sent
  cases auctioned r.method r.key with
  | true => exact accepted_routeOrderFlow hsafe hnames
  | false =>
      rw [if_neg Bool.false_ne_true, protectAndSend, hsafe]
      exact accepted_upstreamSend _ _ _ _

end Safe

/-- What becomes of a bundle that is let through, or of one that is not. -/
theorem sendBundle_cases (w : Surroundings) (params : List Json) :
    (∃ b, (bundleOf params = some b ∧ b.txs ≠ [] ∧ b.txs.length ≤ 10 ∧
        ∃ sims, checkLegs w b 0 b.txs = .ok sims) ∧
      (sendBundle w params).1.effects.accepted =
          (sendLegs w 0 b.txs []).flatMap (·.effects.accepted) ∧
        ((∃ v, (sendBundle w params).1.result = .ok v) ↔
          ∃ hashes, allHashes (sendLegs w 0 b.txs []) = .ok hashes)) ∨
      (sendBundle w params).1.effects.accepted = [] ∧
        ¬ ∃ b, bundleOf params = some b ∧ b.txs ≠ [] ∧ b.txs.length ≤ 10 ∧
          ∃ sims, checkLegs w b 0 b.txs = .ok sims := by
  unfold sendBundle
  cases hb : bundleOf params with
  | none => exact Or.inr ⟨rfl, by simp⟩
  | some b =>
      dsimp only
      by_cases hempty : b.txs = []
      · rw [if_pos hempty]
        exact Or.inr ⟨rfl, by simp [hempty]⟩
      · rw [if_neg hempty]
        by_cases hlong : 10 < b.txs.length
        · rw [if_pos hlong]
          refine Or.inr ⟨rfl, ?_⟩
          rintro ⟨b', hb', -, hshort, -⟩
          obtain rfl := Option.some.inj hb'
          omega
        · rw [if_neg hlong]
          cases hsims : checkLegs w b 0 b.txs with
          | error e =>
              refine Or.inr ⟨rfl, ?_⟩
              rintro ⟨b', hb', -, -, sims, hsims'⟩
              obtain rfl := Option.some.inj hb'
              rw [hsims] at hsims'
              cases hsims'
          | ok sims =>
              refine Or.inl ⟨b, ⟨rfl, hempty, by omega, sims, hsims⟩, ?_⟩
              dsimp only
              cases allHashes (sendLegs w 0 b.txs []) with
              | error e => exact ⟨rfl, by simp⟩
              | ok hashes => exact ⟨rfl, by simp⟩

/-- **What a request writes down**: all that was accepted of it, or nothing. -/
theorem dispatch_books (w : Surroundings) (r : Request)
    (hnames : ∀ raw, (w.auction raw).reply = .named → (w.auction raw).accepts = true) :
    Matches w r.key.label (dispatch w r.method r.params r.key) ∨
      Forgotten (dispatch w r.method r.params r.key) := by
  by_cases hsingle : isSingle r.method = true
  · cases hcan : w.canSend with
    | false =>
        have hmethod : r.method ∈ ["eth_sendRawTransaction", "ordo_sendRawTransaction",
            "ordo_sendPrivateTransaction"] := by simpa [isSingle] using hsingle
        rw [dispatch, if_pos hmethod, if_pos (by simp [hcan])]
        exact Or.inr ⟨⟨_, rfl⟩, rfl, rfl⟩
    | true =>
        obtain ⟨via, hdispatch⟩ := dispatch_single hsingle hcan
        rw [hdispatch]
        cases hsafe : assertSafe w.toProvider r.params.head? (waiver r.method r.params) with
        | error e =>
            rw [sent_refused hsafe]
            exact Or.inr ⟨⟨e, rfl⟩, rfl, rfl⟩
        | ok _ =>
            exact booked_books sent_blank.1 sent_blank.2 (parse_of_assertSafe hsafe)
              fun v hv => sent_ok hsafe hnames hv
  · rw [dispatch, if_neg (by simpa [isSingle] using hsingle)]
    split
    · split
      · exact Or.inr ⟨⟨_, rfl⟩, rfl, rfl⟩
      · exact bundle_books
    · exact Or.inl ⟨⟨"", rfl⟩, rfl, fun _ h => absurd h List.not_mem_nil,
        fun _ h => absurd h List.not_mem_nil⟩

/-- A bundle, in the terms of its legs. -/
theorem dispatch_bundle (hmethod : r.method = "ordo_sendBundle") :
    (∃ b, BundlePasses w r.params b ∧
        (dispatch w r.method r.params r.key).effects.accepted =
          (sendLegs w 0 b.txs []).flatMap (·.effects.accepted) ∧
        ((∃ v, (dispatch w r.method r.params r.key).result = .ok v) ↔
          ∃ hashes, allHashes (sendLegs w 0 b.txs []) = .ok hashes)) ∨
      (dispatch w r.method r.params r.key).effects.accepted = [] ∧
        ¬ ∃ b, BundlePasses w r.params b := by
  rw [dispatch, if_neg (by simp [hmethod]), if_pos hmethod]
  cases hcan : w.canSend with
  | false => exact Or.inr ⟨rfl, by simp [BundlePasses, hcan]⟩
  | true =>
      rw [if_neg (by simp)]
      simp only [BundlePasses, hcan, true_and]
      exact sendBundle_cases w r.params

theorem bundle_unique {b b' : Bundle} {params : List Json} (hb : BundlePasses w params b)
    (hb' : BundlePasses w params b') : b = b' :=
  Option.some.inj (hb.2.1.symm.trans hb'.2.1)

section Accepted

variable (w : Surroundings) (r : Request)
  (hnames : ∀ raw, (w.auction raw).reply = .named → (w.auction raw).accepts = true)
include hnames

theorem takesSome_iff :
    (dispatch w r.method r.params r.key).effects.accepted ≠ [] ↔ TakesSome w r := by
  unfold TakesSome
  by_cases hsingle : isSingle r.method = true
  · have hbundle : r.method ≠ "ordo_sendBundle" := by
      rintro hbundle
      simp [isSingle, hbundle] at hsingle
    simp only [hsingle, hbundle, false_and, or_false, true_and]
    cases hcan : w.canSend with
    | false =>
        have hmethod : r.method ∈ ["eth_sendRawTransaction", "ordo_sendRawTransaction",
            "ordo_sendPrivateTransaction"] := by simpa [isSingle] using hsingle
        rw [dispatch, if_pos hmethod, if_pos (by simp [hcan])]
        simp
    | true =>
        obtain ⟨via, hdispatch⟩ := dispatch_single (w := w) hsingle hcan
        rw [hdispatch, accepted_booked]
        cases hsafe : assertSafe w.toProvider r.params.head? (waiver r.method r.params) with
        | error e => simp [sent_refused hsafe]
        | ok _ => simpa using accepted_sent hsafe hnames
  · by_cases hbundle : r.method = "ordo_sendBundle"
    · rw [or_iff_right fun h => hsingle h.1, and_iff_right hbundle]
      rcases dispatch_bundle (w := w) hbundle with ⟨b, hb, haccepted, -⟩ | ⟨hnone, hnot⟩
      · rw [haccepted, accepted_sendLegs]
        constructor
        · rintro ⟨raw, hraw, -, htakes⟩
          exact ⟨b, hb, raw, hraw, htakes⟩
        · rintro ⟨b', hb', raw, hraw, htakes⟩
          obtain rfl := bundle_unique hb hb'
          exact ⟨raw, hraw, List.not_mem_nil, htakes⟩
      · refine iff_of_false (not_not.mpr hnone) ?_
        rintro ⟨b, hb, -⟩
        exact hnot ⟨b, hb⟩
    · rw [dispatch, if_neg (by simpa [isSingle] using hsingle), if_neg hbundle]
      simp [hsingle, hbundle]

/-- The two ways in which a request fails of which something was accepted. -/
theorem failsTaken_iff :
    ((dispatch w r.method r.params r.key).effects.accepted ≠ [] ∧
        ∃ e, (dispatch w r.method r.params r.key).result = .error e) ↔ FailsTaken w r := by
  have herror : ∀ o : Outcome, (∃ e, o.result = .error e) ↔ ¬ ∃ v, o.result = .ok v := by
    intro o
    cases o.result with
    | error e => simp
    | ok v => simp
  unfold FailsTaken
  by_cases hsingle : isSingle r.method = true
  · have hbundle : r.method ≠ "ordo_sendBundle" := by
      rintro hbundle
      simp [isSingle, hbundle] at hsingle
    simp only [hsingle, hbundle, false_and, or_false, true_and]
    cases hcan : w.canSend with
    | false =>
        have hmethod : r.method ∈ ["eth_sendRawTransaction", "ordo_sendRawTransaction",
            "ordo_sendPrivateTransaction"] := by simpa [isSingle] using hsingle
        rw [dispatch, if_pos hmethod, if_pos (by simp [hcan])]
        simp
    | true =>
        obtain ⟨via, hdispatch⟩ := dispatch_single (w := w) hsingle hcan
        rw [hdispatch, accepted_booked, result_booked]
        cases hsafe : assertSafe w.toProvider r.params.head? (waiver r.method r.params) with
        | error e => simp [sent_refused hsafe]
        | ok _ =>
            simp only [true_and]
            rw [← not_iff_not, ← sent_reports hsafe, herror, not_and_not_right]
            refine imp_congr_right fun _ => ⟨?_, fun hv => ⟨_, hv⟩⟩
            rintro ⟨v, hv⟩
            rw [hv, (sent_ok hsafe hnames hv).1]
  · by_cases hbundle : r.method = "ordo_sendBundle"
    · rw [or_iff_right fun h => hsingle h.1, and_iff_right hbundle, herror]
      rcases dispatch_bundle (w := w) hbundle with ⟨b, hb, haccepted, hok⟩ | ⟨hnone, hnot⟩
      · rw [haccepted, accepted_sendLegs, hok, allHashes_sendLegs]
        simp only [List.not_mem_nil, not_false_eq_true, true_and]
        constructor
        · intro hsplits
          exact ⟨b, hb, hsplits⟩
        · rintro ⟨b', hb', hsplits⟩
          obtain rfl := bundle_unique hb hb'
          exact hsplits
      · refine iff_of_false (fun h => h.1 hnone) ?_
        rintro ⟨b, hb, -⟩
        exact hnot ⟨b, hb⟩
    · rw [dispatch, if_neg (by simpa [isSingle] using hsingle), if_neg hbundle]
      simp [hsingle, hbundle]

end Accepted

end Outcomes

end Requests

/-! ### The books after a request -/

section Steps

variable {price : Int} {enforce : Bool} {hash : TxHash} {b : Books} {e : Event hash}

/-- Rows of hashes that are not there are all written. -/
theorem foldl_recordRouted {parse : String → Except RpcError Parsed} {label via : String}
    {raws : List String} {routed : List RoutedTx}
    (hparsed : ∀ raw ∈ raws, ∃ tx, parse raw = .ok tx) (hnodup : (raws.map hash.of).Nodup)
    (hfresh : ∀ raw ∈ raws, hash.of raw ∉ routed.map (·.txHash)) :
    (raws.map fun raw => (⟨.str (hash.of raw), raw, label, via⟩ : Recorded)).foldl
        (recordRouted parse) routed =
      routed ++ raws.map fun raw => ⟨hash.of raw, label, via⟩ := by
  induction raws generalizing routed with
  | nil => simp
  | cons raw raws ih =>
      obtain ⟨tx, htx⟩ := hparsed raw List.mem_cons_self
      rw [List.map_cons, List.nodup_cons] at hnodup
      have hrow : recordRouted parse routed ⟨.str (hash.of raw), raw, label, via⟩ =
          routed ++ [⟨hash.of raw, label, via⟩] := by
        simp only [recordRouted, hash.starts, htx, hash.lower,
          hfresh raw List.mem_cons_self, if_true, if_false]
      rw [List.map_cons, List.foldl_cons, hrow,
        ih (fun raw' h => hparsed raw' (List.mem_cons_of_mem _ h)) hnodup.2]
      · simp
      · intro raw' hraw'
        have hold := hfresh raw' (List.mem_cons_of_mem _ hraw')
        have hother : hash.of raw' ≠ hash.of raw := by
          rintro heq
          exact hnodup.1 (heq ▸ List.mem_map_of_mem hraw')
        simpa [hother] using hold

/-- Charges to a key are counted, where sends have a price. -/
theorem sends_chargeAll (now : Int) (s : KeyLedger) (label : String) (n : Nat)
    (other : String) :
    ((chargeAll price now s (List.replicate n label)).row other).sends =
      (s.row other).sends +
        if other = label ∧ ¬isAnon label ∧ 0 < price then (n : Int) else 0 := by
  induction n with
  | zero => simp [chargeAll]
  | succ n ih =>
      rw [chargeAll_succ]
      by_cases hcharged : ¬isAnon label ∧ 0 < price
      · rw [chargeKeyedSend_row now hcharged.1 hcharged.2]
        by_cases hown : other = label
        · subst hown
          rw [if_pos rfl]
          simp only [chargeUpdate, ih]
          rw [if_pos ⟨trivial, hcharged⟩, if_pos ⟨trivial, hcharged⟩]
          push_cast
          ring
        · rw [if_neg hown, ih, if_neg fun h => hown h.1, if_neg fun h => hown h.1]
      · have hskip : ∀ s : KeyLedger, s.chargeKeyedSend label price now = s := by
          intro s
          unfold chargeKeyedSend
          rw [if_pos]
          simp only [Bool.or_eq_true, decide_eq_true_eq]
          by_contra hnot
          simp only [not_or, not_le] at hnot
          exact hcharged hnot
        rw [hskip, ih, if_neg fun h => hcharged h.2, if_neg fun h => hcharged h.2]

theorem takenFor_step (label : String) :
    (step price enforce b e).takenFor label = b.takenFor label +
      if label = e.request.key.label
      then (outcome price enforce b e).effects.accepted.length else 0 := by
  simp only [Books.takenFor, step, takenOf, List.filter_append, List.length_append]
  by_cases hown : e.request.key.label = label
  · simp [hown, Function.comp_def, List.filter_map]
  · simp [hown, Ne.symm hown, Function.comp_def, List.filter_map]

theorem surroundings_hash (b : Books) (e : Event hash) (raw : String) :
    (surroundings price enforce b e).hash raw = hash.of raw :=
  congrFun e.outside.hashes raw

/-- A request that comes off is on the books as often as it was accepted. -/
theorem step_matches (hgrounded : Grounded b)
    (honce : ((step price enforce b e).taken.map (·.txHash)).Nodup)
    (hmatches : Matches (surroundings price enforce b e) e.request.key.label
      (outcome price enforce b e)) :
    (∃ via, (step price enforce b e).routed = b.routed ++
      (outcome price enforce b e).effects.accepted.map fun raw =>
        ⟨hash.of raw, e.request.key.label, via⟩) ∧
    ∀ label, ((step price enforce b e).ledger.row label).sends = (b.ledger.row label).sends +
      if label = e.request.key.label ∧ ¬isAnon e.request.key.label ∧ 0 < price
      then ((outcome price enforce b e).effects.accepted.length : Int) else 0 := by
  obtain ⟨via, hrecorded⟩ := hmatches.recorded
  have hsplit : (b.taken.map (·.txHash) ++
      (outcome price enforce b e).effects.accepted.map hash.of).Nodup := by
    simpa [step, takenOf, Function.comp_def] using honce
  constructor
  · refine ⟨via, ?_⟩
    simp only [step, hrecorded, surroundings_hash]
    refine foldl_recordRouted hmatches.parsed (List.nodup_append.mp hsplit).2.1 ?_
    intro raw hraw hmem
    obtain ⟨row, hrow, hhash⟩ := List.mem_map.mp hmem
    refine List.disjoint_of_nodup_append hsplit (hgrounded row hrow) ?_
    rw [hhash]
    exact List.mem_map_of_mem hraw
  · intro label
    simp only [step, hmatches.charged]
    exact sends_chargeAll e.now b.ledger e.request.key.label _ label

/-- Where nothing of a request is accepted, or it comes off, each row is still of a
transaction that was taken. -/
theorem step_grounded (hgrounded : Grounded b)
    (honce : ((step price enforce b e).taken.map (·.txHash)).Nodup) :
    Grounded (step price enforce b e) := by
  have hold : ∀ row ∈ b.routed, row.txHash ∈ (step price enforce b e).taken.map (·.txHash) := by
    intro row hrow
    simp only [step, List.map_append]
    exact List.mem_append_left _ (hgrounded row hrow)
  rcases dispatch_books (surroundings price enforce b e) e.request e.outside.names_accepted with
    hmatches | hforgotten
  · obtain ⟨⟨via, hrouted⟩, -⟩ := step_matches hgrounded honce hmatches
    intro row hrow
    rw [hrouted] at hrow
    rcases List.mem_append.mp hrow with hrow | hrow
    · exact hold row hrow
    · obtain ⟨raw, hraw, rfl⟩ := List.mem_map.mp hrow
      simp only [step, takenOf, List.map_append, List.map_map]
      exact List.mem_append_right _ (List.mem_map_of_mem hraw)
  · intro row hrow
    refine hold row ?_
    have hrecorded : (outcome price enforce b e).effects.recorded = [] := hforgotten.recorded
    simpa [step, hrecorded] using hrow

/-- **One request**: the books agree after it, and its caller is told, just when it is
clean. -/
theorem step_reconciled_iff (hreconciled : Reconciled b) (hgrounded : Grounded b)
    (honce : ((step price enforce b e).taken.map (·.txHash)).Nodup) :
    (Reconciled (step price enforce b e) ∧ AllTold price enforce b e) ↔
      Clean (surroundings price enforce b e) price e.request := by
  unfold Clean
  rw [← failsTaken_iff (surroundings price enforce b e) e.request e.outside.names_accepted,
    ← takesSome_iff (surroundings price enforce b e) e.request e.outside.names_accepted]
  change _ ↔ ¬ ((outcome price enforce b e).effects.accepted ≠ [] ∧
    ∃ err, (outcome price enforce b e).result = .error err) ∧
      ((outcome price enforce b e).effects.accepted ≠ [] → _)
  rcases dispatch_books (surroundings price enforce b e) e.request e.outside.names_accepted with
    hmatches | hforgotten
  · change Matches _ _ (outcome price enforce b e) at hmatches
    have htold : AllTold price enforce b e := by
      intro raw hraw
      have hhash : (surroundings price enforce b e).hash raw = hash.of raw :=
        surroundings_hash b e raw
      rw [← hhash]
      exact hmatches.told raw hraw
    have hcomes : ¬ ((outcome price enforce b e).effects.accepted ≠ [] ∧
        ∃ err, (outcome price enforce b e).result = .error err) := by
      rintro ⟨hsome, hfailed⟩
      obtain ⟨raw, hraw⟩ := List.exists_mem_of_ne_nil _ hsome
      exact not_told hfailed _ (htold raw hraw)
    obtain ⟨⟨via, hrouted⟩, hsends⟩ := step_matches hgrounded honce hmatches
    have hrows : ∀ label, (step price enforce b e).routedFor label = b.routedFor label +
        if label = e.request.key.label
        then (outcome price enforce b e).effects.accepted.length else 0 := by
      intro label
      rw [Books.routedFor, hrouted, List.filter_append, List.length_append]
      by_cases hown : e.request.key.label = label
      · simp [Books.routedFor, hown, List.filter_map, Function.comp_def]
      · simp [Books.routedFor, hown, Ne.symm hown, List.filter_map, Function.comp_def]
    rw [and_iff_left htold, and_iff_right hcomes]
    constructor
    · intro hafter hsome hkeyed
      have hcount := (hafter e.request.key.label hkeyed).1
      have hbefore := (hreconciled e.request.key.label hkeyed).1
      rw [hsends, takenFor_step, if_pos rfl, hbefore] at hcount
      by_contra hfree
      rw [if_neg fun h => hfree h.2.2] at hcount
      have hpos := List.length_pos_of_ne_nil hsome
      push_cast at hcount
      omega
    · intro hpriced label hkeyed
      obtain ⟨hcharges, hrouteds⟩ := hreconciled label hkeyed
      rw [hsends, hrows, takenFor_step, hcharges, hrouteds]
      refine ⟨?_, rfl⟩
      by_cases hown : label = e.request.key.label
      · subst hown
        rw [if_pos rfl]
        by_cases hsome : (outcome price enforce b e).effects.accepted = []
        · simp [hsome]
        · rw [if_pos ⟨rfl, hkeyed, hpriced hsome hkeyed⟩]
          push_cast
          rfl
      · rw [if_neg fun h => hown h.1, if_neg hown]
        simp
  · change Forgotten (outcome price enforce b e) at hforgotten
    have hsame : (step price enforce b e).ledger = b.ledger ∧
        (step price enforce b e).routed = b.routed := by
      simp [step, hforgotten.charged, hforgotten.recorded, chargeAll]
    by_cases hsome : (outcome price enforce b e).effects.accepted = []
    · refine iff_of_true ⟨fun label hkeyed => ?_, fun raw hraw => ?_⟩
        ⟨fun h => h.1 hsome, fun h => absurd hsome h⟩
      · rw [Books.routedFor, hsame.1, hsame.2, takenFor_step, hsome]
        simpa [Books.routedFor] using hreconciled label hkeyed
      · rw [hsome] at hraw
        exact absurd hraw List.not_mem_nil
    · refine iff_of_false ?_ fun h => h.1 ⟨hsome, hforgotten.failed⟩
      rintro ⟨-, htold⟩
      obtain ⟨raw, hraw⟩ := List.exists_mem_of_ne_nil _ hsome
      exact not_told hforgotten.failed _ (htold raw hraw)

/-! ### Over a run -/

theorem taken_run (price : Int) (enforce : Bool) (b : Books) (es : List (Event hash)) :
    ∃ more, (run price enforce b es).taken = b.taken ++ more := by
  induction es generalizing b with
  | nil => exact ⟨[], (List.append_nil _).symm⟩
  | cons e es ih =>
      obtain ⟨more, hmore⟩ := ih (step price enforce b e)
      exact ⟨takenOf price enforce b e ++ more, by rw [← List.append_assoc]; exact hmore⟩

/-- The state after a prefix, and the event after it. -/
theorem throughout_split {b : Books} {es : List (Event hash)} :
    ReconciledThroughout price enforce b es ↔
      Reconciled b ∧ Guarded.Along (step price enforce)
        (fun b e => Reconciled (step price enforce b e) ∧ AllTold price enforce b e) b es := by
  rw [Guarded.along_and, ← and_assoc, ← Guarded.throughout_iff]
  constructor
  · intro h
    exact ⟨fun pre post hsplit => (h pre post hsplit).1,
      fun pre e post hsplit => (h pre (e :: post) hsplit).2 e post rfl⟩
  · rintro ⟨hstates, htold⟩ pre post hsplit
    exact ⟨hstates pre post hsplit,
      fun e rest hpost => htold pre e rest (by rw [hsplit, hpost])⟩

/-- What is taken once over a run is taken once after each of its steps. -/
theorem takenOnce_along {b : Books} {es : List (Event hash)}
    (honce : TakenOnce price enforce b es) :
    Guarded.Along (step price enforce)
      (fun b e => ((step price enforce b e).taken.map (·.txHash)).Nodup) b es := by
  intro pre e post hsplit
  obtain ⟨more, hmore⟩ :=
    taken_run price enforce (step price enforce (run price enforce b pre) e) post
  have hrun : run price enforce b es =
      run price enforce (step price enforce (run price enforce b pre) e) post := by
    rw [hsplit, run, List.foldl_append]
    rfl
  rw [TakenOnce, hrun, hmore, List.map_append] at honce
  exact (List.nodup_append.mp honce).1

/-- **The books agree with the network, and every caller is told, just when every request
of the run is clean.** -/
theorem reconciled_iff (price : Int) (enforce : Bool) (b : Books) (es : List (Event hash))
    (hreconciled : Reconciled b) (hgrounded : Grounded b)
    (honce : TakenOnce price enforce b es) :
    ReconciledThroughout price enforce b es ↔
      ∀ pre e post, es = pre ++ e :: post →
        Clean (surroundings price enforce (run price enforce b pre) e) price e.request := by
  rw [throughout_split, and_iff_right hreconciled]
  have hkeeps : ∀ (b : Books) (e : Event hash), Reconciled b ∧ Grounded b →
      ((step price enforce b e).taken.map (·.txHash)).Nodup →
      Clean (surroundings price enforce b e) price e.request →
      Reconciled (step price enforce b e) ∧ Grounded (step price enforce b e) := by
    rintro b e ⟨hreconciled, hgrounded⟩ hfresh hclean
    exact ⟨((step_reconciled_iff hreconciled hgrounded hfresh).mpr hclean).1,
      step_grounded hgrounded hfresh⟩
  exact Guarded.along_iff_of (takenOnce_along honce) hkeeps
    (fun b e hinv hfresh => step_reconciled_iff hinv.1 hinv.2 hfresh) ⟨hreconciled, hgrounded⟩

/-! ### A bundle of which one leg is taken -/

def legHash : TxHash where
  of raw := if raw = "0xf8" then "0x01" else "0x02"
  starts raw := by
    split
    · decide +kernel
    · decide +kernel
  lower raw := by
    split
    · decide +kernel
    · decide +kernel

def refusingHop : Hop where
  host := "rpc.mainnet.chain.robinhood.com"
  accepts := false
  lost := none
  refusal := { message := some "insufficient funds", code := some (-32000) }
  moves_on := publicHop.moves_on

/-- A hop takes the one transaction and refuses every other. -/
def legOutside : Outside legHash where
  around :=
    { hopsWorld [] with
      hash := legHash.of
      hops := fun raw => if raw = "0xf8" then [publicHop] else [refusingHop] }
  hashes := rfl
  names_accepted raw hnamed := by cases hnamed

def twoLegs : Event legHash where
  request := ⟨"ordo_sendBundle", [.obj [("txs", .arr [.str "0xf8", .str "0xf9"])]], someKey⟩
  outside := legOutside
  now := 0

theorem takes_publicHop : Takes [publicHop] :=
  ⟨[], publicHop, [], rfl, fun _ h => absurd h List.not_mem_nil, rfl⟩

/-- The first leg is taken and the second refused: nothing is recorded or charged, and no
hash is told. -/
theorem half_a_bundle : ¬ ReconciledThroughout 10000 false {} [twoLegs] := by
  have hlegs : ∀ raw : String, raw.startsWith "0x" = true →
      simulateRaw legOutside.around.toProvider (some (.str raw)) =
        .ok (simulateParsed legOutside.around.toProvider plainTx) := by
    intro raw hhex
    rw [simulateRaw, parseRaw, if_pos hhex]
    rfl
  have hpasses : BundlePasses (surroundings 10000 false {} twoLegs) twoLegs.request.params
      ⟨[.str "0xf8", .str "0xf9"], .none⟩ := by
    refine ⟨rfl, rfl, by simp, by simp, List.replicate 2
      (simulateParsed legOutside.around.toProvider plainTx), ?_⟩
    change checkLegs legOutside.around _ _ _ = _
    rw [checkLegs, hlegs "0xf8" (by decide +kernel), checkLegs, hlegs "0xf9" (by decide +kernel)]
    rfl
  have hsplits : Splits (surroundings 10000 false {} twoLegs)
      ⟨[.str "0xf8", .str "0xf9"], .none⟩ := by
    refine ⟨⟨"0xf8", List.mem_cons_self, rfl, takes_publicHop⟩, fun hall => ?_⟩
    have hsecond := (hall.2 "0xf9" (by decide)).1.2
    have hrefused : Takes [refusingHop] := hsecond
    rcases takes_cons.mp hrefused with hacc | ⟨-, pre, h, post, hnil, -⟩
    · cases hacc
    · simp at hnil
  intro hthroughout
  obtain ⟨hsome, hfailed⟩ := (failsTaken_iff (surroundings 10000 false {} twoLegs)
    twoLegs.request legOutside.names_accepted).mpr (Or.inr ⟨rfl, _, hpasses, hsplits⟩)
  obtain ⟨raw, hraw⟩ := List.exists_mem_of_ne_nil _ hsome
  exact not_told hfailed _ ((hthroughout [] [twoLegs] rfl).2 twoLegs [] rfl raw hraw)

/-! ### A single send -/

def oneSend : Event legHash where
  request := plainSend
  outside := legOutside
  now := 0

theorem assertSafe_legOutside (opts : SafetyOptions) :
    assertSafe (surroundings 10000 false {} oneSend).toProvider (some (.str "0xf8")) opts =
      .ok () :=
  assertSafe_plain [] opts

/-- A hop takes it, and answers: the books agree and the caller is told. -/
theorem reconciled_sample : ReconciledThroughout 10000 false {} [oneSend] := by
  have honce : TakenOnce 10000 false {} [oneSend] := by
    obtain ⟨via, hdispatch⟩ := dispatch_single (w := surroundings 10000 false {} oneSend)
      (r := plainSend) (by decide) rfl
    have hsafe := assertSafe_legOutside (waiver plainSend.method plainSend.params)
    have hsent : sent (surroundings 10000 false {} oneSend) plainSend =
        upstreamSend (surroundings 10000 false {} oneSend) "0xf8" false 0 := by
      have hhead : plainSend.params.head? = some (.str "0xf8") := rfl
      rw [sent, if_neg (by decide), hhead, protectAndSend, hsafe]
      rfl
    have haccepted : (outcome 10000 false {} oneSend).effects.accepted =
        (upstreamSend (surroundings 10000 false {} oneSend) "0xf8" false 0).effects.accepted := by
      change (dispatch _ plainSend.method plainSend.params plainSend.key).effects.accepted = _
      rw [hdispatch, accepted_booked, hsent]
    change (List.map _ ([] ++ takenOf 10000 false {} oneSend)).Nodup
    rw [takenOf, haccepted]
    rcases upstreamSend_accepted (surroundings 10000 false {} oneSend) "0xf8" false 0 with
      ⟨-, hnone⟩ | ⟨-, hone⟩
    · simp [hnone]
    · simp [hone]
  refine (reconciled_iff 10000 false {} [oneSend] (fun label _ => ⟨rfl, rfl⟩)
    (fun row hrow => absurd hrow List.not_mem_nil) honce).mpr fun pre e post hsplit => ?_
  rcases pre with _ | ⟨e', pre⟩
  · obtain ⟨rfl, -⟩ := List.cons_eq_cons.mp hsplit
    refine ⟨?_, fun _ _ => by decide⟩
    rintro (⟨-, -, -, hlost⟩ | ⟨hbundle, -⟩)
    · obtain ⟨-, hloses⟩ : false = false ∧ LosesAcceptance [publicHop] := hlost
      rcases losesAcceptance_cons.mp hloses with ⟨-, hsome⟩ | ⟨hpass, -⟩
      · cases hsome
      · cases hpass.1
    · exact absurd hbundle (by decide)
  · simp at hsplit

end Steps

end SendBooks

end Ordo
