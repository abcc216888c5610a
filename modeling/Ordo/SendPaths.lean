import Ordo.ApiKeys
import Ordo.PrivateSend
import Ordo.Protect

/-!
# Ways to the network

A transaction reaches the network by a direct send, through the auction, by the direct
send that a failed auction falls back to, or as a leg of a bundle.  `dispatch` takes a
request down its path; what it hands over, records and charges on the way is kept beside
what it answers.

The auction may take a transaction and its reply be lost; the hops that are asked after
that know the transaction.

* `protected_iff` — what is handed over has passed every check, with the waiver its caller
  gave, but for the legs of a bundle, which only have to pass `eth_call`;
* `accepted_once_iff` — a transaction that was accepted is answered with its hash,
  recorded and charged once, unless an acceptance was lost on the way.
-/

namespace Ordo

namespace SendPaths

open ApiKeys PrivateSend Protect

/-! ### Surroundings -/

/-- What comes back from `/submit`. -/
inductive AuctionReply where
  /-- A timeout, an HTTP error or a text that is not JSON. -/
  | lost (reason : String)
  /-- The transaction was dispatched, and here is its hash. -/
  | named
  | refused (userError : Option String)
  deriving DecidableEq

structure Auction where
  accepts : Bool
  reply : AuctionReply
  deriving DecidableEq

/-- What one request finds around it. -/
structure Surroundings extends Provider where
  hash : String → String
  hops : String → List Hop
  /-- The sequencer knows the transaction from before. -/
  known : String → Bool
  auction : String → Auction
  /-- The key has credit, or is not asked for any. -/
  canSend : Bool
  price : String
  bundler : String
  /-- Every other method. -/
  other : String → List Json → Except RpcError Json

/-! ### Effects -/

inductive Route where
  | auction
  | upstream
  deriving DecidableEq

/-- A transaction that leaves the gateway, and the leg of a bundle it is. -/
structure Handed where
  raw : String
  route : Route
  leg : Nat := 0
  deriving DecidableEq

structure Recorded where
  txHash : Json
  raw : String
  keyLabel : String
  via : String
  deriving DecidableEq

structure Effects where
  handed : List Handed := []
  /-- What the auction or a hop accepted. -/
  accepted : List String := []
  recorded : List Recorded := []
  charged : List String := []

structure Outcome where
  result : Except RpcError Json
  effects : Effects := {}

section Paths

variable (w : Surroundings)

/-- What `upstream` makes of an error. -/
def upstreamError (e : UpstreamError) : RpcError :=
  if isRetryableRpcError e then
    ⟨-32005, "the network is busy, please try again in a moment", none⟩
  else
    match e.code with
    | some code => ⟨code, w.walletMessage e.message e.data, e.data⟩
    | none => ⟨-32000, "all RPC upstreams refused the request — " ++ e.message, none⟩

/-- `upstream("eth_sendRawTransaction", [rawTx])` -/
def upstreamSend (raw : String) (known : Bool) (leg : Nat) : Outcome :=
  let sent := sendRawTransaction (w.hash raw) (w.hops raw) known
  { result :=
      match sent.result with
      | .ok v => .ok (v.getD .null)
      | .error e => .error (upstreamError w e)
    effects :=
      { handed := [⟨raw, .upstream, leg⟩]
        accepted := if sent.accepted then [raw] else [] } }

/-- The text of a first parameter that passed the checks. -/
def rawText : Option Json → String
  | some (.str raw) => raw
  | _ => ""

def protectAndSend (rawTx : Option Json) (opts : SafetyOptions) : Outcome :=
  match assertSafe w.toProvider rawTx opts with
  | .error e => { result := .error e }
  | .ok () => upstreamSend w (rawText rawTx) (w.known (rawText rawTx)) 0

/-- What `routeOrderFlow` returns: the outcome, and whether the auction handled it. -/
def routeOrderFlow (rawTx : Option Json) (opts : SafetyOptions) : Outcome × Bool :=
  match assertSafe w.toProvider rawTx opts with
  | .error e => ({ result := .error e }, false)
  | .ok () =>
      let raw := rawText rawTx
      let auction := w.auction raw
      let submitted : Effects :=
        { handed := [⟨raw, .auction, 0⟩], accepted := if auction.accepts then [raw] else [] }
      match auction.reply with
      | .named => ({ result := .ok (.str (w.hash raw)), effects := submitted }, true)
      | .refused userError =>
          ({ result := .error ⟨-32000,
              "ordo: " ++ userError.getD "auction did not dispatch the transaction", none⟩
             effects := submitted }, true)
      | .lost _ =>
          let sent := upstreamSend w raw (w.known raw || auction.accepts) 0
          ({ result := sent.result
             effects :=
               { handed := submitted.handed ++ sent.effects.handed
                 accepted := submitted.accepted ++ sent.effects.accepted } }, false)

/-! ### Bundles -/

inductive AllowRevert where
  | none
  | all
  | legs (indices : List Json)

structure Bundle where
  txs : List Json
  allowRevert : AllowRevert

def bundleOf (params : List Json) : Option Bundle :=
  match params.head?.bind (Json.field? "txs") with
  | some (.arr txs) =>
      some ⟨txs,
        match params.head?.bind (Json.field? "allowRevert") with
        | some (.bool true) => .all
        | some (.arr indices) => .legs indices
        | _ => .none⟩
  | _ => none

def Bundle.tolerated (b : Bundle) (i : Nat) : Bool :=
  match b.allowRevert with
  | .none => false
  | .all => true
  | .legs indices => decide (.num (Numeral.ofNat i) ∈ indices)

/-- The legs are simulated in turn; a leg that would revert refuses the bundle. -/
def checkLegs (b : Bundle) : Nat → List Json → Except RpcError (List SimResult)
  | _, [] => .ok []
  | i, raw :: rest =>
      match simulateRaw w.toProvider (some raw) with
      | .error e => .error e
      | .ok sim =>
          if sim.ok = false ∧ b.tolerated i = false then
            .error ⟨-32000, "ordo: bundle tx[" ++ toString i ++ "] would revert: " ++
                sim.revertReason.getD "undefined",
              some (.obj [("failedIndex", .num (Numeral.ofNat i)),
                ("hint", .str ("set allowRevert if this leg is a conditional backrun that is " ++
                  "meant to be able to revert"))])⟩
          else (checkLegs b (i + 1) rest).map (sim :: ·)

/-- All sends in the same tick; a leg that is there twice is known the second time. -/
def sendLegs : Nat → List Json → List String → List Outcome
  | _, [], _ => []
  | i, rawTx :: rest, accepted =>
      let raw := rawText (some rawTx)
      let sent := upstreamSend w raw (w.known raw || decide (raw ∈ accepted)) i
      sent :: sendLegs (i + 1) rest (accepted ++ sent.effects.accepted)

/-- `Promise.all`: every hash, or an error. -/
def allHashes : List Outcome → Except RpcError (List Json)
  | [] => .ok []
  | o :: os =>
      match o.result with
      | .error e => .error e
      | .ok hash => (allHashes os).map (hash :: ·)

def targetsBundler (sims : List SimResult) : Bool :=
  w.bundler ≠ "" && sims.any fun sim => sim.dst.any fun dst => dst.toLower = w.bundler.toLower

def bundleResult (sims : List SimResult) (hashes : List Json) : Json :=
  let atomic := hashes.length = 1
  .obj ([("bundleId", hashes.headD .null), ("txHashes", .arr hashes), ("atomic", .bool atomic),
      ("note", .str (
        if atomic then
          if targetsBundler w sims then
            "atomic: one transaction through OrdoExecutor, all legs succeed or none do"
          else "atomic by virtue of being a single transaction"
        else "FCFS best-effort ordering across senders; the sequencer decides adjacency"))] ++
    if atomic then []
    else [("atomicAlternative", .str (
      if w.bundler ≠ "" then
        "route your own legs through your OrdoExecutor via OrdoBundler at " ++ w.bundler ++
          " for all-or-nothing execution"
      else
        "deploy OrdoBundler and set ORDO_BUNDLER_ADDRESS to offer atomic single-sender bundles"))])

/-- What `sendBundle` returns, with the hash of each leg beside it. -/
def sendBundle (params : List Json) : Outcome × List (Json × String) :=
  match bundleOf params with
  | none => ({ result := .error ⟨-32602, "bundle.txs required", none⟩ }, [])
  | some b =>
      if b.txs = [] then ({ result := .error ⟨-32602, "bundle.txs required", none⟩ }, [])
      else if 10 < b.txs.length then
        ({ result := .error ⟨-32602, "max 10 txs per bundle", none⟩ }, [])
      else
        match checkLegs w b 0 b.txs with
        | .error e => ({ result := .error e }, [])
        | .ok sims =>
            let sends := sendLegs w 0 b.txs []
            let effects : Effects :=
              { handed := sends.flatMap (·.effects.handed)
                accepted := sends.flatMap (·.effects.accepted) }
            match allHashes sends with
            | .error e => ({ result := .error e, effects }, [])
            | .ok hashes =>
                ({ result := .ok (bundleResult w sims hashes), effects },
                  hashes.zip (b.txs.map fun tx => rawText (some tx)))

/-! ### Dispatch -/

def noCredit (label : String) : RpcError :=
  ⟨-32000, "ordo: key \"" ++ label ++ "\" has no prepaid credit ($" ++ w.price ++
    " / send) — top up at https://app.ordofi.network/portal", none⟩

/-- The waiver that a caller gives, which only one method takes. -/
def waiver (method : String) (params : List Json) : SafetyOptions :=
  { allowUnlimitedApproval :=
      decide (method = "ordo_sendRawTransaction") &&
        ((params[1]?).bind (Json.field? "allowUnlimitedApproval")).any Json.isTruthy }

/-- The hash of a send that came off is recorded, and the send charged. -/
def booked (o : Outcome) (raw : String) (key : ApiKey) (via : String) : Outcome :=
  match o.result with
  | .error _ => o
  | .ok hash =>
      { o with effects :=
        { o.effects with
          recorded := [⟨hash, raw, key.label, via⟩]
          charged := [key.label] } }

/-- Whether a single send goes to the auction. -/
def auctioned (method : String) (key : ApiKey) : Bool :=
  method = "ordo_sendPrivateTransaction" || key.mode = .auction

def dispatch (method : String) (params : List Json) (key : ApiKey) : Outcome :=
  if method ∈ ["eth_sendRawTransaction", "ordo_sendRawTransaction",
      "ordo_sendPrivateTransaction"] then
    if ¬ w.canSend then { result := .error (noCredit w key.label) }
    else
      let rawTx := params.head?
      if auctioned method key then
        let out := routeOrderFlow w rawTx (waiver method params)
        booked out.1 (rawText rawTx) key (if out.2 then "auction" else "protect")
      else booked (protectAndSend w rawTx (waiver method params)) (rawText rawTx) key "protect"
  else if method = "ordo_sendBundle" then
    if ¬ w.canSend then { result := .error (noCredit w key.label) }
    else
      let out := sendBundle w params
      { out.1 with effects :=
        { out.1.effects with
          recorded := out.2.map fun leg => ⟨leg.1, leg.2, key.label, "bundle"⟩
          charged := out.2.map fun _ => key.label } }
  else { result := w.other method params }

end Paths

/-! ### What is handed over -/

section Protection

variable {w : Surroundings} {method : String} {params : List Json} {key : ApiKey}

/-- `assertSafe` would not refuse the transaction, or only because it would revert. -/
def Cleared (g : Provider) (raw : String) (opts : SafetyOptions) (mayRevert : Bool) : Prop :=
  assertSafe g (some (.str raw)) opts = .ok () ∨
    mayRevert = true ∧ ∃ tx r, parseRaw g (some (.str raw)) = .ok tx ∧
      refusal g tx opts = some r ∧ r.isRevert = true

/-- A leg of a bundle that `allowRevert` lists. -/
def listed (method : String) (params : List Json) (leg : Nat) : Bool :=
  decide (method = "ordo_sendBundle") && (bundleOf params).any (·.tolerated leg)

/-- Whatever a request hands over has been cleared. -/
def Protected (w : Surroundings) (method : String) (params : List Json) (key : ApiKey) : Prop :=
  ∀ h ∈ (dispatch w method params key).effects.handed,
    Cleared w.toProvider h.raw (waiver method params) (listed method params h.leg)

theorem rawText_of_assertSafe {g : Provider} {rawTx : Option Json} {opts : SafetyOptions}
    (h : assertSafe g rawTx opts = .ok ()) : rawTx = some (.str (rawText rawTx)) := by
  obtain ⟨tx, htx, -⟩ := assertSafe_eq_ok.mp h
  unfold parseRaw at htx
  split at htx
  · rfl
  · cases htx
  · cases htx
  · cases htx

theorem handed_booked (o : Outcome) (raw : String) (key : ApiKey) (via : String) :
    (booked o raw key via).effects.handed = o.effects.handed := by
  unfold booked
  split
  · rfl
  · rfl

theorem raw_protectAndSend {rawTx : Option Json} {opts : SafetyOptions} {h : Handed}
    (hh : h ∈ (protectAndSend w rawTx opts).effects.handed) : h.raw = rawText rawTx := by
  unfold protectAndSend at hh
  split at hh
  · exact absurd hh List.not_mem_nil
  · rw [List.mem_singleton.mp hh]

/-- On every outcome of the auction the same transaction is handed over. -/
theorem raw_routeOrderFlow {rawTx : Option Json} {opts : SafetyOptions} {h : Handed}
    (hh : h ∈ (routeOrderFlow w rawTx opts).1.effects.handed) : h.raw = rawText rawTx := by
  unfold routeOrderFlow at hh
  split at hh
  · exact absurd hh List.not_mem_nil
  · dsimp only at hh
    split at hh
    · rw [List.mem_singleton.mp hh]
    · rw [List.mem_singleton.mp hh]
    · rcases List.mem_append.mp hh with hauction | hupstream
      · rw [List.mem_singleton.mp hauction]
      · rw [List.mem_singleton.mp hupstream]

theorem handed_protectAndSend {rawTx : Option Json} {opts : SafetyOptions} {h : Handed}
    (hh : h ∈ (protectAndSend w rawTx opts).effects.handed) :
    assertSafe w.toProvider (some (.str h.raw)) opts = .ok () := by
  rw [raw_protectAndSend hh]
  unfold protectAndSend at hh
  split at hh
  · exact absurd hh List.not_mem_nil
  · next hsafe =>
      rw [← rawText_of_assertSafe hsafe]
      exact hsafe

/-- Whatever the auction does, the checks come first. -/
theorem handed_routeOrderFlow {rawTx : Option Json} {opts : SafetyOptions} {h : Handed}
    (hh : h ∈ (routeOrderFlow w rawTx opts).1.effects.handed) :
    assertSafe w.toProvider (some (.str h.raw)) opts = .ok () := by
  rw [raw_routeOrderFlow hh]
  unfold routeOrderFlow at hh
  split at hh
  · exact absurd hh List.not_mem_nil
  · next hsafe =>
      rw [← rawText_of_assertSafe hsafe]
      exact hsafe

/-- A single send hands over the transaction it was asked to send, and no other. -/
theorem raw_of_handed (hmethod : method ≠ "ordo_sendBundle") {h : Handed}
    (hh : h ∈ (dispatch w method params key).effects.handed) :
    method ∈ ["eth_sendRawTransaction", "ordo_sendRawTransaction",
        "ordo_sendPrivateTransaction"] ∧
      h.raw = rawText params.head? := by
  unfold dispatch at hh
  split at hh
  · next hsingle =>
      refine ⟨hsingle, ?_⟩
      split at hh
      · exact absurd hh List.not_mem_nil
      · dsimp only at hh
        split at hh
        · rw [handed_booked] at hh
          exact raw_routeOrderFlow hh
        · rw [handed_booked] at hh
          exact raw_protectAndSend hh
  · exact absurd hh List.not_mem_nil

/-- Every path but that of the bundle asks `assertSafe` first. -/
theorem protected_single (hmethod : method ≠ "ordo_sendBundle") :
    Protected w method params key := by
  intro h hh
  refine Or.inl ?_
  unfold dispatch at hh
  split at hh
  · split at hh
    · exact absurd hh List.not_mem_nil
    · dsimp only at hh
      split at hh
      · rw [handed_booked] at hh
        exact handed_routeOrderFlow hh
      · rw [handed_booked] at hh
        exact handed_protectAndSend hh
  · exact absurd hh List.not_mem_nil

/-! ### Legs of a bundle -/

/-- A bundle that its own checks let through. -/
def BundlePasses (w : Surroundings) (params : List Json) (b : Bundle) : Prop :=
  w.canSend = true ∧ bundleOf params = some b ∧ b.txs ≠ [] ∧ b.txs.length ≤ 10 ∧
    ∃ sims, checkLegs w b 0 b.txs = .ok sims

/-- The approval of a leg is in order, and a proof of its delivery, where there is one,
shows no loss, and a revert only where that is listed. -/
def LegSound (g : Provider) (tx : Parsed) (mayRevert : Bool) : Prop :=
  checkApproval g tx = none ∧
    ∀ burn, burnCheck g tx = some burn →
      burn.reverted = none ∧ burn.leaks = [] ∨ burn.reverted ≠ none ∧ mayRevert = true

theorem handed_sendLegs {i : Nat} {txs : List Json} {accepted : List String} {h : Handed} :
    h ∈ (sendLegs w i txs accepted).flatMap (·.effects.handed) ↔
      ∃ j rawTx, txs[j]? = some rawTx ∧ h = ⟨rawText (some rawTx), .upstream, i + j⟩ := by
  induction txs generalizing i accepted with
  | nil => simp [sendLegs]
  | cons rawTx txs ih =>
      simp only [sendLegs, List.flatMap_cons, List.mem_append, ih]
      constructor
      · rintro (hhead | ⟨j, rawTx', hj, rfl⟩)
        · exact ⟨0, rawTx, rfl, List.mem_singleton.mp hhead⟩
        · exact ⟨j + 1, rawTx', hj, by rw [Nat.add_assoc, Nat.add_comm 1 j]⟩
      · rintro ⟨j, rawTx', hj, rfl⟩
        cases j with
        | zero =>
            obtain rfl := Option.some.inj hj
            exact Or.inl (List.mem_singleton.mpr rfl)
        | succ j => exact Or.inr ⟨j, rawTx', hj, by rw [Nat.add_assoc, Nat.add_comm 1 j]⟩

/-- Every leg of a bundle that is let through is read, and passes `eth_call` or may
revert. -/
theorem of_checkLegs {b : Bundle} {i : Nat} {txs : List Json} {sims : List SimResult}
    (h : checkLegs w b i txs = .ok sims) {j : Nat} {rawTx : Json} (hj : txs[j]? = some rawTx) :
    ∃ tx, parseRaw w.toProvider (some rawTx) = .ok tx ∧
      ((simulateParsed w.toProvider tx).ok = true ∨ b.tolerated (i + j) = true) := by
  induction txs generalizing i j sims with
  | nil => simp at hj
  | cons first txs ih =>
      unfold checkLegs at h
      split at h
      · cases h
      · next sim hsim =>
          split at h
          · cases h
          · next hpass =>
              cases j with
              | zero =>
                  obtain rfl := Option.some.inj hj
                  unfold simulateRaw at hsim
                  cases htx : parseRaw w.toProvider (some first) with
                  | error e =>
                      rw [htx] at hsim
                      cases hsim
                  | ok tx =>
                      rw [htx] at hsim
                      obtain rfl : simulateParsed w.toProvider tx = sim := Except.ok.inj hsim
                      refine ⟨tx, rfl, ?_⟩
                      by_contra hnot
                      simp only [not_or, Bool.not_eq_true] at hnot
                      exact hpass hnot
              | succ j =>
                  cases hrest : checkLegs w b (i + 1) txs with
                  | error e =>
                      rw [hrest] at h
                      cases h
                  | ok rest =>
                      obtain ⟨tx, htx, hok⟩ := ih hrest hj
                      rw [Nat.add_assoc, Nat.add_comm 1 j] at hok
                      exact ⟨tx, htx, hok⟩

theorem waiver_bundle : (waiver "ordo_sendBundle" params).allowUnlimitedApproval = false := by
  simp [waiver]

/-- For a leg that passed `eth_call`, or may revert, being cleared is being sound. -/
theorem cleared_iff {raw : String} {tx : Parsed} {mayRevert : Bool}
    (htx : parseRaw w.toProvider (some (.str raw)) = .ok tx)
    (hcall : (simulateParsed w.toProvider tx).ok = true ∨ mayRevert = true) :
    Cleared w.toProvider raw (waiver "ordo_sendBundle" params) mayRevert ↔
      LegSound w.toProvider tx mayRevert := by
  have hcleared : Cleared w.toProvider raw (waiver "ordo_sendBundle" params) mayRevert ↔
      refusal w.toProvider tx (waiver "ordo_sendBundle" params) = none ∨
        mayRevert = true ∧ ∃ r, refusal w.toProvider tx (waiver "ordo_sendBundle" params) = some r ∧
          r.isRevert = true := by
    rw [Cleared, assertSafe_eq_ok]
    simp [htx]
  rw [hcleared]
  unfold refusal LegSound
  rw [waiver_bundle]
  cases checkApproval w.toProvider tx with
  | some verdict => simp [Refusal.isRevert]
  | none =>
      cases burnCheck w.toProvider tx with
      | none =>
          cases hok : (simulateParsed w.toProvider tx).ok with
          | true => simp [hok]
          | false =>
              rw [hok] at hcall
              simp [hok, Refusal.isRevert, hcall.resolve_left Bool.false_ne_true]
      | some burn =>
          cases hrev : burn.reverted with
          | some why => simp [hrev, Refusal.isRevert]
          | none =>
              by_cases hleaks : burn.leaks = []
              · simp [hrev, hleaks]
              · simp [hrev, hleaks, Refusal.isRevert]

/-- A bundle that its checks let through is handed over leg by leg, and no other is. -/
theorem handed_bundle {h : Handed} :
    h ∈ (dispatch w "ordo_sendBundle" params key).effects.handed ↔
      ∃ b, BundlePasses w params b ∧ ∃ leg rawTx, b.txs[leg]? = some rawTx ∧
        h = ⟨rawText (some rawTx), .upstream, leg⟩ := by
  have hsends : ∀ b : Bundle, h ∈ (sendLegs w 0 b.txs []).flatMap (·.effects.handed) ↔
      ∃ leg rawTx, b.txs[leg]? = some rawTx ∧ h = ⟨rawText (some rawTx), .upstream, leg⟩ := by
    intro b
    rw [handed_sendLegs]
    simp only [Nat.zero_add]
  constructor
  · intro hh
    simp only [dispatch, sendBundle, List.mem_cons, String.reduceEq, List.not_mem_nil, or_false,
      if_false, if_true] at hh
    split at hh
    · exact absurd hh List.not_mem_nil
    · next hcan =>
        split at hh
        · exact absurd hh List.not_mem_nil
        · next b hb =>
            split at hh
            · exact absurd hh List.not_mem_nil
            · next hne =>
                split at hh
                · exact absurd hh List.not_mem_nil
                · next hlen =>
                    split at hh
                    · exact absurd hh List.not_mem_nil
                    · next sims hsims =>
                        refine ⟨b, ⟨by simpa using hcan, hb, hne, by omega, sims, hsims⟩, ?_⟩
                        split at hh
                        · exact (hsends b).mp hh
                        · exact (hsends b).mp hh
  · rintro ⟨b, ⟨hcan, hb, hne, hlen, sims, hsims⟩, hleg⟩
    have hmem := (hsends b).mpr hleg
    simp only [dispatch, sendBundle, List.mem_cons, String.reduceEq, List.not_mem_nil, or_false,
      if_false, if_true, hcan, not_true, hb, hne, if_neg (Nat.not_lt.mpr hlen), hsims]
    split
    · exact hmem
    · exact hmem

/-- **What leaves the gateway has been cleared, but for the legs of a bundle.**  A leg is
handed over with its approval and its delivery unchecked. -/
theorem protected_iff (w : Surroundings) (method : String) (params : List Json) (key : ApiKey) :
    Protected w method params key ↔
      (method = "ordo_sendBundle" → ∀ b, BundlePasses w params b →
        ∀ leg raw tx, b.txs[leg]? = some (.str raw) →
          parseRaw w.toProvider (some (.str raw)) = .ok tx →
            LegSound w.toProvider tx (b.tolerated leg)) := by
  constructor
  · rintro hprotected rfl b hb leg raw tx hleg htx
    have hlisted : listed "ordo_sendBundle" params leg = b.tolerated leg := by
      simp [listed, hb.2.1]
    have hcleared := hprotected ⟨raw, .upstream, leg⟩
      (handed_bundle.mpr ⟨b, hb, leg, .str raw, hleg, rfl⟩)
    obtain ⟨sims, hsims⟩ := hb.2.2.2.2
    obtain ⟨tx', htx', hcall⟩ := of_checkLegs hsims hleg
    obtain rfl : tx = tx' := Except.ok.inj (htx.symm.trans htx')
    rw [Nat.zero_add] at hcall
    rw [hlisted] at hcleared
    exact (cleared_iff htx hcall).mp hcleared
  · intro hsound
    by_cases hmethod : method = "ordo_sendBundle"
    · subst hmethod
      intro h hh
      obtain ⟨b, hb, leg, rawTx, hleg, rfl⟩ := handed_bundle.mp hh
      have hlisted : listed "ordo_sendBundle" params leg = b.tolerated leg := by
        simp [listed, hb.2.1]
      obtain ⟨sims, hsims⟩ := hb.2.2.2.2
      obtain ⟨tx, htx, hcall⟩ := of_checkLegs hsims hleg
      rw [Nat.zero_add] at hcall
      have hraw : rawTx = .str (rawText (some rawTx)) := by
        unfold parseRaw at htx
        split at htx
        · next raw heq =>
            cases heq
            rfl
        · cases htx
        · cases htx
        · cases htx
      rw [hraw] at hleg htx
      rw [hlisted]
      exact (cleared_iff htx hcall).mpr (hsound rfl b hb leg _ tx hleg htx)
    · exact protected_single hmethod

/-! ### A bundle that drains a wallet -/

/-- An unlimited approval to an address without code. -/
def drainText : Text :=
  APPROVE ++ List.replicate 24 '0' ++ List.replicate 40 '1' ++ List.replicate 64 'f'

def drainTx : Parsed :=
  ⟨some "0x2222222222222222222222222222222222222222", some (String.ofList drainText), none,
    "0x3333333333333333333333333333333333333333"⟩

/-- No address has code, every call succeeds, and nothing can be simulated. -/
def drainWorld : Surroundings where
  parse _ := .ok drainTx
  rpc _ _ := .ok (.str "0x")
  simulate _ := .threw "the method eth_simulateV1 does not exist"
  walletMessage message _ := message
  hash _ := "0x01"
  hops _ := []
  known _ := false
  auction _ := ⟨false, .lost "auction HTTP 503"⟩
  canSend := true
  price := "0.01"
  bundler := ""
  other _ _ := .ok .null

def drainParams : List Json := [.obj [("txs", .arr [.str "0xf8"])]]

def someKey : ApiKey := ⟨"ordo_1", "partner", 600, none, .direct⟩

theorem decodeApproval_drain : decodeApproval (some drainText) =
    some ⟨.approve, '0' :: 'x' :: List.replicate 40 '1', 2 ^ 256 - 1, true⟩ := by
  have hlength : drainText.length = 138 := by decide +kernel
  have hselector : lower (drainText.take 10) = APPROVE := by decide +kernel
  have haddress : lower ((Protect.word drainText 0).drop 24) = List.replicate 40 '1' := by
    decide +kernel
  have hraw : Protect.word drainText 1 = List.replicate 64 'f' := by decide +kernel
  have hones : Hex.IsHex (List.replicate 40 '1') := fun c hc => by
    rw [List.eq_of_mem_replicate hc]
    rfl
  have hfs : Hex.IsHex (List.replicate 64 'f') := fun c hc => by
    rw [List.eq_of_mem_replicate hc]
    rfl
  have hamount : Hex.value (List.replicate 64 'f') = 2 ^ 256 - 1 := by decide +kernel
  simp only [decodeApproval, hlength, hselector, haddress, hraw, hones, hfs, hamount]
  decide +kernel

theorem checkApproval_drain : (checkApproval drainWorld.toProvider drainTx).isSome := by
  have hdata : drainTx.data.map String.toList = some drainText := by
    simp [drainTx]
  rw [checkApproval, hdata, decodeApproval_drain]
  decide +kernel

theorem parseRaw_drain :
    parseRaw drainWorld.toProvider (some (.str "0xf8")) = .ok drainTx := by
  have hhex : "0xf8".startsWith "0x" = true := by decide +kernel
  rw [parseRaw, if_pos hhex]
  rfl

theorem bundlePasses_drain :
    BundlePasses drainWorld drainParams ⟨[.str "0xf8"], .none⟩ := by
  have hsim : simulateRaw drainWorld.toProvider (some (.str "0xf8")) =
      .ok (simulateParsed drainWorld.toProvider drainTx) := by
    rw [simulateRaw, parseRaw_drain]
    rfl
  refine ⟨rfl, rfl, by simp, by simp, [simulateParsed drainWorld.toProvider drainTx], ?_⟩
  rw [checkLegs, hsim]
  rfl

/-- Sent as a bundle, it is handed over; `assertSafe` would refuse it. -/
theorem drain_in_bundle : ¬ Protected drainWorld "ordo_sendBundle" drainParams someKey := by
  intro hprotected
  have hcleared := hprotected ⟨"0xf8", .upstream, 0⟩
    (handed_bundle.mpr ⟨_, bundlePasses_drain, 0, .str "0xf8", rfl, rfl⟩)
  have hsound := (cleared_iff parseRaw_drain (Or.inl rfl)).mp hcleared
  have hsome := checkApproval_drain
  rw [hsound.1] at hsome
  cases hsome

end Protection

/-! ### What is answered, recorded and charged -/

section Acceptance

variable {w : Surroundings} {method : String} {params : List Json} {key : ApiKey}

/-- A transaction that was accepted is answered with its hash, recorded and charged once. -/
def AcceptedOnce (o : Outcome) (hash : String) : Prop :=
  o.effects.accepted ≠ [] →
    o.result = .ok (.str hash) ∧ o.effects.recorded.length = 1 ∧ o.effects.charged.length = 1

theorem acceptedOnce_booked (o : Outcome) (raw : String) (key : ApiKey) (via hash : String) :
    AcceptedOnce (booked o raw key via) hash ↔
      (o.effects.accepted ≠ [] → o.result = .ok (.str hash)) := by
  unfold AcceptedOnce booked
  cases hres : o.result with
  | error e => simp [hres]
  | ok v => simp

theorem upstreamSend_reports (w : Surroundings) (raw : String) (known : Bool) (leg : Nat) :
    ((upstreamSend w raw known leg).effects.accepted ≠ [] →
        (upstreamSend w raw known leg).result = .ok (.str (w.hash raw))) ↔
      ¬ (known = false ∧ LosesAcceptance (w.hops raw)) := by
  rw [← reported_iff (w.hash raw) (w.hops raw) known, Sent.Reported]
  unfold upstreamSend
  dsimp only
  cases hacc : (sendRawTransaction (w.hash raw) (w.hops raw) known).accepted with
  | false => simp
  | true =>
      cases hres : (sendRawTransaction (w.hash raw) (w.hops raw) known).result with
      | error e => simp
      | ok v =>
          cases v with
          | none => simp
          | some v => simp

/-- The acceptance of a transaction is lost: the auction has it and does not name it, or
a hop that is asked has it and its reply does not arrive. -/
def AcceptanceLost (w : Surroundings) (auctioned : Bool) (raw : String) : Prop :=
  if auctioned then
    (w.auction raw).accepts = true ∧ (w.auction raw).reply ≠ .named ∨
      (w.auction raw).accepts = false ∧ (∃ reason, (w.auction raw).reply = .lost reason) ∧
        w.known raw = false ∧ LosesAcceptance (w.hops raw)
  else w.known raw = false ∧ LosesAcceptance (w.hops raw)

/-- After an auction that has taken the transaction, the direct send ends with an error. -/
theorem upstreamSend_known (w : Surroundings) (raw : String) (leg : Nat) :
    ∃ e, (upstreamSend w raw true leg).result = .error e := by
  obtain ⟨⟨e, he⟩, -⟩ := sendFrom_known (w.hash raw) (w.hops raw) noHops
  refine ⟨upstreamError w e, ?_⟩
  simp only [upstreamSend, sendRawTransaction, he]

theorem routeOrderFlow_reports {rawTx : Option Json} {opts : SafetyOptions}
    (hsafe : assertSafe w.toProvider rawTx opts = .ok ()) :
    ((routeOrderFlow w rawTx opts).1.effects.accepted ≠ [] →
        (routeOrderFlow w rawTx opts).1.result = .ok (.str (w.hash (rawText rawTx)))) ↔
      ¬ AcceptanceLost w true (rawText rawTx) := by
  unfold routeOrderFlow AcceptanceLost
  rw [hsafe]
  dsimp only
  cases hreply : (w.auction (rawText rawTx)).reply with
  | named => simp
  | refused userError =>
      cases hacc : (w.auction (rawText rawTx)).accepts with
      | true => simp
      | false => simp
  | lost reason =>
      cases hacc : (w.auction (rawText rawTx)).accepts with
      | true =>
          obtain ⟨e, he⟩ := upstreamSend_known w (rawText rawTx) 0
          simp [he]
      | false =>
          have hdirect := upstreamSend_reports w (rawText rawTx) (w.known (rawText rawTx)) 0
          simpa using hdirect

/-- A send that is let through, with a key that does not go to the auction. -/
theorem dispatch_direct
    (hmethod : method ∈ ["eth_sendRawTransaction", "ordo_sendRawTransaction",
      "ordo_sendPrivateTransaction"])
    (hcan : w.canSend = true) (hdirect : auctioned method key = false)
    (hsafe : assertSafe w.toProvider params.head? (waiver method params) = .ok ()) :
    dispatch w method params key =
      booked (upstreamSend w (rawText params.head?) (w.known (rawText params.head?)) 0)
        (rawText params.head?) key "protect" := by
  unfold dispatch
  rw [if_pos hmethod, if_neg (by simp [hcan])]
  simp only [hdirect, Bool.false_eq_true, if_false, protectAndSend, hsafe]

/-- **An accepted send is reported, recorded and charged once, unless its acceptance was
lost.**  So it is over the hops alone, and for a send that goes through `dispatch`. -/
theorem accepted_once_iff
    (hmethod : method ∈ ["eth_sendRawTransaction", "ordo_sendRawTransaction",
      "ordo_sendPrivateTransaction"]) :
    (∀ hash hops known, (sendRawTransaction hash hops known).Reported hash ↔
      ¬ (known = false ∧ LosesAcceptance hops)) ∧
    (AcceptedOnce (dispatch w method params key) (w.hash (rawText params.head?)) ↔
      (w.canSend = true → assertSafe w.toProvider params.head? (waiver method params) = .ok () →
        ¬ AcceptanceLost w (auctioned method key) (rawText params.head?))) := by
  refine ⟨reported_iff, ?_⟩
  unfold dispatch
  rw [if_pos hmethod]
  cases hcan : w.canSend with
  | false => simp [AcceptedOnce]
  | true =>
      rw [if_neg (by simp)]
      dsimp only
      cases hsafe : assertSafe w.toProvider params.head? (waiver method params) with
      | error e =>
          refine iff_of_true ?_ (fun _ h => by cases h)
          split
          · rw [acceptedOnce_booked]
            simp [routeOrderFlow, hsafe]
          · rw [acceptedOnce_booked]
            simp [protectAndSend, hsafe]
      | ok _ =>
          cases hauction : auctioned method key with
          | true =>
              rw [if_pos rfl, acceptedOnce_booked, routeOrderFlow_reports hsafe]
              simp
          | false =>
              rw [if_neg Bool.false_ne_true, acceptedOnce_booked, protectAndSend, hsafe]
              dsimp only
              rw [upstreamSend_reports]
              simp [AcceptanceLost]

/-! ### A reply that is lost -/

def plainTx : Parsed :=
  ⟨some "0x2222222222222222222222222222222222222222", none, some 1,
    "0x3333333333333333333333333333333333333333"⟩

/-- The sequencer takes the transaction, and its reply times out. -/
def deafHop : Hop where
  host := "sequencer.mainnet.chain.robinhood.com"
  accepts := true
  lost := some (.failed "The operation was aborted due to timeout" (some 23))
  moves_on := by
    intro r hr
    obtain rfl := Option.some.inj hr
    exact ⟨_, rfl, rfl⟩

def publicHop : Hop where
  host := "rpc.mainnet.chain.robinhood.com"
  accepts := true
  lost := none
  moves_on := by
    intro r hr
    cases hr

def hopsWorld (hops : List Hop) : Surroundings :=
  { drainWorld with parse := fun _ => .ok plainTx, hops := fun _ => hops }

theorem assertSafe_plain (hops : List Hop) (opts : SafetyOptions) :
    assertSafe (hopsWorld hops).toProvider (some (.str "0xf8")) opts = .ok () := by
  have hparse : parseRaw (hopsWorld hops).toProvider (some (.str "0xf8")) = .ok plainTx := by
    have hhex : "0xf8".startsWith "0x" = true := by decide +kernel
    rw [parseRaw, if_pos hhex]
    rfl
  refine assertSafe_eq_ok.mpr ⟨plainTx, hparse, refusal_none_iff.mpr ⟨Or.inr rfl, ?_⟩⟩
  have hburn : burnCheck (hopsWorld hops).toProvider plainTx = none := rfl
  rw [Delivers, hburn]
  rfl

/-- The caller is told that a transaction the sequencer took has failed. -/
theorem accepted_send_denied :
    ¬ AcceptedOnce (dispatch (hopsWorld [deafHop, publicHop]) "eth_sendRawTransaction"
      [.str "0xf8"] someKey) "0x01" := by
  intro honce
  rw [dispatch_direct (by simp) rfl rfl (assertSafe_plain _ _), acceptedOnce_booked] at honce
  exact (upstreamSend_reports _ _ _ _).mp honce
    ⟨rfl, [], deafHop, [publicHop], rfl, fun _ h => absurd h List.not_mem_nil, rfl, rfl⟩

/-- With one hop that answers, the send is reported. -/
theorem accepted_once_sample :
    AcceptedOnce (dispatch (hopsWorld [publicHop]) "eth_sendRawTransaction" [.str "0xf8"] someKey)
      "0x01" := by
  refine (accepted_once_iff (by simp)).2.mpr fun _ _ hlost => ?_
  obtain ⟨-, hloses⟩ : false = false ∧ LosesAcceptance [publicHop] := hlost
  rcases losesAcceptance_cons.mp hloses with ⟨-, hsome⟩ | ⟨hpass, -⟩
  · cases hsome
  · cases hpass.1

end Acceptance

end SendPaths

end Ordo
