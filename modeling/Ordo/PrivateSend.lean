import Ordo.FastPath

/-!
# Private send

A signed transaction is posted to one private hop after another: the sequencer, then the
node, then the operator's public endpoint.  A reply that is a real answer ends it; a
transport failure or a throttle goes on to the next hop.

A hop may accept the transaction and its reply be lost.  A hop that is asked after the
transaction is known answers that it is a duplicate, or that its nonce is used.

`reported_iff` says when an accepted transaction is reported as accepted: exactly when no
hop that is asked accepts it and loses the reply.
-/

namespace Ordo

namespace PrivateSend

/-! ### Replies -/

/-- The `error` of a JSON-RPC body; its fields may be missing. -/
structure ErrorBody where
  message : Option String := none
  code : Option Int := none
  data : Option Json := none
  deriving DecidableEq

/-- What comes of one POST: `fetch` throws, or a status comes with a text that is not
JSON, or with a body. -/
inductive HttpReply where
  | failed (message : String) (code : Option Int)
  | text (status : Nat)
  | body (status : Nat) (error : Option ErrorBody) (result : Option Json)
  deriving DecidableEq

/-- What `rpcOnce` throws. -/
structure UpstreamError where
  message : String
  code : Option Int
  data : Option Json
  isRpcLevel : Bool
  deriving DecidableEq

/-- The host's problem, not the request's. -/
def isThrottle (status : Nat) : Bool := status = 429 || status = 402 || 500 ≤ status

def rpcOnce (host : String) : HttpReply → Except UpstreamError (Option Json)
  | .failed message code => .error ⟨message, code, none, false⟩
  | .text status =>
      .error ⟨"HTTP " ++ toString status ++ " non-JSON from " ++ host ++
        " (rate limit or bot challenge)", none, none, false⟩
  | .body status (some e) _ =>
      let code := if isThrottle status then 429 else e.code.getD (-32000)
      .error ⟨e.message.getD "upstream error", some code, e.data, true⟩
  | .body status none result =>
      if ¬ (200 ≤ status ∧ status < 300) ∧ result = none then
        .error ⟨"HTTP " ++ toString status ++ " from " ++ host, none, none, false⟩
      else .ok result

section Retryable

def hasInfix (pattern text : Text) : Bool := text.tails.any (pattern.isPrefixOf ·)

/-- `/rate.?limit/` -/
def saysRateLimit (text : Text) : Bool :=
  text.tails.any fun t =>
    "rate".toList.isPrefixOf t &&
      ("limit".toList.isPrefixOf (t.drop 4) ||
        ((t.drop 4).head?.any (· ≠ '\n') && "limit".toList.isPrefixOf (t.drop 5)))

/-- `/exceeded the .*limit/` -/
def saysExceeded (text : Text) : Bool :=
  text.tails.any fun t =>
    "exceeded the ".toList.isPrefixOf t &&
      hasInfix "limit".toList ((t.drop 13).takeWhile (· ≠ '\n'))

/-- The wordings of a throttle, whatever their case. -/
def saysThrottled (message : String) : Bool :=
  let text := message.toList.map Char.toLower
  saysRateLimit text || hasInfix "rps limit".toList text || saysExceeded text ||
    hasInfix "quota".toList text || hasInfix "too many requests".toList text ||
    hasInfix "throttl".toList text || hasInfix "capacity".toList text ||
    hasInfix "try again".toList text || hasInfix "archive".toList text ||
    hasInfix "personal token".toList text

def isRetryableRpcError (e : UpstreamError) : Bool :=
  e.code = some (-32005) || e.code = some 429 || saysThrottled e.message

/-- A real answer is not a reason to ask someone else. -/
def UpstreamError.isFinal (e : UpstreamError) : Bool := e.isRpcLevel && !isRetryableRpcError e

end Retryable

/-! ### Hops -/

/-- What a hop says of a transaction that is known already. -/
inductive Duplicate where
  | alreadyKnown
  | nonceTooLow

def Duplicate.body : Duplicate → ErrorBody
  | .alreadyKnown => { message := some "already known", code := some (-32000) }
  | .nonceTooLow => { message := some "nonce too low", code := some (-32000) }

/-- A hop, as it behaves in one send.  A reply that is lost is one that the next hop is
asked after. -/
structure Hop where
  host : String
  /-- It takes a transaction that is not known. -/
  accepts : Bool
  /-- What arrives in place of its reply. -/
  lost : Option HttpReply
  refusal : ErrorBody := {}
  duplicate : Duplicate := .alreadyKnown
  moves_on : ∀ r ∈ lost, ∃ e, rpcOnce host r = .error e ∧ e.isFinal = false

namespace Hop

variable (h : Hop)

/-- Its reply, were it not lost. -/
def answer (known : Bool) (hash : String) : HttpReply :=
  if known then .body 200 (some h.duplicate.body) none
  else if h.accepts then .body 200 none (some (.str hash))
  else .body 200 (some h.refusal) none

def reply (known : Bool) (hash : String) : HttpReply := h.lost.getD (h.answer known hash)

/-- The transaction goes in at this hop. -/
def takes (known : Bool) : Bool := !known && h.accepts

/-- It does not take the transaction, and the next hop is asked. -/
def PassesOn : Prop :=
  h.accepts = false ∧
    ∃ e, rpcOnce h.host (h.reply false "") = .error e ∧ e.isFinal = false

end Hop

/-- What came of a send, and whether a hop accepted it. -/
structure Sent where
  result : Except UpstreamError (Option Json)
  accepted : Bool

def noHops : UpstreamError := ⟨"ordo: no private send path configured", none, none, false⟩

/-- The loop, with the last error so far. -/
def sendFrom (hash : String) : List Hop → Bool → UpstreamError → Sent
  | [], _, last => ⟨.error last, false⟩
  | h :: hs, known, _ =>
      match rpcOnce h.host (h.reply known hash) with
      | .ok v => ⟨.ok v, h.takes known⟩
      | .error e =>
          if e.isFinal then ⟨.error e, h.takes known⟩
          else
            let rest := sendFrom hash hs (known || h.accepts) e
            ⟨rest.result, h.takes known || rest.accepted⟩

def sendRawTransaction (hash : String) (hops : List Hop) (known : Bool) : Sent :=
  sendFrom hash hops known noHops

/-- A transaction that a hop accepted is reported by its hash. -/
def Sent.Reported (hash : String) (s : Sent) : Prop :=
  s.accepted = true → s.result = .ok (some (.str hash))

/-- A hop that is asked accepts, and its reply is lost. -/
def LosesAcceptance (hops : List Hop) : Prop :=
  ∃ pre h post, hops = pre ++ h :: post ∧ (∀ g ∈ pre, g.PassesOn) ∧ h.accepts = true ∧
    h.lost.isSome

/-- A hop that is asked accepts. -/
def Takes (hops : List Hop) : Prop :=
  ∃ pre h post, hops = pre ++ h :: post ∧ (∀ g ∈ pre, g.PassesOn) ∧ h.accepts = true

section Hops

variable {h : Hop} {hs : List Hop} {hash : String} {last : UpstreamError}

/-- A reply that is lost is an error to go on after. -/
theorem Hop.lost_reply {r : HttpReply} (hlost : h.lost = some r) (known : Bool) (hash : String) :
    ∃ e, rpcOnce h.host (h.reply known hash) = .error e ∧ e.isFinal = false := by
  rw [Hop.reply, hlost]
  exact h.moves_on r hlost

/-- Once the transaction is known, no hop says that it took it. -/
theorem Hop.known_reply (h : Hop) (hash : String) :
    ∃ e, rpcOnce h.host (h.reply true hash) = .error e := by
  cases hlost : h.lost with
  | some r =>
      obtain ⟨e, he, -⟩ := Hop.lost_reply hlost true hash
      exact ⟨e, he⟩
  | none =>
      rw [Hop.reply, hlost]
      exact ⟨_, rfl⟩

/-- Nor does a hop that does not take it. -/
theorem Hop.refused_reply (hacc : h.accepts = false) (known : Bool) (hash : String) :
    ∃ e, rpcOnce h.host (h.reply known hash) = .error e := by
  cases hlost : h.lost with
  | some r =>
      obtain ⟨e, he, -⟩ := Hop.lost_reply hlost known hash
      exact ⟨e, he⟩
  | none =>
      rw [Hop.reply, hlost, Hop.answer, hacc]
      cases known with
      | true => exact ⟨_, rfl⟩
      | false => exact ⟨_, rfl⟩

theorem Hop.reply_of_not_accepts (hacc : h.accepts = false) (hash : String) :
    h.reply false hash = h.reply false "" := by
  rw [Hop.reply, Hop.reply, Hop.answer, Hop.answer, hacc]
  rfl

variable (hash) in
/-- From the moment the transaction is known, the send ends with an error. -/
theorem sendFrom_known (hs : List Hop) (last : UpstreamError) :
    (∃ e, (sendFrom hash hs true last).result = .error e) ∧
      (sendFrom hash hs true last).accepted = false := by
  induction hs generalizing last with
  | nil => exact ⟨⟨last, rfl⟩, rfl⟩
  | cons h hs ih =>
      obtain ⟨e, he⟩ := h.known_reply hash
      simp only [sendFrom, he]
      split
      · exact ⟨⟨e, rfl⟩, rfl⟩
      · exact ⟨(ih e).1, (ih e).2⟩

theorem losesAcceptance_cons :
    LosesAcceptance (h :: hs) ↔
      h.accepts = true ∧ h.lost.isSome ∨ h.PassesOn ∧ LosesAcceptance hs := by
  constructor
  · rintro ⟨pre, g, post, hsplit, hpre, hacc, hlost⟩
    cases pre with
    | nil =>
        obtain ⟨rfl, -⟩ := List.cons.inj hsplit
        exact Or.inl ⟨hacc, hlost⟩
    | cons p pre =>
        obtain ⟨rfl, rfl⟩ := List.cons.inj hsplit
        exact Or.inr ⟨hpre h List.mem_cons_self, pre, g, post, rfl,
          fun q hq => hpre q (List.mem_cons_of_mem _ hq), hacc, hlost⟩
  · rintro (⟨hacc, hlost⟩ | ⟨hpass, pre, g, post, rfl, hpre, hacc, hlost⟩)
    · exact ⟨[], h, hs, rfl, fun _ hq => absurd hq List.not_mem_nil, hacc, hlost⟩
    · exact ⟨h :: pre, g, post, rfl, List.forall_mem_cons.mpr ⟨hpass, hpre⟩, hacc, hlost⟩

theorem takes_cons : Takes (h :: hs) ↔ h.accepts = true ∨ h.PassesOn ∧ Takes hs := by
  constructor
  · rintro ⟨pre, g, post, hsplit, hpre, hacc⟩
    cases pre with
    | nil =>
        obtain ⟨rfl, -⟩ := List.cons.inj hsplit
        exact Or.inl hacc
    | cons p pre =>
        obtain ⟨rfl, rfl⟩ := List.cons.inj hsplit
        exact Or.inr ⟨hpre h List.mem_cons_self, pre, g, post, rfl,
          fun q hq => hpre q (List.mem_cons_of_mem _ hq), hacc⟩
  · rintro (hacc | ⟨hpass, pre, g, post, rfl, hpre, hacc⟩)
    · exact ⟨[], h, hs, rfl, fun _ hq => absurd hq List.not_mem_nil, hacc⟩
    · exact ⟨h :: pre, g, post, rfl, List.forall_mem_cons.mpr ⟨hpass, hpre⟩, hacc⟩

/-- A hop that takes the transaction and says so ends the send. -/
theorem sendFrom_accepted (hacc : h.accepts = true) (hlost : h.lost = none) :
    sendFrom hash (h :: hs) false last = ⟨.ok (some (.str hash)), true⟩ := by
  have hreply : rpcOnce h.host (h.reply false hash) = .ok (some (.str hash)) := by
    rw [Hop.reply, hlost, Hop.answer, hacc]
    rfl
  simp only [sendFrom, hreply, Hop.takes, hacc]
  rfl

/-- A send that comes off was accepted, and its hash is the answer. -/
theorem sendFrom_ok {known : Bool} {v : Option Json}
    (hok : (sendFrom hash hs known last).result = .ok v) :
    known = false ∧ v = some (.str hash) ∧ (sendFrom hash hs known last).accepted = true := by
  cases known with
  | true =>
      obtain ⟨⟨e, he⟩, -⟩ := sendFrom_known hash hs last
      rw [he] at hok
      cases hok
  | false =>
      induction hs generalizing last with
      | nil => cases hok
      | cons h hs ih =>
          cases hacc : h.accepts with
          | true =>
              cases hlost : h.lost with
              | none =>
                  rw [sendFrom_accepted hacc hlost] at hok ⊢
                  exact ⟨rfl, (Except.ok.inj hok).symm, rfl⟩
              | some r =>
                  obtain ⟨e, he, hfinal⟩ := Hop.lost_reply hlost false hash
                  obtain ⟨⟨e', he'⟩, -⟩ := sendFrom_known hash hs e
                  simp only [sendFrom, he, hfinal, hacc, Bool.or_true, he',
                    Bool.false_eq_true, if_false] at hok
                  cases hok
          | false =>
              obtain ⟨e, he⟩ := Hop.refused_reply hacc false hash
              cases hfinal : e.isFinal with
              | true =>
                  simp only [sendFrom, he, hfinal, if_true] at hok
                  cases hok
              | false =>
                  simp only [sendFrom, he, hfinal, hacc, Bool.or_false, Hop.takes,
                    Bool.false_eq_true, if_false] at hok ⊢
                  obtain ⟨-, hv, hrest⟩ := ih hok
                  exact ⟨trivial, hv, by simp [hrest]⟩

/-- An unknown transaction is accepted when a hop that is asked accepts. -/
theorem accepted_sendFrom : (sendFrom hash hs false last).accepted = true ↔ Takes hs := by
  induction hs generalizing last with
  | nil =>
      refine iff_of_false (fun hacc => by cases hacc) ?_
      rintro ⟨pre, h, post, hsplit, -⟩
      exact absurd hsplit (by simp)
  | cons h hs ih =>
      rw [takes_cons]
      cases hacc : h.accepts with
      | true =>
          refine iff_of_true ?_ (Or.inl rfl)
          cases hlost : h.lost with
          | none => rw [sendFrom_accepted hacc hlost]
          | some r =>
              obtain ⟨e, he, hfinal⟩ := Hop.lost_reply hlost false hash
              simp [sendFrom, he, hfinal, Hop.takes, hacc]
      | false =>
          obtain ⟨e, he⟩ := Hop.refused_reply hacc false hash
          have hpass : h.PassesOn ↔ e.isFinal = false := by
            rw [Hop.PassesOn, ← Hop.reply_of_not_accepts hacc hash, he]
            simp [hacc]
          cases hfinal : e.isFinal with
          | true => simp [sendFrom, he, hfinal, Hop.takes, hacc, hpass]
          | false => simp [sendFrom, he, hfinal, Hop.takes, hacc, hpass, ih]

theorem reported_sendFrom (hs : List Hop) (last : UpstreamError) :
    (sendFrom hash hs false last).Reported hash ↔ ¬ LosesAcceptance hs := by
  induction hs generalizing last with
  | nil =>
      refine iff_of_true (fun hacc => by cases hacc) ?_
      rintro ⟨pre, h, post, hsplit, -⟩
      exact absurd hsplit (by simp)
  | cons h hs ih =>
      rw [losesAcceptance_cons]
      cases hacc : h.accepts with
      | true =>
          cases hlost : h.lost with
          | none =>
              refine iff_of_true ?_ ?_
              · rw [sendFrom_accepted hacc hlost]
                exact fun _ => rfl
              · rintro (⟨-, hsome⟩ | ⟨hpass, -⟩)
                · cases hsome
                · rw [hpass.1] at hacc
                  cases hacc
          | some r =>
              -- the hops that are asked now know the transaction
              refine iff_of_false ?_ (not_not.mpr (Or.inl ⟨rfl, rfl⟩))
              obtain ⟨e, he, hfinal⟩ := Hop.lost_reply hlost false hash
              obtain ⟨⟨e', he'⟩, -⟩ := sendFrom_known hash hs e
              intro hreported
              simp only [sendFrom, he, hfinal, hacc, Bool.or_true, Hop.takes] at hreported
              have hok := hreported rfl
              rw [show (sendFrom hash hs true e).result = .error e' from he'] at hok
              cases hok
      | false =>
          obtain ⟨e, he⟩ := Hop.refused_reply hacc false hash
          cases hfinal : e.isFinal with
          | true =>
              refine iff_of_true ?_ ?_
              · intro haccepted
                simp [sendFrom, he, hfinal, Hop.takes, hacc] at haccepted
              · rintro (⟨habs, -⟩ | ⟨⟨-, e', he', hnot⟩, -⟩)
                · cases habs
                · rw [← Hop.reply_of_not_accepts hacc hash, he] at he'
                  cases he'
                  rw [hfinal] at hnot
                  cases hnot
          | false =>
              have hpass : h.PassesOn := by
                refine ⟨hacc, e, ?_, hfinal⟩
                rw [← Hop.reply_of_not_accepts hacc hash]
                exact he
              have hrest : (sendFrom hash (h :: hs) false last).Reported hash ↔
                  (sendFrom hash hs false e).Reported hash := by
                simp [Sent.Reported, sendFrom, he, hfinal, Hop.takes, hacc]
              rw [hrest, ih e]
              simp [hpass]

/-- **An accepted transaction is reported as accepted, unless a hop that was asked
accepted it and its reply was lost.** -/
theorem reported_iff (hash : String) (hops : List Hop) (known : Bool) :
    (sendRawTransaction hash hops known).Reported hash ↔
      ¬ (known = false ∧ LosesAcceptance hops) := by
  cases known with
  | true =>
      refine iff_of_true ?_ (fun h => by cases h.1)
      intro hacc
      rw [sendRawTransaction, (sendFrom_known hash hops noHops).2] at hacc
      cases hacc
  | false =>
      rw [sendRawTransaction, reported_sendFrom]
      simp

theorem accepted_iff (hash : String) (hops : List Hop) (known : Bool) :
    (sendRawTransaction hash hops known).accepted = true ↔ known = false ∧ Takes hops := by
  cases known with
  | true => simp [sendRawTransaction, (sendFrom_known hash hops noHops).2]
  | false => simp [sendRawTransaction, accepted_sendFrom]

end Hops

end PrivateSend

end Ordo
