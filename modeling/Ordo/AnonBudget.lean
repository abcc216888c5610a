import Mathlib.Algebra.Order.BigOperators.Group.List
import Ordo.RateLimiter
import Ordo.SendPaths

/-!
# The anonymous send budget

Every message, of an HTTP body, of a batch or of a socket, is answered by `answer`: the
caller is authenticated, plain reads are looked up, the limits are checked, and what is
left is dispatched.  An anonymous `eth_sendRawTransaction` is checked against a second,
stricter limit.

`budget_kept` says when no window of that limit sees more transactions submitted for an
address than it allows: `ordo_sendRawTransaction` is open to the same callers and is not
checked against it.
-/

namespace Ordo

namespace AnonBudget

open ApiKeys SendPaths RateLimiter

structure Config where
  sha256 : String → String
  allowAnon : Bool
  anonRateLimit : Int
  anonSendRateLimit : Int
  anonMaxInflight : Nat
  anonAuction : Bool

/-- One message, and what it finds. -/
structure Request where
  headers : Headers
  /-- The address that anonymous limits are keyed on. -/
  ip : String
  method : String
  params : List Json
  /-- What is in memory for it. -/
  inMemory : Option Json
  /-- One of the address's slots comes free in time. -/
  slot : Bool
  around : Surroundings

/-- What the process remembers between messages. -/
structure Process where
  world : World
  limiter : Windows String := fun _ => none
  sendLimiter : Windows String := fun _ => none

section Answer

variable (cfg : Config)

def unauthorized (r : Request) : RpcError :=
  if r.headers.xApiKey.any (· ≠ "") || r.headers.authorization.any (· ≠ "") then
    ⟨-32001, "unauthorized: the x-api-key presented is not valid", none⟩
  else
    ⟨-32601, r.method ++ " is not available without an API key on this endpoint (standard " ++
        "eth_/net_ reads and eth_sendRawTransaction are open); keys at " ++
        "https://app.ordofi.network/docs", none⟩

/-- Only plain reads are answered from memory. -/
def plainRead (method : String) : Bool :=
  !method.startsWith "ordo_" && method ≠ "eth_sendRawTransaction"

def anonKey : ApiKey :=
  ⟨"anon", "anon", 0, none, if cfg.anonAuction then .auction else .direct⟩

def keyOf : Caller → ApiKey
  | .anon => anonKey cfg
  | .key k => k

def sendKey (ip : String) : String := "anon-send:" ++ ip

/-- The limit on all messages: per address, or per key. -/
def rateCheck (p : Process) (caller : Caller) (ip : String) : Verdict × Windows String :=
  match caller with
  | .anon => check p.limiter p.world.now ("anon:" ++ ip) cfg.anonRateLimit
  | .key k => check p.limiter p.world.now k.key k.rateLimit

/-- The limit on anonymous sends. -/
def sendCheck (p : Process) (caller : Caller) (r : Request) : Verdict × Windows String :=
  if caller = .anon ∧ r.method = "eth_sendRawTransaction" then
    check p.sendLimiter p.world.now (sendKey r.ip) cfg.anonSendRateLimit
  else (⟨true, 0⟩, p.sendLimiter)

def limited (rl sendRl : Verdict) : RpcError :=
  ⟨-32005, (if sendRl.ok then "rate" else "send rate") ++ " limit exceeded, retry in " ++
    toString ((max rl.retryAfterMs sendRl.retryAfterMs + 999) / 1000) ++ "s", none⟩

def crowded : RpcError :=
  ⟨-32005, "too many concurrent requests from this address (" ++ toString cfg.anonMaxInflight ++
    " in flight for over 2s); slow down", none⟩

/-- Who the caller is, by its headers. -/
def callerOf (p : Process) (r : Request) : Option Caller :=
  (p.world.answer cfg.sha256 cfg.allowAnon r.headers r.method).1

def authenticated (p : Process) (r : Request) : Process :=
  { p with world :=
    { p.world with keys := (p.world.answer cfg.sha256 cfg.allowAnon r.headers r.method).2 } }

def answer (p : Process) (r : Request) : Outcome × Process :=
  match callerOf cfg p r with
  | none => ({ result := .error (unauthorized r) }, authenticated cfg p r)
  | some caller =>
      match if plainRead r.method then r.inMemory else none with
      | some v => ({ result := .ok v }, authenticated cfg p r)
      | none =>
          let rl := rateCheck cfg p caller r.ip
          let sendRl := sendCheck cfg p caller r
          let p' := { authenticated cfg p r with limiter := rl.2, sendLimiter := sendRl.2 }
          if rl.1.ok = false ∨ sendRl.1.ok = false then
            ({ result := .error (limited rl.1 sendRl.1) }, p')
          else if caller = .anon ∧ r.slot = false then ({ result := .error (crowded cfg) }, p')
          else (dispatch r.around r.method r.params (keyOf cfg caller), p')

end Answer

/-! ### Histories -/

/-- An anonymous message, and how many transactions were submitted for it. -/
structure Entry where
  ip : String
  time : Nat
  method : String
  submitted : Nat

structure State where
  process : Process
  entries : List Entry := []
  /-- The checks of the limit on sends, and the windows that they opened. -/
  checks : List (Check String) := []
  opened : List (String × Nat) := []

inductive Event where
  | request (r : Request)
  | elapse (ms : Nat)
  | change (table : KeyTable)
  | outage (readable : Bool)

/-- How many transactions were handed to the auction or the upstream. -/
def submittedBy (o : Outcome) : Nat := (o.effects.handed.map (·.raw)).dedup.length

/-- An anonymous send that its own limit is checked for. -/
def isChecked (cfg : Config) (s : State) (r : Request) : Bool :=
  callerOf cfg s.process r = some .anon && r.method = "eth_sendRawTransaction"

def entryOf (cfg : Config) (s : State) (r : Request) : Entry :=
  ⟨r.ip, s.process.world.now, r.method, submittedBy (answer cfg s.process r).1⟩

def step (cfg : Config) (s : State) : Event → State
  | .request r =>
      { process := (answer cfg s.process r).2
        entries :=
          s.entries ++ if callerOf cfg s.process r = some .anon then [entryOf cfg s r] else []
        checks :=
          s.checks ++
            if isChecked cfg s r then
              [⟨sendKey r.ip, s.process.world.now, (sendCheck cfg s.process .anon r).1.ok⟩]
            else []
        opened :=
          s.opened ++
            if isChecked cfg s r ∧ 0 < cfg.anonSendRateLimit ∧
                opens s.process.sendLimiter s.process.world.now (sendKey r.ip) then
              [(sendKey r.ip, s.process.world.now)]
            else [] }
  | .elapse ms =>
      { s with process :=
        { s.process with world := { s.process.world with now := s.process.world.now + ms } } }
  | .change table =>
      { s with process := { s.process with world := { s.process.world with table } } }
  | .outage readable =>
      { s with process := { s.process with world := { s.process.world with readable } } }

def run (cfg : Config) (s : State) (es : List Event) : State := es.foldl (step cfg) s

/-- A message falls into a window. -/
def Entry.Within (e : Entry) (window : String × Nat) : Prop :=
  sendKey e.ip = window.1 ∧ window.2 ≤ e.time ∧ e.time < window.2 + WINDOW_MS

instance (e : Entry) (window : String × Nat) : Decidable (e.Within window) := by
  unfold Entry.Within
  infer_instance

def isSend (method : String) : Bool :=
  method = "eth_sendRawTransaction" || method = "ordo_sendRawTransaction"

/-- The transactions submitted for the messages of a window. -/
def submittedIn (entries : List Entry) (window : String × Nat) : Nat :=
  (entries.map fun e => if e.Within window then e.submitted else 0).sum

/-- The send requests of a window. -/
def sendsIn (entries : List Entry) (window : String × Nat) : Nat :=
  entries.countP fun e => decide (e.Within window) && isSend e.method

/-- In no window is more submitted than its limit. -/
def BudgetKept (cfg : Config) (s : State) : Prop :=
  ∀ window ∈ s.opened, (submittedIn s.entries window : Int) ≤ cfg.anonSendRateLimit

/-- In every window the address sends by `eth_sendRawTransaction` alone, or it sends no
more often than the limit. -/
def Modest (cfg : Config) (s : State) : Prop :=
  ∀ window ∈ s.opened,
    (∀ e ∈ s.entries, e.Within window → e.method ≠ "ordo_sendRawTransaction") ∨
      (sendsIn s.entries window : Int) ≤ cfg.anonSendRateLimit

/-! ### What one message does -/

section Messages

variable {cfg : Config} {s : State} {r : Request}

theorem dedup_length_le_one {l : List String} (a : String) (h : ∀ x ∈ l, x = a) :
    l.dedup.length ≤ 1 := by
  have hsub : l.dedup ⊆ [a] := by
    intro x hx
    rw [h x (List.mem_dedup.mp hx)]
    exact List.mem_singleton_self a
  exact (List.subperm_of_subset (List.nodup_dedup l) hsub).length_le

/-- An outcome that hands nothing over submits nothing. -/
theorem submittedBy_of_handed_nil {o : Outcome} (h : o.effects.handed = []) :
    submittedBy o = 0 := by
  rw [submittedBy, h]
  rfl

theorem sending_of_anon {method : String} (hanon : method ∈ anonMethods) :
    method ≠ "ordo_sendBundle" ∧ (method ∈ ["eth_sendRawTransaction", "ordo_sendRawTransaction",
      "ordo_sendPrivateTransaction"] → isSend method) := by
  constructor
  · rintro rfl
    exact absurd hanon (by decide)
  · intro hmem
    simp only [List.mem_cons, List.not_mem_nil, or_false] at hmem
    rcases hmem with rfl | rfl | rfl
    · rfl
    · rfl
    · exact absurd hanon (by decide)

/-- What is submitted for an anonymous message: at most one transaction, by a method that
sends. -/
theorem submittedBy_dispatch (w : Surroundings) {method : String} (params : List Json)
    (key : ApiKey) (hanon : method ∈ anonMethods) :
    submittedBy (dispatch w method params key) ≤ 1 ∧
      (submittedBy (dispatch w method params key) ≠ 0 → isSend method) := by
  obtain ⟨hbundle, hsend⟩ := sending_of_anon hanon
  constructor
  · refine dedup_length_le_one (rawText params.head?) fun x hx => ?_
    obtain ⟨h, hh, rfl⟩ := List.mem_map.mp hx
    exact (raw_of_handed hbundle hh).2
  · intro hne
    cases hhanded : (dispatch w method params key).effects.handed with
    | nil => exact absurd (submittedBy_of_handed_nil hhanded) hne
    | cons h hs =>
        have hmem : h ∈ (dispatch w method params key).effects.handed := by
          rw [hhanded]
          exact List.mem_cons_self
        exact hsend (raw_of_handed hbundle hmem).1

/-- An anonymous message submits at most one transaction, only by a method that sends,
and none that its own limit refuses. -/
theorem submitted_entryOf (hanon : callerOf cfg s.process r = some .anon) :
    (entryOf cfg s r).submitted ≤ 1 ∧
      ((entryOf cfg s r).submitted ≠ 0 → isSend (entryOf cfg s r).method) ∧
      ((sendCheck cfg s.process .anon r).1.ok = false → (entryOf cfg s r).submitted = 0) := by
  have hmethod : r.method ∈ anonMethods := mem_anonMethods hanon
  have hnone : ∀ e : RpcError, submittedBy { result := .error e } = 0 :=
    fun e => submittedBy_of_handed_nil rfl
  have hdispatch := submittedBy_dispatch r.around r.params (anonKey cfg) hmethod
  have hzero : ∀ n : Nat, n = 0 → n ≤ 1 ∧ (n ≠ 0 → isSend r.method = true) ∧
      ((sendCheck cfg s.process .anon r).1.ok = false → n = 0) := by
    rintro n rfl
    exact ⟨Nat.zero_le _, fun h => absurd rfl h, fun _ => rfl⟩
  simp only [entryOf, answer, hanon]
  split
  · exact hzero _ (submittedBy_of_handed_nil rfl)
  · split
    · exact hzero _ (hnone _)
    · next hpass =>
        split
        · exact hzero _ (hnone _)
        · refine ⟨hdispatch.1, hdispatch.2, fun hrefused => ?_⟩
          exact absurd (Or.inr hrefused) hpass

theorem now_answer : (answer cfg s.process r).2.world.now = s.process.world.now := by
  unfold answer
  split
  · rfl
  · split
    · rfl
    · dsimp only
      split
      · rfl
      · split
        · rfl
        · rfl

/-- A message that reaches the limits leaves the windows as its check leaves them. -/
theorem sendLimiter_of_limits {caller : Caller} (hcaller : callerOf cfg s.process r = some caller)
    (hmem : (if plainRead r.method then r.inMemory else none) = none) :
    (answer cfg s.process r).2.sendLimiter = (sendCheck cfg s.process caller r).2 := by
  simp only [answer, hcaller, hmem]
  split
  · rfl
  · split
    · rfl
    · rfl

/-- The windows of the limit on sends change by its check alone. -/
theorem sendLimiter_answer :
    (answer cfg s.process r).2.sendLimiter =
      if isChecked cfg s r then (sendCheck cfg s.process .anon r).2 else s.process.sendLimiter := by
  cases hcaller : callerOf cfg s.process r with
  | none => simp [answer, isChecked, hcaller, authenticated]
  | some caller =>
      cases hmem : if plainRead r.method then r.inMemory else none with
      | some v =>
          have hmethod : r.method ≠ "eth_sendRawTransaction" := by
            intro heq
            simp [plainRead, heq] at hmem
          simp [answer, isChecked, hcaller, hmem, hmethod, authenticated]
      | none =>
          rw [sendLimiter_of_limits hcaller hmem]
          by_cases hchecked : caller = .anon ∧ r.method = "eth_sendRawTransaction"
          · obtain ⟨rfl, hmethod⟩ := hchecked
            simp [isChecked, hcaller, hmethod]
          · have hnot : isChecked cfg s r = false := by
              simpa [isChecked, hcaller] using hchecked
            rw [hnot, sendCheck, if_neg hchecked]
            rfl

end Messages

/-! ### What a history keeps -/

/-- The transactions submitted by `eth_sendRawTransaction` in a window. -/
def checkedIn (entries : List Entry) (window : String × Nat) : Nat :=
  (entries.map fun e =>
    if e.Within window ∧ e.method = "eth_sendRawTransaction" then e.submitted else 0).sum

/-- The limiter counts what it should, and what is submitted by `eth_sendRawTransaction`
has passed it. -/
structure Kept (cfg : Config) (s : State) : Prop where
  counted : ∀ limit : Nat, cfg.anonSendRateLimit = limit → 0 < limit →
    Counted limit s.process.sendLimiter s.opened s.checks s.process.world.now
  unlimited : cfg.anonSendRateLimit ≤ 0 → s.opened = []
  single : ∀ e ∈ s.entries, e.submitted ≤ 1 ∧ (e.submitted ≠ 0 → isSend e.method)
  passed : ∀ window, checkedIn s.entries window ≤ RateLimiter.passed s.checks window.1 window.2

section Histories

variable {cfg : Config} {s : State}

theorem checkedIn_concat (entries : List Entry) (e : Entry) (window : String × Nat) :
    checkedIn (entries ++ [e]) window = checkedIn entries window +
      if e.Within window ∧ e.method = "eth_sendRawTransaction" then e.submitted else 0 := by
  simp [checkedIn]

/-- A message that is not checked leaves the limiter as it is. -/
theorem Kept.unchecked (h : Kept cfg s) {r : Request} (hnot : isChecked cfg s r = false) :
    Kept cfg (step cfg s (.request r)) := by
  have hlimiter : (answer cfg s.process r).2.sendLimiter = s.process.sendLimiter := by
    rw [sendLimiter_answer, hnot]
    rfl
  refine ⟨?_, ?_, ?_, ?_⟩
  · intro limit hlimit hpos
    have hcounted := h.counted limit hlimit hpos
    simp only [step, hnot, Bool.false_eq_true, if_false, List.append_nil, false_and, hlimiter,
      now_answer]
    exact hcounted
  · intro hle
    simp only [step, hnot, Bool.false_eq_true, false_and, if_false, List.append_nil]
    exact h.unlimited hle
  · intro e he
    simp only [step] at he
    rcases List.mem_append.mp he with hold | hnew
    · exact h.single e hold
    · split at hnew
      · next hanon =>
          obtain rfl := List.mem_singleton.mp hnew
          exact ⟨(submitted_entryOf hanon).1, (submitted_entryOf hanon).2.1⟩
      · exact absurd hnew List.not_mem_nil
  · intro window
    simp only [step, hnot, Bool.false_eq_true, if_false, List.append_nil]
    by_cases hanon : callerOf cfg s.process r = some .anon
    · rw [if_pos hanon, checkedIn_concat, if_neg, Nat.add_zero]
      · exact h.passed window
      · rintro ⟨-, hmethod⟩
        have hmethod : r.method = "eth_sendRawTransaction" := hmethod
        simp [isChecked, hanon, hmethod] at hnot
    · rw [if_neg hanon, List.append_nil]
      exact h.passed window

/-- A send that is checked submits only if it passes. -/
theorem Kept.checked (h : Kept cfg s) {r : Request} (hchecked : isChecked cfg s r = true) :
    Kept cfg (step cfg s (.request r)) := by
  have hanon : callerOf cfg s.process r = some .anon := by
    simp only [isChecked, Bool.and_eq_true, decide_eq_true_eq] at hchecked
    exact hchecked.1
  have hmethod : r.method = "eth_sendRawTransaction" := by
    simp only [isChecked, Bool.and_eq_true, decide_eq_true_eq] at hchecked
    exact hchecked.2
  have hcheck : sendCheck cfg s.process .anon r =
      check s.process.sendLimiter s.process.world.now (sendKey r.ip) cfg.anonSendRateLimit := by
    rw [sendCheck, if_pos ⟨rfl, hmethod⟩]
  have hlimiter : (answer cfg s.process r).2.sendLimiter =
      (check s.process.sendLimiter s.process.world.now (sendKey r.ip) cfg.anonSendRateLimit).2 := by
    rw [sendLimiter_answer, hchecked, if_pos rfl, hcheck]
  obtain ⟨hone, hsend, hrefused⟩ := submitted_entryOf hanon
  refine ⟨?_, ?_, ?_, ?_⟩
  · intro limit hlimit hpos
    have hcounted := (h.counted limit hlimit hpos).check hpos (sendKey r.ip)
    rw [← hlimit] at hcounted
    have hpos' : 0 < cfg.anonSendRateLimit := by omega
    simp only [step, hchecked, if_true, true_and, hpos', hlimiter, now_answer, hcheck]
    exact hcounted
  · intro hle
    have hnot : ¬ 0 < cfg.anonSendRateLimit := by omega
    simp only [step, hnot, false_and, and_false, if_false, List.append_nil]
    exact h.unlimited hle
  · intro e he
    simp only [step, hanon, if_true] at he
    rcases List.mem_append.mp he with hold | hnew
    · exact h.single e hold
    · obtain rfl := List.mem_singleton.mp hnew
      exact ⟨hone, hsend⟩
  · intro window
    simp only [step, hchecked, hanon, if_true]
    rw [checkedIn_concat, passed_concat]
    refine Nat.add_le_add (h.passed window) ?_
    split
    · next hwithin =>
        have hsame : (Check.mk (sendKey r.ip) s.process.world.now
            (sendCheck cfg s.process .anon r).1.ok).Within window.1 window.2 := hwithin.1
        cases hok : (sendCheck cfg s.process .anon r).1.ok with
        | true =>
            rw [hok] at hsame
            rw [if_pos ⟨rfl, hsame⟩]
            exact hone
        | false =>
            rw [hrefused hok]
            exact Nat.zero_le _
    · exact Nat.zero_le _

theorem Kept.step (h : Kept cfg s) (e : Event) : Kept cfg (step cfg s e) := by
  cases e with
  | request r =>
      cases hchecked : isChecked cfg s r with
      | true => exact h.checked hchecked
      | false => exact h.unchecked hchecked
  | elapse ms =>
      exact ⟨fun limit hlimit hpos => (h.counted limit hlimit hpos).later (Nat.le_add_right _ _),
        h.unlimited, h.single, h.passed⟩
  | change table => exact ⟨h.counted, h.unlimited, h.single, h.passed⟩
  | outage readable => exact ⟨h.counted, h.unlimited, h.single, h.passed⟩

theorem Kept.run (h : Kept cfg s) (es : List Event) : Kept cfg (run cfg s es) := by
  induction es generalizing s with
  | nil => exact h
  | cons e es ih => exact ih (h.step e)

theorem kept_start (cfg : Config) (world : World) : Kept cfg { process := { world } } where
  counted _ _ _ := Counted.start
  unlimited _ := rfl
  single _ h := absurd h List.not_mem_nil
  passed _ := Nat.le_refl _

/-- A window without `ordo_sendRawTransaction` stays within what the limiter passed. -/
theorem Kept.submittedIn_le_passed (h : Kept cfg s) {window : String × Nat}
    (hplain : ∀ e ∈ s.entries, e.Within window → e.method ≠ "ordo_sendRawTransaction") :
    submittedIn s.entries window ≤ RateLimiter.passed s.checks window.1 window.2 := by
  refine le_trans ?_ (h.passed window)
  refine List.sum_le_sum fun e he => ?_
  split
  · next hwithin =>
      by_cases hzero : e.submitted = 0
      · rw [hzero]
        exact Nat.zero_le _
      · have hsend := (h.single e he).2 hzero
        have hmethod : e.method = "eth_sendRawTransaction" := by
          simp only [isSend, Bool.or_eq_true, decide_eq_true_eq] at hsend
          exact hsend.resolve_right (hplain e he hwithin)
        rw [if_pos ⟨hwithin, hmethod⟩]
  · exact Nat.zero_le _

theorem sum_le_countP {α : Type*} (f : α → Nat) (p : α → Bool) (l : List α)
    (h : ∀ a ∈ l, f a ≤ if p a then 1 else 0) : (l.map f).sum ≤ l.countP p := by
  induction l with
  | nil => exact Nat.le_refl _
  | cons a l ih =>
      have hhead := h a List.mem_cons_self
      have htail := ih fun b hb => h b (List.mem_cons_of_mem _ hb)
      rw [List.map_cons, List.sum_cons, List.countP_cons]
      omega

/-- In any window no more is submitted than is sent. -/
theorem Kept.submittedIn_le_sendsIn (h : Kept cfg s) (window : String × Nat) :
    submittedIn s.entries window ≤ sendsIn s.entries window := by
  refine sum_le_countP _ _ _ fun e he => ?_
  obtain ⟨hone, hsend⟩ := h.single e he
  split
  · next hwithin =>
      by_cases hzero : e.submitted = 0
      · rw [hzero]
        exact Nat.zero_le _
      · rw [if_pos (by simp [hwithin, hsend hzero])]
        exact hone
  · exact Nat.zero_le _

end Histories

/-! ### Two methods, one address -/

/-- One send a minute. -/
def sampleConfig : Config where
  sha256 := plainHash
  allowAnon := true
  anonRateLimit := 0
  anonSendRateLimit := 1
  anonMaxInflight := 16
  anonAuction := false

def sampleWorld : World := { table := fun _ => none, keys := { apiKeys := fun _ => none } }

/-- An anonymous send from one address, of a transaction that goes through. -/
def sampleSend (method : String) : Request where
  headers := {}
  ip := "203.0.113.9"
  method := method
  params := [.str "0xf8"]
  inMemory := none
  slot := true
  around := hopsWorld [publicHop]

theorem submittedBy_sample {method : String} (hsend : isSend method) :
    submittedBy (dispatch (hopsWorld [publicHop]) method [.str "0xf8"] (anonKey sampleConfig)) =
      1 := by
  simp only [isSend, Bool.or_eq_true, decide_eq_true_eq] at hsend
  have hmethod : method ∈ ["eth_sendRawTransaction", "ordo_sendRawTransaction",
      "ordo_sendPrivateTransaction"] := by
    rcases hsend with rfl | rfl
    · simp
    · simp
  have hdirect : auctioned method (anonKey sampleConfig) = false := by
    rcases hsend with rfl | rfl
    · rfl
    · rfl
  rw [dispatch_direct hmethod rfl hdirect (assertSafe_plain _ _), submittedBy, handed_booked]
  rfl

/-- Without a key the caller of an open method is anonymous. -/
theorem callerOf_sample (p : Process) {method : String} (hmethod : method ∈ anonMethods) :
    callerOf sampleConfig p (sampleSend method) = some .anon := by
  have hnone : (sampleSend method).headers.presented = none := rfl
  have hopen : (sampleSend method).method ∈ anonMethods := hmethod
  simp [callerOf, World.answer, authenticate, hnone, anonymous, sampleConfig, hopen]

/-- A send of either method is dispatched if its own limit lets it pass. -/
theorem answer_sample {p : Process} {method : String} (hsend : isSend method)
    (hmethod : method ∈ anonMethods)
    (hsendRate : (sendCheck sampleConfig p .anon (sampleSend method)).1.ok = true) :
    submittedBy (answer sampleConfig p (sampleSend method)).1 = 1 := by
  have hcaller := callerOf_sample p hmethod
  have hmem :
      (if plainRead (sampleSend method).method then (sampleSend method).inMemory else none) =
        none := by
    split
    · rfl
    · rfl
  have hrate : (rateCheck sampleConfig p .anon (sampleSend method).ip).1.ok = true := rfl
  simp only [answer, hcaller, hmem, hrate, hsendRate, Bool.true_eq_false, or_self, if_false]
  exact submittedBy_sample hsend

/-- After one `eth_sendRawTransaction`. -/
def afterOne : State :=
  run sampleConfig { process := { world := sampleWorld } }
    [.request (sampleSend "eth_sendRawTransaction")]

theorem mem_anonMethods_eth : "eth_sendRawTransaction" ∈ anonMethods := by decide

theorem mem_anonMethods_ordo : "ordo_sendRawTransaction" ∈ anonMethods := by decide

theorem entries_afterOne :
    afterOne.entries = [⟨"203.0.113.9", 0, "eth_sendRawTransaction", 1⟩] := by
  have hcaller := callerOf_sample { world := sampleWorld } mem_anonMethods_eth
  have hone : submittedBy
      (answer sampleConfig { world := sampleWorld } (sampleSend "eth_sendRawTransaction")).1 = 1 :=
    answer_sample rfl mem_anonMethods_eth rfl
  simp only [afterOne, run, List.foldl_cons, List.foldl_nil, step, hcaller, if_true,
    List.nil_append, entryOf, hone]
  rfl

theorem opened_afterOne : afterOne.opened = [(sendKey "203.0.113.9", 0)] := by
  have hcaller := callerOf_sample { world := sampleWorld } mem_anonMethods_eth
  have hchecked : isChecked sampleConfig { process := { world := sampleWorld } }
      (sampleSend "eth_sendRawTransaction") = true := by
    rw [isChecked, hcaller]
    rfl
  simp only [afterOne, run, List.foldl_cons, List.foldl_nil, step, hchecked, true_and,
    List.nil_append]
  rfl

def afterTwo : State := step sampleConfig afterOne (.request (sampleSend "ordo_sendRawTransaction"))

theorem entries_afterTwo :
    afterTwo.entries = [⟨"203.0.113.9", 0, "eth_sendRawTransaction", 1⟩,
      ⟨"203.0.113.9", 0, "ordo_sendRawTransaction", 1⟩] := by
  have hcaller := callerOf_sample afterOne.process mem_anonMethods_ordo
  have hone : submittedBy
      (answer sampleConfig afterOne.process (sampleSend "ordo_sendRawTransaction")).1 = 1 :=
    answer_sample rfl mem_anonMethods_ordo rfl
  have hnow : afterOne.process.world.now = 0 := now_answer
  simp only [afterTwo, step, hcaller, if_true, entries_afterOne, entryOf, hone, hnow]
  rfl

theorem opened_afterTwo : afterTwo.opened = [(sendKey "203.0.113.9", 0)] := by
  have hchecked : isChecked sampleConfig afterOne
      (sampleSend "ordo_sendRawTransaction") = false := by
    simp [isChecked, sampleSend]
  simp only [afterTwo, step, hchecked, opened_afterOne, Bool.false_eq_true, false_and, if_false,
    List.append_nil]

end AnonBudget

end Ordo
