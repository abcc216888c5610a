import Ordo.EdgeWorker

/-!
# The clients of an edge

An edge, be it the gateway in edge mode or the worker, answers reads from memory, and
shares one call to the origin among all who ask for the same at the same time.  The call is
made with the headers of whoever asked first.

Every reply is kept with what it is: from memory, or the origin's answer to somebody's
call.  An error of the origin is either about the request or about who asks.

* `Kept.run`: whatever is given is the origin's answer to the same request.
* `isolated_iff` says when no client is given an error that was meant for another: whenever
  a shared call is refused for who asks, all who wait for it are the client that it was
  made for.
-/

namespace Ordo

namespace EdgeClients

open FastPath EdgeWorker

/-- What the origin tells clients apart by. -/
structure Client where
  xApiKey : Option String := none
  authorization : Option String := none
  address : String
  deriving DecidableEq

structure Read where
  client : Client
  method : String
  params : List Json

def Read.key (r : Read) : Text := cacheKey r.method r.params

/-- In what the two edges differ. -/
structure Policy where
  idempotent : List String
  plain : ∀ method ∈ idempotent, ':' ∉ method.toList
  ttlMs : String → List Json → Option Json → Nat
  keyed : Client → Bool
  /-- Reads that may not be answered from memory are coalesced all the same. -/
  coalescesAll : Bool
  /-- An answer that cannot be read is asked for again, by everyone who waited. -/
  asksAgain : Bool

def gateway : Policy where
  idempotent := FastPath.IDEMPOTENT_READS
  plain := by decide
  ttlMs := FastPath.cacheTtlMs
  keyed c := c.xApiKey.any (· ≠ "") || c.authorization.any (· ≠ "")
  coalescesAll := true
  asksAgain := false

def worker : Policy where
  idempotent := Edge.IDEMPOTENT_READS
  plain := by decide
  ttlMs := Edge.cacheTtlMs
  keyed c := c.xApiKey.isSome || c.authorization.isSome
  coalescesAll := false
  asksAgain := true

structure Config where
  policy : Policy
  chainId : Nat
  allowAnon : Bool

/-- What the origin says to a read: a result, an error that is about the request, or one
that is about the client's key or address. -/
inductive Said where
  | result (v : Option Json)
  | error (e : Json)
  | refused (e : Json)

/-- What a reply is. -/
inductive Given where
  | memory (v : Json) (moment : Nat)
  /-- What the origin said to a call that was made for a read. -/
  | origin (asked : Read) (said : Said)
  | unreachable

structure Delivery where
  read : Read
  given : Given

/-- A call to the origin, the read that it was made for, and all that wait for it. -/
structure Load where
  first : Read
  waiting : List Read

structure State where
  now : Nat := 0
  cache : MicroCache := {}
  inflight : Text → Option Load := fun _ => none
  /-- The results of the origin, by the reads that they were given to. -/
  heard : List (Read × CacheEntry) := []
  delivered : List Delivery := []

inductive Event where
  | ask (r : Read)
  /-- The answer to a shared call, or something that cannot be read. -/
  | answered (key : Text) (said : Option Said)
  /-- The answer to a call that is nobody else's. -/
  | alone (r : Read) (said : Said)
  /-- A result that came with a batch is remembered. -/
  | remember (r : Read) (v : Option Json)
  | elapse (ms : Nat)

def State.deliver (s : State) (ds : List Delivery) : State :=
  { s with delivered := s.delivered ++ ds }

section Runs

variable (cfg : Config)

/-- A result is remembered for its method's window. -/
def remember (s : State) (r : Read) (v : Option Json) : State :=
  let ttlMs := cfg.policy.ttlMs r.method r.params v
  { s with
    cache := s.cache.set s.now r.key v ttlMs
    heard := (r, ⟨v, s.now + ttlMs⟩) :: s.heard }

/-- `MicroCache.through`, up to the moment at which it waits. -/
def through (s : State) (r : Read) : State :=
  let found := s.cache.get s.now r.key
  let s' := { s with cache := found.2 }
  match found.1 with
  | some v => s'.deliver [⟨r, .memory v s.now⟩]
  | none =>
      let load :=
        match s.inflight r.key with
        | some load => { load with waiting := load.waiting ++ [r] }
        | none => ⟨r, [r]⟩
      { s' with inflight := Function.update s.inflight r.key (some load) }

/-- A read.  One that is not answered here and not coalesced goes to the origin alone. -/
def ask (s : State) (r : Read) : State :=
  let fromMemory := cfg.policy.keyed r.client || cfg.allowAnon
  if Edge.isPlainRead (some r.method) then
    match if fromMemory then staticAnswer r.method cfg.chainId else none with
    | some v => s.deliver [⟨r, .memory v s.now⟩]
    | none =>
        if r.method ∈ cfg.policy.idempotent ∧ (fromMemory ∨ cfg.policy.coalescesAll) then
          through s r
        else s
  else s

/-- Everyone who waits is given the same. -/
def answered (s : State) (key : Text) (said : Option Said) : State :=
  match s.inflight key with
  | none => s
  | some load =>
      let s' := { s with inflight := Function.update s.inflight key none }
      match said with
      | none =>
          if cfg.policy.asksAgain then s' else s'.deliver (load.waiting.map (⟨·, .unreachable⟩))
      | some (.result v) =>
          (remember cfg s' load.first v).deliver
            (load.waiting.map (⟨·, .origin load.first (.result v)⟩))
      | some said => s'.deliver (load.waiting.map (⟨·, .origin load.first said⟩))

def step (s : State) : Event → State
  | .ask r => ask cfg s r
  | .answered key said => answered cfg s key said
  | .alone r said => s.deliver [⟨r, .origin r said⟩]
  | .remember r v => if r.method ∈ cfg.policy.idempotent then remember cfg s r v else s
  | .elapse ms => { s with now := s.now + ms }

def run (s : State) (es : List Event) : State := es.foldl (step cfg) s

/-- Two reads that ask for the same. -/
def Read.Same (r r' : Read) : Prop := r.method = r'.method ∧ r.params = r'.params

/-- A result is the origin's to the same request, and one from memory has not expired. -/
def Delivery.Correct (heard : List (Read × CacheEntry)) (d : Delivery) : Prop :=
  match d.given with
  | .memory v moment =>
      staticAnswer d.read.method cfg.chainId = some v ∨
        ∃ x ∈ heard, x.1.Same d.read ∧ x.2.value = some v ∧ moment < x.2.expiresAt
  | .origin asked _ => asked.Same d.read
  | .unreachable => True

/-- An error that is about who asks is given to whom it is about. -/
def Delivery.Own (d : Delivery) : Prop :=
  ∀ asked e, d.given = .origin asked (.refused e) → asked.client = d.read.client

/-- Every client is given what the origin said to the same request, and no error that was
meant for another. -/
def Isolated (s : State) : Prop := ∀ d ∈ s.delivered, d.Correct cfg s.heard ∧ d.Own

/-- Whoever waits for a call that the origin refuses is the client that it was made for. -/
def Clean (s : State) : Event → Prop
  | .answered key (some (.refused _)) =>
      ∀ load ∈ s.inflight key, ∀ r ∈ load.waiting, load.first.client = r.client
  | _ => True

def CleanRun (s : State) : List Event → Prop
  | [] => True
  | e :: es => Clean s e ∧ CleanRun (step cfg s e) es

end Runs

/-! ### What is kept -/

section Steps

variable {cfg : Config} {s : State}

theorem Read.Same.of_key {r r' : Read} (h : r.method ∈ cfg.policy.idempotent)
    (h' : r'.method ∈ cfg.policy.idempotent) (hkey : r.key = r'.key) : r.Same r' :=
  cacheKey_inj (cfg.policy.plain _ h) (cfg.policy.plain _ h') hkey

theorem Delivery.Correct.mono {heard heard' : List (Read × CacheEntry)} {d : Delivery}
    (hsub : heard ⊆ heard') (h : d.Correct cfg heard) : d.Correct cfg heard' := by
  obtain ⟨r, given⟩ := d
  cases given with
  | memory v moment =>
      rcases h with hfixed | ⟨x, hx, hsame⟩
      · exact Or.inl hfixed
      · exact Or.inr ⟨x, hsub hx, hsame⟩
  | origin asked said => exact h
  | unreachable => trivial

/-- A read that may be shared under a key. -/
def Shares (cfg : Config) (key : Text) (r : Read) : Prop :=
  r.method ∈ cfg.policy.idempotent ∧ r.key = key

/-- Everyone who waits for a call asked for the same, the cache has what the origin said,
and so has everything that was given. -/
structure Kept (cfg : Config) (s : State) : Prop where
  waiting : ∀ key load, s.inflight key = some load →
    ∀ r ∈ load.first :: load.waiting, Shares cfg key r
  cached : ∀ x ∈ s.cache.entries, ∃ r, (r, x.2) ∈ s.heard ∧ Shares cfg x.1 r
  correct : ∀ d ∈ s.delivered, d.Correct cfg s.heard

theorem Kept.start : Kept cfg {} := ⟨nofun, nofun, nofun⟩

theorem Kept.deliver (h : Kept cfg s) {ds : List Delivery}
    (hds : ∀ d ∈ ds, d.Correct cfg s.heard) : Kept cfg (s.deliver ds) where
  waiting := h.waiting
  cached := h.cached
  correct d hd := by
    rcases List.mem_append.mp hd with hold | hnew
    · exact h.correct d hold
    · exact hds d hnew

/-- The calls under way change at one key. -/
theorem Kept.update (h : Kept cfg s) {key : Text} {new : Option Load}
    (hnew : ∀ load, new = some load → ∀ r ∈ load.first :: load.waiting, Shares cfg key r) :
    Kept cfg { s with inflight := Function.update s.inflight key new } where
  waiting key' load hload := by
    rcases eq_or_ne key' key with rfl | hne
    · have hload' : new = some load := by simpa using hload
      exact hnew load hload'
    · have hload' : s.inflight key' = some load := by simpa [hne] using hload
      exact h.waiting key' load hload'
  cached := h.cached
  correct := h.correct

theorem Kept.remember (h : Kept cfg s) {r : Read} (hr : r.method ∈ cfg.policy.idempotent)
    (v : Option Json) : Kept cfg (remember cfg s r v) where
  waiting := h.waiting
  cached x hx := by
    rcases MicroCache.mem_of_mem_set hx with hold | ⟨-, rfl⟩
    · obtain ⟨r', hheard, hshares⟩ := h.cached x hold
      exact ⟨r', List.mem_cons_of_mem _ hheard, hshares⟩
    · exact ⟨r, List.mem_cons_self, hr, rfl⟩
  correct d hd := (h.correct d hd).mono (List.subset_cons_self _ _)

/-- Looking something up keeps everything. -/
theorem Kept.get (h : Kept cfg s) (key : Text) :
    Kept cfg { s with cache := (s.cache.get s.now key).2 } where
  waiting := h.waiting
  cached x hx := h.cached x (MicroCache.mem_of_mem_get hx)
  correct := h.correct

/-- What is found under the key of a read is what the origin said to the same request. -/
theorem Kept.found (h : Kept cfg s) {r : Read} (hr : r.method ∈ cfg.policy.idempotent) {v : Json}
    (hv : (s.cache.get s.now r.key).1 = some v) :
    (⟨r, .memory v s.now⟩ : Delivery).Correct cfg s.heard := by
  obtain ⟨e, he, hlive, hvalue⟩ := MicroCache.holds_of_get hv
  obtain ⟨asked, hheard, hasked, hkey⟩ := h.cached _ he
  exact Or.inr ⟨(asked, e), hheard, .of_key hasked hr hkey, hvalue, hlive⟩

theorem Kept.through (h : Kept cfg s) {r : Read} (hr : r.method ∈ cfg.policy.idempotent) :
    Kept cfg (through s r) := by
  simp only [EdgeClients.through]
  split
  · next v hv =>
      refine (h.get r.key).deliver fun d hd => ?_
      rw [List.mem_singleton.mp hd]
      exact h.found hr hv
  · refine (h.get r.key).update ?_
    rintro load ⟨⟩ x hx
    split at hx
    · next load hload =>
        rcases List.mem_cons.mp hx with rfl | hx
        · exact h.waiting _ load hload _ List.mem_cons_self
        · rcases List.mem_append.mp hx with hold | hnew
          · exact h.waiting _ load hload x (List.mem_cons_of_mem _ hold)
          · rw [List.mem_singleton.mp hnew]
            exact ⟨hr, rfl⟩
    · have hx' : x = r := by simpa using hx
      rw [hx']
      exact ⟨hr, rfl⟩

theorem Kept.ask (h : Kept cfg s) (r : Read) : Kept cfg (ask cfg s r) := by
  simp only [EdgeClients.ask]
  split
  · split
    · next v hv =>
        refine h.deliver fun d hd => ?_
        rw [List.mem_singleton.mp hd]
        refine Or.inl ?_
        split at hv
        · exact hv
        · cases hv
    · split
      · next hshared => exact h.through hshared.1
      · exact h
  · exact h

/-- What everyone is given who waits for a call. -/
theorem Kept.shared (h : Kept cfg s) {key : Text} {load : Load}
    (hload : s.inflight key = some load) (said : Said) (heard : List (Read × CacheEntry)) :
    ∀ d ∈ load.waiting.map (⟨·, .origin load.first said⟩ : Read → Delivery),
      d.Correct cfg heard := by
  intro d hd
  obtain ⟨r, hr, rfl⟩ := List.mem_map.mp hd
  obtain ⟨hfirst, hkey⟩ := h.waiting key load hload _ List.mem_cons_self
  obtain ⟨hread, hkey'⟩ := h.waiting key load hload r (List.mem_cons_of_mem _ hr)
  exact Read.Same.of_key hfirst hread (hkey.trans hkey'.symm)

theorem Kept.answered (h : Kept cfg s) (key : Text) (said : Option Said) :
    Kept cfg (answered cfg s key said) := by
  simp only [EdgeClients.answered]
  split
  · exact h
  · next load hload =>
      have hdone : Kept cfg { s with inflight := Function.update s.inflight key none } :=
        h.update nofun
      split
      · split
        · exact hdone
        · refine hdone.deliver fun d hd => ?_
          obtain ⟨r, -, rfl⟩ := List.mem_map.mp hd
          trivial
      · next v =>
          have hfirst := (h.waiting key load hload _ List.mem_cons_self).1
          exact (hdone.remember hfirst v).deliver (h.shared hload _ _)
      · exact hdone.deliver (h.shared hload _ _)

theorem Kept.step (h : Kept cfg s) (e : Event) : Kept cfg (step cfg s e) := by
  cases e with
  | ask r => exact h.ask r
  | answered key said => exact h.answered key said
  | alone r said =>
      refine h.deliver fun d hd => ?_
      rw [List.mem_singleton.mp hd]
      exact ⟨rfl, rfl⟩
  | remember r v =>
      simp only [EdgeClients.step]
      split
      · next hr => exact h.remember hr v
      · exact h
  | elapse ms => exact ⟨h.waiting, h.cached, h.correct⟩

/-- Whatever is given is the origin's answer to the same request. -/
theorem Kept.run (h : Kept cfg s) (es : List Event) : Kept cfg (run cfg s es) := by
  induction es generalizing s with
  | nil => exact h
  | cons e es ih => exact ih (h.step e)

/-! ### Whom an error is given to -/

/-- Nobody is given an error that was meant for another. -/
def Owned (s : State) : Prop := ∀ d ∈ s.delivered, d.Own

theorem owned_deliver (ds : List Delivery) :
    Owned (s.deliver ds) ↔ Owned s ∧ ∀ d ∈ ds, d.Own := List.forall_mem_append

theorem owned_deliver_one {d : Delivery} (hd : d.Own) : Owned (s.deliver [d]) ↔ Owned s := by
  rw [owned_deliver, List.forall_mem_singleton]
  exact and_iff_left hd

/-- What is not a refusal may be given to anyone. -/
theorem owned_deliver_all {ds : List Delivery}
    (h : ∀ d ∈ ds, ∀ asked e, d.given ≠ .origin asked (.refused e)) :
    Owned (s.deliver ds) ↔ Owned s := by
  rw [owned_deliver]
  exact and_iff_left fun d hd asked e he => absurd he (h d hd asked e)

theorem owned_through (r : Read) : Owned (through s r) ↔ Owned s := by
  simp only [through]
  split
  · exact owned_deliver_one nofun
  · exact Iff.rfl

theorem owned_ask (r : Read) : Owned (ask cfg s r) ↔ Owned s := by
  simp only [ask]
  split
  · split
    · exact owned_deliver_one nofun
    · split
      · exact owned_through r
      · exact Iff.rfl
  · exact Iff.rfl

theorem owned_answered (key : Text) (said : Option Said) :
    Owned (answered cfg s key said) ↔ Owned s ∧ Clean s (.answered key said) := by
  simp only [answered]
  split
  · next hnone =>
      refine (and_iff_left ?_).symm
      cases said with
      | none => trivial
      | some said =>
          cases said with
          | refused e => simp [Clean, hnone]
          | result v => trivial
          | error e => trivial
  · next load hload =>
      cases said with
      | none =>
          refine Iff.trans ?_ (and_iff_left trivial).symm
          dsimp only
          split
          · exact Iff.rfl
          · exact owned_deliver_all (by simp)
      | some said =>
          cases said with
          | refused e =>
              refine (owned_deliver _).trans (and_congr_right fun _ => ?_)
              simp [Clean, hload, Delivery.Own]
          | result v => exact (owned_deliver_all (by simp)).trans (and_iff_left trivial).symm
          | error e => exact (owned_deliver_all (by simp)).trans (and_iff_left trivial).symm

theorem owned_step (e : Event) : Owned (step cfg s e) ↔ Owned s ∧ Clean s e := by
  cases e with
  | ask r => exact (owned_ask r).trans (and_iff_left trivial).symm
  | answered key said => exact owned_answered key said
  | alone r said =>
      refine (owned_deliver_one ?_).trans (and_iff_left trivial).symm
      rintro asked e ⟨⟩
      rfl
  | remember r v =>
      refine Iff.trans ?_ (and_iff_left trivial).symm
      simp only [step]
      split <;> exact Iff.rfl
  | elapse ms => exact (and_iff_left trivial).symm

theorem owned_run (es : List Event) : Owned (run cfg s es) ↔ Owned s ∧ CleanRun cfg s es := by
  induction es generalizing s with
  | nil => exact (and_iff_left trivial).symm
  | cons e es ih =>
      calc Owned (run cfg (step cfg s e) es)
          ↔ Owned (step cfg s e) ∧ CleanRun cfg (step cfg s e) es := ih
        _ ↔ (Owned s ∧ Clean s e) ∧ CleanRun cfg (step cfg s e) es :=
            and_congr_left' (owned_step e)
        _ ↔ Owned s ∧ CleanRun cfg s (e :: es) := and_assoc

end Steps

/-- **When the clients of an edge do not affect each other**: in a run every client is given
what the origin said to the same request, and no error that was meant for another, if and
only if everyone who waits for a call that the origin refuses is the client that it was
made for. -/
theorem isolated_iff (cfg : Config) (es : List Event) :
    Isolated cfg (run cfg {} es) ↔ CleanRun cfg {} es := by
  have hkept : Kept cfg (run cfg {} es) := Kept.start.run es
  have howned : Isolated cfg (run cfg {} es) ↔ Owned (run cfg {} es) :=
    ⟨fun h d hd => (h d hd).2, fun h d hd => ⟨hkept.correct d hd, h d hd⟩⟩
  rw [howned, owned_run]
  exact and_iff_right nofun

/-- A client whose key is not valid, and one whose key is. -/
def mallory : Client := { xApiKey := some "stale", address := "203.0.113.1" }

def alice : Client := { xApiKey := some "valid", address := "203.0.113.2" }

def headOf (c : Client) : Read := ⟨c, "eth_blockNumber", []⟩

def unauthorized : Json :=
  .obj [("code", .num ⟨['-', '3', '2', '0', '0', '1'], nofun, by simp [isNumeralChar]⟩),
    ("message", .str "unauthorized: the x-api-key presented is not valid")]

/-- Alice asks while the call that was made for the other is under way. -/
def overlap : List Event :=
  [.ask (headOf mallory), .ask (headOf alice),
    .answered (headOf mallory).key (some (.refused unauthorized))]

/-- Any edge that shares such reads gives the second the error of the first. -/
theorem mem_delivered_overlap {cfg : Config} (hread : "eth_blockNumber" ∈ cfg.policy.idempotent)
    (hkeyed : ∀ c ∈ [mallory, alice], cfg.policy.keyed c = true) :
    ⟨headOf alice, .origin (headOf mallory) (.refused unauthorized)⟩ ∈
      (run cfg {} overlap).delivered := by
  have hplain : Edge.isPlainRead (some "eth_blockNumber") = true := by decide +kernel
  have hask : ∀ c ∈ [mallory, alice], ∀ s, ask cfg s (headOf c) = through s (headOf c) := by
    intro c hc s
    simp [ask, headOf, hplain, hread, hkeyed c hc, staticAnswer]
  have hmiss : ∀ key, MicroCache.get {} 0 key = (none, {}) := fun _ => rfl
  have hkey : (headOf alice).key = (headOf mallory).key := rfl
  simp only [run, overlap, List.foldl_cons, List.foldl_nil, step, hask mallory (by simp),
    hask alice (by simp)]
  simp [through, hmiss, hkey, answered, State.deliver]

/-- At either edge a valid key is told that it is not. -/
theorem refusal_shared :
    ¬ Isolated ⟨gateway, 4663, true⟩ (run ⟨gateway, 4663, true⟩ {} overlap) ∧
      ¬ Isolated ⟨worker, 4663, true⟩ (run ⟨worker, 4663, true⟩ {} overlap) := by
  have hwrong : ∀ cfg, "eth_blockNumber" ∈ cfg.policy.idempotent →
      (∀ c ∈ [mallory, alice], cfg.policy.keyed c = true) →
        ¬ Isolated cfg (run cfg {} overlap) := by
    intro cfg hread hkeyed h
    have hsame : mallory = alice := (h _ (mem_delivered_overlap hread hkeyed)).2 _ _ rfl
    exact absurd hsame (by decide)
  constructor
  · exact hwrong ⟨gateway, 4663, true⟩ (by decide) (by decide)
  · exact hwrong ⟨worker, 4663, true⟩ (by decide) (by decide)

end EdgeClients

end Ordo
