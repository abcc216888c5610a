import Mathlib.Data.List.Forall2
import Ordo.FastPath

/-!
# The edge worker's batches

The worker answers what it can of a payload, sends the rest to the origin as a smaller
batch, and puts the answers back where they belong.  A lone idempotent read is coalesced
with an identical one that is under way.

* `splitBatch` and `merge` are the two halves; `fill` is what they come to.
* `forwardAndRemember` is the way to the origin, `fetch` the whole handler.
* `fetch_transparent`: every message gets one entry, in its place and under its own id,
  and what is no idempotent read and no constant is sent to the origin exactly once.
-/

namespace Ordo

namespace EdgeWorker

open FastPath

/-! ### Messages and answers -/

/-- What the origin answers to a message. -/
inductive Answer where
  | result (value : Option Json)
  | error (e : Json) (truthy : e.isTruthy = true)

/-- A field that is not written if it is `undefined`. -/
def optional (name : String) : Option Json → List (String × Json)
  | none => []
  | some v => [(name, v)]

/-- `{ jsonrpc: "2.0", id, result }` -/
def replyJson (id result : Option Json) : Json :=
  .obj (("jsonrpc", .str "2.0") :: optional "id" id ++ optional "result" result)

def Answer.json (id : Option Json) : Answer → Json
  | .result value => replyJson id value
  | .error e _ => .obj (("jsonrpc", .str "2.0") :: optional "id" id ++ [("error", e)])

def idOf (message : Json) : Option Json := message.field? "id"

/-- The method, if it is a text. -/
def methodOf (message : Json) : Option String :=
  match message.field? "method" with
  | some (.str method) => some method
  | _ => none

def paramsOf (message : Json) : List Json :=
  match message.field? "params" with
  | some (.arr params) => params
  | _ => []

/-- The method of an idempotent read. -/
def readOf (message : Json) : Option String :=
  (methodOf message).filter (· ∈ Edge.IDEMPOTENT_READS)

/-- The messages of a payload. -/
def messagesOf : Json → List Json
  | .arr batch => batch
  | message => [message]

def isBatch : Json → Bool
  | .arr _ => true
  | _ => false

/-- The reply to a batch is an array, and that to a single message its entry. -/
def assemble (batch : Bool) (entries : List Json) : Json :=
  if batch then .arr entries else entries.headD .null

/-- The origin answers a batch positionally, with the messages' own ids. -/
def originReply (answer : Nat → Nat → Json → Answer) (call : Nat) : Json → Json
  | .arr batch => .arr (batch.mapIdx fun j m => (answer call j m).json (idOf m))
  | message => (answer call 0 message).json (idOf message)

/-! ### Splitting and merging -/

/-- What is answered here, by position, and what has to go to the origin. -/
structure Split where
  answered : List (Option Json)
  forward : List Json
  forwardIndex : List Nat
  cache : MicroCache

section Splitting

variable (chainId now : Nat)

/-- A constant of the deployment. -/
def constantOf (message : Json) : Option Json :=
  match methodOf message with
  | none => none
  | some method => if Edge.isPlainRead (some method) then staticAnswer method chainId else none

/-- An answer that needs no origin. -/
def answerHere (cache : MicroCache) (message : Json) : Option Json × MicroCache :=
  match methodOf message with
  | none => (none, cache)
  | some method =>
      if Edge.isPlainRead (some method) then
        match staticAnswer method chainId with
        | some fixed => (some (replyJson (idOf message) (some fixed)), cache)
        | none =>
            if method ∈ Edge.IDEMPOTENT_READS then
              let found := cache.get now (cacheKey method (paramsOf message))
              (found.1.map fun hit => replyJson (idOf message) (some hit), found.2)
            else (none, cache)
      else (none, cache)

def splitBatch (i : Nat) (cache : MicroCache) : List Json → Split
  | [] => ⟨[], [], [], cache⟩
  | message :: batch =>
      let here := answerHere chainId now cache message
      let rest := splitBatch (i + 1) here.2 batch
      match here.1 with
      | some r => { rest with answered := some r :: rest.answered }
      | none =>
          { rest with
            answered := none :: rest.answered
            forward := message :: rest.forward
            forwardIndex := i :: rest.forwardIndex }

end Splitting

/-- `replies.forEach((r, j) => (answered[forwardIndex[j]] = r))` -/
def merge (answered : List (Option Json)) (forwardIndex : List Nat) (replies : List Json) :
    List (Option Json) :=
  (forwardIndex.zip replies).foldl (fun a x => a.set x.1 (some x.2)) answered

/-- The entries as they are written: a hole is `null`. -/
def written (entries : List (Option Json)) : List Json := entries.map (·.getD .null)

/-! ### To the origin -/

/-- An idempotent read that is under way for somebody, and what comes of it: an answer, or
something that cannot be read. -/
structure Flight (key : Text) where
  request : Json
  method : String
  isRead : readOf request = some method
  same : cacheKey method (paramsOf request) = key
  answer : Option Answer

structure Env where
  chainId : Nat
  /-- `ALLOW_ANON` is not `"0"`. -/
  allowAnon : Bool
  keyed : Bool
  now : Nat
  /-- When the origin's reply is here. -/
  later : Nat
  inflight : (key : Text) → Option (Flight key)
  /-- What comes back for a body, by how many have been sent before. -/
  respond : Nat → Json → Option Json

structure Fetched where
  reply : Option Json
  /-- The bodies that were sent to the origin. -/
  calls : List Json
  cache : MicroCache

/-- How a coalesced read ends. -/
inductive Loaded where
  | value (v : Option Json)
  | failed (body : Json)
  | unreadable

/-- `body && body.error` -/
def hasError (body : Json) : Bool :=
  match body.field? "error" with
  | some e => e.isTruthy
  | none => false

def loaded (response : Option Json) : Loaded :=
  match response with
  | none => .unreadable
  | some body => if hasError body then .failed body else .value (body.field? "result")

/-- `{ ...body, id }` -/
def withId (id : Option Json) : Json → Json
  | .obj fields =>
      match id with
      | none => .obj (fields.filter (·.1 ≠ "id"))
      | some v =>
          if "id" ∈ fields.map (·.1) then
            .obj (fields.map fun f => if f.1 = "id" then ("id", v) else f)
          else .obj (fields ++ [("id", v)])
  | body => body

/-- The body that some messages are sent in. -/
def bodyOf (messages : List Json) (single : Bool) : Json :=
  if single then messages.headD .null else .arr messages

/-- One answer is remembered, if it is one to an idempotent read. -/
def rememberOne (later : Nat) (cache : MicroCache) (x : Json × Json) : MicroCache :=
  match readOf x.1 with
  | none => cache
  | some method =>
      if !x.2.isTruthy || hasError x.2 then cache
      else
        let result := x.2.field? "result"
        cache.set later (cacheKey method (paramsOf x.1)) result
          (Edge.cacheTtlMs method (paramsOf x.1) result)

def remember (later : Nat) (cache : MicroCache) (messages : List Json) :
    Option Json → MicroCache
  | none => cache
  | some body => (messages.zip (messagesOf body)).foldl (rememberOne later) cache

section Forwarding

variable (env : Env)

/-- A lone read, by `MicroCache.through`: from the cache, with an identical one that is under
way, or by a call of its own. -/
def through (cache : MicroCache) (method : String) (lone : Json) :
    Loaded × List Json × MicroCache :=
  let key := cacheKey method (paramsOf lone)
  let found := cache.get env.now key
  match found.1 with
  | some hit => (.value (some hit), [], found.2)
  | none =>
      match env.inflight key with
      | some flight =>
          (loaded (flight.answer.map (·.json (idOf flight.request))), [], found.2)
      | none =>
          match loaded (env.respond 0 lone) with
          | .value v =>
              (.value v, [lone],
                found.2.set env.later key v (Edge.cacheTtlMs method (paramsOf lone) v))
          | other => (other, [lone], found.2)

/-- Anything else is sent as it is. -/
def forwardAll (cache : MicroCache) (messages : List Json) (single : Bool)
    (original : Option Json) : Fetched :=
  let body := original.getD (bodyOf messages single)
  { reply := env.respond 0 body
    calls := [body]
    cache := remember env.later cache messages (env.respond 0 body) }

def forwardLone (cache : MicroCache) (method : String) (lone : Json) (single : Bool)
    (original : Option Json) : Fetched :=
  match through env cache method lone with
  | (.value v, calls, cache') =>
      { reply := some (assemble (!single) [replyJson (idOf lone) v]), calls, cache := cache' }
  | (.failed body, calls, cache') =>
      { reply := some (assemble (!single) [withId (idOf lone) body]), calls, cache := cache' }
  | (.unreadable, calls, cache') =>
      -- an unreadable reply: hand the client what the origin says to it
      let body := original.getD (bodyOf [lone] single)
      { reply := env.respond calls.length body, calls := calls ++ [body], cache := cache' }

def forwardAndRemember (cache : MicroCache) (messages : List Json) (single : Bool)
    (original : Option Json) : Fetched :=
  match messages with
  | [lone] =>
      match readOf lone with
      | some method => forwardLone env cache method lone single original
      | none => forwardAll env cache messages single original
  | _ => forwardAll env cache messages single original

/-- The payload goes to the origin untouched. -/
def pass (cache : MicroCache) (payload : Json) : Fetched :=
  { reply := env.respond 0 payload, calls := [payload], cache }

/-- A mix: the answers merge back into their original positions. -/
def mixed (split : Split) (res : Fetched) : Fetched :=
  match res.reply with
  | some (.arr replies) =>
      { res with
        reply := some (.arr (written (merge split.answered split.forwardIndex replies))) }
  | _ => res

def fetch (cache : MicroCache) (payload : Json) : Fetched :=
  if !env.keyed && !env.allowAnon then pass env cache payload
  else
    let batch := messagesOf payload
    if batch.isEmpty then pass env cache payload
    else
      let split := splitBatch env.chainId env.now 0 cache batch
      if split.forward.isEmpty then
        { reply := some (assemble (isBatch payload) (written split.answered))
          calls := []
          cache := split.cache }
      else if split.forward.length = batch.length then
        forwardAndRemember env split.cache split.forward (!isBatch payload) (some payload)
      else
        mixed split (forwardAndRemember env split.cache split.forward false none)

end Forwarding

/-! ### What an entry is -/

/-- Two objects with the same fields, in any order. -/
def SameFields (r r' : Json) : Prop := ∀ name, r.field? name = r'.field? name

/-- Where an entry can come from. -/
inductive Accounted (env : Env) (answer : Nat → Nat → Json → Answer) (cache : MicroCache)
    (calls : List Json) (m : Json) : Json → Prop where
  | constant (v : Json) (hconstant : constantOf env.chainId m = some v) :
      Accounted env answer cache calls m (replyJson (idOf m) (some v))
  | cached (method : String) (v : Json) (hread : readOf m = some method)
      (hholds : cache.Holds env.now (cacheKey method (paramsOf m)) v) :
      Accounted env answer cache calls m (replyJson (idOf m) (some v))
  /-- The origin's answer to the message, in one of the calls. -/
  | origin (k j : Nat) (body : Json) (hcall : calls[k]? = some body)
      (hplace : (messagesOf body)[j]? = some m) :
      Accounted env answer cache calls m ((answer k j m).json (idOf m))
  /-- The origin's answer to an identical read that was under way. -/
  | shared (method : String) (flight : Flight (cacheKey method (paramsOf m))) (a : Answer)
      (r : Json) (hread : readOf m = some method)
      (hflight : env.inflight (cacheKey method (paramsOf m)) = some flight)
      (hmethod : readOf flight.request = some method)
      (hparams : paramsOf flight.request = paramsOf m)
      (hanswer : flight.answer = some a) (hfields : SameFields r (a.json (idOf m))) :
      Accounted env answer cache calls m r

/-- What is neither an idempotent read nor a constant. -/
def isUncacheable (chainId : Nat) (m : Json) : Bool :=
  (readOf m).isNone && (constantOf chainId m).isNone

/-- An entry of the reply: under the message's id, and accounted for. -/
def IsEntry (env : Env) (answer : Nat → Nat → Json → Answer) (cache : MicroCache)
    (calls : List Json) (m r : Json) : Prop :=
  r.field? "id" = idOf m ∧ Accounted env answer cache calls m r

/-- One entry for every message, in its place, and what cannot be cached is sent once. -/
def Answers (env : Env) (answer : Nat → Nat → Json → Answer) (cache : MicroCache)
    (batch : Bool) (messages : List Json) (out : Fetched) : Prop :=
  (∃ entries, out.reply = some (assemble batch entries) ∧
    List.Forall₂ (IsEntry env answer cache out.calls) messages entries) ∧
  (out.calls.flatMap messagesOf).filter (isUncacheable env.chainId) =
    messages.filter (isUncacheable env.chainId)

def Transparent (env : Env) (answer : Nat → Nat → Json → Answer) (cache : MicroCache)
    (payload : Json) : Prop :=
  Answers env answer cache (isBatch payload) (messagesOf payload) (fetch env cache payload)

section Fields

@[simp] theorem field?_obj (name : String) (fields : List (String × Json)) :
    (Json.obj fields).field? name = fields.lookup name := rfl

theorem field?_id_replyJson (id result : Option Json) :
    (replyJson id result).field? "id" = id := by
  cases id with
  | none => cases result <;> rfl
  | some v => rfl

theorem field?_result_replyJson (id result : Option Json) :
    (replyJson id result).field? "result" = result := by
  cases id with
  | none => cases result <;> rfl
  | some v => cases result <;> rfl

theorem hasError_replyJson (id result : Option Json) : hasError (replyJson id result) = false := by
  cases id with
  | none => cases result <;> rfl
  | some v => cases result <;> rfl

theorem field?_id_json (id : Option Json) (a : Answer) : (a.json id).field? "id" = id := by
  cases a with
  | result value => exact field?_id_replyJson id value
  | error e _ => cases id <;> rfl

/-- How a coalesced read ends that is answered. -/
theorem loaded_json (id : Option Json) (a : Answer) :
    (∃ v, a = .result v ∧ loaded (some (a.json id)) = .value v) ∨
      (∃ e h, a = .error e h ∧ loaded (some (a.json id)) = .failed (a.json id)) := by
  cases a with
  | result v =>
      refine Or.inl ⟨v, rfl, ?_⟩
      simp only [loaded, Answer.json, hasError_replyJson, Bool.false_eq_true, if_false,
        field?_result_replyJson]
  | error e h =>
      refine Or.inr ⟨e, h, rfl, ?_⟩
      have herror : hasError ((Answer.error e h).json id) = true := by
        cases id with
        | none => exact h
        | some v => exact h
      simp only [loaded, herror, if_true]

/-- The origin's error under another id. -/
theorem withId_error (id id' : Option Json) (e : Json) (h : e.isTruthy = true) :
    SameFields (withId id ((Answer.error e h).json id')) ((Answer.error e h).json id) := by
  cases id with
  | none => cases id' <;> exact fun _ => rfl
  | some v =>
      cases id' with
      | some v' => exact fun _ => rfl
      | none =>
          -- the id comes last here
          intro name
          show List.lookup name [("jsonrpc", Json.str "2.0"), ("error", e), ("id", v)] =
            List.lookup name [("jsonrpc", Json.str "2.0"), ("id", v), ("error", e)]
          simp only [List.lookup_cons, List.lookup_nil]
          split
          · rfl
          · next hne => grind

theorem withId_self (id : Option Json) (a : Answer) (e : Json) (h : e.isTruthy = true)
    (ha : a = .error e h) : withId id (a.json id) = a.json id := by
  subst ha
  cases id with
  | none => rfl
  | some v => rfl

end Fields

/-! ### The two halves of a batch -/

section Halves

/-- The messages that are not answered here. -/
def unanswered : List Json → List (Option Json) → List Json
  | m :: batch, none :: answered => m :: unanswered batch answered
  | _ :: batch, some _ :: answered => unanswered batch answered
  | _, _ => []

/-- The positions that are not answered here, counted from `i`. -/
def holes (i : Nat) : List (Option Json) → List Nat
  | [] => []
  | none :: answered => i :: holes (i + 1) answered
  | some _ :: answered => holes (i + 1) answered

/-- The replies in the places that are free. -/
def fill : List (Option Json) → List Json → List (Option Json)
  | [], _ => []
  | some r :: answered, replies => some r :: fill answered replies
  | none :: answered, [] => none :: answered
  | none :: answered, r :: replies => some r :: fill answered replies

/-- Replies that are written by position fill the holes in order. -/
theorem foldl_set_holes (done answered : List (Option Json)) (replies : List Json) :
    ((holes done.length answered).zip replies).foldl (fun a x => a.set x.1 (some x.2))
      (done ++ answered) = done ++ fill answered replies := by
  induction answered generalizing done replies with
  | nil => rfl
  | cons a answered ih =>
      cases a with
      | some r =>
          have hnext := ih (done ++ [some r]) replies
          rw [List.length_append, List.append_assoc, List.append_assoc] at hnext
          exact hnext
      | none =>
          cases replies with
          | nil => rw [List.zip_nil_right]; rfl
          | cons r replies =>
              have hnext := ih (done ++ [some r]) replies
              rw [List.length_append, List.append_assoc, List.append_assoc] at hnext
              rw [holes, List.zip_cons_cons, List.foldl_cons, List.set_append_right _ _ le_rfl,
                Nat.sub_self]
              exact hnext

theorem merge_eq_fill (answered : List (Option Json)) (replies : List Json) :
    merge answered (holes 0 answered) replies = fill answered replies :=
  foldl_set_holes [] answered replies

variable {P Q : Json → Json → Prop}

/-- **Every entry is in its place**: what was answered here stays, and the replies to the
rest go, one by one, to the messages that they answer. -/
theorem forall₂_fill {batch : List Json} {answered : List (Option Json)} {replies : List Json}
    (hanswered : List.Forall₂ (fun m a => ∀ r, a = some r → P m r) batch answered)
    (hreplies : List.Forall₂ Q (unanswered batch answered) replies) :
    List.Forall₂ (fun m r => P m r ∨ Q m r) batch (written (fill answered replies)) := by
  induction hanswered generalizing replies with
  | nil => exact List.Forall₂.nil
  | @cons m a batch answered hhead _ ih =>
      cases a with
      | some r => exact List.Forall₂.cons (Or.inl (hhead r rfl)) (ih hreplies)
      | none =>
          cases hreplies with
          | cons hr hrest => exact List.Forall₂.cons (Or.inr hr) (ih hrest)

/-- Where nothing goes to the origin, everything is answered. -/
theorem forall₂_written {batch : List Json} {answered : List (Option Json)}
    (hanswered : List.Forall₂ (fun m a => ∀ r, a = some r → P m r) batch answered)
    (hnone : unanswered batch answered = []) :
    List.Forall₂ P batch (written answered) := by
  induction hanswered with
  | nil => exact List.Forall₂.nil
  | @cons m a batch answered hhead _ ih =>
      cases a with
      | some r => exact List.Forall₂.cons (hhead r rfl) (ih hnone)
      | none => cases hnone

theorem unanswered_sublist (batch : List Json) (answered : List (Option Json)) :
    List.Sublist (unanswered batch answered) batch := by
  induction batch generalizing answered with
  | nil => simp [unanswered]
  | cons m batch ih =>
      cases answered with
      | nil => simp [unanswered]
      | cons a answered =>
          cases a with
          | none => exact (ih answered).cons_cons m
          | some r => exact (ih answered).cons m

/-- Only what needs no origin is kept back. -/
theorem filter_unanswered {batch : List Json} {answered : List (Option Json)} {p : Json → Bool}
    (hanswered : List.Forall₂ (fun m a => ∀ r : Json, a = some r → p m = false) batch answered) :
    (unanswered batch answered).filter p = batch.filter p := by
  induction hanswered with
  | nil => rfl
  | @cons m a batch answered hhead _ ih =>
      cases a with
      | none => rw [unanswered, List.filter_cons, List.filter_cons, ih]
      | some r => rw [unanswered, List.filter_cons, hhead r rfl, ih]; rfl

end Halves

section Split

variable {chainId now : Nat} {cache cache₀ : MicroCache} {m r : Json}

/-- An entry that needed no origin. -/
def IsHere (chainId now : Nat) (cache : MicroCache) (m r : Json) : Prop :=
  (∃ v, constantOf chainId m = some v ∧ r = replyJson (idOf m) (some v)) ∨
    ∃ method v, readOf m = some method ∧
      cache.Holds now (cacheKey method (paramsOf m)) v ∧ r = replyJson (idOf m) (some v)

theorem IsHere.mono (h : IsHere chainId now cache m r)
    (hsub : ∀ x ∈ cache.entries, x ∈ cache₀.entries) : IsHere chainId now cache₀ m r := by
  rcases h with hconstant | ⟨method, v, hread, ⟨e, he, hlive, hv⟩, hr⟩
  · exact Or.inl hconstant
  · exact Or.inr ⟨method, v, hread, ⟨e, hsub _ he, hlive, hv⟩, hr⟩

theorem IsHere.isEntry {env : Env} {answer : Nat → Nat → Json → Answer}
    (h : IsHere env.chainId env.now cache m r) (calls : List Json) :
    IsEntry env answer cache calls m r := by
  rcases h with ⟨v, hconstant, rfl⟩ | ⟨method, v, hread, hholds, rfl⟩
  · exact ⟨field?_id_replyJson _ _, .constant v hconstant⟩
  · exact ⟨field?_id_replyJson _ _, .cached method v hread hholds⟩

theorem IsHere.not_isUncacheable (h : IsHere chainId now cache m r) :
    isUncacheable chainId m = false := by
  rcases h with ⟨v, hconstant, -⟩ | ⟨method, v, hread, -⟩
  · simp [isUncacheable, hconstant]
  · simp [isUncacheable, hread]

theorem isHere_of_answerHere (h : (answerHere chainId now cache m).1 = some r) :
    IsHere chainId now cache m r := by
  unfold answerHere at h
  split at h
  · cases h
  · next method hmethod =>
      split at h
      · next hplain =>
          split at h
          · next fixed hfixed =>
              left
              refine ⟨fixed, ?_, (Option.some.inj h).symm⟩
              simp only [constantOf, hmethod, hplain, if_true, hfixed]
          · split at h
            · next hin =>
                right
                obtain ⟨hit, hhit, rfl⟩ := Option.map_eq_some_iff.mp h
                refine ⟨method, hit, ?_, MicroCache.holds_of_get hhit, rfl⟩
                rw [readOf, hmethod, Option.filter_some_pos (by simpa using hin)]
            · cases h
      · cases h

/-- Looking for an answer adds nothing to the cache. -/
theorem mem_of_mem_answerHere {x : Text × CacheEntry}
    (h : x ∈ (answerHere chainId now cache m).2.entries) : x ∈ cache.entries := by
  unfold answerHere at h
  split at h
  · exact h
  · split at h
    · split at h
      · exact h
      · split at h
        · exact MicroCache.mem_of_mem_get h
        · exact h
    · exact h

variable (chainId now cache) in
/-- What a split leaves to the origin, and what it answers. -/
theorem splitBatch_spec (batch : List Json) (i : Nat)
    (hsub : ∀ x ∈ cache.entries, x ∈ cache₀.entries) :
    List.Forall₂ (fun m a => ∀ r, a = some r → IsHere chainId now cache₀ m r) batch
        (splitBatch chainId now i cache batch).answered ∧
      (splitBatch chainId now i cache batch).forward =
        unanswered batch (splitBatch chainId now i cache batch).answered ∧
      (splitBatch chainId now i cache batch).forwardIndex =
        holes i (splitBatch chainId now i cache batch).answered ∧
      ∀ x ∈ (splitBatch chainId now i cache batch).cache.entries, x ∈ cache₀.entries := by
  induction batch generalizing i cache with
  | nil => exact ⟨List.Forall₂.nil, rfl, rfl, hsub⟩
  | cons m batch ih =>
      obtain ⟨hanswered, hforward, hindex, hcache⟩ :=
        ih _ (i + 1) fun x hx => hsub x (mem_of_mem_answerHere hx)
      simp only [splitBatch]
      split
      · next r hr =>
          refine ⟨List.Forall₂.cons ?_ hanswered, hforward, hindex, hcache⟩
          rintro r' ⟨⟩
          exact (isHere_of_answerHere hr).mono hsub
      · refine ⟨List.Forall₂.cons nofun hanswered, ?_, ?_, hcache⟩
        · rw [unanswered, hforward]
        · rw [holes, hindex]

end Split

/-! ### What comes from the origin -/

section Forwarding

variable {env : Env} {answer : Nat → Nat → Json → Answer} {cache cache₀ : MicroCache}
  {calls : List Json}

/-- The origin's entries for a body. -/
def entriesOf (answer : Nat → Nat → Json → Answer) (call : Nat) (body : Json) : List Json :=
  (messagesOf body).mapIdx fun j m => (answer call j m).json (idOf m)

theorem originReply_eq (call : Nat) (body : Json) :
    originReply answer call body = assemble (isBatch body) (entriesOf answer call body) := by
  cases body <;> rfl

/-- What the origin answers to a call is one entry for every message of its body. -/
theorem forall₂_entriesOf {k : Nat} {body : Json} (hcall : calls[k]? = some body) :
    List.Forall₂ (IsEntry env answer cache₀ calls) (messagesOf body)
      (entriesOf answer k body) := by
  refine List.forall₂_iff_get.mpr ⟨by simp [entriesOf], fun j hj hj' => ?_⟩
  have hplace : (messagesOf body)[j]? = some ((messagesOf body).get ⟨j, hj⟩) := by
    simp
  have hentry : (entriesOf answer k body).get ⟨j, hj'⟩ =
      (answer k j ((messagesOf body).get ⟨j, hj⟩)).json (idOf ((messagesOf body).get ⟨j, hj⟩)) := by
    simp [entriesOf]
  rw [hentry]
  exact ⟨field?_id_json _ _, .origin k j body hcall hplace⟩

theorem messagesOf_of_read {m : Json} {method : String} (h : readOf m = some method) :
    messagesOf m = [m] ∧ isBatch m = false := by
  cases m with
  | arr ms => simp [readOf, methodOf, Json.field?] at h
  | null => exact ⟨rfl, rfl⟩
  | bool b => exact ⟨rfl, rfl⟩
  | num n => exact ⟨rfl, rfl⟩
  | str s => exact ⟨rfl, rfl⟩
  | obj fields => exact ⟨rfl, rfl⟩

/-- The origin answers every call, positionally. -/
def Positional (env : Env) (answer : Nat → Nat → Json → Answer) : Prop :=
  ∀ k body, env.respond k body = some (originReply answer k body)

variable (cache₀) in
/-- One call, for a body that holds the messages. -/
theorem answers_call (hpos : Positional env answer) (body : Json) (c : MicroCache) :
    Answers env answer cache₀ (isBatch body) (messagesOf body)
      { reply := env.respond 0 body, calls := [body], cache := c } := by
  refine ⟨⟨entriesOf answer 0 body, ?_, forall₂_entriesOf rfl⟩, ?_⟩
  · rw [hpos, originReply_eq]
  · rw [List.flatMap_singleton]

variable (env) in
/-- How a coalesced read is answered. -/
theorem through_cases (cache : MicroCache) (method : String) (lone : Json) :
    ∃ c, (∃ hit, cache.Holds env.now (cacheKey method (paramsOf lone)) hit ∧
        through env cache method lone = (.value (some hit), [], c)) ∨
      (∃ flight, env.inflight (cacheKey method (paramsOf lone)) = some flight ∧
        through env cache method lone =
          (loaded (flight.answer.map (·.json (idOf flight.request))), [], c)) ∨
      through env cache method lone = (loaded (env.respond 0 lone), [lone], c) := by
  simp only [through]
  split
  · next hit hhit => exact ⟨_, Or.inl ⟨hit, MicroCache.holds_of_get hhit, rfl⟩⟩
  · split
    · next flight hflight => exact ⟨_, Or.inr (Or.inl ⟨flight, hflight, rfl⟩)⟩
    · split
      · next v hv => exact ⟨_, Or.inr (Or.inr (by rw [hv]))⟩
      · exact ⟨_, Or.inr (Or.inr rfl)⟩

/-- A single entry that is there. -/
theorem answers_entry {single : Bool} {lone r : Json} {method : String} {calls : List Json}
    (hread : readOf lone = some method) (hentry : IsEntry env answer cache₀ calls lone r)
    (hcalls : ∀ body ∈ calls, body = lone) (c : MicroCache) :
    Answers env answer cache₀ (!single) [lone]
      { reply := some (assemble (!single) [r]), calls, cache := c } := by
  have hcacheable : isUncacheable env.chainId lone = false := by
    simp [isUncacheable, hread]
  refine ⟨⟨[r], rfl, List.Forall₂.cons hentry List.Forall₂.nil⟩, ?_⟩
  rw [List.filter_cons_of_neg (by simp [hcacheable]), List.filter_nil]
  refine List.filter_eq_nil_iff.mpr fun m hm => ?_
  obtain ⟨body, hbody, hin⟩ := List.mem_flatMap.mp hm
  rw [hcalls body hbody, (messagesOf_of_read hread).1, List.mem_singleton] at hin
  rw [hin, hcacheable]
  exact Bool.false_ne_true

theorem colon_not_mem {m : Json} {method : String} (h : readOf m = some method) :
    ':' ∉ method.toList := by
  have hin : method ∈ Edge.IDEMPOTENT_READS := by
    simpa using (Option.filter_eq_some_iff.mp h).2
  have hall : ∀ method ∈ Edge.IDEMPOTENT_READS, ':' ∉ method.toList := by decide
  exact hall method hin

/-- A read that is under way under the key of another is the same read. -/
theorem Flight.identical {m : Json} {method : String} (hread : readOf m = some method)
    (flight : Flight (cacheKey method (paramsOf m))) :
    readOf flight.request = some method ∧ paramsOf flight.request = paramsOf m := by
  obtain ⟨hmethod, hparams⟩ :=
    cacheKey_inj (colon_not_mem flight.isRead) (colon_not_mem hread) flight.same
  exact ⟨flight.isRead.trans (congrArg some hmethod), hparams⟩

theorem forwardLone_answers (hpos : Positional env answer)
    (hsub : ∀ x ∈ cache.entries, x ∈ cache₀.entries) {method : String} {lone : Json}
    {single : Bool} {original : Option Json} (hread : readOf lone = some method)
    (hmessages : messagesOf (original.getD (bodyOf [lone] single)) = [lone])
    (hbatch : isBatch (original.getD (bodyOf [lone] single)) = !single) :
    Answers env answer cache₀ (!single) [lone]
      (forwardLone env cache method lone single original) := by
  obtain ⟨c, ⟨hit, ⟨e, he, hlive, hv⟩, heq⟩ | ⟨flight, hflight, heq⟩ | heq⟩ :=
    through_cases env cache method lone
  · -- a hit
    simp only [forwardLone, heq]
    refine answers_entry hread ⟨field?_id_replyJson _ _, ?_⟩
      (fun _ h => absurd h List.not_mem_nil) c
    exact .cached method hit hread ⟨e, hsub _ he, hlive, hv⟩
  · cases hanswer : flight.answer with
    | none =>
        -- what was shared cannot be read
        simp only [forwardLone, heq, hanswer, Option.map_none, loaded]
        have hcall := answers_call cache₀ hpos (original.getD (bodyOf [lone] single)) c
        rw [hmessages, hbatch] at hcall
        exact hcall
    | some a =>
        have hsame := flight.identical hread
        rcases loaded_json (idOf flight.request) a with
          ⟨v, rfl, hloaded⟩ | ⟨err, herr, rfl, hloaded⟩
        · simp only [forwardLone, heq, hanswer, Option.map_some, hloaded]
          refine answers_entry hread ⟨field?_id_replyJson _ _, ?_⟩
            (fun _ h => absurd h List.not_mem_nil) c
          exact .shared method flight _ _ hread hflight hsame.1 hsame.2 hanswer fun _ => rfl
        · simp only [forwardLone, heq, hanswer, Option.map_some, hloaded]
          have hfields := withId_error (idOf lone) (idOf flight.request) err herr
          refine answers_entry hread ⟨?_, ?_⟩ (fun _ h => absurd h List.not_mem_nil) c
          · rw [hfields "id", field?_id_json]
          · exact .shared method flight _ _ hread hflight hsame.1 hsame.2 hanswer hfields
  · -- a call of its own
    have hresponse : env.respond 0 lone = some ((answer 0 0 lone).json (idOf lone)) := by
      rw [hpos, originReply_eq, (messagesOf_of_read hread).2, entriesOf,
        (messagesOf_of_read hread).1]
      rfl
    have hentry : IsEntry env answer cache₀ [lone] lone ((answer 0 0 lone).json (idOf lone)) := by
      refine ⟨field?_id_json _ _, .origin 0 0 lone rfl ?_⟩
      rw [(messagesOf_of_read hread).1]
      rfl
    have hsame : ∀ body ∈ [lone], body = lone := fun body hbody => List.mem_singleton.mp hbody
    rw [hresponse] at heq
    rcases loaded_json (idOf lone) (answer 0 0 lone) with
      ⟨v, ha, hloaded⟩ | ⟨err, herr, ha, hloaded⟩
    · simp only [forwardLone, heq, hloaded]
      rw [ha] at hentry
      exact answers_entry hread hentry hsame c
    · simp only [forwardLone, heq, hloaded]
      rw [withId_self _ _ err herr ha]
      exact answers_entry hread hentry hsame c

/-- The origin is asked for some messages, in a body that holds them. -/
theorem forwardAndRemember_answers (hpos : Positional env answer)
    (hsub : ∀ x ∈ cache.entries, x ∈ cache₀.entries) {messages : List Json} {single : Bool}
    {original : Option Json}
    (hmessages : messagesOf (original.getD (bodyOf messages single)) = messages)
    (hbatch : isBatch (original.getD (bodyOf messages single)) = !single) :
    Answers env answer cache₀ (!single) messages
      (forwardAndRemember env cache messages single original) := by
  have hall : Answers env answer cache₀ (!single) messages
      (forwardAll env cache messages single original) := by
    have hcall := answers_call cache₀ hpos (original.getD (bodyOf messages single))
      (remember env.later cache messages
        (env.respond 0 (original.getD (bodyOf messages single))))
    rw [hmessages, hbatch] at hcall
    exact hcall
  unfold forwardAndRemember
  split
  · next lone =>
      split
      · next method hread => exact forwardLone_answers hpos hsub hread hmessages hbatch
      · exact hall
  · exact hall

/-- The payload that goes untouched. -/
theorem pass_answers (hpos : Positional env answer) (payload : Json) :
    Answers env answer cache (isBatch payload) (messagesOf payload) (pass env cache payload) :=
  answers_call cache hpos payload cache

end Forwarding

theorem length_messagesOf {payload : Json} (h : isBatch payload = false) :
    (messagesOf payload).length = 1 := by
  cases payload with
  | arr batch => cases h
  | null => rfl
  | bool b => rfl
  | num n => rfl
  | str s => rfl
  | obj fields => rfl

/-- Answers to the rest, put back in their places. -/
theorem mixed_answers {env : Env} {answer : Nat → Nat → Json → Answer} {cache : MicroCache}
    {batch : List Json} {split : Split} {res : Fetched}
    (hanswered : List.Forall₂ (fun m a => ∀ r, a = some r → IsHere env.chainId env.now cache m r)
      batch split.answered)
    (hforward : split.forward = unanswered batch split.answered)
    (hindex : split.forwardIndex = holes 0 split.answered)
    (hkept : split.forward.filter (isUncacheable env.chainId) =
      batch.filter (isUncacheable env.chainId))
    (hres : Answers env answer cache true split.forward res) :
    Answers env answer cache true batch (mixed split res) := by
  obtain ⟨⟨replies, hreply, hreplies⟩, hsent⟩ := hres
  have hmixed : mixed split res =
      { res with
        reply := some (.arr (written (merge split.answered split.forwardIndex replies))) } := by
    simp only [mixed, hreply, assemble, if_true]
  rw [hmixed]
  refine ⟨⟨_, rfl, ?_⟩, hsent.trans hkept⟩
  rw [hindex, merge_eq_fill]
  rw [hforward] at hreplies
  have hfilled := forall₂_fill hanswered hreplies
  refine hfilled.imp fun m r h => ?_
  rcases h with hhere | hentry
  · exact hhere.isEntry _
  · exact hentry

def sampleMessage (method : String) (id : Nat) : Json :=
  .obj [("method", .str method), ("id", .num (Numeral.ofNat id))]

/-- An origin that answers with the number of the call. -/
def sampleAnswer (call _ : Nat) (_ : Json) : Answer := .result (some (.num (Numeral.ofNat call)))

def sampleEnv : Env where
  chainId := 4663
  allowAnon := true
  keyed := false
  now := 0
  later := 100
  inflight := fun _ => none
  respond := fun call body => some (originReply sampleAnswer call body)

end EdgeWorker

end Ordo
