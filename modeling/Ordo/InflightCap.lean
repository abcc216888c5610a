import Mathlib.Data.List.Basic
import Mathlib.Data.List.Nodup
import Mathlib.Logic.Function.Basic
import Mathlib.Logic.Relation
import Mathlib.Tactic.Common
import Ordo.Numbered

/-!
# What one client keeps in flight

A client has a number of slots.  A request above it waits for one of the client's own to
finish, and is refused when none does in time.  A slot that is released while somebody waits
is handed on and the count stays, so that a request that arrives before the wake-up finds
no slot free.

1.  `fair_run` — the counts are the slots that are out, whoever waits is in the queue of the
    key and has a timer, and a key has a queue only while all its slots are out;
2.  `moves_run` — what may become of a request;
3.  `cap_holds` — what follows of any run.
-/

namespace Ordo

namespace InflightCap

/-- Where a request is.  Its promise is settled before it goes on. -/
inductive Phase where
  | waiting
  | resolved (got : Bool)
  | holding
  | released
  | refused
  | unlimited
  deriving DecidableEq

structure Request (Key : Type*) where
  key : Key
  phase : Phase
  deriving DecidableEq

/-- Requests are numbered as they arrive. -/
structure State (Key : Type*) where
  counts : Key → Option Nat
  waiters : Key → Option (List Nat)
  timers : List Nat
  requests : List (Request Key)

inductive Event (Key : Type*) where
  | acquire (key : Key)
  | timeout (id : Nat)
  | resume (id : Nat)
  | release (id : Nat)

section Promise

variable {Key : Type*} (s : State Key)

def inflight (key : Key) : Nat := (s.counts key).getD 0

def queue (key : Key) : List Nat := (s.waiters key).getD []

def become (id : Nat) (key : Key) (phase : Phase) : State Key :=
  { s with requests := s.requests.set id ⟨key, phase⟩ }

def clearTimeout (id : Nat) : State Key := { s with timers := s.timers.filter (· ≠ id) }

/-- A promise settles once. -/
def resolve (id : Nat) (got : Bool) : State Key :=
  match s.requests[id]? with
  | some ⟨key, .waiting⟩ => become s id key (.resolved got)
  | _ => s

/-- The promise has settled: the release function, or null. -/
def resume (id : Nat) : State Key :=
  match s.requests[id]? with
  | some ⟨key, .resolved true⟩ => become s id key .holding
  | some ⟨key, .resolved false⟩ => become s id key .refused
  | _ => s

end Promise

section Cap

variable {Key : Type*} [DecidableEq Key] (max : Nat) (s : State Key)

/-- A request has a slot: it holds it, or has been handed it and has yet to go on. -/
def takes (key : Key) (r : Request Key) : Bool :=
  r.key = key ∧ (r.phase = .holding ∨ r.phase = .resolved true)

/-- The slots of a key that are out. -/
def granted (key : Key) : Nat := s.requests.countP (takes key)

def setCount (key : Key) (n : Nat) : State Key :=
  { s with counts := Function.update s.counts key (some n) }

/-- A queue that is empty is deleted. -/
def setWaiters (key : Key) (q : List Nat) : State Key :=
  { s with waiters := Function.update s.waiters key (if q = [] then none else some q) }

/-- A request waits, with a timer, behind those of its key. -/
def enqueue (key : Key) : State Key :=
  { s with
    waiters := Function.update s.waiters key (some (queue s key ++ [s.requests.length]))
    timers := s.timers ++ [s.requests.length]
    requests := s.requests ++ [⟨key, .waiting⟩] }

/-- A slot if there is one, else a place in the queue, until a timer is over. -/
def acquire (key : Key) : State Key :=
  if max = 0 then { s with requests := s.requests ++ [⟨key, .unlimited⟩] }
  else if inflight s key < max then
    { setCount s key (inflight s key + 1) with
      requests := s.requests ++ [⟨key, .holding⟩] }
  else enqueue s key

/-- The timer of a request is over. -/
def timeout (id : Nat) : State Key :=
  if id ∈ s.timers then
    match s.requests[id]? with
    | some r =>
        match s.waiters r.key with
        | some list => resolve (setWaiters (clearTimeout s id) r.key (list.erase id)) id false
        | none => resolve (clearTimeout s id) id false
    | none => s
  else s

/-- With nobody waiting the slot is free again, and a count of zero is deleted. -/
def free (key : Key) : State Key :=
  let m := (s.counts key).getD 1 - 1
  if m = 0 then { s with counts := Function.update s.counts key none } else setCount s key m

/-- The slot passes to the longest waiter, if any, and the count stays. -/
def pass (key : Key) : State Key :=
  match s.waiters key with
  | some (next :: q) => resolve (clearTimeout (setWaiters s key q) next) next true
  | some [] => free (setWaiters s key []) key
  | none => free s key

/-- The release function of a request, which works once. -/
def release (id : Nat) : State Key :=
  match s.requests[id]? with
  | some ⟨key, .holding⟩ => pass (become s id key .released) key
  | _ => s

def step : Event Key → State Key
  | .acquire key => acquire max s key
  | .timeout id => timeout s id
  | .resume id => resume s id
  | .release id => release s id

def init : State Key := ⟨fun _ => none, fun _ => none, [], []⟩

def run (es : List (Event Key)) : State Key := es.foldl (step max) init

end Cap

/-! ### What may become of a request -/

/-- A request is handed a slot or is timed out, and goes on accordingly. -/
inductive Moves : Phase → Phase → Prop
  | handed : Moves .waiting (.resolved true)
  | timedOut : Moves .waiting (.resolved false)
  | granted : Moves (.resolved true) .holding
  | refused : Moves (.resolved false) .refused
  | released : Moves .holding .released

/-- It stays where it is, or moves on. -/
def Goes (p p' : Phase) : Prop := Relation.ReflTransGen Moves p p'

section Goes

variable {Key : Type*} {max : Nat} {s s' : State Key} {id : Nat} {r : Request Key}

/-- Each request is still there, and has gone on. -/
def Onward (s s' : State Key) : Prop :=
  ∀ (id : Nat) (key : Key) (phase : Phase), s.requests[id]? = some ⟨key, phase⟩ →
    ∃ phase', s'.requests[id]? = some ⟨key, phase'⟩ ∧ Goes phase phase'

theorem Onward.of_requests (h : s'.requests = s.requests) : Onward s s' := by
  intro id key phase hid
  rw [h]
  exact ⟨phase, hid, Relation.ReflTransGen.refl⟩

theorem Onward.trans {s₁ s₂ s₃ : State Key} (h : Onward s₁ s₂) (h' : Onward s₂ s₃) :
    Onward s₁ s₃ := by
  intro id key phase hid
  obtain ⟨phase', hid', hgoes⟩ := h id key phase hid
  obtain ⟨phase'', hid'', hgoes'⟩ := h' id key phase' hid'
  exact ⟨phase'', hid'', hgoes.trans hgoes'⟩

theorem onward_become {key : Key} {p p' : Phase} (hid : s.requests[id]? = some ⟨key, p⟩)
    (hmoves : Moves p p') : Onward s (become s id key p') := by
  intro other key' phase hother
  rw [become, Numbered.lookup_set hid]
  by_cases hsame : other = id
  · subst hsame
    rw [hid] at hother
    cases hother
    exact ⟨p', if_pos rfl, Relation.ReflTransGen.single hmoves⟩
  · exact ⟨phase, (if_neg hsame).trans hother, Relation.ReflTransGen.refl⟩

theorem onward_resolve (h : s'.requests = s.requests) (id : Nat) (got : Bool) :
    Onward s (resolve s' id got) := by
  refine (Onward.of_requests h).trans ?_
  unfold resolve
  split
  next key hid =>
    cases got with
    | true => exact onward_become hid .handed
    | false => exact onward_become hid .timedOut
  next => exact Onward.of_requests rfl

theorem onward_append {key : Key} {p : Phase} (h : s'.requests = s.requests ++ [⟨key, p⟩]) :
    Onward s s' := by
  intro id key' phase hid
  have hlt := Numbered.lt_of_lookup hid
  rw [h, List.getElem?_append_left hlt]
  exact ⟨phase, hid, Relation.ReflTransGen.refl⟩

variable [DecidableEq Key]

theorem free_requests (s : State Key) (key : Key) : (free s key).requests = s.requests := by
  simp only [free]
  split
  · rfl
  · rfl

theorem onward_pass (s : State Key) (key : Key) : Onward s (pass s key) := by
  unfold pass
  split
  next next q hwaiters => exact onward_resolve (by rfl) next true
  next => exact Onward.of_requests (free_requests _ _)
  next => exact Onward.of_requests (free_requests _ _)

/-- **What a step may make of a request.** -/
theorem onward_step (s : State Key) (e : Event Key) : Onward s (step max s e) := by
  cases e with
  | acquire key =>
      simp only [step, acquire]
      split
      · exact onward_append rfl
      split
      · exact onward_append rfl
      · exact onward_append rfl
  | timeout id =>
      simp only [step, timeout]
      split
      · split
        · split
          · exact onward_resolve (by rfl) id false
          · exact onward_resolve (by rfl) id false
        · exact Onward.of_requests rfl
      · exact Onward.of_requests rfl
  | resume id =>
      simp only [step, resume]
      split
      next hid => exact onward_become hid .granted
      next hid => exact onward_become hid .refused
      next => exact Onward.of_requests rfl
  | release id =>
      simp only [step, release]
      split
      next key hid => exact (onward_become hid .released).trans (onward_pass _ key)
      next => exact Onward.of_requests rfl

theorem moves_run (es : List (Event Key)) (s : State Key) :
    Onward s (es.foldl (step max) s) := by
  induction es generalizing s with
  | nil => exact Onward.of_requests rfl
  | cons e es ih => exact (onward_step s e).trans (ih _)

theorem Goes.of_resolved_false {p : Phase} (h : Goes (.resolved false) p) :
    p = .resolved false ∨ p = .refused := by
  induction h with
  | refl => exact Or.inl rfl
  | tail _ hmoves ih =>
      rcases ih with rfl | rfl
      · cases hmoves
        exact Or.inr rfl
      · cases hmoves

theorem Goes.of_refused {p : Phase} (h : Goes .refused p) : p = .refused := by
  induction h with
  | refl => rfl
  | tail _ hmoves ih =>
      subst ih
      cases hmoves

theorem Goes.of_released {p : Phase} (h : Goes .released p) : p = .released := by
  induction h with
  | refl => rfl
  | tail _ hmoves ih =>
      subst ih
      cases hmoves

end Goes

/-! ### The queues -/

section Queues

variable {Key : Type*} {s : State Key} {id : Nat} {key : Key} {p q : Phase}

theorem lookup_become (hid : s.requests[id]? = some ⟨key, p⟩) (other : Nat) :
    (become s id key q).requests[other]? =
      if other = id then some ⟨key, q⟩ else s.requests[other]? :=
  Numbered.lookup_set hid other

theorem resolve_eq (hid : s.requests[id]? = some ⟨key, .waiting⟩) (got : Bool) :
    resolve s id got = become s id key (.resolved got) := by
  rw [resolve, hid]

theorem lookup_resolve_ne (s : State Key) {id other : Nat} (got : Bool) (h : other ≠ id) :
    (resolve s id got).requests[other]? = s.requests[other]? := by
  unfold resolve
  split
  next hid => rw [lookup_become hid, if_neg h]
  next => rfl

/-- Whoever waits is in the queue of the key, in the order of arrival, and has a timer. -/
structure Queued (s : State Key) : Prop where
  nonempty : ∀ key, s.waiters key ≠ some []
  sorted : ∀ key, (queue s key).Pairwise (· < ·)
  queued : ∀ (key : Key) (id : Nat), id ∈ queue s key ↔ s.requests[id]? = some ⟨key, .waiting⟩
  timed : ∀ id : Nat, id ∈ s.timers ↔ ∃ key, s.requests[id]? = some ⟨key, .waiting⟩

/-- A request that does not wait goes on. -/
theorem Queued.become (h : Queued s) (hid : s.requests[id]? = some ⟨key, p⟩)
    (hp : p ≠ .waiting) (hq : q ≠ .waiting) : Queued (become s id key q) := by
  have hsame : ∀ (other : Nat) (key' : Key),
      (InflightCap.become s id key q).requests[other]? = some ⟨key', .waiting⟩ ↔
        s.requests[other]? = some ⟨key', .waiting⟩ := by
    intro other key'
    rw [lookup_become hid]
    by_cases hother : other = id
    · subst hother
      rw [if_pos rfl, hid]
      simp [hp, hq]
    · rw [if_neg hother]
  refine ⟨h.nonempty, h.sorted, fun key' other => ?_, fun other => ?_⟩
  · rw [hsame]
    exact h.queued key' other
  · simp only [hsame]
    exact h.timed other

/-- A request that does not wait arrives. -/
theorem Queued.append (h : Queued s) {s' : State Key} (hwaiters : s'.waiters = s.waiters)
    (htimers : s'.timers = s.timers) (hrequests : s'.requests = s.requests ++ [⟨key, p⟩])
    (hp : p ≠ .waiting) : Queued s' := by
  have hsame : ∀ (id : Nat) (key' : Key), s'.requests[id]? = some ⟨key', .waiting⟩ ↔
      s.requests[id]? = some ⟨key', .waiting⟩ := by
    intro id key'
    rw [hrequests, Numbered.lookup_append]
    split
    next hlast =>
      rw [hlast, List.getElem?_eq_none (Nat.le_refl _)]
      simp [hp]
    next => rfl
  have hqueue : ∀ key, queue s' key = queue s key := fun key => by rw [queue, queue, hwaiters]
  refine ⟨fun key => ?_, fun key => ?_, fun key' id => ?_, fun id => ?_⟩
  · rw [hwaiters]
    exact h.nonempty key
  · rw [hqueue]
    exact h.sorted key
  · rw [hqueue, hsame]
    exact h.queued key' id
  · rw [htimers]
    simp only [hsame]
    exact h.timed id

variable [DecidableEq Key]

theorem waiters_setWaiters (s : State Key) (key : Key) (q : List Nat) (other : Key) :
    (setWaiters s key q).waiters other =
      if other = key then (if q = [] then none else some q) else s.waiters other :=
  Function.update_apply _ _ _ _

theorem queue_setWaiters (s : State Key) (key : Key) (q : List Nat) (other : Key) :
    queue (setWaiters s key q) other = if other = key then q else queue s other := by
  rw [queue, waiters_setWaiters]
  split
  next =>
    split
    next hnil => exact hnil.symm
    next => rfl
  next => rfl

theorem waiters_enqueue (s : State Key) (key other : Key) :
    (enqueue s key).waiters other =
      if other = key then some (queue s key ++ [s.requests.length]) else s.waiters other :=
  Function.update_apply _ _ _ _

theorem queue_enqueue (s : State Key) (key other : Key) :
    queue (enqueue s key) other =
      if other = key then queue s key ++ [s.requests.length] else queue s other := by
  rw [queue, waiters_enqueue]
  split
  · rfl
  · rfl

theorem lookup_enqueue (s : State Key) (key : Key) (id : Nat) :
    (enqueue s key).requests[id]? =
      if id = s.requests.length then some ⟨key, .waiting⟩ else s.requests[id]? :=
  Numbered.lookup_append id

/-- A request that has to wait arrives. -/
theorem Queued.enqueue (h : Queued s) (key : Key) : Queued (enqueue s key) := by
  have hnone : s.requests[s.requests.length]? = none := List.getElem?_eq_none (Nat.le_refl _)
  refine ⟨fun other => ?_, fun other => ?_, fun other id => ?_, fun id => ?_⟩
  · rw [waiters_enqueue]
    split
    · exact fun hnil => List.concat_ne_nil _ _ (Option.some.inj hnil)
    · exact h.nonempty other
  · rw [queue_enqueue]
    split
    next =>
      refine List.pairwise_append.mpr ⟨h.sorted key, List.pairwise_singleton _ _, ?_⟩
      intro id hid last hlast
      rw [List.mem_singleton.mp hlast]
      exact Numbered.lt_of_lookup ((h.queued key id).mp hid)
    next => exact h.sorted other
  · have hqueued := h.queued other id
    rw [queue_enqueue, lookup_enqueue]
    by_cases hlast : id = s.requests.length
    · -- the one that arrives is in the queue of its own key and in no other
      rw [hlast, hnone] at hqueued
      have hout : s.requests.length ∉ queue s other := fun hin => by cases hqueued.mp hin
      rw [if_pos hlast, hlast]
      by_cases hother : other = key
      · simp [hother]
      · simp [hother, hout, Ne.symm hother]
    · rw [if_neg hlast, ← hqueued]
      split
      next hother => rw [hother, List.mem_append, List.mem_singleton, or_iff_left hlast]
      next => rfl
  · change id ∈ s.timers ++ [s.requests.length] ↔ _
    simp only [lookup_enqueue, List.mem_append, List.mem_singleton]
    split
    next hlast => simp [hlast]
    next hlast =>
      rw [or_iff_left hlast]
      exact h.timed id

/-- A waiter leaves the queue, with its timer. -/
theorem Queued.leave (h : Queued s) (hid : s.requests[id]? = some ⟨key, .waiting⟩)
    (got : Bool) :
    Queued (resolve (setWaiters (clearTimeout s id) key ((queue s key).erase id)) id got) := by
  rw [resolve_eq (s := setWaiters (clearTimeout s id) key ((queue s key).erase id)) hid]
  have hlookup := lookup_become (q := .resolved got)
    (s := setWaiters (clearTimeout s id) key ((queue s key).erase id)) hid
  refine ⟨fun other => ?_, fun other => ?_, fun other id' => ?_, fun id' => ?_⟩
  · change (setWaiters (clearTimeout s id) key _).waiters other ≠ some []
    rw [waiters_setWaiters]
    split
    · split
      next => exact Option.some_ne_none _ |>.symm
      next hnonempty => exact fun hnil => hnonempty (Option.some.inj hnil)
    · exact h.nonempty other
  · have hsorted := h.sorted
    change (queue (setWaiters (clearTimeout s id) key _) other).Pairwise _
    rw [queue_setWaiters]
    split
    next => exact (hsorted key).sublist List.erase_sublist
    next => exact hsorted other
  · have hqueued := h.queued
    change id' ∈ queue (setWaiters (clearTimeout s id) key _) other ↔ _
    rw [queue_setWaiters, hlookup]
    by_cases hother : other = key
    · subst hother
      have hnodup : (queue s other).Nodup := (h.sorted other).imp Nat.ne_of_lt
      rw [if_pos rfl, hnodup.mem_erase_iff, hqueued]
      by_cases hid' : id' = id
      · simp [hid']
      · rw [if_neg hid']
        exact and_iff_right hid'
    · rw [if_neg hother]
      change id' ∈ queue s other ↔ _
      rw [hqueued]
      by_cases hid' : id' = id
      · subst hid'
        simp [hid, Ne.symm hother]
      · rw [if_neg hid']
        rfl
  · change id' ∈ s.timers.filter (· ≠ id) ↔ _
    rw [List.mem_filter, h.timed]
    simp only [hlookup]
    by_cases hid' : id' = id
    · simp [hid']
    · simp only [if_neg hid']
      simp [hid', setWaiters, clearTimeout]

end Queues

/-! ### The counts -/

section Counts

variable {Key : Type*} [DecidableEq Key] {max : Nat} {s s' : State Key} {id : Nat} {key : Key}
  {p q : Phase}

/-- The count of a key is the number of its slots that are out, the cap at most, and the cap
itself while somebody waits. -/
structure Counted (max : Nat) (s : State Key) : Prop where
  counted : ∀ key, inflight s key = granted s key
  within : ∀ key, inflight s key ≤ max
  nonzero : ∀ key, s.counts key ≠ some 0
  full : ∀ key, s.waiters key ≠ none → inflight s key = max

theorem granted_become (hid : s.requests[id]? = some ⟨key, p⟩) (other : Key) :
    granted (become s id key q) other + (if takes other ⟨key, p⟩ then 1 else 0) =
      granted s other + if takes other ⟨key, q⟩ then 1 else 0 :=
  Numbered.countP_set_add (takes other) hid

theorem granted_append (h : s'.requests = s.requests ++ [⟨key, p⟩]) (other : Key) :
    granted s' other = granted s other + if takes other ⟨key, p⟩ then 1 else 0 := by
  rw [granted, granted, h, List.countP_append, List.countP_singleton]

/-- Nothing that counts has changed. -/
theorem Counted.of_same (h : Counted max s) (hcounts : s'.counts = s.counts)
    (hgranted : ∀ key, granted s' key = granted s key)
    (hwaiters : ∀ key, s'.waiters key ≠ none → s.waiters key ≠ none) : Counted max s' := by
  have hinflight : ∀ key, inflight s' key = inflight s key := by
    intro key
    rw [inflight, inflight, hcounts]
  refine ⟨fun key => ?_, fun key => ?_, fun key => ?_, fun key hsome => ?_⟩
  · rw [hinflight, hgranted]
    exact h.counted key
  · rw [hinflight]
    exact h.within key
  · rw [hcounts]
    exact h.nonzero key
  · rw [hinflight]
    exact h.full key (hwaiters key hsome)

theorem counts_setCount (s : State Key) (key : Key) (n : Nat) (other : Key) :
    (setCount s key n).counts other = if other = key then some n else s.counts other :=
  Function.update_apply _ _ _ _

theorem inflight_setCount (s : State Key) (key : Key) (n : Nat) (other : Key) :
    inflight (setCount s key n) other = if other = key then n else inflight s other := by
  rw [inflight, counts_setCount]
  split
  · rfl
  · rfl

theorem takes_key {r : Request Key} {other : Key} (h : r.key ≠ other) : takes other r = false := by
  simp [takes, h]

/-- **A slot is taken.** -/
theorem Counted.take (h : Counted max s) (hfree : inflight s key < max)
    (hcounts : s'.counts = (setCount s key (inflight s key + 1)).counts)
    (hwaiters : s'.waiters = s.waiters)
    (hrequests : s'.requests = s.requests ++ [⟨key, .holding⟩]) : Counted max s' := by
  have hinflight : ∀ other, inflight s' other =
      if other = key then inflight s key + 1 else inflight s other := by
    intro other
    rw [← inflight_setCount, inflight, hcounts]
    rfl
  refine ⟨fun other => ?_, fun other => ?_, fun other => ?_, fun other hsome => ?_⟩
  · rw [hinflight, granted_append hrequests, ← h.counted]
    split
    next hother =>
      subst hother
      simp [takes]
    next hother => rw [takes_key (Ne.symm hother)]; rfl
  · rw [hinflight]
    split
    · exact hfree
    · exact h.within other
  · have hnonzero := h.nonzero other
    rw [hcounts, counts_setCount]
    split
    · exact fun hzero => Nat.succ_ne_zero _ (Option.some.inj hzero)
    · exact hnonzero
  · rw [hwaiters] at hsome
    have hfull := h.full other hsome
    rw [hinflight]
    split
    next hother =>
      rw [hother] at hfull
      exact absurd hfull (Nat.ne_of_lt hfree)
    next => exact hfull

/-- A slot that is out while it is counted. -/
theorem Counted.some_count (h : Counted max s) (hid : s.requests[id]? = some ⟨key, .holding⟩) :
    ∃ n, s.counts key = some (n + 1) := by
  have hpos : 0 < granted s key :=
    Numbered.countP_pos_of_lookup hid (by simp [takes])
  rw [← h.counted, inflight] at hpos
  cases hcount : s.counts key with
  | none => rw [hcount] at hpos; cases hpos
  | some n =>
      rw [hcount] at hpos
      cases n with
      | zero => cases hpos
      | succ n => exact ⟨n, rfl⟩

/-- A holder that lets its slot go. -/
theorem granted_release (hid : s.requests[id]? = some ⟨key, .holding⟩) (other : Key) :
    granted (become s id key .released) other + (if other = key then 1 else 0) =
      granted s other := by
  have hbecome := granted_become (q := .released) hid other
  have hreleased : takes other ⟨key, .released⟩ = false := by simp [takes]
  have hholding : takes other ⟨key, .holding⟩ = decide (other = key) := by
    simp [takes, eq_comm]
  rw [hreleased, hholding] at hbecome
  simpa using hbecome

/-- **A slot is free again.** -/
theorem Counted.free (h : Counted max s) (hid : s.requests[id]? = some ⟨key, .holding⟩)
    (hnobody : s.waiters key = none) :
    Counted max (free (become s id key .released) key) := by
  obtain ⟨n, hcount⟩ := h.some_count hid
  have hcounts : (InflightCap.free (become s id key .released) key).counts =
      Function.update s.counts key (if n = 0 then none else some n) := by
    have hbecome : (become s id key .released).counts key = some (n + 1) := hcount
    simp only [InflightCap.free, hbecome, Option.getD_some, Nat.add_sub_cancel]
    split
    · rfl
    · rfl
  have hinflight : ∀ other, inflight (InflightCap.free (become s id key .released) key) other +
      (if other = key then 1 else 0) = inflight s other := by
    intro other
    rw [inflight, inflight, hcounts, Function.update_apply]
    split
    next hother =>
      subst hother
      rw [hcount]
      split
      next hzero => rw [hzero]; rfl
      next => rfl
    next => rfl
  have hgranted : ∀ other, granted (InflightCap.free (become s id key .released) key) other =
      granted (become s id key .released) other := by
    intro other
    rw [granted, free_requests]
    rfl
  have hwaiters : (InflightCap.free (become s id key .released) key).waiters = s.waiters := by
    simp only [InflightCap.free]
    split
    · rfl
    · rfl
  refine ⟨fun other => ?_, fun other => ?_, fun other => ?_, fun other hsome => ?_⟩
  · have hleft := hinflight other
    have hright := granted_release hid other
    rw [hgranted]
    rw [h.counted, ← hright] at hleft
    exact Nat.add_right_cancel hleft
  · exact Nat.le_trans (Nat.le_add_right _ _) ((hinflight other).symm ▸ h.within other)
  · have hnonzero := h.nonzero other
    rw [hcounts, Function.update_apply]
    split
    · split
      next => exact (Option.some_ne_none _).symm
      next hn => exact fun hzero => hn (Option.some.inj hzero)
    · exact hnonzero
  · rw [hwaiters] at hsome
    have hother : other ≠ key := by
      rintro rfl
      exact hsome hnobody
    have hsame := hinflight other
    rw [if_neg hother, Nat.add_zero] at hsame
    rw [hsame]
    exact h.full other hsome

end Counts

/-! ### One step, and the run -/

section Fair

variable {Key : Type*} [DecidableEq Key] {max : Nat} {s : State Key} {id : Nat} {key : Key}

structure Fair (max : Nat) (s : State Key) : Prop where
  queued : Queued s
  counted : Counted max s

theorem Fair.acquire (h : Fair max s) (hmax : 0 < max) (key : Key) :
    Fair max (acquire max s key) := by
  unfold InflightCap.acquire
  split
  next hzero => exact absurd hzero (Nat.ne_of_gt hmax)
  next =>
    split
    next hfree =>
      exact ⟨h.queued.append rfl rfl rfl Phase.noConfusion, h.counted.take hfree rfl rfl rfl⟩
    next hnone =>
      refine ⟨h.queued.enqueue key, ?_⟩
      have hfull : inflight s key = max :=
        Nat.le_antisymm (h.counted.within key) (Nat.le_of_not_lt hnone)
      have hgranted : ∀ other, granted (enqueue s key) other = granted s other := by
        intro other
        have happend : granted (enqueue s key) other =
            granted s other + if takes other ⟨key, .waiting⟩ then 1 else 0 :=
          granted_append rfl other
        rw [happend]
        simp [takes]
      refine ⟨fun other => ?_, h.counted.within, h.counted.nonzero, fun other hsome => ?_⟩
      · rw [hgranted]
        exact h.counted.counted other
      · rw [waiters_enqueue] at hsome
        change inflight s other = max
        split at hsome
        next hother => rw [hother, hfull]
        next => exact h.counted.full other hsome

/-- A waiter has a place in a queue. -/
theorem Fair.waiters (h : Fair max s) (hid : s.requests[id]? = some ⟨key, .waiting⟩) :
    s.waiters key = some (queue s key) := by
  have hin := (h.queued.queued key id).mpr hid
  unfold queue at hin ⊢
  cases hwaiters : s.waiters key with
  | none => rw [hwaiters] at hin; cases hin
  | some q => rfl

/-- A waiter that leaves with its slot counted, or with none. -/
theorem granted_resolve {s' : State Key} (hrequests : s'.requests = s.requests)
    (hid : s.requests[id]? = some ⟨key, .waiting⟩) (got : Bool) (other : Key) :
    granted (resolve s' id got) other = granted s other + if got ∧ other = key then 1 else 0 := by
  have hid' : s'.requests[id]? = some ⟨key, .waiting⟩ := by
    rw [hrequests]
    exact hid
  have hbecome := granted_become (q := .resolved got) hid' other
  have hsame : granted s' other = granted s other := by rw [granted, granted, hrequests]
  have hwaiting : takes other ⟨key, .waiting⟩ = false := by simp [takes]
  have hresolved : takes other ⟨key, .resolved got⟩ = decide (got ∧ other = key) := by
    simp [takes, eq_comm, and_comm]
  rw [hwaiting, hresolved, hsame] at hbecome
  rw [resolve_eq hid']
  simpa using hbecome

theorem Fair.timeout (h : Fair max s) (id : Nat) : Fair max (timeout s id) := by
  unfold InflightCap.timeout
  split
  next htimer =>
    obtain ⟨key, hid⟩ := (h.queued.timed id).mp htimer
    have hwaiters := h.waiters hid
    simp only [hid, hwaiters]
    refine ⟨h.queued.leave hid false, ?_⟩
    have hresolve := resolve_eq
      (s := setWaiters (clearTimeout s id) key ((queue s key).erase id)) hid false
    refine h.counted.of_same (by rw [hresolve]; rfl) (fun other => ?_) fun other hsome => ?_
    · refine (granted_resolve (s := s) (by rfl) hid false other).trans ?_
      simp
    · rw [hresolve] at hsome
      change (setWaiters (clearTimeout s id) key _).waiters other ≠ none at hsome
      rw [waiters_setWaiters] at hsome
      split at hsome
      next hother =>
        rw [hother, hwaiters]
        exact Option.some_ne_none _
      next => exact hsome
  next => exact h

theorem Fair.resume (h : Fair max s) (id : Nat) : Fair max (resume s id) := by
  unfold InflightCap.resume
  split
  next key hid =>
    refine ⟨h.queued.become hid Phase.noConfusion Phase.noConfusion, ?_⟩
    refine h.counted.of_same rfl (fun other => ?_) fun _ hsome => hsome
    have hbecome := granted_become (q := .holding) hid other
    have hsame : takes other ⟨key, .resolved true⟩ = takes other ⟨key, .holding⟩ := by
      simp [takes]
    rw [hsame] at hbecome
    exact Nat.add_right_cancel hbecome
  next key hid =>
    refine ⟨h.queued.become hid Phase.noConfusion Phase.noConfusion, ?_⟩
    refine h.counted.of_same rfl (fun other => ?_) fun _ hsome => hsome
    have hbecome := granted_become (q := .refused) hid other
    have hsame : takes other ⟨key, .resolved false⟩ = takes other ⟨key, .refused⟩ := by
      simp [takes]
    rw [hsame] at hbecome
    exact Nat.add_right_cancel hbecome
  next => exact h

/-- What a slot is passed to: the head of the queue, which waits. -/
theorem Fair.head (h : Fair max s) {next : Nat} {q : List Nat}
    (hwaiters : s.waiters key = some (next :: q)) :
    s.requests[next]? = some ⟨key, .waiting⟩ ∧ queue s key = next :: q := by
  have hqueue : queue s key = next :: q := by rw [queue, hwaiters]; rfl
  refine ⟨(h.queued.queued key next).mp ?_, hqueue⟩
  rw [hqueue]
  exact List.mem_cons_self

theorem Fair.release (h : Fair max s) (id : Nat) : Fair max (release s id) := by
  unfold InflightCap.release
  split
  next key hid =>
    have hbecome : Queued (become s id key .released) :=
      h.queued.become hid Phase.noConfusion Phase.noConfusion
    unfold pass
    split
    next next q hwaiters =>
      obtain ⟨hnext, hqueue⟩ := h.head hwaiters
      have hne : next ≠ id := by
        rintro rfl
        rw [hid] at hnext
        cases hnext
      have hwaits : (become s id key .released).requests[next]? = some ⟨key, .waiting⟩ := by
        rw [lookup_become hid, if_neg hne]
        exact hnext
      have hrest : (queue (become s id key .released) key).erase next = q := by
        change (queue s key).erase next = q
        rw [hqueue, List.erase_cons_head]
      have hleave := hbecome.leave hwaits true
      rw [hrest] at hleave
      refine ⟨hleave, ?_⟩
      have hresolve := resolve_eq
        (s := clearTimeout (setWaiters (become s id key .released) key q) next) hwaits true
      refine h.counted.of_same (by rw [hresolve]; rfl) (fun other => ?_) fun other hsome => ?_
      · have hgranted := granted_release hid other
        refine (granted_resolve (s := become s id key .released) (by rfl) hwaits true _).trans ?_
        rw [← hgranted]
        simp
      · rw [hresolve] at hsome
        change (setWaiters (become s id key .released) key q).waiters other ≠ none at hsome
        rw [waiters_setWaiters] at hsome
        split at hsome
        next hother =>
          rw [hother]
          exact fun hnone => Option.some_ne_none _ (hwaiters.symm.trans hnone)
        next => exact hsome
    next hnil => exact absurd hnil (h.queued.nonempty key)
    next hnobody =>
      refine ⟨?_, h.counted.free hid hnobody⟩
      simp only [free]
      split
      · exact ⟨hbecome.nonempty, hbecome.sorted, hbecome.queued, hbecome.timed⟩
      · exact ⟨hbecome.nonempty, hbecome.sorted, hbecome.queued, hbecome.timed⟩
  next => exact h

theorem Fair.step (h : Fair max s) (hmax : 0 < max) (e : Event Key) : Fair max (step max s e) := by
  cases e with
  | acquire key => exact h.acquire hmax key
  | timeout id => exact h.timeout id
  | resume id => exact h.resume id
  | release id => exact h.release id

theorem fair_init : Fair max (init : State Key) where
  queued := by
    refine ⟨fun _ => (Option.some_ne_none _).symm, fun _ => List.Pairwise.nil, fun key id => ?_,
      fun id => ?_⟩
    · simp [init, queue]
    · simp [init]
  counted := ⟨fun _ => rfl, fun _ => Nat.zero_le _, fun _ => (Option.some_ne_none _).symm,
    fun _ hsome => absurd rfl hsome⟩

theorem fair_run (hmax : 0 < max) (es : List (Event Key)) : Fair max (run max es) := by
  rw [run]
  have hstart : Fair max (init : State Key) := fair_init
  generalize (init : State Key) = s at hstart
  induction es generalizing s with
  | nil => exact hstart
  | cons e es ih => exact ih _ (hstart.step hmax e)

/-- Only a release hands a waiter its slot, and it is then the head of its queue. -/
theorem head_of_served (e : Event Key) (hid : s.requests[id]? = some ⟨key, .waiting⟩)
    (hserved : (InflightCap.step max s e).requests[id]? = some ⟨key, .resolved true⟩) :
    ∃ key' q, s.waiters key' = some (id :: q) := by
  have hlt := Numbered.lt_of_lookup hid
  have hwaiting : s.requests[id]? ≠ some ⟨key, .resolved true⟩ := by simp [hid]
  cases e with
  | acquire other =>
      have hkept : (acquire max s other).requests[id]? = s.requests[id]? := by
        unfold acquire
        split
        · exact List.getElem?_append_left hlt
        split
        · exact List.getElem?_append_left hlt
        · exact List.getElem?_append_left hlt
      exact absurd (hkept.symm.trans hserved) hwaiting
  | timeout t =>
      have hno : ∀ s' : State Key, s'.requests = s.requests →
          (resolve s' t false).requests[id]? ≠ some ⟨key, .resolved true⟩ := by
        intro s' hrequests
        have hid' : s'.requests[id]? = some ⟨key, .waiting⟩ := by
          rw [hrequests]
          exact hid
        by_cases ht : id = t
        · subst ht
          rw [resolve_eq hid', lookup_become hid', if_pos rfl]
          simp
        · rw [lookup_resolve_ne s' false ht, hid']
          simp
      simp only [step, timeout] at hserved
      split at hserved
      · split at hserved
        · split at hserved
          · exact absurd hserved (hno _ rfl)
          · exact absurd hserved (hno _ rfl)
        · exact absurd hserved hwaiting
      · exact absurd hserved hwaiting
  | resume t =>
      simp only [step, resume] at hserved
      split at hserved
      next key' ht =>
        have hne : id ≠ t := by
          rintro rfl
          rw [hid] at ht
          cases ht
        rw [lookup_become ht, if_neg hne] at hserved
        exact absurd hserved hwaiting
      next key' ht =>
        have hne : id ≠ t := by
          rintro rfl
          rw [hid] at ht
          cases ht
        rw [lookup_become ht, if_neg hne] at hserved
        exact absurd hserved hwaiting
      next => exact absurd hserved hwaiting
  | release t =>
      simp only [step, release] at hserved
      split at hserved
      next key' ht =>
        have hne : id ≠ t := by
          rintro rfl
          rw [hid] at ht
          cases ht
        have hkept : (become s t key' .released).requests[id]? = s.requests[id]? := by
          rw [lookup_become ht, if_neg hne]
        rw [← hkept] at hwaiting
        unfold pass at hserved
        split at hserved
        next next q hwaiters =>
          by_cases hnext : id = next
          · subst hnext
            exact ⟨key', q, hwaiters⟩
          · rw [lookup_resolve_ne _ true hnext] at hserved
            exact absurd hserved hwaiting
        next =>
          rw [free_requests] at hserved
          exact absurd hserved hwaiting
        next =>
          rw [free_requests] at hserved
          exact absurd hserved hwaiting
      next => exact absurd hserved hwaiting

/-- **The longest waiter is served.** -/
theorem Fair.served (h : Fair max s) (e : Event Key)
    (hid : s.requests[id]? = some ⟨key, .waiting⟩)
    (hserved : (InflightCap.step max s e).requests[id]? = some ⟨key, .resolved true⟩)
    {other : Nat} (hother : s.requests[other]? = some ⟨key, .waiting⟩) : id ≤ other := by
  obtain ⟨key', q, hwaiters⟩ := head_of_served e hid hserved
  obtain ⟨hhead, hqueue⟩ := h.head hwaiters
  rw [hid] at hhead
  cases hhead
  have hin := (h.queued.queued key other).mpr hother
  have hsorted := h.queued.sorted key
  rw [hqueue] at hin hsorted
  rcases List.mem_cons.mp hin with rfl | hin
  · exact Nat.le_refl _
  · exact Nat.le_of_lt ((List.pairwise_cons.mp hsorted).1 other hin)

end Fair

end InflightCap

end Ordo
