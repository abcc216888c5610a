import Mathlib.Data.List.Nodup
import Ordo.HeadWatcher

/-!
# Who is subscribed to what

The filters of log subscriptions, and the hub: the subscriptions in the order in which
they were made, with a count of each kind.  The counts decide whether the watcher runs
and whether it asks for logs, so the hub carries that they are right.
-/

namespace Ordo

inductive Kind where
  | newHeads
  | logs
  deriving DecidableEq

structure RawLog where
  address : String
  topics : List String
  rest : List (String × Json) := []

/-- An `eth_getLogs`-shaped filter. -/
structure LogFilter where
  /-- `none` means every address. -/
  address : Option (List String)
  /-- Per position: `none` is "anything here". -/
  topics : List (Option (List String))
  deriving DecidableEq

/-- One value, or one of a list of values, or anything at all. -/
def oneOf (v : Option Json) : Option (List String) :=
  match v with
  | some (.str s) => some [s.toLower]
  | some (.arr (v :: vs)) => some ((v :: vs).map (·.coerced.toLower))
  | _ => none

/-- Anything that makes no sense becomes "unconstrained" rather than an error. -/
def parseLogFilter (param : Option Json) : LogFilter where
  address := oneOf (param.bind (Json.field? "address"))
  topics :=
    match param.bind (Json.field? "topics") with
    | some (.arr topics) => (topics.take 4).map fun t => oneOf (some t)
    | _ => []

/-- A position that the filter constrains but the log does not have is a miss. -/
def topicsMatch : List String → List (Option (List String)) → Bool
  | _, [] => true
  | got, none :: wants => topicsMatch got.tail wants
  | got, some want :: wants =>
      match got.head? with
      | none => false
      | some topic => topic ≠ "" && want.contains topic.toLower && topicsMatch got.tail wants

def logMatches (log : RawLog) (f : LogFilter) : Bool :=
  (match f.address with
    | none => true
    | some want => want.contains log.address.toLower) && topicsMatch log.topics f.topics

/-- A subscription, and the socket that made it. -/
structure Entry where
  id : String
  sink : Nat
  kind : Kind
  filter : Option LogFilter
  deriving DecidableEq

def Entry.isKind (kind : Kind) (e : Entry) : Bool := e.kind = kind

/-- What a subscription is sent of some logs. -/
def Entry.pushed (e : Entry) (logs : List RawLog) : List (String × RawLog) :=
  match e.kind, e.filter with
  | .logs, some f => (logs.filter (logMatches · f)).map (e.id, ·)
  | _, _ => []

structure Hub where
  byId : List Entry := []
  heads : Nat := 0
  logs : Nat := 0
  unique : (byId.map (·.id)).Nodup := by exact List.nodup_nil
  heads_eq : heads = byId.countP (Entry.isKind .newHeads) := by rfl
  logs_eq : logs = byId.countP (Entry.isKind .logs) := by rfl

namespace Hub

variable (h : Hub)

/-- Ids are random, and a new one is nobody's. -/
def add (e : Entry) : Hub :=
  if hfresh : e.id ∉ h.byId.map (·.id) then
    { byId := h.byId ++ [e]
      heads := if e.kind = .newHeads then h.heads + 1 else h.heads
      logs := if e.kind = .newHeads then h.logs else h.logs + 1
      unique := by
        rw [List.map_append]
        exact h.unique.append (List.nodup_singleton _) (by simpa using hfresh)
      heads_eq := by
        rw [List.countP_append, ← h.heads_eq]
        cases hk : e.kind <;> simp [Entry.isKind, hk]
      logs_eq := by
        rw [List.countP_append, ← h.logs_eq]
        cases hk : e.kind <;> simp [Entry.isKind, hk] }
  else h

/-- The subscriptions that go, and those that stay. -/
def keep (stays : Entry → Bool) : Hub where
  byId := h.byId.filter stays
  heads := h.heads - (h.byId.filter fun e => !stays e).countP (Entry.isKind .newHeads)
  logs := h.logs - (h.byId.filter fun e => !stays e).countP (Entry.isKind .logs)
  unique := h.unique.sublist (List.filter_sublist.map _)
  heads_eq := by
    rw [h.heads_eq, List.countP_eq_countP_filter_add h.byId _ stays, Nat.add_sub_cancel]
  logs_eq := by
    rw [h.logs_eq, List.countP_eq_countP_filter_add h.byId _ stays, Nat.add_sub_cancel]

/-- Only the connection that made a subscription may cancel it. -/
def remove (sink : Nat) (id : String) : Bool × Hub :=
  match h.byId.find? (·.id = id) with
  | none => (false, h)
  | some e => if e.sink = sink then (true, h.keep (·.id ≠ id)) else (false, h)

/-- A socket closed: everything it held goes with it. -/
def drop (sink : Nat) : Hub := h.keep (·.sink ≠ sink)

def countOf (sink : Nat) : Nat := h.byId.countP (·.sink = sink)

def wantsHeads : Bool := 0 < h.heads

def wantsLogs : Bool := 0 < h.logs

def pushLogs (logs : List RawLog) : List (String × RawLog) := h.byId.flatMap (·.pushed logs)

end Hub

/-! ### Who is sent what -/

section Pushes

variable {logs : List RawLog} {e : Entry} {id : String}

theorem fst_of_mem_pushed {x : String × RawLog} (h : x ∈ e.pushed logs) : x.1 = e.id := by
  unfold Entry.pushed at h
  split at h
  · obtain ⟨log, -, rfl⟩ := List.mem_map.mp h
    rfl
  · cases h

@[simp] theorem pushed_nil (e : Entry) : e.pushed [] = [] := by
  unfold Entry.pushed
  split
  · rfl
  · rfl

@[simp] theorem Hub.pushLogs_nil (h : Hub) : h.pushLogs [] = [] :=
  List.flatMap_eq_nil_iff.mpr fun e _ => pushed_nil e

theorem filter_pushed_self : (e.pushed logs).filter (·.1 = e.id) = e.pushed logs :=
  List.filter_eq_self.mpr fun _ hx => decide_eq_true (fst_of_mem_pushed hx)

theorem filter_pushed_of_ne (hne : e.id ≠ id) : (e.pushed logs).filter (·.1 = id) = [] := by
  refine List.filter_eq_nil_iff.mpr fun x hx => ?_
  rw [fst_of_mem_pushed hx]
  simpa using hne

/-- Nothing goes to an id that nobody has. -/
theorem filter_flatMap_of_not_mem {entries : List Entry} (h : id ∉ entries.map (·.id)) :
    (entries.flatMap (·.pushed logs)).filter (·.1 = id) = [] := by
  induction entries with
  | nil => rfl
  | cons e entries ih =>
      rw [List.map_cons, List.mem_cons, not_or] at h
      rw [List.flatMap_cons, List.filter_append, ih h.2, filter_pushed_of_ne (Ne.symm h.1)]
      rfl

/-- To an id goes what its subscription is sent. -/
theorem filter_flatMap_of_mem {entries : List Entry} (hnodup : (entries.map (·.id)).Nodup)
    (he : e ∈ entries) :
    (entries.flatMap (·.pushed logs)).filter (·.1 = e.id) = e.pushed logs := by
  induction entries with
  | nil => cases he
  | cons e' entries ih =>
      obtain ⟨hnew, hrest⟩ := List.nodup_cons.mp hnodup
      rw [List.flatMap_cons, List.filter_append]
      rcases List.mem_cons.mp he with rfl | hin
      · rw [filter_pushed_self, filter_flatMap_of_not_mem hnew, List.append_nil]
      · have hne : e'.id ≠ e.id := by
          intro heq
          have hmem : e.id ∈ entries.map (·.id) := List.mem_map_of_mem hin
          rw [← heq] at hmem
          exact hnew hmem
        rw [filter_pushed_of_ne hne, ih hrest hin, List.nil_append]

/-- **A subscription to logs is sent those that match it**, whatever else is pushed. -/
theorem Hub.pushLogs_of_mem (h : Hub) {f : LogFilter} (he : e ∈ h.byId) (hkind : e.kind = .logs)
    (hfilter : e.filter = some f) :
    ((h.pushLogs logs).filter (·.1 = e.id)).map (·.2) = logs.filter (logMatches · f) := by
  rw [Hub.pushLogs, filter_flatMap_of_mem h.unique he]
  simp only [Entry.pushed, hkind, hfilter, List.map_map, Function.comp_def, List.map_id']

end Pushes

end Ordo
