import Ordo.Hub
import Ordo.PromiseChain

/-!
# What a subscriber to logs is sent

The watcher, the hub and the log requests that are under way.  Every announcement asks for
the logs of its range; the answers come at any times, and are handled in the order of the
requests.  An answer that is a failure goes to the error counter, and if an earlier answer
is still missing nobody waits for it and the process ends.

For every subscription a `Feed` records the blocks that were announced since it was made,
the blocks whose logs it is owed, and the logs that were sent.  `delivers_run` says when
every log of these blocks that matches is sent once, and in order.
-/

namespace Ordo

namespace LogFeed

open HeadWatcher PromiseChain

/-- What has become of a subscription. -/
structure Feed where
  announced : List Nat := []
  /-- The blocks of the requests that were under way when it was made, or made since. -/
  covered : List Nat := []
  delivered : List RawLog := []

structure State where
  watcher : Watcher := {}
  hub : Hub := {}
  links : Chain (Nat × Nat) (Polled (List RawLog)) := []
  feeds : String → Feed := fun _ => {}
  errors : Nat := 0
  /-- A rejection that nobody waited for has ended the process. -/
  crashed : Bool := false

/-- How a log request ends. -/
inductive Outcome where
  | fails
  | noList
  | list
  deriving DecidableEq

inductive Event where
  | subscribe (sink : Nat) (id : String) (kind : String) (param : Option Json)
  | unsubscribe (sink : Nat) (id : String)
  | close (sink : Nat)
  | timer
  | headFails
  | headNull
  | headIs (n : Nat)
  | missedFail
  | missedAre (present : Nat → Bool)
  /-- One of the log requests under way ends. -/
  | logsArrive (i : Nat) (outcome : Outcome)

def kindOf (kind : String) : Option Kind :=
  if kind = "newHeads" then some .newHeads else if kind = "logs" then some .logs else none

/-- The blocks of a range. -/
def blocksOf (range : Nat × Nat) : List Nat := List.range' range.1 (range.2 + 1 - range.1)

/-- The blocks whose logs are still to come. -/
def inFlight (links : Chain (Nat × Nat) (Polled (List RawLog))) : List Nat :=
  (requests links).flatMap blocksOf

def announcedBy (calls : List Call) : List Nat :=
  calls.filterMap fun
    | .onHead b => some b.number
    | _ => none

def fetchedBy (calls : List Call) : List (Nat × Nat) :=
  calls.filterMap fun
    | .fetchLogs start n => some (start, n)
    | _ => none

def isError : Call → Bool
  | .onError => true
  | _ => false

/-- Somebody is subscribed. -/
def wanted (hub : Hub) : Bool := hub.wantsHeads || hub.wantsLogs

section Runs

variable (maxCatchUp maxSubsPerConn : Nat) (blocks : Blocks) (logsAt : Nat → List RawLog)

def logsOf (range : Nat × Nat) : List RawLog := (blocksOf range).flatMap logsAt

/-- The calls of the watcher, in order.  Logs are asked for only if somebody wants them. -/
def handle (s : State) (i : Input) : State :=
  let r := s.watcher.step maxCatchUp i
  let fetched := if s.hub.wantsLogs then fetchedBy r.2 else []
  { s with
    watcher := r.1
    links := fetched.foldl issue s.links
    feeds := fun id =>
      { s.feeds id with
        announced := (s.feeds id).announced ++ announcedBy r.2
        covered := (s.feeds id).covered ++ fetched.flatMap blocksOf }
    errors := s.errors + r.2.countP isError }

/-- The poller starts with the first subscription and stops with the last. -/
def settle (s : State) : State :=
  if wanted s.hub && !s.watcher.running then handle maxCatchUp s .start
  else if !wanted s.hub && s.watcher.running then handle maxCatchUp s .stop
  else s

def pushLogs (s : State) (logs : List RawLog) : State :=
  { s with
    feeds := fun id =>
      { s.feeds id with
        delivered := (s.feeds id).delivered ++
          ((s.hub.pushLogs logs).filter (·.1 = id)).map (·.2) } }

/-- One answer whose turn it is. -/
def deliver (s : State) (answered : (Nat × Nat) × Polled (List RawLog)) : State :=
  match answered.2 with
  | .failed => { s with errors := s.errors + 1 }
  | .null => s
  | .value logs => if logs.isEmpty then s else pushLogs s logs

def flush (s : State) : State :=
  let r := ready s.links
  r.1.foldl deliver { s with links := r.2 }

def replyOf (range : Nat × Nat) : Outcome → Polled (List RawLog)
  | .fails => .failed
  | .noList => .null
  | .list => .value (logsOf logsAt range)

/-- The answer to a log request.  The first one is waited for; a failure of another is
nobody's. -/
def logsArrive (s : State) (i : Nat) (outcome : Outcome) : State :=
  match s.links[i]? with
  | none => s
  | some l =>
      if l.answer.isSome then s
      else if outcome = .fails ∧ i ≠ 0 then { s with crashed := true }
      else
        flush { s with links := PromiseChain.settle s.links i (replyOf logsAt l.request outcome) }

/-- What a request to subscribe adds, if it is granted. -/
def granted (s : State) (sink : Nat) (id kind : String) (param : Option Json) : Option Entry :=
  match kindOf kind with
  | none => none
  | some k =>
      if maxSubsPerConn ≤ s.hub.countOf sink ∨ id ∈ s.hub.byId.map (·.id) then none
      else some ⟨id, sink, k, if k = .logs then some (parseLogFilter param) else none⟩

def stepLive (s : State) : Event → State
  | .subscribe sink id kind param =>
      match granted maxSubsPerConn s sink id kind param with
      | none => s
      | some e =>
          settle maxCatchUp { s with
            hub := s.hub.add e
            feeds := Function.update s.feeds e.id { covered := inFlight s.links } }
  | .unsubscribe sink id => settle maxCatchUp { s with hub := (s.hub.remove sink id).2 }
  | .close sink => settle maxCatchUp { s with hub := s.hub.drop sink }
  | .timer => handle maxCatchUp s .timer
  | .headFails => handle maxCatchUp s (.head .failed)
  | .headNull => handle maxCatchUp s (.head .null)
  | .headIs n => handle maxCatchUp s (.head (.value (blocks.blockAt n)))
  | .missedFail => handle maxCatchUp s (.missed none)
  | .missedAre present =>
      handle maxCatchUp s
        (.missed (some fun b => if present b then some (blocks.blockAt b) else none))
  | .logsArrive i outcome => logsArrive logsAt s i outcome

def step (s : State) (e : Event) : State :=
  if s.crashed then s else stepLive maxCatchUp maxSubsPerConn blocks logsAt s e

def run (s : State) (es : List Event) : State :=
  es.foldl (step maxCatchUp maxSubsPerConn blocks logsAt) s

/-- A subscription to the logs that match. -/
def Wants (e : Entry) (f : LogFilter) : Prop := e.kind = .logs ∧ e.filter = some f

/-- What is sent to every subscription, with what is still to come, is each matching log of
some blocks, once and in order, and these are all the blocks that were announced to it. -/
structure Delivers (s : State) : Prop where
  alive : s.crashed = false
  sent : ∀ e ∈ s.hub.byId, ∀ f, Wants e f →
    ∃ owed : List Nat, owed.Pairwise (· < ·) ∧ (∀ n ∈ (s.feeds e.id).announced, n ∈ owed) ∧
      (s.feeds e.id).delivered ++
          ((inFlight s.links).flatMap logsAt).filter (logMatches · f) =
        (owed.flatMap logsAt).filter (logMatches · f)

/-- The last subscription does not go while a log request is under way. -/
def LeavesNothing (s : State) (hub : Hub) : Prop :=
  s.watcher.running = true → wanted hub = false → s.links = []

/-- Every log request is answered with a list, and none is under way when the watcher is
stopped. -/
def Clean (s : State) : Event → Prop
  | .unsubscribe sink id => LeavesNothing s (s.hub.remove sink id).2
  | .close sink => LeavesNothing s (s.hub.drop sink)
  | .logsArrive _ outcome => outcome = .list
  | _ => True

def CleanRun (s : State) : List Event → Prop
  | [] => True
  | e :: es =>
      Clean s e ∧ CleanRun (step maxCatchUp maxSubsPerConn blocks logsAt s e) es

end Runs

/-! ### What is kept -/

/-- A subscription has been sent what it is owed, but for what is to come. -/
structure FeedKept (logsAt : Nat → List RawLog) (s : State) (feed : Feed) (f : LogFilter) :
    Prop where
  ordered : feed.covered.Pairwise (· < ·)
  reached : ∀ b ∈ feed.covered, b ≤ s.watcher.last
  announced : ∀ n ∈ feed.announced, n ∈ feed.covered
  balance : feed.delivered ++ ((inFlight s.links).flatMap logsAt).filter (logMatches · f) =
    (feed.covered.flatMap logsAt).filter (logMatches · f)

structure Kept (logsAt : Nat → List RawLog) (s : State) : Prop where
  alive : s.crashed = false
  answered : AnsweredBy (fun range => .value (logsOf logsAt range)) s.links
  ordered : (inFlight s.links).Pairwise (· < ·)
  reached : ∀ b ∈ inFlight s.links, b ≤ s.watcher.last
  /-- A tick that fills in goes on from the last announcement. -/
  filling : ∀ head start, s.watcher.phase = .filling head start →
    s.watcher.last < start ∧ start ≤ head.number
  feeds : ∀ e ∈ s.hub.byId, ∀ f, Wants e f → FeedKept logsAt s (s.feeds e.id) f

section Lists

theorem mem_blocksOf {range : Nat × Nat} {b : Nat} :
    b ∈ blocksOf range ↔ range.1 ≤ b ∧ b ≤ range.2 := by
  rw [blocksOf, List.mem_range'_1]
  omega

theorem pairwise_blocksOf (range : Nat × Nat) : (blocksOf range).Pairwise (· < ·) :=
  List.pairwise_lt_range'

/-- Blocks beyond all that is there go at the end. -/
theorem pairwise_append_blocksOf {l : List Nat} {last start n : Nat}
    (hl : l.Pairwise (· < ·)) (hlast : ∀ b ∈ l, b ≤ last) (hlt : last < start) :
    (l ++ blocksOf (start, n)).Pairwise (· < ·) := by
  refine List.pairwise_append.mpr ⟨hl, pairwise_blocksOf _, fun a ha b hb => ?_⟩
  exact (hlast a ha).trans_lt (hlt.trans_le (mem_blocksOf.mp hb).1)

theorem inFlight_issue (links : Chain (Nat × Nat) (Polled (List RawLog))) (range : Nat × Nat) :
    inFlight (issue links range) = inFlight links ++ blocksOf range := by
  simp [inFlight]

theorem announcedBy_append (calls calls' : List Call) :
    announcedBy (calls ++ calls') = announcedBy calls ++ announcedBy calls' :=
  List.filterMap_append

theorem fetchedBy_append (calls calls' : List Call) :
    fetchedBy (calls ++ calls') = fetchedBy calls ++ fetchedBy calls' :=
  List.filterMap_append

/-- What is announced while blocks are filled in. -/
theorem announcedBy_filled (blocks : Blocks) (present : Nat → Bool) (missed : List Nat) :
    announcedBy (missed.flatMap fun b =>
      Watcher.fill (if present b then some (blocks.blockAt b) else none)) =
      missed.filter present := by
  induction missed with
  | nil => rfl
  | cons b missed ih =>
      rw [List.flatMap_cons, announcedBy_append, ih]
      cases hb : present b with
      | true =>
          rw [List.filter_cons_of_pos hb, if_pos rfl]
          simp [Watcher.fill, announcedBy, blocks.numbered]
      | false =>
          rw [List.filter_cons_of_neg (by simp [hb]), if_neg Bool.false_ne_true]
          rfl

/-- Nothing is asked for while blocks are filled in. -/
theorem fetchedBy_filled (answers : Nat → Option Block) (missed : List Nat) :
    fetchedBy (missed.flatMap fun b => Watcher.fill (answers b)) = [] := by
  induction missed with
  | nil => rfl
  | cons b missed ih =>
      rw [List.flatMap_cons, fetchedBy_append, ih]
      cases answers b with
      | none => rfl
      | some block => rfl

end Lists

section Steps

variable {maxCatchUp maxSubsPerConn : Nat} {blocks : Blocks} {logsAt : Nat → List RawLog}
  {s : State}

/-- An input that announces nothing, and leaves the cursor where it is. -/
theorem Kept.quiet (h : Kept logsAt s) {i : Input} {w : Watcher} {calls : List Call}
    (hstep : s.watcher.step maxCatchUp i = (w, calls)) (hannounced : announcedBy calls = [])
    (hfetched : fetchedBy calls = []) (hlast : w.last = s.watcher.last)
    (hfilling : ∀ head start, w.phase = .filling head start →
      w.last < start ∧ start ≤ head.number) :
    Kept logsAt (handle maxCatchUp s i) := by
  have hs : handle maxCatchUp s i =
      { s with watcher := w, errors := s.errors + calls.countP isError } := by
    simp [handle, hstep, hannounced, hfetched]
  rw [hs]
  refine ⟨h.alive, h.answered, h.ordered, ?_, hfilling, ?_⟩
  · intro b hb
    exact (h.reached b hb).trans hlast.ge
  · intro e he f hwants
    have hfeed := h.feeds e he f hwants
    exact ⟨hfeed.ordered, fun b hb => (hfeed.reached b hb).trans hlast.ge, hfeed.announced,
      hfeed.balance⟩

/-- A tick that announces. -/
theorem Kept.announce (h : Kept logsAt s) {i : Input} {head : Block} {start : Nat}
    {calls : List Call}
    (hstep : s.watcher.step maxCatchUp i = ((s.watcher.announce head start).1, calls))
    (hannounced : ∀ n ∈ announcedBy calls, start ≤ n ∧ n ≤ head.number)
    (hfetched : fetchedBy calls = [(start, head.number)]) (hlt : s.watcher.last < start)
    (hle : start ≤ head.number) : Kept logsAt (handle maxCatchUp s i) := by
  have hup : s.watcher.last ≤ head.number := hlt.le.trans hle
  cases hwants : s.hub.wantsLogs with
  | false =>
      -- nobody is owed logs
      have hs : handle maxCatchUp s i =
          { s with
            watcher := (s.watcher.announce head start).1
            feeds := fun id => { s.feeds id with
              announced := (s.feeds id).announced ++ announcedBy calls }
            errors := s.errors + calls.countP isError } := by
        simp [handle, hstep, hwants]
      rw [hs]
      refine ⟨h.alive, h.answered, h.ordered, fun b hb => (h.reached b hb).trans hup,
        nofun, fun e he f hf => ?_⟩
      have hnone : s.hub.byId.countP (Entry.isKind .logs) = 0 := by
        rw [← s.hub.logs_eq]
        simpa [Hub.wantsLogs] using hwants
      exact absurd (decide_eq_true hf.1) (List.countP_eq_zero.mp hnone e he)
  | true =>
      have hs : handle maxCatchUp s i =
          { s with
            watcher := (s.watcher.announce head start).1
            links := issue s.links (start, head.number)
            feeds := fun id => { s.feeds id with
              announced := (s.feeds id).announced ++ announcedBy calls
              covered := (s.feeds id).covered ++ blocksOf (start, head.number) }
            errors := s.errors + calls.countP isError } := by
        simp [handle, hstep, hwants, hfetched]
      rw [hs]
      refine ⟨h.alive, answeredBy_issue h.answered _, ?_, ?_, nofun,
        fun e he f hf => ?_⟩
      · rw [inFlight_issue]
        exact pairwise_append_blocksOf h.ordered h.reached hlt
      · intro b hb
        rw [inFlight_issue] at hb
        rcases List.mem_append.mp hb with hold | hnew
        · exact (h.reached b hold).trans hup
        · exact (mem_blocksOf.mp hnew).2
      · have hfeed := h.feeds e he f hf
        refine ⟨pairwise_append_blocksOf hfeed.ordered hfeed.reached hlt, ?_, ?_, ?_⟩
        · intro b hb
          rcases List.mem_append.mp hb with hold | hnew
          · exact (hfeed.reached b hold).trans hup
          · exact (mem_blocksOf.mp hnew).2
        · intro n hn
          rcases List.mem_append.mp hn with hold | hnew
          · exact List.mem_append_left _ (hfeed.announced n hold)
          · exact List.mem_append_right _ (mem_blocksOf.mpr (hannounced n hnew))
        · rw [inFlight_issue, List.flatMap_append, List.filter_append, ← List.append_assoc,
            hfeed.balance, ← List.filter_append, ← List.flatMap_append]

/-- An input that the watcher has no use for. -/
theorem Kept.ignored (h : Kept logsAt s) {i : Input}
    (hstep : s.watcher.step maxCatchUp i = (s.watcher, [])) :
    Kept logsAt (handle maxCatchUp s i) :=
  h.quiet hstep rfl rfl rfl h.filling

/-- The answer with the head. -/
theorem Kept.headIs (h : Kept logsAt s) (hcatch : 0 < maxCatchUp) (n : Nat) :
    Kept logsAt (handle maxCatchUp s (.head (.value (blocks.blockAt n)))) := by
  cases hphase : s.watcher.phase with
  | idle => exact h.ignored (by simp [Watcher.step, hphase])
  | filling head start => exact h.ignored (by simp [Watcher.step, hphase])
  | reading =>
      have hstep : s.watcher.step maxCatchUp (.head (.value (blocks.blockAt n))) =
          s.watcher.headReply maxCatchUp (.value (blocks.blockAt n)) := by
        simp only [Watcher.step, hphase]
      rcases headReply_value maxCatchUp s.watcher (blocks.blockAt n) with
        ⟨-, hreply⟩ | ⟨hlt, -, hreply⟩ | ⟨hlt, hmissed, hreply⟩
      · exact h.quiet (hstep.trans hreply) rfl rfl rfl (fun _ _ h => by cases h)
      · have hle := startOf_le hcatch hlt
        refine h.announce (hstep.trans hreply) ?_ rfl (lt_startOf hlt) hle
        intro m hm
        obtain rfl : m = (blocks.blockAt n).number := List.mem_singleton.mp hm
        exact ⟨hle, Nat.le_refl _⟩
      · refine h.quiet (hstep.trans hreply) rfl rfl rfl ?_
        rintro head start hfilling
        cases hfilling
        exact ⟨lt_startOf hlt, (startOf_of_missed hmissed).2.le⟩

theorem Kept.missedAre (h : Kept logsAt s) (present : Nat → Bool) :
    Kept logsAt (handle maxCatchUp s
      (.missed (some fun b => if present b then some (blocks.blockAt b) else none))) := by
  cases hphase : s.watcher.phase with
  | idle => exact h.ignored (by simp [Watcher.step, hphase])
  | reading => exact h.ignored (by simp [Watcher.step, hphase])
  | filling head start =>
      obtain ⟨hlt, hle⟩ := h.filling head start hphase
      have hstep : s.watcher.step maxCatchUp
            (.missed (some fun b => if present b then some (blocks.blockAt b) else none)) =
          s.watcher.missedReply head start
            (some fun b => if present b then some (blocks.blockAt b) else none) := by
        simp only [Watcher.step, hphase]
      refine h.announce hstep ?_ ?_ hlt hle
      · intro n hn
        rw [announcedBy_append, announcedBy_filled] at hn
        rcases List.mem_append.mp hn with hmissed | hhead
        · have hin := mem_missedOf.mp (List.mem_of_mem_filter hmissed)
          exact ⟨hin.1, hin.2.le⟩
        · obtain rfl : n = head.number := List.mem_singleton.mp hhead
          exact ⟨hle, Nat.le_refl _⟩
      · rw [fetchedBy_append, fetchedBy_filled]
        rfl

/-- An answer that is no block ends the tick that reads. -/
theorem Kept.headQuiet (h : Kept logsAt s) {reply : Polled Block} {calls : List Call}
    (hreply : s.watcher.headReply maxCatchUp reply = (s.watcher.done, calls))
    (hannounced : announcedBy calls = []) (hfetched : fetchedBy calls = []) :
    Kept logsAt (handle maxCatchUp s (.head reply)) := by
  cases hphase : s.watcher.phase with
  | idle => exact h.ignored (by simp [Watcher.step, hphase])
  | filling head start => exact h.ignored (by simp [Watcher.step, hphase])
  | reading =>
      have hstep : s.watcher.step maxCatchUp (.head reply) = (s.watcher.done, calls) := by
        simp only [Watcher.step, hphase]
        exact hreply
      exact h.quiet hstep hannounced hfetched rfl (fun _ _ h => by cases h)

theorem Kept.missedFail (h : Kept logsAt s) :
    Kept logsAt (handle maxCatchUp s (.missed none)) := by
  cases hphase : s.watcher.phase with
  | idle => exact h.ignored (by simp [Watcher.step, hphase])
  | reading => exact h.ignored (by simp [Watcher.step, hphase])
  | filling head start =>
      have hstep : s.watcher.step maxCatchUp (.missed none) = (s.watcher.done, [.onError]) := by
        simp only [Watcher.step, hphase, Watcher.missedReply]
      exact h.quiet hstep rfl rfl rfl (fun _ _ h => by cases h)

theorem Kept.timer (h : Kept logsAt s) : Kept logsAt (handle maxCatchUp s .timer) := by
  by_cases hrun : s.watcher.running = true
  · have hstep : s.watcher.step maxCatchUp .timer = (s.watcher.tick, []) := by
      simp only [Watcher.step, hrun, if_true]
    refine h.quiet hstep rfl rfl last_tick fun head start hphase => ?_
    rw [last_tick]
    exact h.filling head start (filling_of_tick hphase)
  · exact h.ignored (by simp [Watcher.step, hrun])

/-- A list of logs is pushed, even if there is none. -/
theorem deliver_value (s : State) (range : Nat × Nat) (logs : List RawLog) :
    deliver s (range, .value logs) = pushLogs s logs := by
  cases logs with
  | nil => simp [deliver, pushLogs]
  | cons log logs => rfl

/-- The answers to some requests, pushed one after another. -/
theorem foldl_deliver {out : List ((Nat × Nat) × Polled (List RawLog))}
    (hright : ∀ x ∈ out, x.2 = .value (logsOf logsAt x.1)) (s : State) :
    ∃ feeds, out.foldl deliver s = { s with feeds } ∧
      (∀ id, (feeds id).announced = (s.feeds id).announced ∧
        (feeds id).covered = (s.feeds id).covered) ∧
      ∀ e ∈ s.hub.byId, ∀ f, Wants e f →
        (feeds e.id).delivered = (s.feeds e.id).delivered ++
          (((out.map Prod.fst).flatMap blocksOf).flatMap logsAt).filter (logMatches · f) := by
  induction out generalizing s with
  | nil => exact ⟨s.feeds, rfl, fun _ => ⟨rfl, rfl⟩, fun _ _ _ _ => by simp⟩
  | cons x out ih =>
      have hx : deliver s x = pushLogs s (logsOf logsAt x.1) := by
        obtain ⟨range, reply⟩ := x
        obtain rfl : reply = .value (logsOf logsAt range) := hright _ List.mem_cons_self
        exact deliver_value s range _
      obtain ⟨feeds, hs, hsame, hdelivered⟩ :=
        ih (fun y hy => hright y (List.mem_cons_of_mem _ hy)) (pushLogs s (logsOf logsAt x.1))
      refine ⟨feeds, ?_, hsame, fun e he f hwants => ?_⟩
      · rw [List.foldl_cons, hx, hs]
        rfl
      · rw [hdelivered e he f hwants]
        simp only [pushLogs]
        rw [s.hub.pushLogs_of_mem he hwants.1 hwants.2, List.map_cons, List.flatMap_cons,
          List.flatMap_append, List.filter_append, List.append_assoc]
        rfl

/-- The answers whose turn it is go to the subscriptions that they match. -/
theorem Kept.flush (h : Kept logsAt s) : Kept logsAt (flush s) := by
  obtain ⟨hright, hanswered⟩ := answeredBy_ready h.answered
  obtain ⟨feeds, hs, hsame, hdelivered⟩ :=
    foldl_deliver hright { s with links := (ready s.links).2 }
  have hsplit : (((ready s.links).1.map Prod.fst).flatMap blocksOf) ++ inFlight (ready s.links).2 =
      inFlight s.links := by
    rw [inFlight, inFlight, ← List.flatMap_append, requests_ready]
  have hordered := h.ordered
  rw [← hsplit] at hordered
  rw [LogFeed.flush, hs]
  refine ⟨h.alive, hanswered, (List.pairwise_append.mp hordered).2.1, ?_, h.filling, ?_⟩
  · intro b hb
    refine h.reached b ?_
    rw [← hsplit]
    exact List.mem_append_right _ hb
  · intro e he f hwants
    have hfeed := h.feeds e he f hwants
    obtain ⟨hannounced, hcovered⟩ := hsame e.id
    refine ⟨?_, ?_, ?_, ?_⟩
    · rw [hcovered]
      exact hfeed.ordered
    · rw [hcovered]
      exact hfeed.reached
    · rw [hcovered, hannounced]
      exact hfeed.announced
    · rw [hcovered, hdelivered e he f hwants, List.append_assoc, ← List.filter_append,
        ← List.flatMap_append, hsplit]
      exact hfeed.balance

/-- A log request that ends with its list. -/
theorem Kept.logsArrive (h : Kept logsAt s) (i : Nat) :
    Kept logsAt (logsArrive logsAt s i .list) := by
  unfold LogFeed.logsArrive
  split
  · exact h
  · next l hl =>
      split
      · exact h
      · rw [if_neg fun hfails => by cases hfails.1]
        have hsettled : Kept logsAt { s with
            links := PromiseChain.settle s.links i (.value (logsOf logsAt l.request)) } := by
          refine ⟨h.alive, answeredBy_settle h.answered hl, ?_, ?_, h.filling, ?_⟩
          · simp only [inFlight, requests_settle]
            exact h.ordered
          · simp only [inFlight, requests_settle]
            exact h.reached
          · intro e he f hwants
            have hfeed := h.feeds e he f hwants
            refine ⟨hfeed.ordered, hfeed.reached, hfeed.announced, ?_⟩
            simp only [inFlight, requests_settle]
            exact hfeed.balance
        exact hsettled.flush

/-- Where nobody is subscribed, nobody is subscribed to logs. -/
theorem not_wants_of_not_wanted {hub : Hub} (hnone : wanted hub = false) {e : Entry}
    (he : e ∈ hub.byId) (f : LogFilter) : ¬ Wants e f := by
  intro hwants
  have hzero : hub.logs = 0 := by
    simp only [wanted, Bool.or_eq_false_iff, Hub.wantsLogs, decide_eq_false_iff_not] at hnone
    omega
  rw [hub.logs_eq] at hzero
  exact absurd (decide_eq_true hwants.1) (List.countP_eq_zero.mp hzero e he)

/-- The watcher is started or stopped, as the subscriptions want it. -/
theorem Kept.settle (h : Kept logsAt s) (hleaves : LeavesNothing s s.hub) :
    Kept logsAt (settle maxCatchUp s) := by
  unfold LogFeed.settle
  split
  · have hstep : s.watcher.step maxCatchUp .start = (s.watcher.start, []) := rfl
    refine h.quiet hstep rfl rfl last_start fun head start hphase => ?_
    rw [last_start]
    exact h.filling head start (filling_of_start hphase)
  · split
    · next hstop =>
        simp only [Bool.and_eq_true, Bool.not_eq_true'] at hstop
        have hnone := hleaves hstop.2 hstop.1
        have hs : handle maxCatchUp s .stop = { s with watcher := s.watcher.stop } := by
          simp [handle, Watcher.step, announcedBy, fetchedBy]
        rw [hs]
        refine ⟨h.alive, h.answered, h.ordered, ?_, ?_, ?_⟩
        · intro b hb
          simp [inFlight, hnone] at hb
        · intro head start hphase
          obtain ⟨hlt, hle⟩ := h.filling head start hphase
          exact ⟨(Nat.zero_le _).trans_lt hlt, hle⟩
        · intro e he f hwants
          exact absurd hwants (not_wants_of_not_wanted hstop.1 he f)
    · exact h

/-- A new subscription is owed what is in flight. -/
theorem Kept.subscribe (h : Kept logsAt s) {e : Entry} (hfresh : e.id ∉ s.hub.byId.map (·.id)) :
    Kept logsAt { s with
      hub := s.hub.add e
      feeds := Function.update s.feeds e.id { covered := inFlight s.links } } := by
  have hbyId : (s.hub.add e).byId = s.hub.byId ++ [e] := by
    rw [Hub.add, dif_pos hfresh]
  refine ⟨h.alive, h.answered, h.ordered, h.reached, h.filling, fun e' he f hwants => ?_⟩
  dsimp only at he ⊢
  rw [hbyId] at he
  rcases List.mem_append.mp he with hold | hnew
  · have hne : e'.id ≠ e.id := by
      intro heq
      have hmem : e'.id ∈ s.hub.byId.map (·.id) := List.mem_map_of_mem hold
      rw [heq] at hmem
      exact hfresh hmem
    rw [Function.update_of_ne hne]
    have hfeed := h.feeds e' hold f hwants
    exact ⟨hfeed.ordered, hfeed.reached, hfeed.announced, hfeed.balance⟩
  · rw [List.mem_singleton.mp hnew, Function.update_self]
    exact ⟨h.ordered, h.reached, nofun, rfl⟩

/-- Some subscriptions go. -/
theorem Kept.leave (h : Kept logsAt s) {hub : Hub} (hsub : ∀ e ∈ hub.byId, e ∈ s.hub.byId) :
    Kept logsAt { s with hub } := by
  refine ⟨h.alive, h.answered, h.ordered, h.reached, h.filling, fun e he f hwants => ?_⟩
  have hfeed := h.feeds e (hsub e he) f hwants
  exact ⟨hfeed.ordered, hfeed.reached, hfeed.announced, hfeed.balance⟩

theorem fresh_of_granted {sink : Nat} {id kind : String} {param : Option Json} {e : Entry}
    (h : granted maxSubsPerConn s sink id kind param = some e) :
    e.id ∉ s.hub.byId.map (·.id) := by
  unfold granted at h
  split at h
  · cases h
  · split at h
    · cases h
    · next hroom =>
        cases h
        exact fun hmem => hroom (Or.inr hmem)

/-- After a subscription somebody is subscribed. -/
theorem wanted_add {hub : Hub} {e : Entry} (hfresh : e.id ∉ hub.byId.map (·.id)) :
    wanted (hub.add e) = true := by
  rw [Hub.add, dif_pos hfresh, wanted]
  by_cases hkind : e.kind = .newHeads
  · simp [Hub.wantsHeads, hkind]
  · simp [Hub.wantsLogs, hkind]

theorem mem_of_mem_remove {hub : Hub} {sink : Nat} {id : String} {e : Entry}
    (h : e ∈ (hub.remove sink id).2.byId) : e ∈ hub.byId := by
  unfold Hub.remove at h
  split at h
  · exact h
  · split at h
    · exact List.mem_of_mem_filter h
    · exact h

theorem Kept.step (h : Kept logsAt s) (hcatch : 0 < maxCatchUp) (e : Event) (hclean : Clean s e) :
    Kept logsAt (step maxCatchUp maxSubsPerConn blocks logsAt s e) := by
  rw [LogFeed.step, h.alive, if_neg Bool.false_ne_true]
  cases e with
  | subscribe sink id kind param =>
      simp only [stepLive]
      split
      · exact h
      · next e hgranted =>
          have hkept := h.subscribe (fresh_of_granted hgranted)
          refine hkept.settle fun _ hnone => ?_
          rw [wanted_add (fresh_of_granted hgranted)] at hnone
          cases hnone
  | unsubscribe sink id =>
      refine (h.leave fun e he => ?_).settle hclean
      exact mem_of_mem_remove he
  | close sink =>
      refine (h.leave fun e he => ?_).settle hclean
      exact List.mem_of_mem_filter he
  | timer => exact h.timer
  | headFails => exact h.headQuiet rfl rfl rfl
  | headNull => exact h.headQuiet rfl rfl rfl
  | headIs n => exact h.headIs hcatch n
  | missedFail => exact h.missedFail
  | missedAre present => exact h.missedAre present
  | logsArrive i outcome =>
      obtain rfl : outcome = .list := hclean
      exact h.logsArrive i

end Steps

/-! ### Whole runs -/

section

variable {maxCatchUp maxSubsPerConn : Nat} {blocks : Blocks} {logsAt : Nat → List RawLog}

theorem Kept.run {s : State} (h : Kept logsAt s) (hcatch : 0 < maxCatchUp) (es : List Event)
    (hclean : CleanRun maxCatchUp maxSubsPerConn blocks logsAt s es) :
    Kept logsAt (run maxCatchUp maxSubsPerConn blocks logsAt s es) := by
  induction es generalizing s with
  | nil => exact h
  | cons e es ih => exact ih (h.step hcatch e hclean.1) hclean.2

theorem kept_start : Kept logsAt {} where
  alive := rfl
  answered := nofun
  ordered := List.Pairwise.nil
  reached := nofun
  filling := nofun
  feeds := nofun

theorem Kept.delivers {s : State} (h : Kept logsAt s) : Delivers logsAt s where
  alive := h.alive
  sent e he f hwants := by
    have hfeed := h.feeds e he f hwants
    exact ⟨_, hfeed.ordered, hfeed.announced, hfeed.balance⟩

/-- **Logs are delivered once and in order where every request for them is answered.**
Over any run and any order of answers, if every log request is answered with its list and
none is under way when the watcher is stopped, then every subscription has been sent each
matching log of the blocks announced to it, once and in the order of the blocks, up to the
requests that are still to be handled. -/
theorem delivers_run (maxCatchUp maxSubsPerConn : Nat) (blocks : Blocks)
    (logsAt : Nat → List RawLog) (hcatch : 0 < maxCatchUp) (es : List Event)
    (hclean : CleanRun maxCatchUp maxSubsPerConn blocks logsAt {} es) :
    Delivers logsAt (run maxCatchUp maxSubsPerConn blocks logsAt {} es) :=
  (kept_start.run hcatch es hclean).delivers

/-! ### A request that fails -/

/-- One log in every block. -/
def sampleLog : RawLog := { address := "0xa", topics := [] }

def sampleRun (es : List Event) : State :=
  run 24 10 bareBlocks (fun _ => [sampleLog]) {} (.subscribe 1 "0x1" "logs" none :: es)

/-- Two blocks, and the answer for the second comes first. -/
theorem delivers_run_sample :
    Delivers (fun _ => [sampleLog]) (run 24 10 bareBlocks (fun _ => [sampleLog]) {}
      [.subscribe 1 "0x1" "logs" none, .headIs 10, .timer, .headIs 11, .logsArrive 1 .list,
        .logsArrive 0 .list]) :=
  delivers_run 24 10 bareBlocks _ (by decide) _
    ⟨trivial, trivial, trivial, trivial, rfl, rfl, trivial⟩

/-- The logs of a failed request are never sent.  And a request that fails while an
earlier one is not answered ends the process. -/
theorem failed_request :
    ¬ Delivers (fun _ => [sampleLog]) (sampleRun [.headIs 10, .logsArrive 0 .fails]) ∧
    ¬ Delivers (fun _ => [sampleLog])
      (sampleRun [.headIs 10, .timer, .headIs 11, .logsArrive 1 .fails]) := by
  constructor
  · intro h
    obtain ⟨owed, -, hannounced, hbalance⟩ :=
      h.sent ⟨"0x1", 1, .logs, some (parseLogFilter none)⟩ (by decide) _ ⟨rfl, rfl⟩
    have howed : 10 ∈ owed := hannounced 10 (by decide)
    have hlog : sampleLog ∈ (owed.flatMap fun _ => [sampleLog]).filter
        (logMatches · (parseLogFilter none)) :=
      List.mem_filter.mpr ⟨List.mem_flatMap.mpr ⟨10, howed, List.mem_singleton_self _⟩, rfl⟩
    rw [← hbalance] at hlog
    cases hlog
  · intro h
    cases h.alive

end

end LogFeed

end Ordo
