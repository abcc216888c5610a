import Ordo.Json

/-!
# The head watcher

One poller follows the head for every subscriber.  A tick asks for the head; if it has
moved, the tick asks for the blocks that were stepped over, all together, and then
announces them and the head, in order.  The logs of the whole range are asked for last,
and are not waited for.

* `Watcher.step` is what one input does: the timer, a start, a stop, or an answer that
  arrives.  Between a request and its answer anything else may happen.
* `Call` is what the watcher does to the outside while it handles an input.
-/

namespace Ordo

/-- A block, as it is read without its transactions. -/
structure Block where
  /-- `Number(block.number)` -/
  number : Nat
  fields : List (String × Json)

/-- The chain, which knows the block of every number. -/
structure Blocks where
  blockAt : Nat → Block
  numbered : ∀ n, (blockAt n).number = n

/-- Blocks that are nothing but their numbers. -/
def bareBlocks : Blocks := ⟨fun n => ⟨n, []⟩, fun _ => rfl⟩

/-- What was asked for: nothing came, `null` came, or a value did. -/
inductive Polled (α : Type*) where
  | failed
  | null
  | value (a : α)

namespace HeadWatcher

/-- What the tick under way waits for. -/
inductive Phase where
  | idle
  | reading
  | filling (head : Block) (start : Nat)

/-- `!this.busy` -/
def Phase.isIdle : Phase → Bool
  | .idle => true
  | _ => false

structure Watcher where
  running : Bool := false
  phase : Phase := .idle
  /-- The head that was announced last, or 0. -/
  last : Nat := 0

inductive Call where
  | onBlock (block : Block)
  | onHead (block : Block)
  | fetchLogs (start n : Nat)
  | onError

inductive Input where
  | start
  | stop
  | timer
  | head (reply : Polled Block)
  /-- All the missed blocks, or none of them if one request failed. -/
  | missed (blocks : Option (Nat → Option Block))

/-- Where a tick that has read the head begins. -/
def startOf (maxCatchUp last n : Nat) : Nat :=
  -- first tick: this block, and no history
  if last = 0 then n else max (last + 1) (n + 1 - maxCatchUp)

/-- The numbers of the blocks stepped over. -/
def missedOf (start n : Nat) : List Nat := List.range' start (n - start)

namespace Watcher

variable (maxCatchUp : Nat) (w : Watcher)

/-- A slow upstream does not queue ticks behind itself. -/
def tick : Watcher :=
  match w.phase with
  | .idle => { w with phase := .reading }
  | _ => w

def start : Watcher := if w.running then w else { w with running := true }.tick

def stop : Watcher := { w with running := false, last := 0 }

/-- The tick is over, without an announcement. -/
def done : Watcher := { w with phase := .idle }

/-- The end of a tick that announces. -/
def announce (head : Block) (start : Nat) : Watcher × List Call :=
  ({ w with phase := .idle, last := head.number },
    [.onHead head, .fetchLogs start head.number])

def headReply (reply : Polled Block) : Watcher × List Call :=
  match reply with
  | .failed => (w.done, [.onError])
  | .null => (w.done, [])
  | .value head =>
      if head.number ≤ w.last then (w.done, [.onBlock head])
      else
        let start := startOf maxCatchUp w.last head.number
        if missedOf start head.number = [] then
          ((w.announce head start).1, .onBlock head :: (w.announce head start).2)
        else ({ w with phase := .filling head start }, [.onBlock head])

/-- What is done for one missed block: nothing if it is not there. -/
def fill (block : Option Block) : List Call :=
  match block with
  | none => []
  | some b => [.onBlock b, .onHead b]

def missedReply (head : Block) (start : Nat) (blocks : Option (Nat → Option Block)) :
    Watcher × List Call :=
  match blocks with
  | none => (w.done, [.onError])
  | some blocks =>
      ((w.announce head start).1,
        (missedOf start head.number).flatMap (fun b => fill (blocks b)) ++
          (w.announce head start).2)

def step (i : Input) : Watcher × List Call :=
  match i with
  | .start => (w.start, [])
  | .stop => (w.stop, [])
  | .timer => (if w.running then w.tick else w, [])
  | .head reply =>
      match w.phase with
      | .reading => w.headReply maxCatchUp reply
      | _ => (w, [])
  | .missed blocks =>
      match w.phase with
      | .filling head start => w.missedReply head start blocks
      | _ => (w, [])

end Watcher

/-! ### What an answer does -/

section Steps

variable {maxCatchUp : Nat} {w : Watcher}

@[simp] theorem last_tick : w.tick.last = w.last := by
  unfold Watcher.tick
  split
  · rfl
  · rfl

@[simp] theorem last_start : w.start.last = w.last := by
  unfold Watcher.start
  split
  · rfl
  · exact last_tick

/-- A tick that begins reads the head first. -/
theorem filling_of_tick {head : Block} {start : Nat} (h : w.tick.phase = .filling head start) :
    w.phase = .filling head start := by
  unfold Watcher.tick at h
  split at h
  · cases h
  · exact h

theorem filling_of_start {head : Block} {start : Nat} (h : w.start.phase = .filling head start) :
    w.phase = .filling head start := by
  unfold Watcher.start at h
  split at h
  · exact h
  · have hphase : { w with running := true }.phase = .filling head start := filling_of_tick h
    exact hphase

theorem missedOf_eq_nil {start n : Nat} : missedOf start n = [] ↔ n ≤ start := by
  rw [missedOf, List.range'_eq_nil_iff]
  omega

theorem mem_missedOf {start n b : Nat} : b ∈ missedOf start n ↔ start ≤ b ∧ b < n := by
  rw [missedOf, List.mem_range'_1]
  omega

/-- A tick begins after the last announcement. -/
theorem lt_startOf {last n : Nat} (h : last < n) : last < startOf maxCatchUp last n := by
  unfold startOf
  split
  · next hzero => rwa [hzero] at h ⊢
  · omega

theorem startOf_le {last n : Nat} (hcatch : 0 < maxCatchUp) (h : last < n) :
    startOf maxCatchUp last n ≤ n := by
  unfold startOf
  split
  · exact Nat.le_refl n
  · omega

/-- A tick that has something to fill in is not the first one, and it begins after the
last announcement, or as far back as it may. -/
theorem startOf_of_missed {last n : Nat} (h : missedOf (startOf maxCatchUp last n) n ≠ []) :
    last ≠ 0 ∧ startOf maxCatchUp last n < n := by
  rw [Ne, missedOf_eq_nil, Nat.not_le] at h
  refine ⟨fun hzero => ?_, h⟩
  rw [startOf, if_pos hzero] at h
  exact absurd h (Nat.lt_irrefl n)

variable (maxCatchUp w) in
/-- The answer with the head: it is no news, or it is announced, or blocks before it have
to be filled in. -/
theorem headReply_value (head : Block) :
    (head.number ≤ w.last ∧ w.headReply maxCatchUp (.value head) = (w.done, [.onBlock head])) ∨
    (w.last < head.number ∧
      missedOf (startOf maxCatchUp w.last head.number) head.number = [] ∧
      w.headReply maxCatchUp (.value head) =
        ({ w with phase := .idle, last := head.number },
          [.onBlock head, .onHead head,
            .fetchLogs (startOf maxCatchUp w.last head.number) head.number])) ∨
    (w.last < head.number ∧
      missedOf (startOf maxCatchUp w.last head.number) head.number ≠ [] ∧
      w.headReply maxCatchUp (.value head) =
        ({ w with phase := .filling head (startOf maxCatchUp w.last head.number) },
          [.onBlock head])) := by
  by_cases hle : head.number ≤ w.last
  · left
    exact ⟨hle, by simp only [Watcher.headReply, hle, if_true]⟩
  · by_cases hnil : missedOf (startOf maxCatchUp w.last head.number) head.number = []
    · right; left
      refine ⟨Nat.lt_of_not_le hle, hnil, ?_⟩
      simp only [Watcher.headReply, hle, if_false, hnil, if_true, Watcher.announce]
    · right; right
      refine ⟨Nat.lt_of_not_le hle, hnil, ?_⟩
      simp only [Watcher.headReply, hle, if_false, hnil]

/-- The blocks that are handed on are the head that was read and the missed ones that are
there. -/
theorem onBlock_mem_step {i : Input} {b : Block}
    (h : Call.onBlock b ∈ (w.step maxCatchUp i).2) :
    i = .head (.value b) ∨ ∃ blocks head start n, i = .missed (some blocks) ∧
      w.phase = .filling head start ∧ n ∈ missedOf start head.number ∧ blocks n = some b := by
  cases i with
  | start => simp [Watcher.step] at h
  | stop => simp [Watcher.step] at h
  | timer => simp [Watcher.step] at h
  | head reply =>
      left
      simp only [Watcher.step] at h
      split at h
      · cases reply with
        | failed => simp [Watcher.headReply] at h
        | null => simp [Watcher.headReply] at h
        | value head =>
            rcases headReply_value maxCatchUp w head with
              ⟨-, hreply⟩ | ⟨-, -, hreply⟩ | ⟨-, -, hreply⟩
            · rw [hreply] at h
              simp only [List.mem_singleton, Call.onBlock.injEq] at h
              rw [h]
            · rw [hreply] at h
              simp only [List.mem_cons, Call.onBlock.injEq, reduceCtorEq, List.not_mem_nil,
                or_false] at h
              rw [h]
            · rw [hreply] at h
              simp only [List.mem_singleton, Call.onBlock.injEq] at h
              rw [h]
      · simp at h
  | missed answers =>
      right
      simp only [Watcher.step] at h
      split at h
      · next head start hphase =>
          cases answers with
          | none => simp [Watcher.missedReply] at h
          | some blocks =>
              simp only [Watcher.missedReply, Watcher.announce, List.mem_append, List.mem_flatMap,
                List.mem_cons, reduceCtorEq, List.not_mem_nil, or_false] at h
              obtain ⟨n, hn, hfill⟩ := h
              refine ⟨blocks, head, start, n, rfl, hphase, hn, ?_⟩
              cases hb : blocks n with
              | none => simp [Watcher.fill, hb] at hfill
              | some b' =>
                  simp only [Watcher.fill, hb, List.mem_cons, Call.onBlock.injEq, reduceCtorEq,
                    List.not_mem_nil, or_false] at hfill
                  rw [hfill]
      · simp at h

variable (maxCatchUp) in
/-- The head that was read is handed on first, and no other block with it. -/
theorem calls_head (hphase : w.phase = .reading) (head : Block) :
    ∃ rest, (w.step maxCatchUp (.head (.value head))).2 = .onBlock head :: rest ∧
      ∀ b, Call.onBlock b ∉ rest := by
  have hstep : w.step maxCatchUp (.head (.value head)) =
      w.headReply maxCatchUp (.value head) := by
    simp only [Watcher.step, hphase]
  rw [hstep]
  rcases headReply_value maxCatchUp w head with
    ⟨-, hreply⟩ | ⟨-, -, hreply⟩ | ⟨-, -, hreply⟩
  · rw [hreply]
    exact ⟨_, rfl, by simp⟩
  · rw [hreply]
    exact ⟨_, rfl, by simp⟩
  · rw [hreply]
    exact ⟨_, rfl, by simp⟩

end Steps

end HeadWatcher

end Ordo
