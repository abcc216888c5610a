import Mathlib.Data.List.Chain
import Ordo.HeadWatcher

/-!
# What a subscriber to heads is told

The watcher against a chain that grows by itself.  A read of the head is answered with a
head of some moment between the request and the answer; ticks, starts, stops and answers
interleave in any way.

A history keeps a mark for every start, stop and announcement.  `complete_run` says when
each announcement follows the mark before it: the first one after a start is a head no
older than the start, and every other is the next block, or jumps because the tick fell
too far behind.
-/

namespace Ordo

namespace HeadFeed

open HeadWatcher

inductive Mark where
  /-- The head of the chain at the moment of a start. -/
  | started (head : Nat)
  | stopped
  /-- A block, and the head that the tick had read. -/
  | announced (number head : Nat)
  deriving DecidableEq

structure State where
  watcher : Watcher := {}
  /-- The head of the chain. -/
  chain : Nat
  /-- The head when the tick under way began. -/
  asked : Nat := 0
  startedAt : Nat := 0
  /-- The tick under way was under way at a stop. -/
  stale : Bool := false
  marks : List Mark := []

inductive Event where
  | grow (k : Nat)
  | start
  | stop
  | timer
  | headFails
  | headNull
  | headIs (n : Nat)
  | missedFail
  /-- The upstream has some of the missed blocks, and answers `null` for the others. -/
  | missedAre (present : Nat → Bool)

/-- A mark can stand after another. -/
def Follows (maxCatchUp : Nat) : Mark → Mark → Prop
  | .started h, .announced n head => h ≤ n ∧ n = head
  | .announced m _, .announced n head => m < n ∧ (n = m + 1 ∨ m + maxCatchUp < head)
  | _, _ => True

instance (maxCatchUp : Nat) : DecidableRel (Follows maxCatchUp) := by
  intro a b
  unfold Follows
  split <;> infer_instance

/-- The announcements among the calls of a tick that had read `head`. -/
def marksOf (head : Nat) (calls : List Call) : List Mark :=
  calls.filterMap fun
    | .onHead b => some (.announced b.number head)
    | _ => none

/-- The head that the tick under way has read. -/
def headOf (w : Watcher) : Nat :=
  match w.phase with
  | .filling head _ => head.number
  | _ => 0

section Runs

variable (maxCatchUp : Nat) (blocks : Blocks)

def handle (s : State) (i : Input) (head : Nat) : State :=
  let r := s.watcher.step maxCatchUp i
  { s with
    watcher := r.1
    asked := if s.watcher.phase.isIdle then s.chain else s.asked
    stale := s.stale && !r.1.phase.isIdle
    marks := s.marks ++ marksOf head r.2 }

def step (s : State) : Event → State
  | .grow k => { s with chain := s.chain + k }
  | .start =>
      let s' := handle maxCatchUp s .start 0
      if s.watcher.running then s'
      else { s' with startedAt := s.chain, marks := s.marks ++ [.started s.chain] }
  | .stop =>
      { handle maxCatchUp s .stop 0 with
        stale := !s.watcher.phase.isIdle
        marks := s.marks ++ [.stopped] }
  | .timer => handle maxCatchUp s .timer 0
  | .headFails => handle maxCatchUp s (.head .failed) 0
  | .headNull => handle maxCatchUp s (.head .null) 0
  | .headIs n =>
      if s.asked ≤ n ∧ n ≤ s.chain then
        handle maxCatchUp s (.head (.value (blocks.blockAt n))) n
      else s
  | .missedFail => handle maxCatchUp s (.missed none) (headOf s.watcher)
  | .missedAre present =>
      handle maxCatchUp s
        (.missed (some fun b => if present b then some (blocks.blockAt b) else none))
        (headOf s.watcher)

def run (s : State) (es : List Event) : State := es.foldl (step maxCatchUp blocks) s

/-- Every announcement follows what stands before it. -/
def Complete (s : State) : Prop := s.marks.IsChain (Follows maxCatchUp)

instance (s : State) : Decidable (Complete maxCatchUp s) :=
  inferInstanceAs (Decidable (s.marks.IsChain (Follows maxCatchUp)))

/-- No missed block comes back `null`, and a tick that was under way at a stop announces
nothing, unless it reads a head of after the next start. -/
def Clean (s : State) : Event → Prop
  | .headIs n => s.stale → s.watcher.running ∧ s.startedAt ≤ n
  | .missedAre present =>
      match s.watcher.phase with
      | .filling head start => s.stale = false ∧ ∀ b ∈ missedOf start head.number, present b
      | _ => True
  | _ => True

end Runs

/-! ### What is kept -/

/-- Where the watcher stands, by the last mark. -/
def Cursor (s : State) : Option Mark → Prop
  | none | some .stopped => s.watcher.last = 0 ∧ s.watcher.running = false
  | some (.started h) => s.watcher.last = 0 ∧ s.watcher.running = true ∧ s.startedAt = h
  | some (.announced n _) => s.watcher.last = n ∧ 0 < n ∧ s.watcher.running = true

/-- What is known of the tick under way. -/
def TickKept (maxCatchUp : Nat) (s : State) : Prop :=
  match s.watcher.phase, s.stale with
  | .idle, stale => stale = false
  | _, true => s.watcher.last = 0
  -- it asked after the start
  | .reading, false => s.watcher.running = true ∧ s.startedAt ≤ s.asked
  | .filling head start, false =>
      s.watcher.running = true ∧ s.watcher.last < head.number ∧
        start = startOf maxCatchUp s.watcher.last head.number ∧ start < head.number

structure Kept (maxCatchUp : Nat) (s : State) : Prop where
  complete : Complete maxCatchUp s
  cursor : Cursor s s.marks.getLast?
  startedAt_le : s.startedAt ≤ s.chain
  asked_le : s.asked ≤ s.chain
  tick : TickKept maxCatchUp s

section Marks

variable {maxCatchUp : Nat}

@[simp] theorem marksOf_nil (head : Nat) : marksOf head [] = [] := rfl

@[simp] theorem marksOf_onHead (head : Nat) (b : Block) (calls : List Call) :
    marksOf head (.onHead b :: calls) = .announced b.number head :: marksOf head calls := rfl

@[simp] theorem marksOf_onBlock (head : Nat) (b : Block) (calls : List Call) :
    marksOf head (.onBlock b :: calls) = marksOf head calls := rfl

@[simp] theorem marksOf_fetchLogs (head start n : Nat) (calls : List Call) :
    marksOf head (.fetchLogs start n :: calls) = marksOf head calls := rfl

@[simp] theorem marksOf_onError (head : Nat) (calls : List Call) :
    marksOf head (.onError :: calls) = marksOf head calls := rfl

theorem marksOf_append (head : Nat) (calls calls' : List Call) :
    marksOf head (calls ++ calls') = marksOf head calls ++ marksOf head calls' :=
  List.filterMap_append

/-- Missed blocks that are all there are announced one by one. -/
theorem marksOf_filled (blocks : Blocks) (present : Nat → Bool) (head : Nat) {missed : List Nat}
    (h : ∀ b ∈ missed, present b) :
    marksOf head (missed.flatMap fun b =>
      Watcher.fill (if present b then some (blocks.blockAt b) else none)) =
      missed.map (.announced · head) := by
  induction missed with
  | nil => rfl
  | cons b missed ih =>
      have hb : present b = true := h b List.mem_cons_self
      rw [List.flatMap_cons, marksOf_append, ih fun c hc => h c (List.mem_cons_of_mem _ hc), hb,
        if_pos rfl]
      simp [Watcher.fill, blocks.numbered]

/-- What a tick announces, from where it begins. -/
def announcements (start n : Nat) : List Mark :=
  (missedOf start n).map (.announced · n) ++ [.announced n n]

/-- Where a tick's announcements begin. -/
theorem head?_announcements (start n : Nat) :
    (announcements start n).head? =
      some (.announced (if n ≤ start then n else start) n) := by
  unfold announcements
  split
  · next hle => rw [missedOf_eq_nil.mpr hle]; rfl
  · next hlt =>
      obtain ⟨k, hk⟩ : ∃ k, n - start = k + 1 := ⟨n - start - 1, by omega⟩
      rw [missedOf, hk, List.range'_succ]
      rfl

theorem getLast?_announcements (start n : Nat) :
    (announcements start n).getLast? = some (.announced n n) := by
  rw [announcements, List.getLast?_append_of_ne_nil _ (List.cons_ne_nil _ _)]
  rfl

/-- The announcements of a tick follow each other. -/
theorem isChain_announcements (start n : Nat) :
    (announcements start n).IsChain (Follows maxCatchUp) := by
  unfold announcements missedOf
  generalize hk : n - start = k
  induction k generalizing start with
  | zero => exact List.isChain_singleton _
  | succ k ih =>
      have hnext : n - (start + 1) = k := by omega
      have htail := ih (start + 1) hnext
      rw [List.range'_succ, List.map_cons, List.cons_append]
      refine List.isChain_cons.mpr ⟨fun y hy => ?_, htail⟩
      have hfirst := head?_announcements (start + 1) n
      rw [announcements, missedOf, hnext] at hfirst
      rw [hfirst] at hy
      obtain rfl := Option.some.inj hy
      refine ⟨?_, Or.inl ?_⟩
      · split
        · omega
        · omega
      · split
        · omega
        · omega

/-- The first block that a tick announces follows the one that was announced last. -/
theorem follows_startOf {last n start : Nat} (hlast : 0 < last) (hlt : last < n)
    (hstart : start = startOf maxCatchUp last n) :
    last < (if n ≤ start then n else start) ∧
      ((if n ≤ start then n else start) = last + 1 ∨ last + maxCatchUp < n) := by
  have hne : last ≠ 0 := Nat.pos_iff_ne_zero.mp hlast
  rw [startOf, if_neg hne] at hstart
  split
  · omega
  · omega

end Marks

section Steps

variable {maxCatchUp : Nat} {blocks : Blocks} {s : State}

/-- A tick that was under way at a stop has nothing announced before it. -/
theorem tickKept_of_stale (hstale : s.stale = true) (hbusy : s.watcher.phase.isIdle = false) :
    TickKept maxCatchUp s ↔ s.watcher.last = 0 := by
  cases hphase : s.watcher.phase with
  | idle => simp [hphase, Phase.isIdle] at hbusy
  | reading => simp only [TickKept, hphase, hstale]
  | filling b start => simp only [TickKept, hphase, hstale]

/-- An input that ends the tick under way, if there is one, and announces nothing. -/
theorem Kept.done (h : Kept maxCatchUp s) {i : Input} {head : Nat} {calls : List Call}
    (hstep : s.watcher.step maxCatchUp i = (s.watcher.done, calls))
    (hmarks : marksOf head calls = []) : Kept maxCatchUp (handle maxCatchUp s i head) := by
  have hs : handle maxCatchUp s i head =
      { s with
        watcher := s.watcher.done
        asked := if s.watcher.phase.isIdle then s.chain else s.asked
        stale := false } := by
    simp only [handle, hstep, hmarks, List.append_nil, Watcher.done, Phase.isIdle, Bool.not_true,
      Bool.and_false]
  rw [hs]
  refine ⟨h.complete, h.cursor, h.startedAt_le, ?_, rfl⟩
  dsimp only
  split
  · exact Nat.le_refl _
  · exact h.asked_le

/-- An input that the watcher has no use for. -/
theorem Kept.ignored (h : Kept maxCatchUp s) {i : Input} {head : Nat}
    (hstep : s.watcher.step maxCatchUp i = (s.watcher, [])) :
    Kept maxCatchUp (handle maxCatchUp s i head) := by
  have htick := h.tick
  have hs : handle maxCatchUp s i head =
      { s with
        asked := if s.watcher.phase.isIdle then s.chain else s.asked
        stale := s.stale && !s.watcher.phase.isIdle } := by
    simp only [handle, hstep, marksOf_nil, List.append_nil]
  rw [hs]
  cases hphase : s.watcher.phase with
  | idle =>
      refine ⟨h.complete, h.cursor, h.startedAt_le, Nat.le_refl _, ?_⟩
      simp only [TickKept, hphase, Phase.isIdle, Bool.not_true, Bool.and_false]
  | reading =>
      refine ⟨h.complete, h.cursor, h.startedAt_le, h.asked_le, ?_⟩
      simp only [TickKept, hphase, Phase.isIdle, Bool.not_false, Bool.and_true] at htick ⊢
      exact htick
  | filling b start =>
      refine ⟨h.complete, h.cursor, h.startedAt_le, h.asked_le, ?_⟩
      simp only [TickKept, hphase, Phase.isIdle, Bool.not_false, Bool.and_true] at htick ⊢
      exact htick

/-- A tick that begins while the timer is on. -/
theorem Kept.begin (h : Kept maxCatchUp s) (hrun : s.watcher.running = true)
    (hidle : s.watcher.phase = .idle) :
    Kept maxCatchUp
      { s with watcher := { s.watcher with phase := .reading }, asked := s.chain } := by
  have hstale : s.stale = false := by
    have htick := h.tick
    simpa only [TickKept, hidle] using htick
  refine ⟨h.complete, h.cursor, h.startedAt_le, Nat.le_refl _, ?_⟩
  simp only [TickKept, hstale]
  exact ⟨hrun, h.startedAt_le⟩

theorem Kept.timer (h : Kept maxCatchUp s) : Kept maxCatchUp (handle maxCatchUp s .timer 0) := by
  by_cases hrun : s.watcher.running = true
  · cases hphase : s.watcher.phase with
    | idle =>
        have hstale : s.stale = false := by
          have htick := h.tick
          simpa only [TickKept, hphase] using htick
        have hs : handle maxCatchUp s .timer 0 =
            { s with watcher := { s.watcher with phase := .reading }, asked := s.chain } := by
          simp [handle, Watcher.step, Watcher.tick, hrun, hphase, Phase.isIdle, hstale]
        rw [hs]
        exact h.begin hrun hphase
    | reading => exact h.ignored (by simp [Watcher.step, Watcher.tick, hphase])
    | filling b start => exact h.ignored (by simp [Watcher.step, Watcher.tick, hphase])
  · exact h.ignored (by simp [Watcher.step, hrun])

/-- While the timer is off, the cursor is at the beginning. -/
theorem Kept.of_off (h : Kept maxCatchUp s) (hoff : s.watcher.running = false) :
    s.watcher.last = 0 ∧ (s.watcher.phase.isIdle = false → s.stale = true) := by
  constructor
  · have hcursor := h.cursor
    cases hlast : s.marks.getLast? with
    | none =>
        rw [hlast] at hcursor
        exact hcursor.1
    | some m =>
        rw [hlast] at hcursor
        cases m with
        | started head => exact hcursor.1
        | stopped => exact hcursor.1
        | announced n head =>
            rw [hcursor.2.2] at hoff
            cases hoff
  · intro hbusy
    have htick := h.tick
    cases hstale : s.stale with
    | true => rfl
    | false =>
        cases hphase : s.watcher.phase with
        | idle => simp [hphase, Phase.isIdle] at hbusy
        | reading =>
            simp only [TickKept, hphase, hstale, hoff] at htick
            cases htick.1
        | filling b start =>
            simp only [TickKept, hphase, hstale, hoff] at htick
            cases htick.1

theorem isIdle_of_ne {p : Phase} (h : p ≠ .idle) : p.isIdle = false := by
  cases p with
  | idle => exact absurd rfl h
  | reading => rfl
  | filling b start => rfl

/-- A tick under way is not begun again. -/
theorem tick_of_busy {w : Watcher} (h : w.phase ≠ .idle) : w.tick = w := by
  cases hphase : w.phase with
  | idle => exact absurd hphase h
  | reading => simp [Watcher.tick, hphase]
  | filling b start => simp [Watcher.tick, hphase]

/-- A start follows whatever came before it. -/
theorem Kept.isChain_started (h : Kept maxCatchUp s) :
    (s.marks ++ [Mark.started s.chain]).IsChain (Follows maxCatchUp) := by
  refine List.isChain_append.mpr ⟨h.complete, List.isChain_singleton _, fun x _ y hy => ?_⟩
  obtain rfl : Mark.started s.chain = y := by simpa using hy
  cases x <;> trivial

/-- A start that begins a tick. -/
theorem Kept.startIdle (h : Kept maxCatchUp s) (hoff : s.watcher.running = false)
    (hidle : s.watcher.phase = .idle) : Kept maxCatchUp (step maxCatchUp blocks s .start) := by
  obtain ⟨hzero, -⟩ := h.of_off hoff
  have hstale : s.stale = false := by
    have htick := h.tick
    simpa only [TickKept, hidle] using htick
  have hs : step maxCatchUp blocks s .start =
      { s with
        watcher := { s.watcher with running := true, phase := .reading }
        asked := s.chain
        startedAt := s.chain
        marks := s.marks ++ [.started s.chain] } := by
    simp [step, handle, Watcher.step, Watcher.start, Watcher.tick, hoff, hidle, Phase.isIdle,
      hstale]
  rw [hs]
  refine ⟨h.isChain_started, ?_, Nat.le_refl _, Nat.le_refl _, ?_⟩
  · rw [List.getLast?_append]
    exact ⟨hzero, rfl, rfl⟩
  · simp only [TickKept, hstale]
    exact ⟨trivial, Nat.le_refl _⟩

/-- A start while the tick that was under way at the stop goes on. -/
theorem Kept.startBusy (h : Kept maxCatchUp s) (hoff : s.watcher.running = false)
    (hbusy : s.watcher.phase ≠ .idle) : Kept maxCatchUp (step maxCatchUp blocks s .start) := by
  obtain ⟨hzero, hphase⟩ := h.of_off hoff
  have hnot := isIdle_of_ne hbusy
  have hstale := hphase hnot
  have htick : { s.watcher with running := true }.tick = { s.watcher with running := true } :=
    tick_of_busy hbusy
  have hs : step maxCatchUp blocks s .start =
      { s with
        watcher := { s.watcher with running := true }
        startedAt := s.chain
        marks := s.marks ++ [.started s.chain] } := by
    simp [step, handle, Watcher.step, Watcher.start, htick, hoff, hnot, hstale]
  rw [hs]
  refine ⟨h.isChain_started, ?_, Nat.le_refl _, h.asked_le, ?_⟩
  · rw [List.getLast?_append]
    exact ⟨hzero, rfl, rfl⟩
  · refine (tickKept_of_stale ?_ ?_).mpr ?_
    · exact hstale
    · exact hnot
    · exact hzero

theorem Kept.start (h : Kept maxCatchUp s) : Kept maxCatchUp (step maxCatchUp blocks s .start) := by
  by_cases hrun : s.watcher.running = true
  · have hs : step maxCatchUp blocks s .start = handle maxCatchUp s .start 0 := by
      simp [step, hrun]
    rw [hs]
    exact h.ignored (by simp [Watcher.step, Watcher.start, hrun])
  · have hoff : s.watcher.running = false := by simpa using hrun
    by_cases hidle : s.watcher.phase = .idle
    · exact h.startIdle hoff hidle
    · exact h.startBusy hoff hidle

theorem Kept.stop (h : Kept maxCatchUp s) : Kept maxCatchUp (step maxCatchUp blocks s .stop) := by
  have hs : step maxCatchUp blocks s .stop =
      { s with
        watcher := s.watcher.stop
        asked := if s.watcher.phase.isIdle then s.chain else s.asked
        stale := !s.watcher.phase.isIdle
        marks := s.marks ++ [.stopped] } := by
    simp [step, handle, Watcher.step]
  rw [hs]
  refine ⟨?_, ?_, h.startedAt_le, ?_, ?_⟩
  · refine List.isChain_append.mpr ⟨h.complete, List.isChain_singleton _, fun x _ y hy => ?_⟩
    obtain rfl : Mark.stopped = y := by simpa using hy
    cases x <;> trivial
  · rw [List.getLast?_append]
    exact ⟨rfl, rfl⟩
  · dsimp only
    split
    · exact Nat.le_refl _
    · exact h.asked_le
  · cases hphase : s.watcher.phase with
    | idle => simp only [TickKept, Watcher.stop, hphase, Phase.isIdle, Bool.not_true]
    | reading => simp only [TickKept, Watcher.stop, hphase, Phase.isIdle, Bool.not_false]
    | filling b start => simp only [TickKept, Watcher.stop, hphase, Phase.isIdle, Bool.not_false]

/-- A tick that announces keeps the marks in order, if it begins where it should. -/
theorem Kept.announce (h : Kept maxCatchUp s) {i : Input} {head : Block} {start : Nat}
    {calls : List Call}
    (hstep : s.watcher.step maxCatchUp i = ((s.watcher.announce head start).1, calls))
    (hmarks : marksOf head.number calls = announcements start head.number)
    (hrun : s.watcher.running = true) (hlt : s.watcher.last < head.number)
    (hstart : start = startOf maxCatchUp s.watcher.last head.number)
    (hfirst : s.watcher.last = 0 → s.startedAt ≤ head.number) :
    Kept maxCatchUp (handle maxCatchUp s i head.number) := by
  have hs : handle maxCatchUp s i head.number =
      { s with
        watcher := { s.watcher with phase := .idle, last := head.number }
        asked := if s.watcher.phase.isIdle then s.chain else s.asked
        stale := false
        marks := s.marks ++ announcements start head.number } := by
    simp only [handle, hstep, hmarks, Watcher.announce, Phase.isIdle, Bool.not_true,
      Bool.and_false]
  rw [hs]
  refine ⟨?_, ?_, h.startedAt_le, ?_, rfl⟩
  · refine List.isChain_append.mpr ⟨h.complete, isChain_announcements _ _, fun x hx y hy => ?_⟩
    rw [head?_announcements] at hy
    obtain rfl := Option.some.inj hy
    have hcursor := h.cursor
    rw [hx] at hcursor
    cases x with
    | started at' =>
        obtain ⟨hzero, -, rfl⟩ := hcursor
        rw [hstart, startOf, if_pos hzero, if_pos (Nat.le_refl _)]
        exact ⟨hfirst hzero, rfl⟩
    | stopped => trivial
    | announced m _ =>
        obtain ⟨rfl, hpos, -⟩ := hcursor
        exact follows_startOf hpos hlt hstart
  · rw [List.getLast?_append, getLast?_announcements]
    exact ⟨rfl, Nat.lt_of_le_of_lt (Nat.zero_le _) hlt, hrun⟩
  · dsimp only
    split
    · exact Nat.le_refl _
    · exact h.asked_le

/-- An answer that is no block ends the tick that reads. -/
theorem Kept.headQuiet (h : Kept maxCatchUp s) {reply : Polled Block} {calls : List Call}
    (hreply : s.watcher.headReply maxCatchUp reply = (s.watcher.done, calls))
    (hmarks : marksOf 0 calls = []) : Kept maxCatchUp (handle maxCatchUp s (.head reply) 0) := by
  cases hphase : s.watcher.phase with
  | idle => exact h.ignored (by simp [Watcher.step, hphase])
  | filling b start => exact h.ignored (by simp [Watcher.step, hphase])
  | reading =>
      refine h.done ?_ hmarks
      simp only [Watcher.step, hphase]
      exact hreply

theorem Kept.missedFail (h : Kept maxCatchUp s) :
    Kept maxCatchUp (handle maxCatchUp s (.missed none) (headOf s.watcher)) := by
  cases hphase : s.watcher.phase with
  | idle => exact h.ignored (by simp [Watcher.step, hphase])
  | reading => exact h.ignored (by simp [Watcher.step, hphase])
  | filling b start =>
      have hstep : s.watcher.step maxCatchUp (.missed none) = (s.watcher.done, [.onError]) := by
        simp only [Watcher.step, hphase, Watcher.missedReply]
      exact h.done hstep rfl

theorem Kept.headIs (h : Kept maxCatchUp s) {n : Nat} (hlow : s.asked ≤ n)
    (hclean : Clean s (.headIs n)) :
    Kept maxCatchUp (handle maxCatchUp s (.head (.value (blocks.blockAt n))) n) := by
  have hnum := blocks.numbered n
  cases hphase : s.watcher.phase with
  | idle => exact h.ignored (by simp [Watcher.step, hphase])
  | filling b start => exact h.ignored (by simp [Watcher.step, hphase])
  | reading =>
      have htick := h.tick
      have hstep : s.watcher.step maxCatchUp (.head (.value (blocks.blockAt n))) =
          s.watcher.headReply maxCatchUp (.value (blocks.blockAt n)) := by
        simp only [Watcher.step, hphase]
      -- either the tick asked after the start, or it is a stale one that reads a later head
      have hrun : s.watcher.running = true ∧ s.startedAt ≤ n := by
        cases hstale : s.stale with
        | true => exact hclean hstale
        | false =>
            simp only [TickKept, hphase, hstale] at htick
            exact ⟨htick.1, htick.2.trans hlow⟩
      rcases headReply_value maxCatchUp s.watcher (blocks.blockAt n) with
        ⟨-, hreply⟩ | ⟨hlt, hnil, hreply⟩ | ⟨hlt, hmissed, hreply⟩
      · exact h.done (hstep.trans hreply) rfl
      · have hkept := h.announce (hstep.trans hreply) ?_ hrun.1 hlt rfl ?_
        · rwa [hnum] at hkept
        · rw [announcements, hnil]
          rfl
        · rw [hnum]
          exact fun _ => hrun.2
      · obtain ⟨hne, hstart⟩ := startOf_of_missed hmissed
        have hfresh : s.stale = false := by
          cases hstale : s.stale with
          | false => rfl
          | true =>
              simp only [TickKept, hphase, hstale] at htick
              exact absurd htick hne
        have hs : handle maxCatchUp s (.head (.value (blocks.blockAt n))) n =
            { s with
              watcher := { s.watcher with
                phase := .filling (blocks.blockAt n)
                  (startOf maxCatchUp s.watcher.last (blocks.blockAt n).number) } } := by
          simp [handle, hstep, hreply, hphase, Phase.isIdle, hfresh]
        rw [hs]
        refine ⟨h.complete, h.cursor, h.startedAt_le, h.asked_le, ?_⟩
        simp only [TickKept, hfresh]
        exact ⟨hrun.1, hlt, trivial, hstart⟩

theorem Kept.missedAre (h : Kept maxCatchUp s) {present : Nat → Bool}
    (hclean : Clean s (.missedAre present)) :
    Kept maxCatchUp (handle maxCatchUp s
      (.missed (some fun b => if present b then some (blocks.blockAt b) else none))
      (headOf s.watcher)) := by
  cases hphase : s.watcher.phase with
  | idle => exact h.ignored (by simp [Watcher.step, hphase])
  | reading => exact h.ignored (by simp [Watcher.step, hphase])
  | filling head start =>
      simp only [Clean, hphase] at hclean
      obtain ⟨hstale, hpresent⟩ := hclean
      have htick := h.tick
      simp only [TickKept, hphase, hstale] at htick
      obtain ⟨hrun, hlt, hstart, hmissed⟩ := htick
      have hhead : headOf s.watcher = head.number := by
        simp only [headOf, hphase]
      rw [hhead]
      have hstep : s.watcher.step maxCatchUp
            (.missed (some fun b => if present b then some (blocks.blockAt b) else none)) =
          s.watcher.missedReply head start
            (some fun b => if present b then some (blocks.blockAt b) else none) := by
        simp only [Watcher.step, hphase]
      refine h.announce hstep ?_ hrun hlt hstart ?_
      · rw [marksOf_append, marksOf_filled blocks present head.number hpresent]
        rfl
      · intro hzero
        rw [hstart, startOf, if_pos hzero] at hmissed
        exact absurd hmissed (Nat.lt_irrefl _)

theorem Kept.step (h : Kept maxCatchUp s) (e : Event) (hclean : Clean s e) :
    Kept maxCatchUp (step maxCatchUp blocks s e) := by
  cases e with
  | grow k =>
      exact ⟨h.complete, h.cursor, h.startedAt_le.trans (Nat.le_add_right _ _),
        h.asked_le.trans (Nat.le_add_right _ _), h.tick⟩
  | start => exact h.start
  | stop => exact h.stop
  | timer => exact h.timer
  | headFails => exact h.headQuiet rfl rfl
  | headNull => exact h.headQuiet rfl rfl
  | headIs n =>
      simp only [HeadFeed.step]
      split
      · next hread => exact h.headIs hread.1 hclean
      · exact h
  | missedFail => exact h.missedFail
  | missedAre present => exact h.missedAre hclean

end Steps

/-! ### Whole runs -/

section

variable (maxCatchUp : Nat) (blocks : Blocks)

/-- A run whose every step is clean. -/
def CleanRun (s : State) : List Event → Prop
  | [] => True
  | e :: es => Clean s e ∧ CleanRun (step maxCatchUp blocks s e) es

variable {maxCatchUp blocks}

theorem Kept.run {s : State} (h : Kept maxCatchUp s) (es : List Event)
    (hclean : CleanRun maxCatchUp blocks s es) : Kept maxCatchUp (run maxCatchUp blocks s es) := by
  induction es generalizing s with
  | nil => exact h
  | cons e es ih => exact ih (h.step e hclean.1) hclean.2

theorem kept_start (chain : Nat) : Kept maxCatchUp { chain } where
  complete := List.isChain_nil
  cursor := ⟨rfl, rfl⟩
  startedAt_le := Nat.zero_le _
  asked_le := Nat.zero_le _
  tick := rfl

/-- **Heads are announced completely where every missed block is there.**  Over any
interleaving, if no missed block comes back `null` and no tick from before a stop
announces an old head, then the first announcement after a start is a head no older than
the start, and each one after it is the next block or jumps over a gap that is too long. -/
theorem complete_run (maxCatchUp : Nat) (blocks : Blocks) (chain : Nat) (es : List Event)
    (hclean : CleanRun maxCatchUp blocks { chain } es) :
    Complete maxCatchUp (run maxCatchUp blocks { chain } es) :=
  ((kept_start chain).run es hclean).complete

/-- Two blocks at once, one of them filled in. -/
theorem complete_run_sample :
    Complete 24 (run 24 bareBlocks { chain := 10 }
      [.start, .headIs 10, .grow 2, .timer, .headIs 12, .missedAre fun _ => true]) :=
  complete_run 24 bareBlocks 10 _
    ⟨trivial, nofun, trivial, trivial, nofun, ⟨rfl, fun _ _ => rfl⟩, trivial⟩

/-- A missed block is skipped when it comes back `null`.  And a tick that is under way at
a stop writes its head back: the next subscriber is sent what happened while nobody
listened. -/
theorem skipped_and_replayed :
    ¬ Complete 24 (run 24 bareBlocks { chain := 10 }
      [.start, .headIs 10, .grow 3, .timer, .headIs 13, .missedAre fun b => b ≠ 12]) ∧
    ¬ Complete 24 (run 24 bareBlocks { chain := 10 }
      [.start, .stop, .headIs 10, .grow 5, .start, .headIs 15, .missedAre fun _ => true]) := by
  decide

end

end HeadFeed

end Ordo
