import Ordo.Guarded
import Ordo.Numbered

/-!
# The lane that quotes run in

A lane runs some tasks at a time.  A task that finds it full waits in a queue, and one that
ends takes itself off the count and wakes the first of the queue, which puts itself on the
count when it goes on.  Between the two a task that arrives finds a slot free.

1.  The count is the number of tasks that run, and no task that waits is forgotten
    (`sound_run`).
2.  A lane runs no more than it should exactly when each task that was woken finds a slot
    free as it goes on (`holds_iff`), as it does when no task arrives in between.
-/

namespace Ordo

namespace QuoteLane

/-- Where a task is.  One that was woken has yet to go on. -/
inductive Phase where
  | queued
  | woken
  | running
  | ended (ok : Bool)
  deriving DecidableEq

/-- Tasks are numbered as they arrive. -/
structure Lane where
  inflight : Int
  waiters : List Nat
  tasks : List Phase

inductive Event where
  | arrive
  | resume (id : Nat)
  | settle (id : Nat) (ok : Bool)

section Run

variable (max : Nat) (s : Lane)

def become (id : Nat) (phase : Phase) : Lane := { s with tasks := s.tasks.set id phase }

/-- `run`, up to its first await. -/
def arrive : Lane :=
  if max ≤ s.inflight then
    { s with waiters := s.waiters ++ [s.tasks.length], tasks := s.tasks ++ [.queued] }
  else { s with inflight := s.inflight + 1, tasks := s.tasks ++ [.running] }

/-- A task that was woken goes on. -/
def resume (id : Nat) : Lane :=
  match s.tasks[id]? with
  | some .woken => { become s id .running with inflight := s.inflight + 1 }
  | _ => s

/-- `this.waiters.shift()?.()` -/
def wake : Lane :=
  match s.waiters with
  | next :: q => { become s next .woken with waiters := q }
  | [] => s

/-- A task has completed or has failed. -/
def settle (id : Nat) (ok : Bool) : Lane :=
  match s.tasks[id]? with
  | some .running => wake { become s id (.ended ok) with inflight := s.inflight - 1 }
  | _ => s

def step : Event → Lane
  | .arrive => arrive max s
  | .resume id => resume s id
  | .settle id ok => settle s id ok

def init : Lane := ⟨0, [], []⟩

def run (es : List Event) : Lane := es.foldl (step max) init

def running : Nat := s.tasks.countP (· = .running)

def woken : Nat := s.tasks.countP (· = .woken)

/-- The count is right, and whoever waits is in the queue, in the order of arrival; while
there is a queue there is somebody, running or woken, who will wake the next. -/
structure Sound : Prop where
  counted : s.inflight = running s
  queued : ∀ id : Nat, s.tasks[id]? = some .queued ↔ id ∈ s.waiters
  sorted : s.waiters.Pairwise (· < ·)
  moving : 0 < max → s.waiters ≠ [] → 0 < running s + woken s

/-- What the lane is for. -/
structure Holds : Prop where
  sound : Sound max s
  within : running s ≤ max

/-- A task that goes on finds a slot free. -/
def Finds : Event → Prop
  | .resume id => s.tasks[id]? = some .woken → s.inflight < max
  | _ => True

/-- A task that arrives to a free slot leaves one for each that was woken. -/
def Yields : Event → Prop
  | .arrive => s.inflight < max → s.inflight + woken s < max
  | _ => True

end Run

section Tasks

variable {max id : Nat} {s : Lane} {p q : Phase}

theorem running_become (hid : s.tasks[id]? = some p) :
    running (become s id q) + (if p = .running then 1 else 0) =
      running s + if q = .running then 1 else 0 := by
  simpa [running, become] using
    Numbered.countP_set_add (y := q) (fun q => decide (q = .running)) hid

theorem woken_become (hid : s.tasks[id]? = some p) :
    woken (become s id q) + (if p = .woken then 1 else 0) =
      woken s + if q = .woken then 1 else 0 := by
  simpa [woken, become] using
    Numbered.countP_set_add (y := q) (fun q => decide (q = .woken)) hid

theorem queued_become (hid : s.tasks[id]? = some p) (hp : p ≠ .queued) (hq : q ≠ .queued)
    (other : Nat) :
    (become s id q).tasks[other]? = some .queued ↔ s.tasks[other]? = some .queued := by
  rw [become, Numbered.lookup_set hid]
  split
  next hother => simp [hother, hid, hp, hq]
  next => rfl

/-- **A task arrives.** -/
theorem Sound.arrive (h : Sound max s) : Sound max (arrive max s) ∧
    running (arrive max s) = running s + (if (max : Int) ≤ s.inflight then 0 else 1) ∧
    woken (arrive max s) = woken s := by
  unfold QuoteLane.arrive
  split
  next hfull =>
    have hrunning : (s.tasks ++ [Phase.queued]).countP (· = .running) = running s := by
      simp [running]
    have hwoken : (s.tasks ++ [Phase.queued]).countP (· = .woken) = woken s := by
      simp [woken]
    refine ⟨⟨?_, fun id => ?_, ?_, fun hmax _ => ?_⟩, hrunning, hwoken⟩
    · rw [running, hrunning]
      exact h.counted
    · rw [Numbered.lookup_append, List.mem_append, List.mem_singleton]
      split
      next hlast => simp [hlast]
      next hlast =>
        rw [or_iff_left hlast]
        exact h.queued id
    · refine List.pairwise_append.mpr ⟨h.sorted, List.pairwise_singleton _ _, ?_⟩
      intro id hid last hlast
      rw [List.mem_singleton.mp hlast]
      exact Numbered.lt_of_lookup ((h.queued id).mpr hid)
    · have hcounted := h.counted
      rw [running, hrunning]
      omega
  next hfree =>
    have hrunning : (s.tasks ++ [Phase.running]).countP (· = .running) = running s + 1 := by
      simp [running]
    have hwoken : (s.tasks ++ [Phase.running]).countP (· = .woken) = woken s := by
      simp [woken]
    refine ⟨⟨?_, fun id => ?_, h.sorted, fun _ _ => ?_⟩, hrunning, hwoken⟩
    · rw [running, hrunning, h.counted]
      rfl
    · rw [Numbered.lookup_append]
      split
      next hlast =>
        rw [← h.queued, hlast, List.getElem?_eq_none (Nat.le_refl _)]
        simp
      next => exact h.queued id
    · rw [running, hrunning]
      omega

/-- **A task goes on.** -/
theorem Sound.resume (h : Sound max s) (id : Nat) : Sound max (resume s id) ∧
    (s.tasks[id]? = some .woken →
      running (resume s id) = running s + 1 ∧ woken (resume s id) + 1 = woken s) ∧
    (s.tasks[id]? ≠ some .woken → resume s id = s) := by
  by_cases hid : s.tasks[id]? = some .woken
  · have hresume : QuoteLane.resume s id =
        { become s id .running with inflight := s.inflight + 1 } := by
      rw [QuoteLane.resume, hid]
    have hrunning : running (QuoteLane.resume s id) = running s + 1 := by
      rw [hresume]
      exact running_become (q := .running) hid
    have hwoken : woken (QuoteLane.resume s id) + 1 = woken s := by
      rw [hresume]
      exact woken_become (q := .running) hid
    refine ⟨⟨?_, fun other => ?_, ?_, fun _ _ => ?_⟩, fun _ => ⟨hrunning, hwoken⟩,
      fun hnot => absurd hid hnot⟩
    · rw [hrunning, hresume]
      change s.inflight + 1 = _
      rw [h.counted]
      rfl
    · rw [hresume]
      exact (queued_become hid Phase.noConfusion Phase.noConfusion other).trans (h.queued other)
    · rw [hresume]
      exact h.sorted
    · omega
  · have hsame : QuoteLane.resume s id = s := by
      unfold QuoteLane.resume
      split
      next hwoken => exact absurd hwoken hid
      next => rfl
    rw [hsame]
    exact ⟨h, fun hwoken => absurd hwoken hid, fun _ => rfl⟩

/-- The first of the queue is woken, in a lane whose count is right. -/
theorem wake_sound (max : Nat) (hcounted : s.inflight = running s)
    (hqueued : ∀ id : Nat, s.tasks[id]? = some .queued ↔ id ∈ s.waiters)
    (hsorted : s.waiters.Pairwise (· < ·)) : Sound max (wake s) ∧
      running (wake s) = running s ∧ woken (wake s) ≤ woken s + 1 := by
  unfold wake
  split
  next next q hwaiters =>
    rw [hwaiters] at hqueued hsorted
    have hnext : s.tasks[next]? = some .queued := (hqueued next).mpr List.mem_cons_self
    have hrunning : running (become s next .woken) = running s := by
      simpa using running_become (q := .woken) hnext
    have hwoken : woken (become s next .woken) = woken s + 1 := by
      simpa using woken_become (q := .woken) hnext
    obtain ⟨hfirst, hrest⟩ := List.pairwise_cons.mp hsorted
    refine ⟨⟨?_, fun id => ?_, hrest, fun _ _ => ?_⟩, hrunning, Nat.le_of_eq hwoken⟩
    · change s.inflight = running (become s next .woken)
      rw [hrunning, hcounted]
    · change (become s next .woken).tasks[id]? = some .queued ↔ id ∈ q
      rw [become, Numbered.lookup_set hnext]
      split
      next hid =>
        subst hid
        exact iff_of_false (by simp) fun hin => absurd (hfirst id hin) (Nat.lt_irrefl id)
      next hid =>
        rw [hqueued, List.mem_cons, or_iff_right hid]
    · change 0 < running (become s next .woken) + woken (become s next .woken)
      omega
  next hnobody =>
    exact ⟨⟨hcounted, hqueued, hsorted, fun _ hsome => absurd hnobody hsome⟩, rfl,
      Nat.le_succ _⟩

/-- **A task ends.** -/
theorem Sound.settle (h : Sound max s) (id : Nat) (ok : Bool) : Sound max (settle s id ok) ∧
    running (settle s id ok) ≤ running s ∧
    running (settle s id ok) + woken (settle s id ok) ≤ running s + woken s := by
  unfold QuoteLane.settle
  split
  next hid =>
    have hrunning : running (become s id (.ended ok)) + 1 = running s := by
      simpa using running_become (q := .ended ok) hid
    have hwoken : woken (become s id (.ended ok)) = woken s := by
      simpa using woken_become (q := .ended ok) hid
    have hcounted : s.inflight - 1 = running (become s id (.ended ok)) := by
      rw [h.counted, ← hrunning]
      simp
    obtain ⟨hsound, hsame, hmore⟩ := wake_sound max
      (s := { become s id (.ended ok) with inflight := s.inflight - 1 }) hcounted
      (fun other =>
        (queued_become hid Phase.noConfusion Phase.noConfusion other).trans (h.queued other))
      h.sorted
    change _ = running (become s id (.ended ok)) at hsame
    change _ ≤ woken (become s id (.ended ok)) + 1 at hmore
    exact ⟨hsound, by omega, by omega⟩
  next => exact ⟨h, Nat.le_refl _, Nat.le_refl _⟩

theorem Sound.step (h : Sound max s) (e : Event) : Sound max (step max s e) := by
  cases e with
  | arrive => exact h.arrive.1
  | resume id => exact (h.resume id).1
  | settle id ok => exact (h.settle id ok).1

/-- **One step.**  What may take the lane over its cap is a task that goes on. -/
theorem holds_step_iff (h : Holds max s) (e : Event) :
    Holds max (step max s e) ↔ Finds max s e := by
  have hcounted := h.sound.counted
  have hwithin := h.within
  have hsound := h.sound.step e
  cases e with
  | arrive =>
      obtain ⟨-, hrunning, -⟩ := h.sound.arrive
      refine iff_of_true ⟨hsound, ?_⟩ trivial
      change running (arrive max s) ≤ max
      rw [hrunning]
      split
      · exact hwithin
      · omega
  | resume id =>
      obtain ⟨-, hgoes, hstays⟩ := h.sound.resume id
      constructor
      · intro hafter hid
        have hafterwards : running (resume s id) ≤ max := hafter.within
        rw [(hgoes hid).1] at hafterwards
        omega
      · intro hfinds
        refine ⟨hsound, ?_⟩
        change running (resume s id) ≤ max
        by_cases hid : s.tasks[id]? = some .woken
        · have hfree := hfinds hid
          rw [(hgoes hid).1]
          omega
        · rw [hstays hid]
          exact hwithin
  | settle id ok =>
      exact iff_of_true ⟨hsound, Nat.le_trans (h.sound.settle id ok).2.1 hwithin⟩ trivial

/-- The slots that are taken or promised are not more than there are. -/
structure Promised (max : Nat) (s : Lane) : Prop where
  sound : Sound max s
  enough : running s + woken s ≤ max

theorem Promised.finds (h : Promised max s) (e : Event) : Finds max s e := by
  have henough := h.enough
  cases e with
  | arrive => trivial
  | resume id =>
      intro hid
      have hwoken : 0 < woken s := Numbered.countP_pos_of_lookup hid (by simp)
      rw [h.sound.counted]
      omega
  | settle id ok => trivial

theorem Promised.step (h : Promised max s) {e : Event} (hyields : Yields max s e) :
    Promised max (step max s e) := by
  have henough := h.enough
  have hcounted := h.sound.counted
  refine ⟨h.sound.step e, ?_⟩
  cases e with
  | arrive =>
      obtain ⟨-, hrunning, hwoken⟩ := h.sound.arrive
      change running (arrive max s) + woken (arrive max s) ≤ max
      rw [hrunning, hwoken]
      split
      next => exact henough
      next hfree =>
        have hleft := hyields (Int.not_le.mp hfree)
        omega
  | resume id =>
      obtain ⟨-, hgoes, hstays⟩ := h.sound.resume id
      change running (resume s id) + woken (resume s id) ≤ max
      by_cases hid : s.tasks[id]? = some .woken
      · obtain ⟨hrunning, hwoken⟩ := hgoes hid
        omega
      · rw [hstays hid]
        exact henough
  | settle id ok => exact Nat.le_trans (h.sound.settle id ok).2.2 henough

theorem sound_init : Sound max init where
  counted := rfl
  queued := fun id => by simp [init]
  sorted := List.Pairwise.nil
  moving := fun _ hsome => absurd rfl hsome

/-- The count is right and no task is lost, in any run. -/
theorem sound_run (es : List Event) : Sound max (run max es) := by
  rw [run]
  have hstart : Sound max init := sound_init
  generalize init = s at hstart
  induction es generalizing s with
  | nil => exact hstart
  | cons e es ih => exact ih _ (hstart.step e)

end Tasks

/-- **The lane.**  In any run the count is right and no task is lost.  The lane runs no more
than it should all along exactly when each task that was woken finds a slot free as it goes
on; so it does where each task that arrives leaves a slot for each that was woken. -/
theorem holds_iff (max : Nat) (es : List Event) :
    Sound max (run max es) ∧
      ((∀ pre post, es = pre ++ post → Holds max (run max pre)) ↔
        Guarded.Along (step max) (Finds max) init es) ∧
      (Guarded.Along (step max) (Yields max) init es →
        Guarded.Along (step max) (Finds max) init es) := by
  have hholds : Holds max init := ⟨sound_init, Nat.zero_le _⟩
  refine ⟨sound_run es, ?_, fun hyields => ?_⟩
  · have hsteps : Guarded.Along (step max) (fun s e => Holds max (step max s e)) init es ↔
        Guarded.Along (step max) (Finds max) init es :=
      Guarded.along_iff (fun s e (h : Holds max s) hfinds => (holds_step_iff h e).mpr hfinds)
        (fun s e h => holds_step_iff h e) hholds
    rw [← hsteps]
    constructor
    · intro h
      exact (Guarded.throughout_iff.mp h).2
    · intro h
      exact Guarded.throughout_iff.mpr ⟨hholds, h⟩
  · exact Guarded.along_of_invariant
      (fun s e (h : Promised max s) hyields => h.step hyields) (fun s e h _ => h.finds e)
      ⟨sound_init, Nat.zero_le _⟩ hyields

/-- One task at a time: the second waits for the first, and the third arrives when the second
was woken and has yet to go on. -/
def overtaken : List Event := [.arrive, .arrive, .settle 0 true, .arrive, .resume 1]

/-- Two tasks run in a lane for one. -/
theorem two_at_a_time :
    ¬ ∀ (max : Nat) (es : List Event), running (run max es) ≤ max := by
  intro hclaim
  exact absurd (hclaim 1 overtaken) (by decide)

end QuoteLane

end Ordo
