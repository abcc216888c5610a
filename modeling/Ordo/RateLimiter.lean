import Mathlib.Logic.Function.Basic
import Mathlib.Order.Nat
import Mathlib.Tactic.Common

/-!
# A fixed-window rate limiter

A window opens with the first check of a key, and the next one with the first check after
it has ended; within a window no more than `limit` checks of the key pass.

Checks are kept in a log, with the moment of each and whether it passed, and so are the
windows that were opened.  `Counted` ties the log to the counters, and says that no window
is over its limit; it is kept by time (`Counted.later`) and by a check (`Counted.check`).
-/

namespace RateLimiter

def WINDOW_MS : Nat := 60_000

structure Window where
  count : Nat
  resetAt : Nat
  deriving DecidableEq

variable {κ : Type*} [DecidableEq κ]

/-- The windows, by key. -/
abbrev Windows (κ : Type*) := κ → Option Window

structure Verdict where
  ok : Bool
  retryAfterMs : Nat
  deriving DecidableEq

/-- Whether a check starts a window: there is none, or it has ended. -/
def opens (windows : Windows κ) (now : Nat) (key : κ) : Bool :=
  match windows key with
  | none => true
  | some w => w.resetAt ≤ now

def check (windows : Windows κ) (now : Nat) (key : κ) (limit : Int) : Verdict × Windows κ :=
  if limit ≤ 0 then (⟨true, 0⟩, windows)
  else
    match windows key with
    | none => (⟨true, 0⟩, Function.update windows key (some ⟨1, now + WINDOW_MS⟩))
    | some w =>
        if w.resetAt ≤ now then
          (⟨true, 0⟩, Function.update windows key (some ⟨1, now + WINDOW_MS⟩))
        else if limit ≤ w.count then (⟨false, w.resetAt - now⟩, windows)
        else (⟨true, 0⟩, Function.update windows key (some { w with count := w.count + 1 }))

/-! ### The log -/

/-- A check that was made. -/
structure Check (κ : Type*) where
  key : κ
  time : Nat
  ok : Bool

/-- A check falls into the window of a key that opened at `start`. -/
def Check.Within (c : Check κ) (key : κ) (start : Nat) : Prop :=
  c.key = key ∧ start ≤ c.time ∧ c.time < start + WINDOW_MS

instance (c : Check κ) (key : κ) (start : Nat) : Decidable (c.Within key start) := by
  unfold Check.Within
  infer_instance

/-- How many checks passed in a window. -/
def passed (log : List (Check κ)) (key : κ) (start : Nat) : Nat :=
  log.countP fun c => c.ok && decide (c.Within key start)

/-- The counters count what passed in the windows that are open, and nothing passed
beyond the limit in any other. -/
structure Counted (limit : Nat) (windows : Windows κ) (opened : List (κ × Nat))
    (log : List (Check κ)) (now : Nat) : Prop where
  counters : ∀ key w, windows key = some w → ∃ start, w.resetAt = start + WINDOW_MS ∧
    passed log key start ≤ w.count ∧ w.count ≤ limit
  current : ∀ x ∈ opened, (∃ w, windows x.1 = some w ∧ w.resetAt = x.2 + WINDOW_MS) ∨
    x.2 + WINDOW_MS ≤ now
  bounded : ∀ x ∈ opened, passed log x.1 x.2 ≤ limit
  logged : ∀ c ∈ log, ∃ w, windows c.key = some w ∧ c.time < w.resetAt

section Counting

variable {limit : Nat} {windows : Windows κ} {opened : List (κ × Nat)} {log : List (Check κ)}
  {now : Nat}

theorem passed_concat (log : List (Check κ)) (c : Check κ) (key : κ) (start : Nat) :
    passed (log ++ [c]) key start =
      passed log key start + if c.ok ∧ c.Within key start then 1 else 0 := by
  rw [passed, passed, List.countP_append, List.countP_singleton]
  simp only [Bool.and_eq_true, decide_eq_true_eq]

/-- A check that falls outside a window does not count in it. -/
theorem passed_concat_of_not {c : Check κ} {key : κ} {start : Nat}
    (h : ¬ (c.ok = true ∧ c.Within key start)) :
    passed (log ++ [c]) key start = passed log key start := by
  rw [passed_concat, if_neg h]
  exact Nat.add_zero _

variable (log) in
theorem passed_concat_le (c : Check κ) (key : κ) (start : Nat) :
    passed (log ++ [c]) key start ≤ passed log key start + 1 := by
  rw [passed_concat]
  split
  · exact Nat.le_refl _
  · exact Nat.le_succ _

theorem Counted.start : Counted (κ := κ) limit (fun _ => none) [] [] now where
  counters _ _ h := by cases h
  current x h := absurd h List.not_mem_nil
  bounded x h := absurd h List.not_mem_nil
  logged c h := absurd h List.not_mem_nil

/-- Time passes. -/
theorem Counted.later (h : Counted limit windows opened log now) {now' : Nat}
    (hle : now ≤ now') : Counted limit windows opened log now' where
  counters := h.counters
  current x hx := (h.current x hx).imp_right fun hpast => hpast.trans hle
  bounded := h.bounded
  logged := h.logged

/-- A check that is refused changes only the log. -/
theorem Counted.refused (h : Counted limit windows opened log now) {key : κ} {w : Window}
    (hw : windows key = some w) (hopen : now < w.resetAt) :
    Counted limit windows opened (log ++ [⟨key, now, false⟩]) now where
  counters k v hv := by
    obtain ⟨start, hreset, hpassed, hle⟩ := h.counters k v hv
    refine ⟨start, hreset, ?_, hle⟩
    rw [passed_concat_of_not (by simp)]
    exact hpassed
  current := h.current
  bounded x hx := by
    rw [passed_concat_of_not (by simp)]
    exact h.bounded x hx
  logged c hc := by
    rcases List.mem_append.mp hc with hold | hnew
    · exact h.logged c hold
    · obtain rfl := List.mem_singleton.mp hnew
      exact ⟨w, hw, hopen⟩

/-- A check leaves the other keys' counters as they are. -/
theorem Counted.counters_of_ne (h : Counted limit windows opened log now) {c : Check κ} {k : κ}
    (hne : k ≠ c.key) {v : Window} (hv : windows k = some v) :
    ∃ start, v.resetAt = start + WINDOW_MS ∧ passed (log ++ [c]) k start ≤ v.count ∧
      v.count ≤ limit := by
  obtain ⟨start, hreset, hpassed, hle⟩ := h.counters k v hv
  refine ⟨start, hreset, ?_, hle⟩
  rw [passed_concat_of_not fun hin => hne hin.2.1.symm]
  exact hpassed

/-- A check that passes in a window that is open. -/
theorem Counted.granted (h : Counted limit windows opened log now) {key : κ} {w : Window}
    (hw : windows key = some w) (hopen : now < w.resetAt) (hroom : w.count < limit) :
    Counted limit (Function.update windows key (some { w with count := w.count + 1 })) opened
      (log ++ [⟨key, now, true⟩]) now where
  counters k v hv := by
    rcases eq_or_ne k key with rfl | hne
    · rw [Function.update_self] at hv
      obtain rfl := Option.some.inj hv
      obtain ⟨start, hreset, hpassed, -⟩ := h.counters k w hw
      refine ⟨start, hreset, ?_, hroom⟩
      exact (passed_concat_le _ _ _ _).trans (Nat.succ_le_succ hpassed)
    · rw [Function.update_of_ne hne] at hv
      exact h.counters_of_ne hne hv
  current x hx := by
    rcases h.current x hx with ⟨v, hv, hreset⟩ | hpast
    · refine Or.inl ?_
      rcases eq_or_ne x.1 key with heq | hne
      · rw [heq, Function.update_self]
        rw [heq, hw] at hv
        obtain rfl := Option.some.inj hv
        exact ⟨_, rfl, hreset⟩
      · rw [Function.update_of_ne hne]
        exact ⟨v, hv, hreset⟩
    · exact Or.inr hpast
  bounded x hx := by
    by_cases hin : x.1 = key ∧ now < x.2 + WINDOW_MS
    · obtain ⟨hkey, hlt⟩ := hin
      rcases h.current x hx with ⟨v, hv, hreset⟩ | hpast
      · rw [hkey, hw] at hv
        obtain rfl := Option.some.inj hv
        obtain ⟨start, hstart, hpassed, -⟩ := h.counters key w hw
        have hsame : x.2 = start := Nat.add_right_cancel (hreset.symm.trans hstart)
        rw [hkey, hsame]
        exact (passed_concat_le _ _ _ _).trans ((Nat.succ_le_succ hpassed).trans hroom)
      · exact absurd hlt (Nat.not_lt.mpr hpast)
    · rw [passed_concat_of_not fun hc => hin ⟨hc.2.1.symm, hc.2.2.2⟩]
      exact h.bounded x hx
  logged c hc := by
    rcases List.mem_append.mp hc with hold | hnew
    · obtain ⟨v, hv, hlt⟩ := h.logged c hold
      rcases eq_or_ne c.key key with heq | hne
      · rw [heq, hw] at hv
        obtain rfl := Option.some.inj hv
        rw [heq, Function.update_self]
        exact ⟨_, rfl, hlt⟩
      · rw [Function.update_of_ne hne]
        exact ⟨v, hv, hlt⟩
    · obtain rfl := List.mem_singleton.mp hnew
      rw [Function.update_self]
      exact ⟨_, rfl, hopen⟩

/-- A check that opens a window. -/
theorem Counted.opening (h : Counted limit windows opened log now) {key : κ}
    (hends : ∀ w, windows key = some w → w.resetAt ≤ now) (hpos : 0 < limit) :
    Counted limit (Function.update windows key (some ⟨1, now + WINDOW_MS⟩))
      (opened ++ [(key, now)]) (log ++ [⟨key, now, true⟩]) now := by
  -- every check of the key was in a window that has ended
  have hearlier : ∀ c ∈ log, c.key = key → c.time < now := by
    intro c hc hkey
    obtain ⟨w, hw, hlt⟩ := h.logged c hc
    rw [hkey] at hw
    exact hlt.trans_le (hends w hw)
  have hfresh : passed log key now = 0 := by
    refine List.countP_eq_zero.mpr fun c hc => ?_
    simp only [Bool.and_eq_true, decide_eq_true_eq, not_and]
    rintro - ⟨hkey, hle, -⟩
    exact absurd (hearlier c hc hkey) (Nat.not_lt.mpr hle)
  have hone : passed (log ++ [⟨key, now, true⟩]) key now ≤ 1 := by
    have hle := passed_concat_le log ⟨key, now, true⟩ key now
    rw [hfresh] at hle
    exact hle
  -- a window that was opened before is over, or is another key's
  have hpast : ∀ x ∈ opened, x.1 = key → x.2 + WINDOW_MS ≤ now := by
    intro x hx hkey
    rcases h.current x hx with ⟨w, hw, hreset⟩ | hover
    · rw [hkey] at hw
      rw [← hreset]
      exact hends w hw
    · exact hover
  refine ⟨?_, ?_, ?_, ?_⟩
  · intro k v hv
    rcases eq_or_ne k key with rfl | hne
    · rw [Function.update_self] at hv
      obtain rfl := Option.some.inj hv
      exact ⟨now, rfl, hone, hpos⟩
    · rw [Function.update_of_ne hne] at hv
      exact h.counters_of_ne hne hv
  · intro x hx
    rcases List.mem_append.mp hx with hold | hnew
    · rcases eq_or_ne x.1 key with heq | hne
      · exact Or.inr (hpast x hold heq)
      · rw [Function.update_of_ne hne]
        exact h.current x hold
    · obtain rfl := List.mem_singleton.mp hnew
      rw [Function.update_self]
      exact Or.inl ⟨_, rfl, rfl⟩
  · intro x hx
    rcases List.mem_append.mp hx with hold | hnew
    · rw [passed_concat_of_not]
      · exact h.bounded x hold
      · rintro ⟨-, hkey, -, hlt⟩
        exact absurd hlt (Nat.not_lt.mpr (hpast x hold hkey.symm))
    · obtain rfl := List.mem_singleton.mp hnew
      exact hone.trans hpos
  · intro c hc
    rcases List.mem_append.mp hc with hold | hnew
    · rcases eq_or_ne c.key key with heq | hne
      · rw [heq, Function.update_self]
        exact ⟨_, rfl, (hearlier c hold heq).trans (Nat.lt_add_of_pos_right (by decide))⟩
      · rw [Function.update_of_ne hne]
        exact h.logged c hold
    · obtain rfl := List.mem_singleton.mp hnew
      rw [Function.update_self]
      exact ⟨_, rfl, Nat.lt_add_of_pos_right (by decide)⟩

/-- **A check keeps the counters true**, with the window it opens and itself in the log. -/
theorem Counted.check (h : Counted limit windows opened log now) (hpos : 0 < limit) (key : κ) :
    Counted limit (RateLimiter.check windows now key limit).2
      (opened ++ if opens windows now key then [(key, now)] else [])
      (log ++ [⟨key, now, (RateLimiter.check windows now key limit).1.ok⟩]) now := by
  have hlimit : ¬ (limit : Int) ≤ 0 := by omega
  unfold RateLimiter.check opens
  rw [if_neg hlimit]
  cases hw : windows key with
  | none =>
      exact h.opening (fun w hw' => by rw [hw] at hw'; cases hw') hpos
  | some w =>
      by_cases hends : w.resetAt ≤ now
      · simp only [hends, if_true, decide_true]
        refine h.opening (fun v hv => ?_) hpos
        rw [hw] at hv
        obtain rfl := Option.some.inj hv
        exact hends
      · simp only [hends, if_false, decide_false, Bool.false_eq_true, List.append_nil]
        have hopen := Nat.lt_of_not_le hends
        split
        · exact h.refused hw hopen
        · next hroom => exact h.granted hw hopen (by omega)

end Counting

end RateLimiter
