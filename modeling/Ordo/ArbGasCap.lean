import Mathlib.Algebra.BigOperators.Group.List.Basic
import Mathlib.Data.List.TakeWhile
import Ordo.ArbBot
import Ordo.Guarded

/-!
# The daily gas cap

The breaker adds up the gas of receipts that were read, in this process or, by the ledger
file, in one before it.

* `counted_step` — what keeps the breaker's count complete: no accepted transaction goes
  unwatched, no receipt is given up, every line is whole, and no process dies over a
  transaction;
* `cap_run` — in a run that keeps to it, a transaction is sent only while the gas that was
  paid over the last day is below the cap.
-/

namespace Ordo

namespace ArbBot

/-- Gas since a moment, by a list of entries. -/
def since (T : Int) (l : List GasEntry) : Nat := ((l.filter fun g => T < g.time).map (·.wei)).sum

/-- What an included transaction really cost. -/
def Included.entry (r : Included) : GasEntry := ⟨r.time, r.gasPaid⟩

/-- The gas that transactions of the wallet paid since a moment. -/
def paidSince (T : Int) (l : List Included) : Nat := since T (l.map Included.entry)

/-- A transaction goes out only while the gas paid over the last day is below the cap. -/
def BelowCap (cfg : Config) (s : Bot) : Event → Prop
  | .send _ => s.phase = .cleared → paidSince (s.now - DAY) s.mined < cfg.dailyGasCap
  | _ => True

/-- No gas goes uncounted: no reply is lost, no receipt is given up of a transaction that
may still cost gas, no receipt understates the gas, every line is written whole, and no
process dies over a transaction. -/
def Watched (s : Bot) : Event → Prop
  | .send r => r = .refused ∨ r = .named .whole
  | .poll answered priced =>
      match s.phase with
      | .polling left flight =>
          match flight, answered with
          | .included r, true => priced = true ∨ r.gasPrice ≤ s.maxFeePerGas
          | flight, _ => left ≤ 1 → flight = .dropped
      | _ => True
  | .record w => w = .whole
  | .restart => s.phase = .idle ∨ s.phase = .scanning ∨ s.phase = .cleared
  | _ => True

/-- A watched transaction that has been included, and not been counted yet. -/
def unbooked : Phase → List Included
  | .polling _ (.included r) => [r]
  | _ => []

/-- One whose line is still to be written. -/
def unwritten : Phase → List Included
  | .polling _ (.included r) => [r]
  | .settling r _ => [r]
  | .recording _ r _ => [r]
  | _ => []

/-- What a receipt in hand is counted as. -/
def Enough (s : Bot) : Prop :=
  match s.phase with
  | .settling r gasWei => r.gasPaid ≤ gasWei
  | .recording kind r gasWei => kind ≠ .fire ∧ r.gasPaid ≤ gasWei
  | _ => True

/-- The count is complete, in the process and in the file. -/
structure Counted (cfg : Config) (s : Bot) : Prop where
  strays : ∀ f ∈ s.loose, f = .dropped
  clean : s.file.tail = .clean
  booked : ∀ T, s.now - DAY ≤ T →
    paidSince T s.mined ≤ since T s.gasLedger + paidSince T (unbooked s.phase)
  written : ∀ T, paidSince T s.mined ≤
    since T (s.file.replay.filterMap LedgerEvent.spend) + paidSince T (unwritten s.phase)
  past : ∀ r ∈ unwritten s.phase, r.time ≤ s.now
  enough : Enough s
  below : s.phase = .cleared → burned s < cfg.dailyGasCap

section Sums

variable {T : Int} {l : List GasEntry} {g : GasEntry}

@[simp] theorem since_nil : since T [] = 0 := rfl

theorem since_append (l l' : List GasEntry) : since T (l ++ l') = since T l + since T l' := by
  simp [since]

theorem since_singleton : since T [g] = if T < g.time then g.wei else 0 := by
  by_cases hlate : T < g.time
  · simp [since, hlate]
  · simp [since, hlate]

theorem since_le (T : Int) (l : List GasEntry) : since T l ≤ (l.map (·.wei)).sum := by
  induction l with
  | nil => exact Nat.le_refl 0
  | cons g l ih =>
      have hsplit : since T (g :: l) = since T [g] + since T l := since_append [g] l
      rw [hsplit, since_singleton, List.map_cons, List.sum_cons]
      split
      · omega
      · omega

/-- Entries that are older count for nothing. -/
theorem since_eq_zero (hold : ∀ g ∈ l, g.time ≤ T) : since T l = 0 := by
  have hnone : l.filter (fun g => T < g.time) = [] := by
    rw [List.filter_eq_nil_iff]
    intro g hg
    have h := hold g hg
    simp only [decide_eq_true_eq]
    omega
  simp [since, hnone]

theorem since_dropWhile {cutoff : Int} (hcutoff : cutoff ≤ T) :
    since T (l.dropWhile fun g => g.time < cutoff) = since T l := by
  have hsplit := List.takeWhile_append_dropWhile (p := fun g : GasEntry => g.time < cutoff) (l := l)
  have hshed : since T (l.takeWhile fun g => g.time < cutoff) = 0 := by
    refine since_eq_zero fun g hg => ?_
    have hearly := List.mem_takeWhile_imp hg
    simp only [decide_eq_true_eq] at hearly
    omega
  conv_rhs => rw [← hsplit, since_append, hshed, Nat.zero_add]

theorem since_perm {l l' : List GasEntry} (h : l.Perm l') : since T l = since T l' :=
  ((h.filter _).map _).sum_eq

theorem since_filter {cutoff : Int} (hcutoff : cutoff ≤ T) :
    since T (l.filter fun g => cutoff < g.time) = since T l := by
  unfold since
  rw [List.filter_filter]
  congr 2
  refine List.filter_congr fun g _ => ?_
  simp only [Bool.and_eq_left_iff_imp, decide_eq_true_eq]
  omega

theorem paidSince_append (l : List Included) (r : Included) :
    paidSince T (l ++ [r]) = paidSince T l + paidSince T [r] := by
  rw [paidSince, List.map_append, since_append]
  rfl

/-- A later entry of as much counts for at least as much. -/
theorem paidSince_le {r : Included} (htime : r.time ≤ g.time) (hwei : r.gasPaid ≤ g.wei) :
    paidSince T [r] ≤ since T [g] := by
  rw [paidSince, List.map_singleton, since_singleton, since_singleton]
  change (if T < r.time then r.gasPaid else 0) ≤ _
  by_cases hlate : T < r.time
  · rw [if_pos hlate, if_pos (by omega)]
    exact hwei
  · rw [if_neg hlate]
    exact Nat.zero_le _

end Sums

section File

variable {f : LedgerFile} {e : LedgerEvent}

/-- A line that is written whole is read back, after what was there. -/
theorem replay_append (hclean : f.tail = .clean) :
    (f.append e .whole).tail = .clean ∧ (f.append e .whole).replay = f.replay ++ [e] := by
  refine ⟨rfl, ?_⟩
  simp [LedgerFile.append, LedgerFile.replay, hclean]

/-- What seeds the breaker counts as the file does, over the last day. -/
theorem since_seed {now T : Int} (hday : now - DAY ≤ T) :
    since T (f.seed now) = since T (f.replay.filterMap LedgerEvent.spend) := by
  rw [LedgerFile.seed, since_perm (List.mergeSort_perm _ _), since_filter hday]

end File

/-! ### Steps -/

section Steps

variable {cfg : Config} {s : Bot}

/-- What the count rests on is not touched. -/
theorem Counted.of_same {s' : Bot} (h : Counted cfg s) (hnow : s.now ≤ s'.now)
    (hphase : s'.phase = s.phase) (hloose : s'.loose = s.loose) (hfile : s'.file = s.file)
    (hledger : s'.gasLedger = s.gasLedger) (hmined : s'.mined = s.mined) : Counted cfg s' := by
  refine ⟨?_, ?_, ?_, ?_, ?_, ?_, ?_⟩
  · rw [hloose]
    exact h.strays
  · rw [hfile]
    exact h.clean
  · intro T hT
    rw [hmined, hledger, hphase]
    exact h.booked T (by omega)
  · rw [hmined, hfile, hphase]
    exact h.written
  · intro r hr
    rw [hphase] at hr
    have hpast := h.past r hr
    omega
  · have henough := h.enough
    unfold Enough at henough ⊢
    rw [hphase]
    exact henough
  · rw [hphase, burned, hledger]
    exact h.below

theorem prune_counted (h : Counted cfg s) : Counted cfg (prune s) := by
  refine ⟨h.strays, h.clean, fun T hT => ?_, h.written, h.past, h.enough, fun hphase => ?_⟩
  · have hbooked := h.booked T hT
    rw [← since_dropWhile hT] at hbooked
    exact hbooked
  · have hsplit := congrArg (fun l : List GasEntry => (l.map (·.wei)).sum)
      (List.takeWhile_append_dropWhile (p := fun g : GasEntry => g.time < s.now - DAY)
        (l := s.gasLedger))
    simp only [List.map_append, List.sum_append] at hsplit
    have hbelow := h.below hphase
    simp only [burned, prune] at hbelow ⊢
    omega

/-- The scan is over, or goes on, with no transaction in hand. -/
theorem Counted.to_phase {phase : Phase} (h : Counted cfg s) (hnone : unwritten s.phase = [])
    (hunbooked : unbooked s.phase = [])
    (hphase : unwritten phase = [] ∧ unbooked phase = [] ∧ Enough { s with phase })
    (hbelow : phase = .cleared → burned s < cfg.dailyGasCap) : Counted cfg { s with phase } := by
  obtain ⟨hwritten, hbooked, henough⟩ := hphase
  refine ⟨h.strays, h.clean, fun T hT => ?_, fun T => ?_, ?_, henough, hbelow⟩
  · have hold := h.booked T hT
    rw [hunbooked] at hold
    rw [hbooked]
    exact hold
  · have hold := h.written T
    rw [hnone] at hold
    rw [hwritten]
    exact hold
  · intro r hr
    rw [hwritten] at hr
    exact absurd hr List.not_mem_nil

theorem tick_counted (read : Option Int) (h : Counted cfg s) :
    Counted cfg (step cfg s (.tick read)) := by
  rw [step_tick]
  split
  · next bal hidle =>
      have hread : Counted cfg { s with lastBalance := some bal } :=
        h.of_same (Int.le_refl _) rfl rfl rfl rfl rfl
      split
      · exact hread
      · refine hread.to_phase (by rw [hidle]; rfl) (by rw [hidle]; rfl) ⟨rfl, rfl, trivial⟩ ?_
        intro habs
        cases habs
  · exact h

theorem judge_counted (v : Verdict) (h : Counted cfg s) :
    Counted cfg (step cfg s (.judge v)) := by
  rw [step_judge]
  split
  · next hscanning =>
      have hidle : Counted cfg { s with phase := .idle } :=
        h.to_phase (by rw [hscanning]; rfl) (by rw [hscanning]; rfl) ⟨rfl, rfl, trivial⟩
          fun habs => by cases habs
      unfold judge
      dsimp only
      split
      · exact hidle
      · split
        · exact hidle.of_same (Int.le_refl _) rfl rfl rfl rfl rfl
        · have hpruned := prune_counted h
          have hphase : (prune s).phase = .scanning := hscanning
          split
          · refine hpruned.to_phase (by rw [hphase]; rfl) (by rw [hphase]; rfl)
              ⟨rfl, rfl, trivial⟩ fun habs => by cases habs
          · next hunder =>
              exact hpruned.to_phase (by rw [hphase]; rfl) (by rw [hphase]; rfl)
                ⟨rfl, rfl, trivial⟩ fun _ => Nat.lt_of_not_le hunder
        · exact hidle
  · exact h

theorem send_counted {r : Reply} (h : Counted cfg s) (hwatched : Watched s (.send r)) :
    Counted cfg (step cfg s (.send r)) := by
  rw [step_send]
  split
  · next hcleared =>
      have hto : ∀ phase, unwritten phase = [] → unbooked phase = [] →
          Enough { s with phase } → phase ≠ .cleared → Counted cfg { s with phase } :=
        fun phase hwritten hbooked henough hne => h.to_phase (by rw [hcleared]; rfl)
          (by rw [hcleared]; rfl) ⟨hwritten, hbooked, henough⟩ fun habs => absurd habs hne
      rcases hwatched with rfl | rfl
      · exact hto .idle rfl rfl trivial (by simp)
      · have hpolling := hto (.polling POLLS .pending) rfl rfl trivial (by simp)
        obtain ⟨hclean, hreplay⟩ :=
          replay_append (f := s.file) (e := ⟨.fire, s.now, 0⟩) h.clean
        refine ⟨hpolling.strays, hclean, hpolling.booked, fun T => ?_, hpolling.past,
          hpolling.enough, hpolling.below⟩
        have hwritten := hpolling.written T
        simp only [send, if_true, hreplay, List.filterMap_append]
        simpa [LedgerEvent.spend] using hwritten
  · exact h

/-- A watched transaction is included, and counts as not booked. -/
theorem mine_counted (loose : Option Nat) (success : Bool) (gasUsed gasPrice : Nat)
    (gained : Int) (h : Counted cfg s) :
    Counted cfg (step cfg s (.mine loose success gasUsed gasPrice gained)) := by
  rw [step_mine]
  cases loose with
  | some i =>
      have hnone : resolve s (some i) (.included (included s success gasUsed gasPrice gained)) =
          none := by
        simp only [resolve]
        split
        · next hpending =>
            have hmem := List.mem_of_getElem? hpending
            cases h.strays _ hmem
        · rfl
      rw [hnone]
      exact h
  | none =>
      cases hphase : s.phase with
      | polling left flight =>
          cases flight with
          | pending =>
              simp only [resolve, hphase]
              have hbooked := h.booked
              have hwritten := h.written
              rw [hphase] at hbooked hwritten
              refine ⟨h.strays, h.clean, fun T hT => ?_, fun T => ?_, ?_, trivial, ?_⟩
              · have hold := hbooked T hT
                rw [paidSince_append]
                simp only [unbooked] at hold ⊢
                exact Nat.add_le_add_right hold _
              · have hold := hwritten T
                rw [paidSince_append]
                simp only [unwritten] at hold ⊢
                exact Nat.add_le_add_right hold _
              · intro r hr
                simp only [unwritten, List.mem_singleton] at hr
                subst hr
                exact Int.le_refl _
              · intro habs
                cases habs
          | included r =>
              simp only [resolve, hphase]
              exact h
          | dropped =>
              simp only [resolve, hphase]
              exact h
      | _ =>
          simp only [resolve, hphase]
          exact h

theorem drop_counted (loose : Option Nat) (h : Counted cfg s) :
    Counted cfg (step cfg s (.drop loose)) := by
  rw [step_drop]
  cases loose with
  | some i =>
      have hnone : resolve s (some i) .dropped = none := by
        simp only [resolve]
        split
        · next hpending =>
            have hmem := List.mem_of_getElem? hpending
            cases h.strays _ hmem
        · rfl
      rw [hnone]
      exact h
  | none =>
      cases hphase : s.phase with
      | polling left flight =>
          cases flight with
          | pending =>
              simp only [resolve, hphase, Option.getD_some]
              exact h.to_phase (by rw [hphase]; rfl) (by rw [hphase]; rfl) ⟨rfl, rfl, trivial⟩
                fun habs => by cases habs
          | included r =>
              simp only [resolve, hphase]
              exact h
          | dropped =>
              simp only [resolve, hphase]
              exact h
      | _ =>
          simp only [resolve, hphase]
          exact h

/-- A receipt that is read is counted, and asked for no more. -/
theorem poll_counted {answered priced : Bool} (h : Counted cfg s)
    (hwatched : Watched s (.poll answered priced)) :
    Counted cfg (step cfg s (.poll answered priced)) := by
  rw [step_poll]
  unfold poll
  cases hphase : s.phase with
  | polling left flight =>
      have hunread : (left ≤ 1 → flight = .dropped) → ∀ hflight : unwritten s.phase =
          unbooked s.phase, Counted cfg (if left ≤ 1
            then { s with phase := .idle, loose := s.loose ++ [flight] }
            else { s with phase := .polling (left - 1) flight }) := by
        intro hlast hsame
        split
        · next hleft =>
            obtain rfl := hlast hleft
            have hidle : Counted cfg { s with phase := .idle } :=
              h.to_phase (by rw [hphase]; rfl) (by rw [hphase]; rfl) ⟨rfl, rfl, trivial⟩
                fun habs => by cases habs
            refine ⟨fun f hf => ?_, hidle.clean, hidle.booked, hidle.written, hidle.past,
              hidle.enough, hidle.below⟩
            rcases List.mem_append.mp hf with hold | hnew
            · exact h.strays f hold
            · exact List.mem_singleton.mp hnew
        · have hbooked := h.booked
          have hwritten := h.written
          have hpast := h.past
          rw [hphase] at hbooked hwritten hpast
          cases flight with
          | _ => exact ⟨h.strays, h.clean, hbooked, hwritten, hpast, trivial, fun habs => by
              cases habs⟩
      have hwatch := hwatched
      unfold Watched at hwatch
      rw [hphase] at hwatch
      cases flight with
      | pending => exact hunread hwatch (by rw [hphase]; rfl)
      | dropped => exact hunread hwatch (by rw [hphase]; rfl)
      | included r =>
          cases answered with
          | false => exact hunread hwatch (by rw [hphase]; rfl)
          | true =>
              have hgas : r.gasPaid ≤ r.gasUsed * (if priced = true then r.gasPrice
                  else s.maxFeePerGas) := by
                refine Nat.mul_le_mul_left _ ?_
                split
                · exact Nat.le_refl _
                · next hunpriced => exact hwatch.resolve_left hunpriced
              have hbooked := h.booked
              have hwritten := h.written
              have hpast := h.past
              rw [hphase] at hbooked hwritten hpast
              have htime : r.time ≤ s.now := hpast r List.mem_cons_self
              have hread : ∀ phase, unbooked phase = [] → unwritten phase = [r] →
                  Enough { s with phase } → phase ≠ .cleared →
                  Counted cfg { s with
                    gasLedger := s.gasLedger ++ [⟨s.now, r.gasUsed * (if priced = true
                      then r.gasPrice else s.maxFeePerGas)⟩]
                    phase } := by
                intro phase hbook hwrite henough hne
                refine ⟨h.strays, h.clean, fun T hT => ?_, fun T => ?_, ?_, henough,
                  fun habs => absurd habs hne⟩
                · have hold := hbooked T hT
                  have hnew := paidSince_le (T := T) (g := ⟨s.now, _⟩) htime hgas
                  simp only [unbooked] at hold
                  dsimp only
                  rw [hbook, since_append]
                  change _ ≤ _ + 0
                  omega
                · rw [hwrite]
                  exact hwritten T
                · rw [hwrite]
                  exact hpast
              cases hsuccess : r.success with
              | true =>
                  simp only [hsuccess, if_true]
                  exact hread _ rfl rfl hgas (by simp)
              | false =>
                  simp only [hsuccess, Bool.false_eq_true, if_false]
                  exact hread _ rfl rfl ⟨by simp, hgas⟩ (by simp)
  | _ => exact h

theorem settle_counted (after : Option Int) (h : Counted cfg s) :
    Counted cfg (step cfg s (.balanceRead after)) := by
  rw [step_balanceRead]
  unfold settle
  cases hphase : s.phase with
  | settling r gasWei =>
      have hbooked := h.booked
      have hwritten := h.written
      have hpast := h.past
      have henough := h.enough
      unfold Enough at henough
      rw [hphase] at hbooked hwritten hpast henough
      have hrecording : ∀ kind, kind ≠ .fire → ∀ halted : Option Halt,
          Counted cfg { s with halted := halted, phase := .recording kind r gasWei } :=
        fun kind hkind halted => ⟨h.strays, h.clean, hbooked, hwritten, hpast,
          ⟨hkind, henough⟩, fun habs => by cases habs⟩
      dsimp only
      split
      · split
        · exact hrecording .lost (by simp) _
        · exact hrecording .won (by simp) s.halted
      · exact hrecording .won (by simp) s.halted
  | _ => exact h

/-- The line of a receipt is written, and counts as the receipt does. -/
theorem record_counted (h : Counted cfg s) :
    Counted cfg (step cfg s (.record .whole)) := by
  rw [step_record]
  split
  · next kind r gasWei hphase =>
      have hbooked := h.booked
      have hwritten := h.written
      have hpast := h.past
      have henough := h.enough
      unfold Enough at henough
      rw [hphase] at hbooked hwritten hpast henough
      obtain ⟨hclean, hreplay⟩ :=
        replay_append (f := s.file) (e := ⟨kind, s.now, gasWei⟩) h.clean
      refine ⟨h.strays, hclean, hbooked, fun T => ?_, fun r hr => absurd hr List.not_mem_nil,
        trivial, fun habs => by cases habs⟩
      have hold := hwritten T
      have hnew := paidSince_le (T := T) (g := ⟨s.now, gasWei⟩)
        (hpast r List.mem_cons_self) henough.2
      have hspend : [(⟨kind, s.now, gasWei⟩ : LedgerEvent)].filterMap LedgerEvent.spend =
          [⟨s.now, gasWei⟩] := by
        simp [LedgerEvent.spend, henough.1]
      simp only [hreplay, List.filterMap_append, since_append, hspend]
      simp only [unwritten] at hold ⊢
      change _ ≤ _ + 0
      omega
  · exact h

/-- A process that starts counts what the file has. -/
theorem restart_counted (h : Counted cfg s) (hwatched : Watched s .restart) :
    Counted cfg (step cfg s .restart) := by
  have hnone : unwritten s.phase = [] ∧ unwatched s.phase = [] := by
    rcases hwatched with hphase | hphase | hphase
    · rw [hphase]
      exact ⟨rfl, rfl⟩
    · rw [hphase]
      exact ⟨rfl, rfl⟩
    · rw [hphase]
      exact ⟨rfl, rfl⟩
  have hwritten := h.written
  rw [hnone.1] at hwritten
  refine ⟨?_, h.clean, fun T hT => ?_, hwritten, fun r hr => absurd hr List.not_mem_nil,
    trivial, fun habs => by cases habs⟩
  · simp only [step, hnone.2, List.append_nil]
    exact h.strays
  · have hday : s.now - DAY ≤ T := hT
    simp only [step]
    rw [since_seed hday]
    exact hwritten T

/-- **Every watched step keeps the count complete.** -/
theorem counted_step (cfg : Config) (s : Bot) (e : Event) (h : Counted cfg s)
    (hwatched : Watched s e) : Counted cfg (step cfg s e) := by
  cases e with
  | elapse ms =>
      have hlater : s.now ≤ s.now + ms := by omega
      have hsame : Counted cfg { s with now := s.now + ms } :=
        h.of_same hlater rfl rfl rfl rfl rfl
      exact hsame
  | refreshGas price => exact h.of_same (Int.le_refl _) rfl rfl rfl rfl rfl
  | status => exact prune_counted h
  | moves wei => exact h.of_same (Int.le_refl _) rfl rfl rfl rfl rfl
  | tick read => exact tick_counted read h
  | judge v => exact judge_counted v h
  | send r => exact send_counted h hwatched
  | mine loose success gasUsed gasPrice gained =>
      exact mine_counted loose success gasUsed gasPrice gained h
  | drop loose => exact drop_counted loose h
  | poll answered priced => exact poll_counted h hwatched
  | balanceRead after => exact settle_counted after h
  | record w =>
      obtain rfl : w = .whole := hwatched
      exact record_counted h
  | restart => exact restart_counted h hwatched

theorem counted_below (cfg : Config) (s : Bot) (e : Event) (h : Counted cfg s)
    (_ : Watched s e) : BelowCap cfg s e := by
  cases e with
  | send r =>
      intro hphase
      have hbooked := h.booked (s.now - DAY) (Int.le_refl _)
      rw [hphase] at hbooked
      exact Nat.lt_of_le_of_lt (Nat.le_trans hbooked (since_le _ _)) (h.below hphase)
  | _ => trivial

end Steps

/-! ### Over a run -/

theorem counted_fresh (cfg : Config) (now balance : Int) : Counted cfg (fresh now balance) where
  strays _ h := absurd h List.not_mem_nil
  clean := rfl
  booked _ _ := Nat.le_refl 0
  written _ := Nat.le_refl 0
  past _ h := absurd h List.not_mem_nil
  enough := trivial
  below h := by cases h

/-- **The cap holds in every run in which no gas goes uncounted**: whenever a transaction
is sent, what transactions paid for gas in the 24 hours before is below it.  The run may
have any number of scans, sends and restarts. -/
theorem cap_run (cfg : Config) (now balance : Int) (es : List Event)
    (hwatched : Guarded.Along (step cfg) Watched (fresh now balance) es) :
    Guarded.Along (step cfg) (BelowCap cfg) (fresh now balance) es :=
  Guarded.along_of_invariant (counted_step cfg) (counted_below cfg)
    (counted_fresh cfg now balance) hwatched

/-! ### A reply that is lost -/

/-- A cap that one transaction reaches. -/
def tightCap : Config where
  gasReserve := 0
  maxNotional := none
  dailyGasCap := 400000000000000

/-- The first transaction is accepted, its reply lost, and its gas never counted. -/
theorem sent_over_cap :
    ¬ Guarded.Along (step tightCap) (BelowCap tightCap) (fresh 0 (10 ^ 18))
      [.tick (some (10 ^ 18)), .judge .clears, .send .lost,
        .mine (some 0) false 400000 1000000000 0,
        .tick (some (10 ^ 18)), .judge .clears, .send .lost] := by
  intro halong
  have hsend := halong [.tick (some (10 ^ 18)), .judge .clears, .send .lost,
    .mine (some 0) false 400000 1000000000 0, .tick (some (10 ^ 18)), .judge .clears]
    (.send .lost) [] rfl
  exact absurd (hsend (by decide)) (by decide)

/-- A transaction that reverts is counted, also by the next process. -/
theorem cap_sample :
    Guarded.Along (step tightCap) (BelowCap tightCap) (fresh 0 (10 ^ 18))
      [.tick (some (10 ^ 18)), .judge .clears, .send (.named .whole),
        .mine none false 400000 1000000000 0, .poll true true, .record .whole, .restart,
        .tick (some (10 ^ 18)), .judge .clears, .send .refused] := by
  refine cap_run tightCap 0 (10 ^ 18) _ ?_
  simp only [Guarded.along_cons]
  exact ⟨trivial, trivial, Or.inr rfl, trivial, Or.inl rfl, rfl, Or.inl rfl, trivial, trivial,
    Or.inl rfl, Guarded.along_nil⟩

end ArbBot

end Ordo
