import Ordo.Guarded
import Ordo.KeyLedgerRace

/-!
# Top-ups and a process that stops

The statements of a call are executed one by one, and each of them is written to disk.
When the process stops between two of them the next one starts with what is there.  A
client that had no answer sends its payment again.

The hash of a top-up is inserted before its amount is added to the key's row, and it is
the hash that a retry is refused for.
-/

namespace Ordo

namespace TopupStops

open KeyLedger

/-- The ledger, and the hashes whose amount has been written to a row. -/
structure Books where
  ledger : KeyLedger
  written : List String

/-- A call, and how many of its statements are executed before the process stops; a call
that is not stopped has five. -/
structure Attempt where
  call : KeyCall
  statements : Nat
  deriving DecidableEq

/-- One statement.  The `UPDATE` of a credit writes its amount. -/
def execute (p : Books × Gateway) : Books × Gateway :=
  let q := p.2.step p.1.ledger
  let written :=
    match p.2.next with
    | .update c _ => p.1.written ++ c.hash.toList
    | _ => p.1.written
  (⟨q.1, written⟩, q.2)

/-- The books when a process has made an attempt and is gone. -/
def step (b : Books) (a : Attempt) : Books := (execute^[a.statements] (b, ⟨.idle, [a.call]⟩)).1

def run (b : Books) (attempts : List Attempt) : Books := attempts.foldl step b

def fresh : Books := ⟨{}, []⟩

/-- Each payment on record counts once, and one that does not count can still be
credited. -/
structure Exact (b : Books) : Prop where
  counted : ∀ label, (b.ledger.row label).paidUsdMicros + (b.ledger.row label).prepaidUsdMicros =
    b.ledger.credited label
  creditable : ∀ (label : String) (usdMicros : Int) (txHash wei : String) (now : Int),
    creditError label usdMicros txHash = none → txHash.toLower ∉ b.written →
      (b.ledger.creditKey label usdMicros txHash wei now).2 = none

/-- The process stops after the `INSERT` of a new top-up and before the `UPDATE` of its
row. -/
def StopsBetween (b : Books) (a : Attempt) : Prop :=
  a.call.refused = false ∧ (∃ t, a.call.topup = some t ∧ t.txHash ∉ b.ledger.hashes) ∧
    2 ≤ a.statements ∧ a.statements < 4

/-! ### The statements of a call -/

section Statements

variable {b : Books} {c : KeyCall}

/-- Nothing is left to execute. -/
theorem execute_done (b : Books) (n : Nat) : execute^[n] (b, ⟨.idle, []⟩) = (b, ⟨.idle, []⟩) := by
  apply Function.iterate_fixed
  rfl

/-- The books after the `UPDATE`. -/
def updated (b : Books) (c : KeyCall) : Books :=
  ⟨b.ledger.updateRow c.label (c.set (b.ledger.keyBilling c.label)), b.written ++ c.hash.toList⟩

/-- From the `SELECT` on, the second statement is the `UPDATE`. -/
theorem execute_select (b : Books) (c : KeyCall) (n : Nat) :
    (execute^[n] (b, ⟨.select c, []⟩)).1 = if n < 2 then b else updated b c := by
  match n with
  | 0 => rfl
  | 1 => rfl
  | 2 => rfl
  | n + 3 =>
      rw [if_neg (by omega), Function.iterate_succ_apply, Function.iterate_succ_apply,
        Function.iterate_succ_apply]
      exact congrArg Prod.fst (execute_done (updated b c) n)

theorem execute_refused (b : Books) (hrefused : c.refused = true) (n : Nat) :
    (execute^[n] (b, ⟨.idle, [c]⟩)).1 = b := by
  cases n with
  | zero => rfl
  | succ n =>
      have hfirst : execute (b, ⟨.idle, [c]⟩) = (b, ⟨.idle, []⟩) := by
        simp [execute, Gateway.step, hrefused]
      rw [Function.iterate_succ_apply, hfirst, execute_done]

/-- The row is there. -/
def ensured (b : Books) (c : KeyCall) : Books := ⟨b.ledger.ensureRow c.label, b.written⟩

theorem execute_charge (b : Books) (hgo : c.refused = false) (hcharge : c.topup = none) (n : Nat) :
    (execute^[n + 1] (b, ⟨.idle, [c]⟩)).1 =
      if n < 2 then ensured b c else updated (ensured b c) c := by
  have hfirst : execute (b, ⟨.idle, [c]⟩) = (ensured b c, ⟨.select c, []⟩) := by
    simp [execute, Gateway.step, hgo, hcharge, ensured]
  rw [Function.iterate_succ_apply, hfirst, execute_select]

theorem execute_credit (b : Books) (hgo : c.refused = false) {t : KeyTopup}
    (ht : c.topup = some t) (n : Nat) :
    (execute^[n + 2] (b, ⟨.idle, [c]⟩)).1 =
      match (b.ledger.ensureRow c.label).insertTopup t with
      | none => ensured b c
      | some s => if n < 2 then ⟨s, b.written⟩ else updated ⟨s, b.written⟩ c := by
  have hfirst : execute (b, ⟨.idle, [c]⟩) = (ensured b c, ⟨.insertTopup c t, []⟩) := by
    simp [execute, Gateway.step, hgo, ht, ensured]
  rw [Function.iterate_succ_apply, Function.iterate_succ_apply, hfirst]
  cases hinsert : (b.ledger.ensureRow c.label).insertTopup t with
  | none =>
      have hsecond : execute (ensured b c, ⟨.insertTopup c t, []⟩) =
          (ensured b c, ⟨.idle, []⟩) := by
        simp [execute, Gateway.step, hinsert, ensured]
      rw [hsecond, execute_done]
  | some s =>
      have hsecond : execute (ensured b c, ⟨.insertTopup c t, []⟩) =
          (⟨s, b.written⟩, ⟨.select c, []⟩) := by
        simp [execute, Gateway.step, hinsert, ensured]
      rw [hsecond]
      exact execute_select _ c n

end Statements

/-! ### What an attempt leaves -/

section Attempts

variable {b : Books}

/-- An attempt that is not cut between its two tables leaves their contents as they were,
or is the call as it is made at once. -/
inductive Whole (b : Books) (c : KeyCall) : Books → Prop
  | nothing {s : KeyLedger} (hrows : ∀ label, s.row label = b.ledger.row label)
      (htopups : s.topups = b.ledger.topups) : Whole b c ⟨s, b.written⟩
  | made {s : KeyLedger} (hnew : ∀ h, c.hash = some h → h ∉ b.ledger.hashes)
      (hrows : ∀ label, s.row label =
        if label = c.label then c.set (b.ledger.keyBilling c.label) (b.ledger.row c.label)
        else b.ledger.row label)
      (htopups : s.topups = b.ledger.topups ++ c.topup.toList) :
      Whole b c ⟨s, b.written ++ c.hash.toList⟩

theorem whole_ensured (c : KeyCall) : Whole b c (ensured b c) :=
  .nothing (fun _ => ensureRow_row) ensureRow_topups

/-- The `UPDATE` of a row that is there, with the amounts that the row has had. -/
theorem row_updated {s : KeyLedger} {c : KeyCall} (hthere : (s.rows c.label).isSome)
    (hrows : ∀ label, s.row label = b.ledger.row label) (label : String) :
    (updated ⟨s, b.written⟩ c).ledger.row label =
      if label = c.label then c.set (b.ledger.keyBilling c.label) (b.ledger.row c.label)
      else b.ledger.row label := by
  have hread : s.keyBilling c.label = b.ledger.keyBilling c.label := by
    simp only [keyBilling, hrows]
  rw [updated, updateRow_row hthere, hread, hrows, hrows]

/-- A new top-up on record. -/
theorem insertTopup_ensured {c : KeyCall} {t : KeyTopup} (hnew : t.txHash ∉ b.ledger.hashes) :
    ∃ s, (b.ledger.ensureRow c.label).insertTopup t = some s ∧ (s.rows c.label).isSome ∧
      (∀ label, s.row label = b.ledger.row label) ∧ s.topups = b.ledger.topups ++ [t] := by
  have hnew' : t.txHash ∉ (b.ledger.ensureRow c.label).topups.map (·.txHash) := by
    rw [ensureRow_topups]
    exact hnew
  obtain ⟨s, hinsert, hrows, htopups, -⟩ := insertTopup_new hnew'
  refine ⟨s, hinsert, ?_, fun label => ?_, ?_⟩
  · rw [hrows]
    exact ensureRow_isSome
  · rw [row, hrows]
    exact ensureRow_row
  · rw [htopups, ensureRow_topups]

/-- What is left by a process that stops between. -/
theorem step_between {a : Attempt} (h : StopsBetween b a) : ∃ s t, a.call.topup = some t ∧
    t.txHash ∉ b.ledger.hashes ∧ step b a = ⟨s, b.written⟩ ∧
    s.topups = b.ledger.topups ++ [t] := by
  obtain ⟨hgo, ⟨t, ht, hnew⟩, htwo, hfour⟩ := h
  obtain ⟨n, hn⟩ := Nat.exists_eq_add_of_le' htwo
  obtain ⟨s, hinsert, -, -, htopups⟩ := insertTopup_ensured (c := a.call) hnew
  refine ⟨s, t, ht, hnew, ?_, htopups⟩
  have hcut : n < 2 := by omega
  rw [step, hn, execute_credit b hgo ht, hinsert]
  simp only [if_pos hcut]

theorem step_whole {a : Attempt} (h : ¬ StopsBetween b a) : Whole b a.call (step b a) := by
  obtain ⟨c, n⟩ := a
  dsimp only
  rw [step]
  cases hgo : c.refused with
  | true =>
      rw [execute_refused b hgo]
      exact .nothing (fun _ => rfl) rfl
  | false =>
      cases ht : c.topup with
      | none =>
          cases n with
          | zero => exact .nothing (fun _ => rfl) rfl
          | succ n =>
              dsimp only
              rw [execute_charge b hgo ht]
              split
              · exact whole_ensured c
              · refine .made (fun h hh => ?_) (fun label => ?_) ?_
                · rw [KeyCall.hash, ht] at hh
                  cases hh
                · exact row_updated ensureRow_isSome (fun _ => ensureRow_row) label
                · rw [ht, Option.toList_none, List.append_nil]
                  exact ensureRow_topups
      | some t =>
          rcases n with _ | _ | n
          · exact .nothing (fun _ => rfl) rfl
          · have hfirst : (execute (b, ⟨.idle, [c]⟩)).1 = ensured b c := by
              simp [execute, Gateway.step, hgo, ht, ensured]
            exact hfirst ▸ whole_ensured c
          · dsimp only
            rw [execute_credit b hgo ht]
            by_cases hnew : t.txHash ∈ b.ledger.hashes
            · -- the payment is on record already
              have hold : t.txHash ∈ (b.ledger.ensureRow c.label).topups.map (·.txHash) := by
                rw [ensureRow_topups]
                exact hnew
              rw [insertTopup_old hold]
              exact whole_ensured c
            · have hend : ¬ n < 2 := fun hcut =>
                h ⟨hgo, ⟨t, ht, hnew⟩, Nat.le_add_left 2 n, by dsimp only; omega⟩
              obtain ⟨s, hinsert, hthere, hrows, htopups⟩ := insertTopup_ensured (c := c) hnew
              rw [hinsert]
              simp only [if_neg hend]
              refine .made (fun h hh => ?_) (row_updated hthere hrows) ?_
              · rw [KeyCall.hash, ht] at hh
                exact Option.some.inj hh ▸ hnew
              · rw [ht]
                exact htopups

end Attempts

/-! ### Runs -/

section Runs

variable {b : Books}

/-- What is paid and prepaid is what was topped up, and all top-ups on record are written
to their rows. -/
structure Sound (b : Books) : Prop where
  counted : ∀ label, (b.ledger.row label).paidUsdMicros + (b.ledger.row label).prepaidUsdMicros =
    b.ledger.credited label
  written : ∀ h ∈ b.ledger.hashes, h ∈ b.written

/-- A credit is refused for what it is or because it is on record. -/
theorem creditKey_error {s : KeyLedger} {label txHash wei : String} {usd now : Int}
    (hcheck : creditError label usd txHash = none) :
    (s.creditKey label usd txHash wei now).2 = none ↔ txHash.toLower ∉ s.hashes := by
  have hhashes : txHash.toLower ∈ (s.ensureRow label).topups.map (·.txHash) ↔
      txHash.toLower ∈ s.hashes := by
    rw [ensureRow_topups]
    exact Iff.rfl
  unfold creditKey
  rw [hcheck]
  dsimp only
  by_cases hold : txHash.toLower ∈ s.hashes
  · rw [insertTopup_old (hhashes.mpr hold)]
    exact iff_of_false (fun h => by cases h) (not_not.mpr hold)
  · obtain ⟨s', hinsert, -⟩ := insertTopup_new
      (t := ⟨txHash.toLower, label, usd, wei, now⟩) (hhashes.not.mpr hold)
    rw [hinsert]
    exact iff_of_true rfl hold

theorem Sound.exact (h : Sound b) : Exact b where
  counted := h.counted
  creditable := fun _ _ _ _ _ hcheck hopen =>
    (creditKey_error hcheck).mpr fun hold => hopen (h.written _ hold)

/-- A call moves money between paid and prepaid, and adds to them what it credits. -/
theorem sum_set (s : KeyLedger) (c : KeyCall) :
    (c.set (s.keyBilling c.label) (s.row c.label)).paidUsdMicros +
        (c.set (s.keyBilling c.label) (s.row c.label)).prepaidUsdMicros =
      (s.row c.label).paidUsdMicros + (s.row c.label).prepaidUsdMicros +
        ((c.topup.map (·.usdMicros)).getD 0) := by
  cases c with
  | charge =>
      simp only [KeyCall.set, chargeUpdate, keyBilling, KeyCall.label, KeyCall.topup,
        Option.map_none, Option.getD_none]
      omega
  | credit =>
      simp only [KeyCall.set, creditUpdate, keyBilling, KeyCall.label, KeyCall.topup,
        Option.map_some, Option.getD_some]
      omega

/-- **An attempt that is not cut between its two tables** keeps the books. -/
theorem Sound.whole (h : Sound b) {c : KeyCall} {b' : Books} (hwhole : Whole b c b') :
    Sound b' := by
  cases hwhole with
  | @nothing s hrows htopups =>
      refine ⟨fun label => ?_, fun hash hmem => ?_⟩
      · rw [hrows, h.counted, credited, credited, htopups]
      · rw [hashes, htopups] at hmem
        exact h.written hash hmem
  | @made s hnew hrows htopups =>
      constructor
      · intro label
        have hsum := sum_set b.ledger c
        have hcounted := h.counted label
        rw [hrows]
        cases ht : c.topup with
        | none =>
            have hcredited : s.credited label = b.ledger.credited label := by
              rw [credited, htopups, ht, Option.toList_none, List.append_nil, credited]
            rw [ht, Option.map_none, Option.getD_none, Int.add_zero] at hsum
            rw [hcredited, ← hcounted]
            split
            next hlabel => rw [hsum, hlabel]
            next => rfl
        | some t =>
            have htlabel : t.label = c.label := by
              cases c with
              | charge => cases ht
              | credit =>
                  cases ht
                  rfl
            rw [ht] at htopups
            rw [credited_append htopups, htlabel, ← hcounted]
            rw [ht, Option.map_some, Option.getD_some] at hsum
            split
            next hlabel => rw [hsum, hlabel, if_pos rfl]
            next hlabel => rw [if_neg (Ne.symm hlabel), Int.add_zero]
      · intro hash hmem
        rw [hashes, htopups, List.map_append] at hmem
        rcases List.mem_append.mp hmem with hold | hadded
        · exact List.mem_append_left _ (h.written hash hold)
        · refine List.mem_append_right _ ?_
          obtain ⟨t, ht, rfl⟩ := List.mem_map.mp hadded
          rw [KeyCall.hash, Option.mem_toList.mp ht]
          exact List.mem_singleton.mpr rfl

/-- A payment is on record and not written to its row. -/
def Lost (b : Books) : Prop := ∃ label usd txHash, creditError label usd txHash = none ∧
  txHash.toLower ∈ b.ledger.hashes ∧ txHash.toLower ∉ b.written

theorem Lost.not_exact (h : Lost b) : ¬ Exact b := by
  obtain ⟨label, usd, txHash, hcheck, hold, hopen⟩ := h
  intro hexact
  exact (creditKey_error hcheck).mp (hexact.creditable label usd txHash "" 0 hcheck hopen) hold

theorem lost_of_between {a : Attempt} (hbooks : ∀ h ∈ b.written, h ∈ b.ledger.hashes)
    (h : StopsBetween b a) : Lost (step b a) := by
  obtain ⟨s, t, ht, hnew, hstep, htopups⟩ := step_between h
  rw [hstep]
  obtain ⟨c, n⟩ := a
  cases c with
  | charge => cases ht
  | credit label usd txHash wei now =>
    cases ht
    have hcheck : creditError label usd txHash = none := by
      simpa [KeyCall.refused] using h.1
    refine ⟨label, usd, txHash, hcheck, ?_, fun hwritten => hnew (hbooks _ hwritten)⟩
    rw [hashes, htopups, List.map_append]
    exact List.mem_append_right _ (List.mem_singleton.mpr rfl)

/-- What is written is on record. -/
theorem written_step (hbooks : ∀ h ∈ b.written, h ∈ b.ledger.hashes) (a : Attempt) :
    ∀ h ∈ (step b a).written, h ∈ (step b a).ledger.hashes := by
  intro h hmem
  by_cases hbetween : StopsBetween b a
  · obtain ⟨s, t, -, -, hstep, htopups⟩ := step_between hbetween
    rw [hstep] at hmem ⊢
    rw [hashes, htopups, List.map_append]
    exact List.mem_append_left _ (hbooks h hmem)
  · have hwhole := step_whole hbetween
    generalize step b a = b' at hwhole hmem ⊢
    cases hwhole with
    | nothing hrows htopups =>
        rw [hashes, htopups]
        exact hbooks h hmem
    | made hnew hrows htopups =>
        rw [hashes, htopups, List.map_append]
        rcases List.mem_append.mp hmem with hold | hadded
        · exact List.mem_append_left _ (hbooks h hold)
        · refine List.mem_append_right _ ?_
          obtain ⟨t, ht, rfl⟩ := Option.map_eq_some_iff.mp (Option.mem_toList.mp hadded)
          exact List.mem_map_of_mem (Option.mem_toList.mpr ht)

/-- A lost payment stays lost. -/
theorem Lost.step (h : Lost b) (a : Attempt) : Lost (step b a) := by
  obtain ⟨label, usd, txHash, hcheck, hold, hopen⟩ := h
  refine ⟨label, usd, txHash, hcheck, ?_⟩
  by_cases hbetween : StopsBetween b a
  · obtain ⟨s, t, -, -, hstep, htopups⟩ := step_between hbetween
    rw [hstep]
    refine ⟨?_, hopen⟩
    rw [hashes, htopups, List.map_append]
    exact List.mem_append_left _ hold
  · have hwhole := step_whole hbetween
    generalize TopupStops.step b a = b' at hwhole ⊢
    cases hwhole with
    | nothing hrows htopups =>
        rw [hashes, htopups]
        exact ⟨hold, hopen⟩
    | made hnew hrows htopups =>
        rw [hashes, htopups, List.map_append]
        refine ⟨List.mem_append_left _ hold, fun hmem => ?_⟩
        rcases List.mem_append.mp hmem with hwritten | hadded
        · exact hopen hwritten
        · exact hnew _ (Option.mem_toList.mp hadded) hold

theorem Lost.run (attempts : List Attempt) : ∀ {b : Books}, Lost b → Lost (run b attempts) := by
  induction attempts with
  | nil => exact fun h => h
  | cons a attempts ih => exact fun h => ih (h.step a)

theorem written_run (attempts : List Attempt) : ∀ {b : Books},
    (∀ h ∈ b.written, h ∈ b.ledger.hashes) →
      ∀ h ∈ (run b attempts).written, h ∈ (run b attempts).ledger.hashes := by
  induction attempts with
  | nil => exact fun h => h
  | cons a attempts ih => exact fun h => ih (written_step h a)

end Runs

/-- **A top-up is credited exactly once**, in any run of attempts of which each may stop
after any of its statements, if and only if none stops after a new top-up has been
inserted and before its amount is written. -/
theorem exact_iff (attempts : List Attempt) : Exact (run fresh attempts) ↔
    Guarded.Along step (fun b a => ¬ StopsBetween b a) fresh attempts := by
  have hempty : ∀ h ∈ fresh.written, h ∈ fresh.ledger.hashes := fun h hmem => by cases hmem
  constructor
  · rintro hexact pre a post rfl hbetween
    have hlost : Lost (run (step (run fresh pre) a) post) :=
      (lost_of_between (written_run pre hempty) hbetween).run post
    apply hlost.not_exact
    rw [run, List.foldl_append] at hexact
    exact hexact
  · intro hwhole
    have hfresh : Sound fresh := ⟨fun _ => rfl, fun h hmem => by cases hmem⟩
    have hkeeps : ∀ (b : Books) (a : Attempt), Sound b → ¬ StopsBetween b a → Sound (step b a) :=
      fun _ _ h hnot => h.whole (step_whole hnot)
    exact (Guarded.invariant_along hkeeps hfresh hwhole (List.append_nil attempts).symm).exact

/-- A top-up of 5 dollars. -/
def fiveDollars : KeyCall :=
  .credit "partner" 5000000 "0x1111111111111111111111111111111111111111111111111111111111111111"
    "1500000000000000" 0

/-- The process stops before the `UPDATE`, and the client sends its payment again: it is
refused as already applied, and nothing is paid or prepaid. -/
theorem topup_is_lost :
    let b := run fresh [⟨fiveDollars, 3⟩, ⟨fiveDollars, 5⟩]
    b.ledger.credited "partner" = 5000000 ∧
      (b.ledger.row "partner").paidUsdMicros = 0 ∧
      (b.ledger.row "partner").prepaidUsdMicros = 0 ∧
      (b.ledger.creditKey "partner" 5000000
        "0x1111111111111111111111111111111111111111111111111111111111111111" "1500000000000000"
        0).2 = some .alreadyApplied := by
  decide +kernel

end TopupStops

end Ordo
