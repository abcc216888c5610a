import Ordo.ArbBot
import Ordo.Guarded

/-!
# The halt on lost principal

After a receipt of success the bot compares the wallet's balance with what a scan read
before the trade, less the gas; when it is short the bot fires no more.

* `kept_step` — what keeps a short fill from passing: its receipt is read in time, and the
  balances that are read are those around it, and above zero;
* `halt_run` — in a run that keeps to it nothing is sent after a short fill, and no fill
  halts the bot that is not short.
-/

namespace Ordo

namespace ArbBot

/-- The transaction succeeded, and left the wallet with less than it had, less the gas. -/
def Included.Short (r : Included) : Prop :=
  r.success = true ∧ r.after < r.before - r.gasPaid

instance (r : Included) : Decidable r.Short := by
  unfold Included.Short
  infer_instance

/-- Nothing is sent once a fill was short. -/
def SendsUnhurt (s : Bot) : Event → Prop
  | .send _ => s.phase = .cleared → ∀ r ∈ s.mined, ¬ r.Short
  | _ => True

/-- A fill that is not short does not halt the bot. -/
def HaltsForShort (cfg : Config) (s : Bot) : Event → Prop
  | .balanceRead after => ∀ r gasWei, s.phase = .settling r gasWei → ¬ r.Short →
      (step cfg s (.balanceRead after)).halted = s.halted
  | _ => True

/-- No fill goes unseen: no reply is lost, no receipt is given up of a transaction that is
or may come to be short, a receipt states the gas, and what is read of the balance before
the trade and after it is what the wallet had, and after it was not empty. -/
def Seen (s : Bot) : Event → Prop
  | .send r => r = .refused ∨ r = .named .whole
  | .poll answered priced =>
      match s.phase with
      | .polling left flight =>
          match flight, answered with
          | .included r, true => priced = true ∨ s.maxFeePerGas = r.gasPrice
          | .included r, false => left ≤ 1 → ¬ r.Short
          | flight, _ => left ≤ 1 → flight = .dropped
      | _ => True
  | .balanceRead after =>
      match s.phase with
      | .settling r _ => s.lastBalance = some r.before ∧ after = some r.after ∧ 0 < r.after
      | _ => True
  | .restart => False
  | _ => True

/-- The transaction that a receipt is awaited of, or has just come of. -/
def inHand : Phase → Option Included
  | .polling _ (.included r) => some r
  | .settling r _ => some r
  | _ => none

/-- What is known of the receipt in hand. -/
def Exact (s : Bot) : Prop :=
  match s.phase with
  | .settling r gasWei => r.success = true ∧ gasWei = r.gasPaid
  | .cleared => s.halted = none
  | _ => True

/-- A fill that was short has halted the bot, or is in hand. -/
structure Kept (s : Bot) : Prop where
  strays : ∀ f ∈ s.loose, f ≠ .pending
  halts : ∀ r ∈ s.mined, r.Short → s.halted.isSome ∨ inHand s.phase = some r
  exact : Exact s

section Steps

variable {cfg : Config} {s : Bot}

theorem Kept.of_same {s' : Bot} (h : Kept s) (hphase : s'.phase = s.phase)
    (hhalted : s'.halted = s.halted) (hloose : s'.loose = s.loose)
    (hmined : s'.mined = s.mined) : Kept s' := by
  refine ⟨?_, ?_, ?_⟩
  · rw [hloose]
    exact h.strays
  · rw [hmined, hhalted, hphase]
    exact h.halts
  · have hexact := h.exact
    unfold Exact at hexact ⊢
    rw [hphase, hhalted]
    exact hexact

/-- The scan moves on with no transaction in hand. -/
theorem Kept.to_phase {phase : Phase} (h : Kept s) (hnone : inHand s.phase = none)
    (hexact : Exact { s with phase }) : Kept { s with phase } := by
  refine ⟨h.strays, fun r hr hshort => Or.inl ?_, hexact⟩
  rcases h.halts r hr hshort with hhalted | hhand
  · exact hhalted
  · rw [hnone] at hhand
    cases hhand

theorem tick_kept (read : Option Int) (h : Kept s) : Kept (step cfg s (.tick read)) := by
  rw [step_tick]
  split
  · next bal hidle =>
      have hread : Kept { s with lastBalance := some bal } := h.of_same rfl rfl rfl rfl
      split
      · exact hread
      · exact hread.to_phase (by rw [hidle]; rfl) trivial
  · exact h

theorem judge_kept (v : Verdict) (h : Kept s) : Kept (step cfg s (.judge v)) := by
  rw [step_judge]
  split
  · next hscanning =>
      have hnone : inHand s.phase = none := by
        rw [hscanning]
        rfl
      have hidle : Kept { s with phase := .idle } := h.to_phase hnone trivial
      unfold judge
      dsimp only
      split
      · exact hidle
      · next hgo =>
          have hunhalted : s.halted = none := by
            have h' := (not_or.mp hgo).2
            simpa using h'
          split
          · refine ⟨h.strays, fun r hr hshort => Or.inl rfl, trivial⟩
          · have hpruned : Kept (prune s) := h.of_same rfl rfl rfl rfl
            split
            · exact hpruned.to_phase hnone trivial
            · exact hpruned.to_phase hnone hunhalted
          · exact hidle
  · exact h

theorem send_kept {r : Reply} (h : Kept s) (hseen : Seen s (.send r)) :
    Kept (step cfg s (.send r)) := by
  rw [step_send]
  split
  · next hcleared =>
      have hnone : inHand s.phase = none := by
        rw [hcleared]
        rfl
      rcases hseen with rfl | rfl
      · exact h.to_phase hnone trivial
      · have hpolling : Kept { s with phase := .polling POLLS .pending } :=
          h.to_phase hnone trivial
        exact hpolling.of_same rfl rfl rfl rfl
  · exact h

/-- A transaction nobody watches is not pending, and nothing comes of it. -/
theorem resolve_loose (h : Kept s) (i : Nat) (f : Flight) : resolve s (some i) f = none := by
  simp only [resolve]
  split
  · next hpending => exact absurd rfl (h.strays _ (List.mem_of_getElem? hpending))
  · rfl

/-- A transaction that is included is in hand. -/
theorem mine_kept (loose : Option Nat) (success : Bool) (gasUsed gasPrice : Nat)
    (gained : Int) (h : Kept s) :
    Kept (step cfg s (.mine loose success gasUsed gasPrice gained)) := by
  rw [step_mine]
  cases loose with
  | some i =>
      rw [resolve_loose h]
      exact h
  | none =>
      cases hphase : s.phase with
      | polling left flight =>
          cases flight with
          | pending =>
              simp only [resolve, hphase]
              refine ⟨h.strays, fun r hr hshort => ?_, trivial⟩
              rcases List.mem_append.mp hr with hold | hnew
              · rcases h.halts r hold hshort with hhalted | hhand
                · exact Or.inl hhalted
                · rw [hphase] at hhand
                  cases hhand
              · rw [List.mem_singleton.mp hnew]
                exact Or.inr rfl
          | included r =>
              simp only [resolve, hphase]
              exact h
          | dropped =>
              simp only [resolve, hphase]
              exact h
      | _ =>
          simp only [resolve, hphase]
          exact h

theorem drop_kept (loose : Option Nat) (h : Kept s) : Kept (step cfg s (.drop loose)) := by
  rw [step_drop]
  cases loose with
  | some i =>
      rw [resolve_loose h]
      exact h
  | none =>
      cases hphase : s.phase with
      | polling left flight =>
          cases flight with
          | pending =>
              simp only [resolve, hphase, Option.getD_some]
              exact h.to_phase (by rw [hphase]; rfl) trivial
          | included r =>
              simp only [resolve, hphase]
              exact h
          | dropped =>
              simp only [resolve, hphase]
              exact h
      | _ =>
          simp only [resolve, hphase]
          exact h

/-- The receipt is given up, of a transaction that was not and will not be short. -/
theorem Kept.give_up {flight : Flight} (h : Kept s) (hpending : flight ≠ .pending)
    (hunhurt : ∀ r, inHand s.phase = some r → ¬ r.Short) :
    Kept { s with phase := .idle, loose := s.loose ++ [flight] } := by
  refine ⟨fun f hf => ?_, fun r hr hshort => Or.inl ?_, trivial⟩
  · rcases List.mem_append.mp hf with hold | hnew
    · exact h.strays f hold
    · rw [List.mem_singleton.mp hnew]
      exact hpending
  · rcases h.halts r hr hshort with hhalted | hhand
    · exact hhalted
    · exact absurd hshort (hunhurt r hhand)

theorem poll_kept {answered priced : Bool} (h : Kept s) (hseen : Seen s (.poll answered priced)) :
    Kept (step cfg s (.poll answered priced)) := by
  rw [step_poll]
  unfold poll
  cases hphase : s.phase with
  | polling left flight =>
      have hhalts := h.halts
      unfold Seen at hseen
      rw [hphase] at hseen hhalts
      -- the receipt is not read, and either asked for again or given up
      have hunread : (left ≤ 1 → flight ≠ .pending ∧ ∀ r, flight = .included r → ¬ r.Short) →
          Kept (if left ≤ 1 then { s with phase := .idle, loose := s.loose ++ [flight] }
            else { s with phase := .polling (left - 1) flight }) := by
        intro hlast
        split
        · next hleft =>
            obtain ⟨hpending, hunhurt⟩ := hlast hleft
            refine h.give_up hpending fun r hr => ?_
            rw [hphase] at hr
            cases flight with
            | included r' =>
                obtain rfl : r' = r := Option.some.inj hr
                exact hunhurt r' rfl
            | pending => cases hr
            | dropped => cases hr
        · cases flight with
          | _ => exact ⟨h.strays, hhalts, trivial⟩
      cases flight with
      | pending => exact hunread fun hleft => by cases hseen hleft
      | dropped => exact hunread fun _ => ⟨by simp, fun _ habs => by cases habs⟩
      | included r =>
          cases answered with
          | false =>
              refine hunread fun hleft => ⟨by simp, fun r' hr' => ?_⟩
              obtain rfl := Flight.included.inj hr'
              exact hseen hleft
          | true =>
              have hgas : r.gasUsed * (if priced = true then r.gasPrice else s.maxFeePerGas) =
                  r.gasPaid := by
                unfold Included.gasPaid
                rcases hseen with rfl | hprice
                · rfl
                · rw [hprice, ite_self]
              cases hsuccess : r.success with
              | true =>
                  simp only [hsuccess, if_true, hgas]
                  exact ⟨h.strays, hhalts, hsuccess, rfl⟩
              | false =>
                  simp only [hsuccess, Bool.false_eq_true, if_false]
                  refine ⟨h.strays, fun r' hr' hshort => Or.inl ?_, trivial⟩
                  rcases hhalts r' hr' hshort with hhalted | hhand
                  · exact hhalted
                  · obtain rfl : r = r' := Option.some.inj hhand
                    rw [hshort.1] at hsuccess
                    cases hsuccess
  | _ => exact h

/-- With true readings the comparison tells a short fill from every other. -/
theorem settle_cases {after : Option Int} {r : Included} {gasWei : Nat} (h : Kept s)
    (hseen : Seen s (.balanceRead after)) (hphase : s.phase = .settling r gasWei) :
    r.Short ∧ (∃ missing, settle s after =
        { s with halted := some (.short missing), phase := .recording .lost r gasWei }) ∨
      ¬ r.Short ∧ settle s after = { s with phase := .recording .won r gasWei } := by
  have hexact := h.exact
  unfold Exact at hexact
  unfold Seen at hseen
  rw [hphase] at hexact hseen
  obtain ⟨hsuccess, rfl⟩ := hexact
  obtain ⟨hbefore, rfl, hpos⟩ := hseen
  simp only [settle, hphase, hbefore, Option.getD_some]
  by_cases hshort : r.after < r.before - r.gasPaid
  · rw [if_pos ⟨hpos, hshort⟩]
    exact Or.inl ⟨⟨hsuccess, hshort⟩, _, rfl⟩
  · rw [if_neg fun hboth => hshort hboth.2]
    exact Or.inr ⟨fun hboth => hshort hboth.2, rfl⟩

theorem settle_kept {after : Option Int} (h : Kept s) (hseen : Seen s (.balanceRead after)) :
    Kept (step cfg s (.balanceRead after)) := by
  rw [step_balanceRead]
  cases hphase : s.phase with
  | settling r gasWei =>
      rcases settle_cases h hseen hphase with ⟨-, missing, hsettle⟩ | ⟨hunhurt, hsettle⟩
      · rw [hsettle]
        exact ⟨h.strays, fun _ _ _ => Or.inl rfl, trivial⟩
      · rw [hsettle]
        refine ⟨h.strays, fun r' hr' hshort => Or.inl ?_, trivial⟩
        rcases h.halts r' hr' hshort with hhalted | hhand
        · exact hhalted
        · rw [hphase] at hhand
          obtain rfl : r = r' := Option.some.inj hhand
          exact absurd hshort hunhurt
  | _ =>
      simp only [settle, hphase]
      exact h

theorem record_kept (w : Write) (h : Kept s) : Kept (step cfg s (.record w)) := by
  rw [step_record]
  split
  · next kind r gasWei hphase =>
      have hidle : Kept { s with phase := .idle } := h.to_phase (by rw [hphase]; rfl) trivial
      exact hidle.of_same rfl rfl rfl rfl
  · exact h

/-- **A step that sees what comes of a fill keeps a short one from passing.** -/
theorem kept_step (cfg : Config) (s : Bot) (e : Event) (h : Kept s) (hseen : Seen s e) :
    Kept (step cfg s e) := by
  cases e with
  | elapse ms => exact h.of_same rfl rfl rfl rfl
  | refreshGas price => exact h.of_same rfl rfl rfl rfl
  | status => exact h.of_same rfl rfl rfl rfl
  | moves wei => exact h.of_same rfl rfl rfl rfl
  | tick read => exact tick_kept read h
  | judge v => exact judge_kept v h
  | send r => exact send_kept h hseen
  | mine loose success gasUsed gasPrice gained =>
      exact mine_kept loose success gasUsed gasPrice gained h
  | drop loose => exact drop_kept loose h
  | poll answered priced => exact poll_kept h hseen
  | balanceRead after => exact settle_kept h hseen
  | record w => exact record_kept w h
  | restart => exact hseen.elim

theorem kept_sends (s : Bot) (e : Event) (h : Kept s) (_ : Seen s e) : SendsUnhurt s e := by
  cases e with
  | send r =>
      intro hphase r' hr' hshort
      have hexact := h.exact
      unfold Exact at hexact
      rcases h.halts r' hr' hshort with hhalted | hhand
      · rw [hphase] at hexact
        rw [hexact] at hhalted
        cases hhalted
      · rw [hphase] at hhand
        cases hhand
  | _ => trivial

theorem kept_halts (cfg : Config) (s : Bot) (e : Event) (h : Kept s) (hseen : Seen s e) :
    HaltsForShort cfg s e := by
  cases e with
  | balanceRead after =>
      intro r gasWei hphase hunhurt
      rcases settle_cases h hseen hphase with ⟨hshort, -⟩ | ⟨-, hsettle⟩
      · exact absurd hshort hunhurt
      · simp only [step_balanceRead, hsettle]
  | _ => trivial

end Steps

/-! ### Over a run -/

theorem kept_fresh (now balance : Int) : Kept (fresh now balance) where
  strays _ h := absurd h List.not_mem_nil
  halts _ h := absurd h List.not_mem_nil
  exact := trivial

/-- **A short fill is the last, and only a short fill halts the bot**, in every run of a
process that sees what comes of its fills. -/
theorem halt_run (cfg : Config) (now balance : Int) (es : List Event)
    (hseen : Guarded.Along (step cfg) Seen (fresh now balance) es) :
    Guarded.Along (step cfg) SendsUnhurt (fresh now balance) es ∧
      Guarded.Along (step cfg) (HaltsForShort cfg) (fresh now balance) es :=
  ⟨Guarded.along_of_invariant (kept_step cfg) kept_sends (kept_fresh now balance) hseen,
    Guarded.along_of_invariant (kept_step cfg) (kept_halts cfg) (kept_fresh now balance) hseen⟩

/-! ### A balance that cannot be read -/

def roomyCap : Config where
  gasReserve := 0
  maxNotional := none
  dailyGasCap := 10000000000000000

/-- The fill loses a thousandth of an ether, the balance after it cannot be read, and the
bot sends again. -/
theorem sent_after_short :
    ¬ Guarded.Along (step roomyCap) SendsUnhurt (fresh 0 (10 ^ 18))
      [.tick (some (10 ^ 18)), .judge .clears, .send (.named .whole),
        .mine none true 400000 1000000000 (-(10 ^ 15)), .poll true true, .balanceRead none,
        .record .whole, .tick (some (10 ^ 18)), .judge .clears, .send (.named .whole)] := by
  intro halong
  have hsend := halong [.tick (some (10 ^ 18)), .judge .clears, .send (.named .whole),
    .mine none true 400000 1000000000 (-(10 ^ 15)), .poll true true, .balanceRead none,
    .record .whole, .tick (some (10 ^ 18)), .judge .clears] (.send (.named .whole)) [] rfl
  exact hsend (by decide) ⟨0, true, 400000, 1000000000, 10 ^ 18, 998600000000000000⟩
    (by decide) (by decide)

/-- With the balance read, it halts. -/
theorem halt_sample :
    Guarded.Along (step roomyCap) SendsUnhurt (fresh 0 (10 ^ 18))
      [.tick (some (10 ^ 18)), .judge .clears, .send (.named .whole),
        .mine none true 400000 1000000000 (-(10 ^ 15)), .poll true true,
        .balanceRead (some 998600000000000000), .record .whole, .tick (some (10 ^ 18)),
        .judge .clears, .send .refused] := by
  refine (halt_run roomyCap 0 (10 ^ 18) _ ?_).1
  simp only [Guarded.along_cons]
  exact ⟨trivial, trivial, Or.inr rfl, trivial, Or.inl rfl, ⟨rfl, rfl, by decide⟩, trivial,
    trivial, trivial, Or.inl rfl, Guarded.along_nil⟩

end ArbBot

end Ordo
