import Mathlib.Data.List.Basic
import Ordo.Guarded

/-!
# The searcher's nonce

The bot counts its nonce itself: every signature takes the next one, whether its
transaction is ever sent or not.  The backrun of a bid is sent when the bid wins and
discarded when it loses; a top-up of the bond is sent at once; and every half minute the
count of the chain replaces the bot's own, a while after it was read.

* `aligned_step` — what keeps the nonces that are out in one row from the next one on
  chain: signing in step with the chain, and losing, winning and dropping in turn;
* `executable_run` — in a run that does, a backrun that wins with nothing of the bot in
  flight carries the next nonce on chain.
-/

namespace Ordo

namespace SearcherNonce

structure Bot where
  /-- The bot's own count. -/
  nonce : Nat
  /-- How many transactions of the account are on chain: its next nonce there. -/
  landed : Nat
  /-- The nonces that the network has been sent, and not yet included. -/
  inFlight : List Nat := []
  /-- Those of backruns that are signed, with their auctions still open. -/
  bids : List Nat := []
  /-- Counts that have been read, and not yet arrived. -/
  reads : List Nat := []
  deriving DecidableEq

inductive Event where
  /-- `onOpportunity` signs a backrun and bids. -/
  | bid
  /-- An auction that is lost, or a bid that is refused. -/
  | lose (i : Nat)
  /-- An auction that is won: its backrun is sent, and taken or refused. -/
  | win (i : Nat) (taken : Bool)
  /-- `ensureBond` signs a top-up and sends it. -/
  | topUp (taken : Bool)
  /-- The next transaction of the account is included. -/
  | land
  /-- A transaction in flight is given up by the network. -/
  | drop (i : Nat)
  /-- `refreshChainState` has its count read, and has its answers. -/
  | refreshRead
  | refreshDone (i : Nat)
  deriving DecidableEq

/-- The first number from `n` on that is not in flight. -/
def nextFree (inFlight : List Nat) : Nat → Nat → Nat
  | 0, n => n
  | fuel + 1, n => if n ∈ inFlight then nextFree inFlight fuel (n + 1) else n

/-- `eth_getTransactionCount(account, "pending")` -/
def pendingCount (s : Bot) : Nat := nextFree s.inFlight s.inFlight.length s.landed

def step (s : Bot) : Event → Bot
  | .bid => { s with nonce := s.nonce + 1, bids := s.bids ++ [s.nonce] }
  | .lose i => { s with bids := s.bids.eraseIdx i }
  | .win i taken =>
      match s.bids[i]? with
      | none => s
      | some n =>
          { s with
            bids := s.bids.eraseIdx i
            inFlight := if taken then s.inFlight ++ [n] else s.inFlight }
  | .topUp taken =>
      { s with
        nonce := s.nonce + 1
        inFlight := if taken then s.inFlight ++ [s.nonce] else s.inFlight }
  | .land =>
      if s.landed ∈ s.inFlight then
        { s with landed := s.landed + 1, inFlight := s.inFlight.erase s.landed }
      else s
  | .drop i => { s with inFlight := s.inFlight.eraseIdx i }
  | .refreshRead => { s with reads := s.reads ++ [pendingCount s] }
  | .refreshDone i =>
      match s.reads[i]? with
      | none => s
      | some n => { s with nonce := n, reads := s.reads.eraseIdx i }

def run (s : Bot) (es : List Event) : Bot := es.foldl step s

/-- A backrun that wins, with nothing of the bot in flight, carries the next nonce. -/
def Executable (s : Bot) : Event → Prop
  | .win i _ => s.inFlight = [] → ∀ n, s.bids[i]? = some n → n = s.landed
  | _ => True

/-- How many nonces are out: in flight, and behind them in open auctions. -/
def Bot.out (s : Bot) : Nat := s.inFlight.length + s.bids.length

/-- The step is taken in turn: a signature continues the row of nonces that are out, a
top-up waits for the open auctions, and what leaves the row leaves it at its end. -/
def InTurn (s : Bot) : Event → Prop
  | .bid => s.nonce = s.landed + s.out
  | .lose i => s.bids.length ≤ i + 1
  | .win i taken => i = 0 ∧ (taken = false → s.bids.length ≤ 1)
  | .topUp taken => taken = true → s.bids = [] ∧ s.nonce = s.landed + s.out
  | .drop i => s.inFlight.length ≤ i + 1 ∧ s.bids = []
  | _ => True

/-- The nonces that are out are a row from the next one on chain. -/
structure Aligned (s : Bot) : Prop where
  inFlight : s.inFlight = List.range' s.landed s.inFlight.length
  bids : s.bids = List.range' (s.landed + s.inFlight.length) s.bids.length

section Steps

variable {s : Bot} {l : List Nat} {first : Nat}

/-- A row that the next number is added to. -/
theorem row_snoc (hrow : l = List.range' first l.length) :
    l ++ [first + l.length] = List.range' first (l ++ [first + l.length]).length := by
  rw [List.length_append, List.length_singleton, List.range'_1_concat, ← hrow]

/-- A row that its last number is taken from. -/
theorem row_eraseIdx {i : Nat} (hrow : l = List.range' first l.length) (hlast : l.length ≤ i + 1) :
    l.eraseIdx i = List.range' first (l.eraseIdx i).length := by
  have htake : l.eraseIdx i = l.take i := by
    rw [List.eraseIdx_eq_take_drop_succ, List.drop_of_length_le hlast, List.append_nil]
  rw [htake, List.length_take]
  rcases Nat.le_total l.length i with hout | hin
  · rw [List.take_of_length_le hout, Nat.min_eq_right hout]
    exact hrow
  · rw [Nat.min_eq_left hin]
    conv_lhs => rw [hrow]
    exact List.take_range'_of_length_ge hin

/-- A row without its first number. -/
theorem row_cons {n : Nat} (hrow : n :: l = List.range' first (n :: l).length) :
    n = first ∧ l = List.range' (first + 1) l.length := by
  obtain ⟨hfirst, -, hrest⟩ := List.range'_eq_cons_iff.mp hrow.symm
  subst hfirst
  exact ⟨rfl, by simpa using hrest⟩

theorem bid_aligned (haligned : Aligned s) (hturn : InTurn s .bid) :
    Aligned (step s .bid) := by
  have hnonce : s.nonce = s.landed + s.inFlight.length + s.bids.length := by
    rw [hturn, Bot.out]
    omega
  refine ⟨haligned.inFlight, ?_⟩
  simp only [step, hnonce]
  exact row_snoc haligned.bids

theorem win_aligned {taken : Bool} (haligned : Aligned s)
    (hlast : taken = false → s.bids.length ≤ 1) : Aligned (step s (.win 0 taken)) := by
  cases hbids : s.bids with
  | nil =>
      have hsame : step s (.win 0 taken) = s := by simp [step, hbids]
      rw [hsame]
      exact haligned
  | cons n rest =>
      have hrow := haligned.bids
      rw [hbids] at hrow hlast
      obtain ⟨hfirst, hrest⟩ := row_cons hrow
      subst hfirst
      cases taken with
      | true =>
          refine ⟨?_, ?_⟩
          · simpa [step, hbids] using row_snoc haligned.inFlight
          · simpa [step, hbids, Nat.add_assoc] using hrest
      | false =>
          obtain rfl : rest = [] := by
            have hnone := hlast rfl
            rw [List.length_cons] at hnone
            exact List.eq_nil_of_length_eq_zero (by omega)
          refine ⟨?_, ?_⟩
          · simpa [step, hbids] using haligned.inFlight
          · simp [step, hbids]

theorem topUp_aligned {taken : Bool} (haligned : Aligned s) (hturn : InTurn s (.topUp taken)) :
    Aligned (step s (.topUp taken)) := by
  cases taken with
  | false => exact ⟨haligned.inFlight, haligned.bids⟩
  | true =>
      obtain ⟨hnone, hnonce⟩ := hturn rfl
      have hnext : s.nonce = s.landed + s.inFlight.length := by
        rw [hnonce, Bot.out, hnone, List.length_nil, Nat.add_zero]
      refine ⟨?_, ?_⟩
      · simp only [step, hnext, if_true]
        exact row_snoc haligned.inFlight
      · simp [step, hnone]

theorem land_aligned (haligned : Aligned s) : Aligned (step s .land) := by
  simp only [step]
  split
  · next hmem =>
      cases hflight : s.inFlight with
      | nil =>
          rw [hflight] at hmem
          exact absurd hmem List.not_mem_nil
      | cons n rest =>
          have hrow := haligned.inFlight
          have hbehind := haligned.bids
          rw [hflight] at hrow hbehind
          obtain ⟨hfirst, hrest⟩ := row_cons hrow
          subst hfirst
          rw [List.length_cons] at hbehind
          refine ⟨?_, ?_⟩
          · simpa using hrest
          · have hbase : s.landed + (rest.length + 1) = s.landed + 1 + rest.length := by omega
            rw [hbase] at hbehind
            simpa using hbehind
  · exact haligned

/-- **Every step that is taken in turn keeps the row.** -/
theorem aligned_step (s : Bot) (e : Event) (haligned : Aligned s) (hturn : InTurn s e) :
    Aligned (step s e) := by
  cases e with
  | bid => exact bid_aligned haligned hturn
  | lose i => exact ⟨haligned.inFlight, row_eraseIdx haligned.bids hturn⟩
  | win i taken =>
      obtain ⟨rfl, hlast⟩ := hturn
      exact win_aligned haligned hlast
  | topUp taken => exact topUp_aligned haligned hturn
  | land => exact land_aligned haligned
  | drop i =>
      obtain ⟨hlast, hnone⟩ := hturn
      refine ⟨row_eraseIdx haligned.inFlight hlast, ?_⟩
      simp [step, hnone]
  | refreshRead => exact ⟨haligned.inFlight, haligned.bids⟩
  | refreshDone i =>
      simp only [step]
      split
      · exact haligned
      · exact ⟨haligned.inFlight, haligned.bids⟩

/-- The oldest bid carries the next nonce once nothing is in flight. -/
theorem aligned_executable (s : Bot) (e : Event) (haligned : Aligned s) (hturn : InTurn s e) :
    Executable s e := by
  cases e with
  | win i taken =>
      obtain ⟨rfl, -⟩ := hturn
      intro hidle n hn
      cases hbids : s.bids with
      | nil =>
          rw [hbids] at hn
          cases hn
      | cons n' rest =>
          have hrow := haligned.bids
          rw [hbids, hidle] at hrow
          obtain ⟨hfirst, -⟩ := row_cons hrow
          rw [hbids] at hn
          obtain rfl : n' = n := Option.some.inj hn
          exact hfirst
  | _ => trivial

end Steps

/-! ### Over a run -/

/-- **A backrun that wins with nothing in flight carries the next nonce on chain**, in
every run from an idle bot whose steps are taken in turn. -/
theorem executable_run (s : Bot) (es : List Event) (hidle : s.inFlight = [] ∧ s.bids = [])
    (hturn : Guarded.Along step InTurn s es) : Guarded.Along step Executable s es := by
  obtain ⟨hflight, hbids⟩ := hidle
  exact Guarded.along_of_invariant aligned_step aligned_executable
    ⟨by simp [hflight], by simp [hbids]⟩ hturn

/-- Read while the row holds and no auction is open, the count of the chain continues the
row. -/
theorem pendingCount_aligned {s : Bot} (haligned : Aligned s) :
    pendingCount s = s.landed + s.inFlight.length := by
  have hfrom : ∀ fuel n : Nat, s.landed ≤ n → n + fuel = s.landed + s.inFlight.length →
      nextFree s.inFlight fuel n = s.landed + s.inFlight.length := by
    intro fuel
    induction fuel with
    | zero =>
        intro n _ hend
        exact hend
    | succ fuel ih =>
        intro n hfirst hend
        have hmem : n ∈ s.inFlight := by
          rw [haligned.inFlight, List.mem_range'_1]
          omega
        rw [nextFree, if_pos hmem]
        exact ih (n + 1) (by omega) (by omega)
  exact hfrom s.inFlight.length s.landed (Nat.le_refl _) rfl

/-- So a refresh with no auction open, and nothing between its count and its end, lets the
bot sign in turn. -/
theorem refresh_inTurn {s : Bot} (haligned : Aligned s) (hbids : s.bids = [])
    (hreads : s.reads = []) : InTurn (run s [.refreshRead, .refreshDone 0]) .bid := by
  have hcount := pendingCount_aligned haligned
  simp [InTurn, run, step, hreads, hcount, Bot.out, hbids]

/-! ### A bid that is lost -/

def freshBot : Bot where
  nonce := 7
  landed := 7

/-- The bid after a lost one wins, with a nonce that the account does not reach. -/
theorem won_after_lost :
    ¬ Guarded.Along step Executable freshBot [.bid, .lose 0, .bid, .win 0 true] := by
  intro halong
  have hwin := halong [.bid, .lose 0, .bid] (.win 0 true) [] rfl
  exact absurd (hwin rfl 8 rfl) (by decide)

/-- Two bids that win in turn. -/
theorem executable_sample :
    Guarded.Along step Executable freshBot
      [.bid, .win 0 true, .land, .refreshRead, .refreshDone 0, .bid, .win 0 true] := by
  refine executable_run freshBot _ ⟨rfl, rfl⟩ ?_
  simp only [Guarded.along_cons]
  refine ⟨rfl, ⟨rfl, fun h => by cases h⟩, trivial, trivial, trivial, rfl,
    ⟨rfl, fun h => by cases h⟩, Guarded.along_nil⟩

end SearcherNonce

end Ordo
