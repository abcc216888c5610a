import Ordo.BatchSolver

/-!
# The batcher's search for a clearing price

`solve` asks the contract what the AMM gives for the residual, moves the price by the
answer and asks again, six times at most.  Orders whose limit a price does not reach are
dropped on the way.  The answers come from a node and may be anything.

1.  When the search ends because the price has settled, what it returns is what was
    simulated last (`simulated_iff_settled`); when it runs out of rounds it is not.
2.  Orders are dropped at the price of a round, which is not the price that is returned
    (`dropped_below_limit`).
-/

namespace Ordo

namespace Solver

open OrdoBatch (Order Interaction)

/-- A price that is sent to the contract. -/
structure Quote where
  token : Address
  price : Int
  deriving DecidableEq

/-- What a simulation says of one token: what the contract is left with, and what is
owed of it. -/
structure Moved where
  token : Address
  delta : Int
  owed : Int
  deriving DecidableEq

structure SimResult where
  tokens : List Moved
  buyAmounts : List Int
  deriving DecidableEq

/-- Why a simulation is not acceptable. -/
inductive Why where
  | short (amount : Int) (token : Address)
  | feeAboveCap (fee cap : Int) (token : Address)
  deriving DecidableEq

variable {WETH : Address}

section Price

variable (batch : PairBatch WETH) (c : Clearing) (sim : SimResult)

def prices : List Quote := [⟨batch.a, c.pA⟩, ⟨batch.b, c.pB⟩]

/-- No order's amount is divided by zero. -/
def divides : Bool := (batch.sellA = [] ∨ c.pB ≠ 0) ∧ (batch.sellB = [] ∨ c.pA ≠ 0)

def target (feeBps d : Int) : Int := (d * (10000 - feeBps)).tdiv 10000

/-- A price moves so that what is owed becomes what is held, less the fee. -/
def scale (feeBps p : Int) (r : Moved) : Int :=
  if r.owed = 0 ∨ r.delta ≤ 0 then p else (p * target feeBps r.delta).tdiv r.owed

/-- The token that the AMM fed is `b`, unless nothing was fed and nothing is off. -/
def fedB (ra rb : Moved) (res : Residual) : Option Bool :=
  if 0 < res.a then some true
  else if 0 < res.b then some false
  else
    let gapA := |ra.delta - ra.owed|
    let gapB := |rb.delta - rb.owed|
    if gapA = 0 ∧ gapB = 0 then none else some (gapA ≤ gapB)

/-- The next clearing price given what the simulation reported. -/
def nextClearing (feeBps : Int) (res : Residual) : Clearing :=
  match sim.tokens.find? (·.token = batch.a), sim.tokens.find? (·.token = batch.b) with
  | some ra, some rb =>
      match fedB ra rb res with
      | none => c
      | some true => ⟨scale feeBps c.pA rb, c.pB⟩
      | some false => ⟨c.pA, scale feeBps c.pB ra⟩
  | _, _ => c

/-- Volume in the contract's terms: everything sold of a token plus everything bought. -/
def feeCap (maxFeeBps : Int) (r : Moved) : Int :=
  ((sold ((allOrders batch).filter fun o => asToken WETH o.sellToken = r.token) + r.owed) *
    maxFeeBps).tdiv 10000

def acceptToken (maxFeeBps : Int) (r : Moved) : Except Why Unit :=
  if r.token ≠ batch.a ∧ r.token ≠ batch.b then .ok ()
  else if r.delta < r.owed then .error (.short (r.owed - r.delta) r.token)
  else if feeCap batch maxFeeBps r < r.delta - r.owed then
    .error (.feeAboveCap (r.delta - r.owed) (feeCap batch maxFeeBps r) r.token)
  else .ok ()

/-- Whether the simulation is a settlement the contract would accept. -/
def acceptable (maxFeeBps : Int) : Except Why Unit :=
  sim.tokens.forM (acceptToken batch maxFeeBps)

/-- The first guess: both sides to the AMM in full. -/
def discoveryClearing (outB outA : Int) : Option Clearing :=
  if 0 < sold batch.sellA ∧ 0 < outB then some ⟨outB, sold batch.sellA⟩
  else if 0 < sold batch.sellB ∧ 0 < outA then some ⟨sold batch.sellB, outA⟩
  else none

/-- By how much a price moves, in thousandths of a per cent. -/
def rel (x y : Int) : Int :=
  if x = y then 0 else (|x - y| * 100000).tdiv (if y = 0 then 1 else y)

/-- A price moves by less than a basis point. -/
def settles (next c : Clearing) : Bool := rel next.pA c.pA < 10 ∧ rel next.pB c.pB < 10

end Price

/-! ### The search -/

/-- What `simulate` is asked. -/
structure Query where
  orders : List Order
  prices : List Quote
  interactions : List Interaction

inductive Reason where
  | atClearingPrice (buyAmount : Int)
  | limitNotMet
  deriving DecidableEq

structure Dropped where
  order : Order
  reason : Reason
  deriving DecidableEq

inductive SolveError where
  | noRoute
  | noLimit
  | residualHasNoRoute
  | simulate (error : String)
  | unacceptable (why : Why)
  | noSimulation
  | didNotConverge (why : Why)
  | limitsMoved
  deriving DecidableEq

/-- The split across routes that returns the most for a whole side. -/
structure Best where
  alloc : Allocation
  out : Int
  singleOut : Int

/-- What is configured, what the routes give, and how the node answers the calls. -/
structure Market where
  feeBps : Int
  maxFeeBps : Int
  ab : Option Best
  ba : Option Best
  simulate : Nat → Query → Except String SimResult

structure Solved (WETH : Address) where
  batch : PairBatch WETH
  clearing : Clearing
  interactions : List Interaction
  sim : SimResult
  dropped : List Dropped
  aloneB : Int
  aloneA : Int

/-- The variables of the search, and the calls it has made. -/
structure Search (WETH : Address) where
  batch : PairBatch WETH
  c : Clearing
  dropped : List Dropped
  sim : Option SimResult
  interactions : List Interaction
  asked : List Query

inductive Result (α : Type) where
  | done (a : α)
  | error (e : SolveError) (dropped : List Dropped)
  | threw

/-- How a round ends that does not fail. -/
inductive Round (WETH : Address) where
  | settled (s : Search WETH)
  | moved (s : Search WETH)

section Solve

variable (m : Market)

/-- The orders that the price does not reach leave the batch. -/
def drop (s : Search WETH) : Search WETH :=
  let fails := limitFailures s.batch s.c
  { s with
    batch := without s.batch fails
    dropped := s.dropped ++
      fails.map fun o => ⟨o, .atClearingPrice (buyAmount s.batch s.c o)⟩ }

def query (s : Search WETH) : Query := ⟨allOrders s.batch, prices s.batch s.c, s.interactions⟩

/-- A negative price cannot be encoded, nor one of more than 256 bits. -/
def encodes (s : Search WETH) : Bool :=
  0 ≤ s.c.pA ∧ s.c.pA < 2 ^ 256 ∧ 0 ≤ s.c.pB ∧ s.c.pB < 2 ^ 256

/-- No counterparty, no fee. -/
def feeFor (batch : PairBatch WETH) : Int :=
  if batch.sellA = [] ∨ batch.sellB = [] then 0 else m.feeBps

/-- What a round makes of the answer. -/
def judge (s : Search WETH) (res : Residual) (sim : SimResult) : Result (Round WETH) :=
  let next := nextClearing s.batch s.c sim (feeFor m s.batch) res
  match acceptable s.batch sim m.maxFeeBps with
  | .ok () =>
      if settles next s.c then .done (.settled s) else .done (.moved { s with c := next })
  | .error why =>
      if next = s.c then .error (.unacceptable why) s.dropped
      else .done (.moved { s with c := next })

/-- The residual at the price, and how it is to be sold. -/
def feed (s : Search WETH) : Search WETH :=
  { s with
    interactions := interactionsFor (residual s.batch s.c) (m.ab.map Best.alloc)
      (m.ba.map Best.alloc) }

def reported (s : Search WETH) (sim : SimResult) : Search WETH :=
  { s with sim := some sim, asked := s.asked ++ [query s] }

/-- The call, and what follows from its answer. -/
def ask (k : Nat) (s : Search WETH) : Result (Round WETH) :=
  let res := residual s.batch s.c
  if 0 < res.a ∧ m.ab.isNone ∨ 0 < res.b ∧ m.ba.isNone then .error .residualHasNoRoute s.dropped
  else if ¬ encodes s then .threw
  else
    match m.simulate k (query (feed m s)) with
    | .error error => .error (.simulate error) s.dropped
    | .ok sim => judge m (reported (feed m s) sim) res sim

def round (k : Nat) (s : Search WETH) : Result (Round WETH) :=
  if ¬ divides s.batch s.c then .threw
  else if limitFailures s.batch s.c = [] then ask m k s
  else if allOrders (drop s).batch = [] then .error .noLimit (drop s).dropped
  else ask m k (drop s)

/-- The rounds that are left. -/
def rounds : Nat → Nat → Search WETH → Result (Search WETH)
  | 0, _, s => .done s
  | n + 1, k, s =>
      match round m k s with
      | .done (.settled s) => .done s
      | .done (.moved s) => rounds n (k + 1) s
      | .error e dropped => .error e dropped
      | .threw => .threw

/-- The checks before a solution is returned. -/
def finish (s : Search WETH) : Result (Solved WETH × List Query) :=
  match s.sim with
  | none => .error .noSimulation s.dropped
  | some sim =>
      match acceptable s.batch sim m.maxFeeBps with
      | .error why => .error (.didNotConverge why) s.dropped
      | .ok () =>
          if ¬ divides s.batch s.c then .threw
          else if limitFailures s.batch s.c ≠ [] then
            .error .limitsMoved
              (s.dropped ++ (limitFailures s.batch s.c).map fun o => ⟨o, .limitNotMet⟩)
          else
            .done
              ({ batch := s.batch
                 clearing := s.c
                 interactions := s.interactions
                 sim
                 dropped := s.dropped
                 aloneB := (m.ab.map Best.singleOut).getD 0
                 aloneA := (m.ba.map Best.singleOut).getD 0 }, s.asked)

/-- Where the search starts. -/
def start (initial : PairBatch WETH) : Option (Search WETH) :=
  (discoveryClearing initial ((m.ab.map Best.out).getD 0) ((m.ba.map Best.out).getD 0)).map
    fun c => ⟨initial, c, [], none, [], []⟩

/-- The solution, and the calls that were made for it. -/
def solve (initial : PairBatch WETH) : Result (Solved WETH × List Query) :=
  match start m initial with
  | none => .error .noRoute []
  | some s =>
      match rounds m 6 0 s with
      | .done s => finish m s
      | .error e dropped => .error e dropped
      | .threw => .threw

end Solve

/-! ### What a round leaves -/

section Conditions

variable (m : Market)

/-- A round ends the search before the rounds run out. -/
def Settles : Nat → Nat → Search WETH → Bool
  | 0, _, _ => false
  | n + 1, k, s =>
      match round m k s with
      | .done (.settled _) => true
      | .done (.moved s') => Settles n (k + 1) s'
      | _ => false

/-- No round moves the price in favour of an order that has been dropped. -/
def Against : Nat → Nat → Search WETH → Bool
  | 0, _, _ => true
  | n + 1, k, s =>
      match round m k s with
      | .done (.moved s') =>
          (∀ d ∈ s'.dropped, buyAmount s'.batch s'.c d.order ≤ buyAmount s.batch s.c d.order) &&
            Against n (k + 1) s'
      | _ => true

/-- The last call asked about the batch, the price and the interactions as they are,
and the simulation is its answer. -/
def Current (s : Search WETH) : Prop :=
  ∃ before sim, s.asked = before ++ [query s] ∧ s.sim = some sim ∧
    m.simulate before.length (query s) = .ok sim

/-- It asked about another price. -/
def Stale (s : Search WETH) : Prop :=
  ∃ c, Current m { s with c := c } ∧
    ∀ sim, s.sim = some sim → acceptable s.batch sim m.maxFeeBps = .ok () → s.c ≠ c

end Conditions

section Rounds

variable {m : Market} {k n : Nat} {s s' : Search WETH}

theorem settles_self (c : Clearing) : settles c c = true := by
  simp [settles, rel]

/-- A search that has been judged, settled or not. -/
inductive Judged (m : Market) (s : Search WETH) (sim : SimResult) : Round WETH → Prop
  | settled (haccept : acceptable s.batch sim m.maxFeeBps = .ok ()) : Judged m s sim (.settled s)
  | moved (c : Clearing) (hmoved : acceptable s.batch sim m.maxFeeBps = .ok () → c ≠ s.c) :
      Judged m s sim (.moved { s with c := c })

theorem judge_done {res : Residual} {sim : SimResult} {r : Round WETH}
    (h : judge m s res sim = .done r) : Judged m s sim r := by
  unfold judge at h
  generalize nextClearing s.batch s.c sim (feeFor m s.batch) res = next at h
  cases haccept : acceptable s.batch sim m.maxFeeBps with
  | ok u =>
      simp only [haccept] at h
      split at h
      next => cases h; exact .settled haccept
      next hsettles =>
        cases h
        refine .moved next fun _ hsame => hsettles ?_
        rw [hsame]
        exact settles_self s.c
  | error why =>
      simp only [haccept] at h
      split at h
      next => cases h
      next =>
        cases h
        refine .moved next fun hok => ?_
        rw [haccept] at hok
        cases hok

/-- What a round that does not fail has done: it dropped orders or none, asked about
`s₁`, and judged the answer. -/
structure Went (m : Market) (k : Nat) (s : Search WETH) (r : Round WETH) (s₁ : Search WETH)
    (sim : SimResult) : Prop where
  orders : s₁ = feed m s ∨ s₁ = feed m (drop s)
  answer : m.simulate k (query s₁) = .ok sim
  judged : Judged m (reported s₁ sim) sim r

theorem ask_done {r : Round WETH} (h : ask m k s = .done r) :
    ∃ sim, m.simulate k (query (feed m s)) = .ok sim ∧
      Judged m (reported (feed m s) sim) sim r := by
  unfold ask at h
  simp only at h
  split at h
  · cases h
  split at h
  · cases h
  split at h
  next => cases h
  next sim hanswer => exact ⟨sim, hanswer, judge_done h⟩

theorem round_done {r : Round WETH} (h : round m k s = .done r) :
    ∃ s₁ sim, Went m k s r s₁ sim := by
  unfold round at h
  split at h
  · cases h
  split at h
  next hnone =>
    obtain ⟨sim, hanswer, hjudged⟩ := ask_done h
    exact ⟨feed m s, sim, Or.inl rfl, hanswer, hjudged⟩
  · split at h
    · cases h
    · obtain ⟨sim, hanswer, hjudged⟩ := ask_done h
      exact ⟨feed m (drop s), sim, Or.inr rfl, hanswer, hjudged⟩

end Rounds

/-! ### What is returned was simulated -/

section Simulated

variable {m : Market} {k n : Nat} {s s' : Search WETH}

/-- A settled round ends with what it asked about, another one has moved on. -/
theorem Went.asked {r : Round WETH} {s₁ : Search WETH} {sim : SimResult}
    (h : Went m k s r s₁ sim) (hk : s.asked.length = k) :
    (∀ s', r = .settled s' → Current m s') ∧
      ∀ s', r = .moved s' → Stale m s' ∧ s'.asked.length = k + 1 := by
  obtain ⟨horders, hanswer, hjudged⟩ := h
  have hasked : s₁.asked = s.asked := by
    rcases horders with rfl | rfl
    · rfl
    · rfl
  have hcurrent : Current m (reported s₁ sim) := by
    refine ⟨s₁.asked, sim, rfl, rfl, ?_⟩
    rw [hasked, hk]
    exact hanswer
  have hlength : (reported s₁ sim).asked.length = k + 1 := by
    rw [reported, List.length_append, hasked, hk]
    rfl
  cases hjudged with
  | settled haccept =>
      refine ⟨fun s' hs' => ?_, fun s' hs' => by cases hs'⟩
      cases hs'
      exact hcurrent
  | moved c hmoved =>
      refine ⟨fun s' hs' => (by cases hs'), fun s' hs' => ?_⟩
      cases hs'
      refine ⟨⟨(reported s₁ sim).c, hcurrent, fun sim' hsim' haccept => ?_⟩, hlength⟩
      cases hsim'
      exact hmoved haccept

/-- **The rounds that are left.**  They end with a current simulation if one of them
settles, and with a stale one, or none, if they run out. -/
theorem rounds_done (n : Nat) : ∀ {k : Nat} {s s' : Search WETH}, s.asked.length = k →
    (s.sim = none ∨ Stale m s) → rounds m n k s = .done s' →
      (Settles m n k s ∧ Current m s') ∨ (¬ Settles m n k s ∧ (s'.sim = none ∨ Stale m s')) := by
  induction n with
  | zero =>
      intro k s s' _ hstale h
      cases h
      exact Or.inr ⟨Bool.false_ne_true, hstale⟩
  | succ n ih =>
      intro k s s' hk _ h
      rw [rounds] at h
      rw [Settles]
      cases hround : round m k s with
      | error e dropped => rw [hround] at h; cases h
      | threw => rw [hround] at h; cases h
      | done r =>
          obtain ⟨s₀, sim, hwent⟩ := round_done hround
          obtain ⟨hsettled, hmoved⟩ := hwent.asked hk
          rw [hround] at h
          cases r with
          | settled s₁ =>
              cases h
              exact Or.inl ⟨rfl, hsettled _ rfl⟩
          | moved s₁ =>
              obtain ⟨hstale, hlength⟩ := hmoved s₁ rfl
              exact ih hlength (Or.inr hstale) h

/-- The reported simulation is that of exactly the returned batch, prices and
interactions, in the last call that was made, and it is acceptable. -/
def Coherent (m : Market) (p : Solved WETH × List Query) : Prop :=
  ∃ before,
    p.2 = before ++
      [⟨allOrders p.1.batch, prices p.1.batch p.1.clearing, p.1.interactions⟩] ∧
    m.simulate before.length
      ⟨allOrders p.1.batch, prices p.1.batch p.1.clearing, p.1.interactions⟩ = .ok p.1.sim ∧
    acceptable p.1.batch p.1.sim m.maxFeeBps = .ok ()

theorem finish_done {p : Solved WETH × List Query} (h : finish m s = .done p) :
    ∃ sim, s.sim = some sim ∧ acceptable s.batch sim m.maxFeeBps = .ok () ∧
      limitFailures s.batch s.c = [] ∧ p.2 = s.asked ∧ p.1.batch = s.batch ∧
      p.1.clearing = s.c ∧ p.1.interactions = s.interactions ∧ p.1.sim = sim ∧
      p.1.dropped = s.dropped := by
  unfold finish at h
  split at h
  next => cases h
  next sim hsim =>
    split at h
    next => cases h
    next haccept =>
      split at h
      next => cases h
      split at h
      next => cases h
      next hlimits =>
        cases h
        exact ⟨sim, hsim, haccept, not_not.mp hlimits, rfl, rfl, rfl, rfl, rfl, rfl⟩

theorem prices_inj {batch : PairBatch WETH} {c c' : Clearing}
    (h : prices batch c = prices batch c') : c = c' := by
  simp only [prices, List.cons.injEq, Quote.mk.injEq, true_and, and_true] at h
  cases c
  cases c'
  simp_all

/-- A solution comes out of the rounds. -/
theorem solve_done {initial : PairBatch WETH} {p : Solved WETH × List Query}
    (h : solve m initial = .done p) :
    ∃ s s', start m initial = some s ∧ rounds m 6 0 s = .done s' ∧ finish m s' = .done p := by
  unfold solve at h
  split at h
  next => cases h
  next s hs =>
    split at h
    next s' hs' => exact ⟨s, s', hs, hs', h⟩
    next => cases h
    next => cases h

theorem start_eq {initial : PairBatch WETH} (h : start m initial = some s) :
    s.batch = initial ∧ s.dropped = [] ∧ s.sim = none ∧ s.asked = [] := by
  obtain ⟨c, -, rfl⟩ := Option.map_eq_some_iff.mp h
  exact ⟨rfl, rfl, rfl, rfl⟩

end Simulated

/-- **What is returned was simulated** exactly when the search has settled. -/
theorem simulated_iff_settled (m : Market) (initial : PairBatch WETH)
    {p : Solved WETH × List Query} (h : solve m initial = .done p) :
    Coherent m p ↔ ∃ s, start m initial = some s ∧ Settles m 6 0 s := by
  obtain ⟨s, s', hs, hrounds, hfinish⟩ := solve_done h
  obtain ⟨-, -, hnone, hasked⟩ := start_eq hs
  obtain ⟨sim, hsim, haccept, -, hcalls, hbatch, hclearing, hinteractions, hreported, -⟩ :=
    finish_done hfinish
  have hquery : (⟨allOrders p.1.batch, prices p.1.batch p.1.clearing, p.1.interactions⟩ :
      Query) = query s' := by
    rw [hbatch, hclearing, hinteractions]
    rfl
  rw [Coherent, hquery, hcalls, hbatch, hreported]
  have hstart : s.asked.length = 0 := by rw [hasked]; rfl
  rcases rounds_done 6 hstart (Or.inl hnone) hrounds with ⟨hsettles, hcurrent⟩ | ⟨hnot, hstale⟩
  · constructor
    · intro _
      exact ⟨s, hs, hsettles⟩
    · intro _
      obtain ⟨before, sim', hcalled, hsim', hanswer⟩ := hcurrent
      rw [hsim] at hsim'
      cases hsim'
      exact ⟨before, hcalled, hanswer, haccept⟩
  · constructor
    · intro ⟨before, hcalled, _, _⟩
      rcases hstale with hnone' | ⟨c, ⟨before', sim', hcalled', -, -⟩, hmoved⟩
      · rw [hsim] at hnone'
        cases hnone'
      · -- the last call was for another price
        have hlast : before ++ [query s'] = before' ++ [query { s' with c := c }] :=
          hcalled.symm.trans hcalled'
        have hsame := (List.append_inj' hlast rfl).2
        have hprices : prices s'.batch s'.c = prices s'.batch c :=
          congrArg Query.prices (List.singleton_inj.mp hsame)
        exact absurd (prices_inj hprices) (hmoved sim hsim haccept)
    · intro ⟨s₁, hs₁, hsettles⟩
      rw [hs] at hs₁
      cases hs₁
      exact absurd hsettles hnot

/-- A batch of one order, for a million of token 2, at a price of about one. -/
def loneBatch : PairBatch 9 where
  a := 2
  b := 3
  sellA := [sampleOrder 2 3 1000000 0]
  sellB := []
  sellsA := by decide
  sellsB := by decide

/-- A node that says of every price that so much is held against a million owed. -/
def answering (held : Int) : Market where
  feeBps := 10
  maxFeeBps := 30
  ab := some ⟨single [], 1000000, 1000000⟩
  ba := none
  simulate := fun _ _ => .ok ⟨[⟨2, 0, 0⟩, ⟨3, held, 1000000⟩], []⟩

def Result.value? {α : Type} : Result α → Option α
  | .done a => some a
  | _ => none

theorem Result.eq_done {α : Type} {r : Result α} (h : r.value?.isSome = true) :
    ∃ a, r = .done a := by
  cases r with
  | done a => exact ⟨a, rfl⟩
  | error e dropped => cases h
  | threw => cases h

theorem simulated_iff_settled_sample :
    ∃ p, solve (answering 1000000) loneBatch = .done p ∧ Coherent (answering 1000000) p := by
  obtain ⟨p, hp⟩ := Result.eq_done
    (show (solve (answering 1000000) loneBatch).value?.isSome = true by decide +kernel)
  exact ⟨p, hp, (simulated_iff_settled _ _ hp).mpr ⟨_, rfl, by decide +kernel⟩⟩

/-- A node that always says that two thousandths more are held: each answer is acceptable,
each moves the price on, and the last price is returned without having been simulated. -/
theorem last_price_not_simulated :
    ¬ ∀ (m : Market) (initial : PairBatch 9) (p : Solved 9 × List Query),
      solve m initial = .done p → Coherent m p := by
  intro hclaim
  obtain ⟨p, hp⟩ := Result.eq_done
    (show (solve (answering 1002000) loneBatch).value?.isSome = true by decide +kernel)
  obtain ⟨before, hcalls, -, -⟩ := hclaim _ _ p hp
  have hprices : (solve (answering 1002000) loneBatch).value?.map (fun p =>
      (p.2.getLast?.map Query.prices, prices p.1.batch p.1.clearing)) =
        some (some [⟨2, 1010040⟩, ⟨3, 1000000⟩], [⟨2, 1012060⟩, ⟨3, 1000000⟩]) := by
    decide +kernel
  rw [hp, Result.value?, Option.map_some, hcalls, List.getLast?_concat] at hprices
  simp only [Option.map_some, Option.some.injEq, Prod.mk.injEq] at hprices
  rw [hprices.2] at hprices
  exact absurd hprices.1 (by decide)

/-! ### Who is left out -/

section LeftOut

variable {m : Market} {k n : Nat} {s s' : Search WETH} {initial : PairBatch WETH}

theorem buyAmount_congr {batch batch' : PairBatch WETH} (h : batch'.a = batch.a) (c : Clearing)
    (o : Order) : buyAmount batch' c o = buyAmount batch c o := by
  rw [buyAmount, buyAmount, h]

theorem mem_limitFailures {batch : PairBatch WETH} {c : Clearing} {o : Order} :
    o ∈ limitFailures batch c ↔
      o ∈ allOrders batch ∧ buyAmount batch c o < o.minBuyAmount := by
  simp [limitFailures]

theorem mem_allOrders_without {batch : PairBatch WETH} {gone : List Order} {o : Order} :
    o ∈ allOrders (without batch gone) ↔ o ∈ allOrders batch ∧ o ∉ gone := by
  simp only [allOrders, without, List.mem_append, List.mem_filter, decide_eq_true_eq]
  tauto

/-- Every order is in the batch or has been dropped, and the price does not reach the
limit of any that was dropped. -/
structure Below (initial : PairBatch WETH) (s : Search WETH) : Prop where
  a : s.batch.a = initial.a
  somewhere : ∀ o ∈ allOrders initial, o ∈ allOrders s.batch ∨ ∃ d ∈ s.dropped, d.order = o
  below : ∀ d ∈ s.dropped, buyAmount s.batch s.c d.order < d.order.minBuyAmount

theorem Below.drop (h : Below initial s) : Below initial (drop s) := by
  refine ⟨h.a, fun o ho => ?_, fun d hd => ?_⟩
  · rcases h.somewhere o ho with hin | ⟨d, hd, rfl⟩
    · by_cases hfails : o ∈ limitFailures s.batch s.c
      · exact Or.inr ⟨_, List.mem_append_right _ (List.mem_map_of_mem hfails), rfl⟩
      · exact Or.inl (mem_allOrders_without.mpr ⟨hin, hfails⟩)
    · exact Or.inr ⟨d, List.mem_append_left _ hd, rfl⟩
  · rcases List.mem_append.mp hd with hd | hd
    · exact h.below d hd
    · obtain ⟨o, ho, rfl⟩ := List.mem_map.mp hd
      exact (mem_limitFailures.mp ho).2

/-- A round keeps this if it does not move the price in favour of what was dropped. -/
theorem Below.went (h : Below initial s) {r : Round WETH} {s₁ : Search WETH} {sim : SimResult}
    (hwent : Went m k s r s₁ sim) :
    (∀ s', r = .settled s' → Below initial s') ∧
      ∀ s', r = .moved s' →
        (∀ d ∈ s'.dropped, buyAmount s'.batch s'.c d.order ≤ buyAmount s.batch s.c d.order) →
          Below initial s' := by
  obtain ⟨horders, -, hjudged⟩ := hwent
  have h₁ : Below initial s₁ ∧ s₁.c = s.c ∧ s₁.batch.a = s.batch.a := by
    rcases horders with rfl | rfl
    · exact ⟨⟨h.a, h.somewhere, h.below⟩, rfl, rfl⟩
    · exact ⟨⟨h.drop.a, h.drop.somewhere, h.drop.below⟩, rfl, rfl⟩
  obtain ⟨h₁, hc, ha⟩ := h₁
  cases hjudged with
  | settled haccept =>
      refine ⟨fun s' hs' => ?_, fun s' hs' => by cases hs'⟩
      cases hs'
      exact ⟨h₁.a, h₁.somewhere, h₁.below⟩
  | moved c hmoved =>
      refine ⟨fun s' hs' => (by cases hs'), fun s' hs' hagainst => ?_⟩
      cases hs'
      refine ⟨h₁.a, h₁.somewhere, fun d hd => ?_⟩
      have hbelow := h₁.below d hd
      rw [hc, buyAmount_congr ha] at hbelow
      exact (hagainst d hd).trans_lt hbelow

theorem Below.rounds (n : Nat) : ∀ {k : Nat} {s s' : Search WETH}, Below initial s →
    Against m n k s → rounds m n k s = .done s' → Below initial s' := by
  induction n with
  | zero =>
      intro k s s' h _ hrounds
      cases hrounds
      exact h
  | succ n ih =>
      intro k s s' h hagainst hrounds
      rw [Solver.rounds] at hrounds
      rw [Against] at hagainst
      cases hround : round m k s with
      | error e dropped => rw [hround] at hrounds; cases hrounds
      | threw => rw [hround] at hrounds; cases hrounds
      | done r =>
          obtain ⟨s₀, sim, hwent⟩ := round_done hround
          obtain ⟨hsettled, hmoved⟩ := h.went hwent
          rw [hround] at hrounds hagainst
          cases r with
          | settled s₁ =>
              cases hrounds
              exact hsettled _ rfl
          | moved s₁ =>
              simp only [Bool.and_eq_true, decide_eq_true_eq] at hagainst
              exact ih (hmoved s₁ rfl hagainst.1) hagainst.2 hrounds

end LeftOut

/-- **Who is left out.**  If no round moves the price in favour of an order that has been
dropped, the solution takes exactly the orders whose limit its prices reach. -/
theorem dropped_below_limit (m : Market) (initial : PairBatch WETH)
    {p : Solved WETH × List Query} (h : solve m initial = .done p)
    (hagainst : ∀ s, start m initial = some s → Against m 6 0 s) {o : Order}
    (ho : o ∈ allOrders initial) :
    o ∈ allOrders p.1.batch ↔ o.minBuyAmount ≤ buyAmount p.1.batch p.1.clearing o := by
  obtain ⟨s, s', hs, hrounds, hfinish⟩ := solve_done h
  obtain ⟨hinitial, hdropped, -, -⟩ := start_eq hs
  obtain ⟨sim, -, -, hlimits, -, hbatch, hclearing, -, -, -⟩ := finish_done hfinish
  have hstart : Below initial s := by
    refine ⟨by rw [hinitial], fun o ho => Or.inl (by rw [hinitial]; exact ho), ?_⟩
    rw [hdropped]
    exact fun d hd => absurd hd List.not_mem_nil
  have hbelow := hstart.rounds 6 (hagainst s hs) hrounds
  rw [hbatch, hclearing]
  constructor
  · intro hin
    by_contra hless
    have hfails := mem_limitFailures.mpr ⟨hin, not_le.mp hless⟩
    rw [hlimits] at hfails
    exact absurd hfails List.not_mem_nil
  · intro hreached
    rcases hbelow.somewhere o ho with hin | ⟨d, hd, rfl⟩
    · exact hin
    · exact absurd hreached (not_le.mpr (hbelow.below d hd))

/-- Seller 1 asks for a price of one and is dropped at less, the other one sells. -/
def choosyBatch : PairBatch 9 where
  a := 2
  b := 3
  sellA := [sampleOrder 2 3 100 100, sampleOrder 2 3 100 0]
  sellB := []
  sellsA := by decide
  sellsB := by decide

def steady : Market where
  feeBps := 10
  maxFeeBps := 30
  ab := some ⟨single [], 190, 190⟩
  ba := none
  simulate := fun _ _ => .ok ⟨[⟨2, 0, 0⟩, ⟨3, 95, 95⟩], []⟩

theorem dropped_below_limit_sample :
    ∃ p, solve steady choosyBatch = .done p ∧
      (sampleOrder 2 3 100 100 ∈ allOrders p.1.batch ↔
        100 ≤ buyAmount p.1.batch p.1.clearing (sampleOrder 2 3 100 100)) := by
  obtain ⟨p, hp⟩ := Result.eq_done
    (show (solve steady choosyBatch).value?.isSome = true by decide +kernel)
  refine ⟨p, hp, dropped_below_limit steady choosyBatch hp (fun s hs => ?_) (by decide)⟩
  cases hs
  decide +kernel

/-- A seller of token 2 who wants a price of one, and a seller of token 3. -/
def opposedBatch : PairBatch 9 where
  a := 2
  b := 3
  sellA := [sampleOrder 2 3 100 100]
  sellB := [sampleOrder 3 2 300 0]
  sellsA := by decide
  sellsB := by decide

/-- The first guess is a price of 95 / 100, and 300 are held against 315, then 300, owed. -/
def improving : Market where
  feeBps := 10
  maxFeeBps := 30
  ab := some ⟨single [], 95, 95⟩
  ba := some ⟨single [], 300, 300⟩
  simulate := fun k _ => .ok ⟨[⟨2, 300, if k = 0 then 315 else 300⟩, ⟨3, 0, 0⟩], []⟩

/-- The seller of token 2 is dropped at 95 / 100, and the batch clears at the price of
one that it asked for. -/
theorem dropped_within_limit :
    ¬ ∀ (m : Market) (initial : PairBatch 9) (p : Solved 9 × List Query),
      solve m initial = .done p → ∀ o ∈ allOrders initial,
        (o ∈ allOrders p.1.batch ↔ o.minBuyAmount ≤ buyAmount p.1.batch p.1.clearing o) := by
  intro hclaim
  obtain ⟨p, hp⟩ := Result.eq_done
    (show (solve improving opposedBatch).value?.isSome = true by decide +kernel)
  have hin := hclaim _ _ p hp (sampleOrder 2 3 100 100) (by decide)
  have hvalue : (solve improving opposedBatch).value?.map (fun p =>
      (decide (sampleOrder 2 3 100 100 ∈ allOrders p.1.batch),
        buyAmount p.1.batch p.1.clearing (sampleOrder 2 3 100 100))) = some (false, 100) := by
    decide +kernel
  rw [hp, Result.value?, Option.map_some] at hvalue
  simp only [Option.some.injEq, Prod.mk.injEq, decide_eq_false_iff_not] at hvalue
  obtain ⟨hout, hamount⟩ := hvalue
  rw [hamount] at hin
  exact hout (hin.mpr (by decide))

end Solver

end Ordo
