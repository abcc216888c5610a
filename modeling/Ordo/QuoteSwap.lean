import Mathlib.Tactic.Linarith
import Ordo.BestOf
import Ordo.Chain
import Ordo.Protect

/-!
# The route a quote is for

`quoteSwap` prices every candidate and keeps the best.  With ether in, each is priced by
`quote`, which does not take the route fee; with a token in, by a simulated `swap` from the
sender, which does; and where the sender cannot make the swap, by `quote` again.

* `bestRoute_token` — with a token in the best route is kept, in either way;
* `quoteSwap_picks_iff` — with ether in the best so far is kept net of the fee and the next
  one is compared gross, so that a worse one may take its place.
-/

namespace Ordo

namespace QuoteSwap

/-- The arguments of the error that `quote` always reverts with. -/
structure QuoteResult where
  amountOut : Nat
  reclaimProfit : Nat
  reclaimFailure : Bytes

structure Quote where
  amountOut : Nat
  profit : Nat
  failed : Bool

def decodeQuote (d : QuoteResult) : Quote :=
  ⟨d.amountOut, d.reclaimProfit, d.reclaimFailure ≠ []⟩

/-- What an `eth_call` of `quote` comes to: it should not return, and what it throws may
have the error in it. -/
inductive Reply where
  | returned
  | threw (error : Option QuoteResult)

def quoteCall : Reply → Option Quote
  | .returned => none
  | .threw error => error.map decodeQuote

/-- A call of a simulated block, with the output that its return data decodes to. -/
structure SimCall where
  status : Option String
  returnData : Option Nat

/-- A route, and what comes of pricing it in each way. -/
structure Candidate (Route : Type) where
  route : Route
  fromValue : Reply
  calls : List SimCall
  fromContract : Reply

structure SwapRequest where
  tokenIn : Address
  tokenOut : Address
  amountIn : Int
  nativeOut : Bool
  sender : Option Address

section Request

variable (WETH : Address)

def isEther (a : Address) : Bool := a = WETH ∨ a = NATIVE

def asWeth (a : Address) : Address := if isEther WETH a then WETH else a

def etherIn (req : SwapRequest) : Bool := asWeth WETH req.tokenIn = WETH

/-- What is wrong with a request. -/
def check (req : SwapRequest) : Except RpcError Unit :=
  let tokenIn := asWeth WETH req.tokenIn
  let tokenOut := asWeth WETH req.tokenOut
  if tokenIn = tokenOut then
    .error { code := -32602, message := "ordo_quoteSwap: tokenIn and tokenOut are the same" }
  else if req.amountIn ≤ 0 then
    .error { code := -32602, message := "ordo_quoteSwap: amountIn must be positive" }
  else if req.nativeOut ∧ tokenOut ≠ WETH then
    .error
      { code := -32602
        message := "ordo_quoteSwap: nativeOut requires tokenOut to be ETH/WETH" }
  else if tokenIn ≠ WETH ∧ req.sender.isNone then
    .error
      { code := -32602
        message := "ordo_quoteSwap: token-in swaps need `from` (the sender) to simulate" }
  else .ok ()

end Request

section Price

variable {Route : Type} (routeFeeBps : Nat) (c : Candidate Route)

/-- `quote` is the gross output and `swap` is net already: only a number that came from
`quote` is netted, or the fee is taken twice. -/
def net (out : Int) (fromQuote : Bool) : Int :=
  if fromQuote ∧ 0 < routeFeeBps then out - (out * routeFeeBps).tdiv 10000 else out

/-- An output that is one. -/
def positive (out : Nat) : Option Int := if 0 < out then some out else none

def quotedOut (reply : Reply) : Option Int := (quoteCall reply).bind fun q => positive q.amountOut

/-- The output of the swap, which comes after the approval. -/
def simulatedOut (calls : List SimCall) : Option Int :=
  match calls[1]? with
  | some s => if s.status = some "0x1" then s.returnData.bind positive else none
  | none => none

/-- How the candidates of a request are priced. -/
inductive Mode where
  | value
  | sender
  | contract
  deriving DecidableEq

def Mode.price : Mode → Candidate Route → Option Int
  | .value => fun c => quotedOut c.fromValue
  | .sender => fun c => simulatedOut c.calls
  | .contract => fun c => quotedOut c.fromContract

/-- What a price is net of the route fee. -/
def Mode.netted : Mode → Int → Int
  | .sender => fun out => net routeFeeBps out false
  | _ => fun out => net routeFeeBps out true

variable (WETH : Address) (req : SwapRequest) (routes : List (Candidate Route))

/-- The sender is asked first; if no route can be simulated, the contract. -/
def mode : Mode :=
  if etherIn WETH req then .value
  else if (BestOf.best (Mode.price .sender) id routes).isSome then .sender
  else .contract

/-- Price every candidate, keep the best. -/
def bestRoute (etherIn : Bool) : Except RpcError (Candidate Route × Int) :=
  if etherIn then
    match BestOf.best (Mode.price .value) (net routeFeeBps · true) routes with
    | some best => .ok best
    | none =>
        .error
          { code := -32000
            message := "ordo_quoteSwap: no route returns anything for this amount" }
  else
    match BestOf.best (Mode.price .sender) id routes with
    | some best => .ok best
    | none =>
        match BestOf.best (Mode.price .contract) id routes with
        | some best => .ok (best.1, net routeFeeBps best.2 true)
        | none =>
            .error
              { code := -32000
                message := "ordo_quoteSwap: the swap cannot be priced — " ++
                  "no route returns anything for this amount" }

/-- The route, and the output that is reported for it. -/
def quoteSwap : Except RpcError (Candidate Route × Int) :=
  match check WETH req with
  | .error e => .error e
  | .ok () =>
      if routes = [] then
        .error
          { code := -32000
            message := "ordo_quoteSwap: no route — this pair has no Uniswap V3 or V4 pool, " ++
              "directly or through ETH or USDG" }
      else bestRoute routeFeeBps routes (etherIn WETH req)

/-- The route is one of the candidates, no other is priced higher, and its price net of the
fee is reported; without a route, none could be priced. -/
def Picks (m : Mode) : Except RpcError (Candidate Route × Int) → Prop
  | .ok (c, out) => c ∈ routes ∧ ∃ g, m.price c = some g ∧ out = m.netted routeFeeBps g ∧
      BestOf.Below m.price routes g
  | .error _ => ∀ c ∈ routes, m.price c = none

end Price

section Picks

variable {Route : Type} {WETH : Address} {req : SwapRequest} {routeFeeBps : Nat}
  {routes : List (Candidate Route)}

theorem positive_eq_some {out : Nat} {g : Int} (h : positive out = some g) : 0 < g := by
  unfold positive at h
  split at h
  next hpos =>
    cases h
    exact Int.natCast_pos.mpr hpos
  next => cases h

theorem quotedOut_pos {reply : Reply} {g : Int} (h : quotedOut reply = some g) : 0 < g := by
  obtain ⟨q, -, hq⟩ := Option.bind_eq_some_iff.mp h
  exact positive_eq_some hq

/-- The fee is not below zero. -/
theorem net_le {out : Int} (h : 0 ≤ out) (fromQuote : Bool) :
    net routeFeeBps out fromQuote ≤ out := by
  unfold net
  split
  · have hfee : 0 ≤ (out * routeFeeBps).tdiv 10000 :=
      Int.tdiv_nonneg (mul_nonneg h (Int.natCast_nonneg _)) (by decide)
    linarith
  · exact le_refl out

/-- What is kept of the prices themselves, each netted once it is kept. -/
theorem picks_of_best {m : Mode} {best : Candidate Route × Int}
    (h : BestOf.best m.price id routes = some best) :
    Picks routeFeeBps routes m (.ok (best.1, m.netted routeFeeBps best.2)) := by
  obtain ⟨g, hg, hstored, hbelow⟩ := BestOf.best_greatest h
  exact ⟨BestOf.best_mem h, g, hg, by rw [hstored], hbelow⟩

theorem picks_of_none {m : Mode} {figure : Int → Int} (e : RpcError)
    (h : BestOf.best m.price figure routes = none) : Picks routeFeeBps routes m (.error e) :=
  BestOf.best_eq_none_iff.mp h

/-- **With a token in** the best route is kept, whoever it is priced for. -/
theorem bestRoute_token (htoken : etherIn WETH req = false) :
    Picks routeFeeBps routes (mode WETH req routes)
      (bestRoute routeFeeBps routes false) := by
  rw [mode, htoken, bestRoute, if_neg Bool.false_ne_true, if_neg Bool.false_ne_true]
  cases hsender : BestOf.best (Mode.price .sender) id routes with
  | some best => exact picks_of_best hsender
  | none =>
      cases hcontract : BestOf.best (Mode.price .contract) id routes with
      | some best => exact picks_of_best hcontract
      | none => exact picks_of_none _ hcontract

/-- **With ether in** it is where after a best one nothing comes that is above its net. -/
theorem bestRoute_ether :
    Picks routeFeeBps routes .value (bestRoute routeFeeBps routes true) ↔
      ((∃ c ∈ routes, Mode.price .value c ≠ none) →
        BestOf.Leads (Mode.price .value) (net routeFeeBps · true) routes) := by
  rw [bestRoute, if_pos rfl]
  cases hbest : BestOf.best (Mode.price .value) (net routeFeeBps · true) routes with
  | none =>
      refine iff_of_true (picks_of_none _ hbest) ?_
      rintro ⟨c, hc, hsome⟩
      exact absurd (BestOf.best_eq_none_iff.mp hbest c hc) hsome
  | some best =>
      have hfigure : ∀ c ∈ routes, ∀ g, Mode.price .value c = some g →
          net routeFeeBps g true ≤ g := fun c _ g hg => net_le (quotedOut_pos hg).le true
      obtain ⟨pre, g, post, -, hg, hstored, -⟩ := BestOf.best_eq_some hbest
      have hpriced : ∃ c ∈ routes, Mode.price .value c ≠ none :=
        ⟨best.1, BestOf.best_mem hbest, by rw [hg]; exact Option.some_ne_none g⟩
      rw [imp_iff_right hpriced, ← BestOf.best_greatest_iff hfigure hbest]
      constructor
      · rintro ⟨-, g', hg', -, hbelow⟩
        exact ⟨g', hg', hbelow⟩
      · rintro ⟨g', hg', hbelow⟩
        rw [hg] at hg'
        cases hg'
        exact ⟨BestOf.best_mem hbest, g, hg, hstored, hbelow⟩

/-- A request that is in order is priced. -/
theorem quoteSwap_of_check (hreq : check WETH req = .ok ()) (hroutes : routes ≠ []) :
    quoteSwap routeFeeBps WETH req routes =
      bestRoute routeFeeBps routes (etherIn WETH req) := by
  rw [quoteSwap, hreq, if_neg hroutes]

end Picks

/-- **The route of a quote.**  For a request that is in order, the route is the best of its
candidates, with its output net of the fee taken once, and there is none only where no
candidate could be priced, exactly when the token comes from a sender or, with ether in,
after a candidate with the greatest output nothing comes that is above that output net of
the fee. -/
theorem quoteSwap_picks_iff {Route : Type} {WETH : Address} {req : SwapRequest}
    (hreq : check WETH req = .ok ()) (routeFeeBps : Nat)
    (routes : List (Candidate Route)) :
    Picks routeFeeBps routes (mode WETH req routes)
        (quoteSwap routeFeeBps WETH req routes) ↔
      (etherIn WETH req → (∃ c ∈ routes, Mode.price .value c ≠ none) →
        BestOf.Leads (Mode.price .value) (net routeFeeBps · true) routes) := by
  by_cases hroutes : routes = []
  · subst hroutes
    refine iff_of_true ?_ fun _ => by simp
    rw [quoteSwap, hreq]
    simp [Picks]
  · rw [quoteSwap_of_check hreq hroutes]
    cases hether : etherIn WETH req with
    | false => exact iff_of_true (bestRoute_token hether) Bool.noConfusion
    | true =>
        rw [mode, hether, if_pos rfl, imp_iff_right rfl]
        exact bestRoute_ether

section Sample

/-- A route that is quoted at an output, and is not simulated. -/
def quotes (route amountOut : Nat) : Candidate Nat :=
  ⟨route, .threw (some ⟨amountOut, 0, []⟩), [], .returned⟩

/-- Ten units of ether for token 2. -/
def etherRequest : SwapRequest := ⟨9, 2, 10, false, none⟩

/-- With ether in the better of two routes is kept when it comes last. -/
theorem quoteSwap_picks_iff_sample :
    Picks 30 [quotes 1 999000, quotes 2 1000000]
      (mode 9 etherRequest [quotes 1 999000, quotes 2 1000000])
      (quoteSwap 30 9 etherRequest [quotes 1 999000, quotes 2 1000000]) := by
  have hcheck : check 9 etherRequest = .ok () := by decide
  refine (quoteSwap_picks_iff hcheck 30 _).mpr fun _ _ => ?_
  refine ⟨[quotes 1 999000], quotes 2 1000000, 1000000, [], rfl, rfl, ?_, by simp [BestOf.Below]⟩
  intro c hc g hg
  simp only [List.mem_cons, List.not_mem_nil, or_false] at hc
  rcases hc with rfl | rfl
  · cases hg
    decide
  · cases hg
    decide

/-- The second route returns a thousandth less, which is above what the first one returns
less three thousandths of it. -/
theorem worse_route_is_kept :
    ¬ ∀ (routeFeeBps : Nat) (req : SwapRequest) (routes : List (Candidate Nat)),
      check 9 req = .ok () →
        Picks routeFeeBps routes (mode 9 req routes) (quoteSwap routeFeeBps 9 req routes) := by
  intro hclaim
  have hpicks := hclaim 30 etherRequest [quotes 1 1000000, quotes 2 999000] (by decide)
  have hkept : quoteSwap 30 9 etherRequest [quotes 1 1000000, quotes 2 999000] =
      .ok (quotes 2 999000, 996003) := rfl
  rw [hkept] at hpicks
  obtain ⟨-, g, hg, -, hbelow⟩ := hpicks
  cases hg
  exact absurd (hbelow (quotes 1 1000000) List.mem_cons_self 1000000 rfl) (by decide)

end Sample

end QuoteSwap

end Ordo
