import Ordo.Hex
import Ordo.Legs

/-!
# Round trips out of ether and back

When a V4 pool moves, the searcher prices every round trip between it and a V3 tier of the
same pair: out on V4 and back on V3, and the other way round.  A leg says which venue it
trades on, and the contract that runs it reads its two currencies out of it; ether is named
as WETH between legs.

`complete_iff` says when `cyclesForV4` answers with both round trips of every tier.
-/

namespace Ordo

namespace CrossCycles

open Legs

def WETH : Address := 0x0bd7d308f8e1639fab988df18a8011f41eacad73

/-- A fee tier of V3 is a `uint24`. -/
abbrev FeeTier := Fin (2 ^ 24)

/-! ### Packed paths -/

def EMPTY_KEY : PoolKey := ⟨NATIVE, NATIVE, 0, 0, NATIVE⟩

def v3Leg (tokenIn tokenOut : Address) (fee : FeeTier) : Leg where
  venue := 0
  path := packed 20 tokenIn ++ (packed 3 fee ++ packed 20 tokenOut)
  key := EMPTY_KEY
  zeroForOne := false

/-- The fee that a path of one hop names. -/
def feeOf (path : Bytes) : Nat := word ((path.drop 20).take 3)

section V3

variable {tokenIn tokenOut : Address} {fee : FeeTier}

theorem length_path : (v3Leg tokenIn tokenOut fee).path.length = 43 := by
  unfold v3Leg
  simp only [List.length_append, length_packed]

theorem first_path : first (v3Leg tokenIn tokenOut fee).path = .ok tokenIn := by
  unfold first
  rw [length_path, if_neg (by decide)]
  unfold v3Leg
  rw [List.take_left' length_packed, addressOf_packed]

theorem last_path : last (v3Leg tokenIn tokenOut fee).path = .ok tokenOut := by
  unfold last
  rw [length_path, if_neg (by decide)]
  unfold v3Leg
  rw [← List.append_assoc, List.drop_left' (by simp [length_packed]), addressOf_packed]

theorem feeOf_path : feeOf (v3Leg tokenIn tokenOut fee).path = fee := by
  unfold feeOf v3Leg
  rw [List.drop_left' length_packed, List.take_left' length_packed, word_packed]
  exact Nat.mod_eq_of_lt fee.isLt

end V3

/-! ### Cycles -/

def holdsEther (key : PoolKey) : Bool :=
  decide (key.currency0 = NATIVE) || decide (key.currency1 = NATIVE)

/-- `tokenIn` is named as an ERC-20; a pool that holds ether spells it as address zero. -/
def v4Leg (key : PoolKey) (tokenIn weth : Address) : Leg :=
  let cIn := if holdsEther key = true ∧ tokenIn = weth then NATIVE else tokenIn
  { venue := 1, path := [], key, zeroForOne := decide (key.currency0 = cIn) }

/-- The other side of a V4 pool from `token`, named as an ERC-20 rather than as ether. -/
def otherSide (key : PoolKey) (token weth : Address) : Address :=
  let a := if key.currency0 = NATIVE then weth else key.currency0
  let b := if key.currency1 = NATIVE then weth else key.currency1
  if a = token then b else a

/-- A round trip out of ether and back, across two venues. -/
structure CrossCycle where
  legs : Leg × Leg
  /-- For logs: which way round, and through what. -/
  label : Text
  token : Address

/-- The beginning of an address, as a label shows it. -/
def shown (token : Address) : Text :=
  ("0x".toList ++ Hex.padStart 40 (Hex.numeral token)).take 8

/-- Out on V4 and back on V3. -/
def buyOnV4 (key : PoolKey) (token : Address) (fee : FeeTier) : CrossCycle where
  legs := (v4Leg key WETH WETH, v3Leg token WETH fee)
  label := "WETH >v4> ".toList ++ shown token ++ " >v3:".toList ++ Nat.toDigits 10 fee ++
    "> WETH".toList
  token := token

/-- Out on V3 and back on V4. -/
def sellOnV4 (key : PoolKey) (token : Address) (fee : FeeTier) : CrossCycle where
  legs := (v3Leg WETH token fee, v4Leg key token WETH)
  label := "WETH >v3:".toList ++ Nat.toDigits 10 fee ++ "> ".toList ++ shown token ++
    " >v4> WETH".toList
  token := token

def cyclesForV4 (key : PoolKey) (tiers : List FeeTier) : List CrossCycle :=
  let a := if holdsEther key then WETH else key.currency0
  let token := otherSide key a WETH
  if holdsEther key = false ∧ key.currency0 ≠ WETH ∧ key.currency1 ≠ WETH then []
  else if token = WETH then []
  else tiers.flatMap fun fee => [buyOnV4 key token fee, sellOnV4 key token fee]

/-! ### What legs trade -/

/-- Ether is named as WETH. -/
def erc20 (c : Address) : Address := if c = NATIVE then WETH else c

/-- A leg turns one currency into another, as the contract reads it. -/
structure Trades (l : Leg) (src dst : Address) : Prop where
  input : (inputOf l).map (fun i => erc20 i.1) = .ok src
  output : (outputOf l).map erc20 = .ok dst

def OnV3 (fee : FeeTier) (l : Leg) : Prop := l.venue = 0 ∧ feeOf l.path = fee

def OnV4 (key : PoolKey) (l : Leg) : Prop := l.venue = 1 ∧ l.key = key

/-- A cycle that leaves ether for a token by its first leg, and comes back by its second. -/
structure RoundTrip (first second : Leg → Prop) (c : CrossCycle) : Prop where
  out : first c.legs.1
  back : second c.legs.2
  token : c.token ≠ WETH
  buys : Trades c.legs.1 WETH c.token
  sells : Trades c.legs.2 c.token WETH

/-- Two cycles for every tier, one each way round, and no others. -/
def Complete (key : PoolKey) (tiers : List FeeTier) : Prop :=
  ∃ pairs : List (CrossCycle × CrossCycle),
    cyclesForV4 key tiers = pairs.flatMap (fun p => [p.1, p.2]) ∧
    List.Forall₂ (fun fee p => RoundTrip (OnV4 key) (OnV3 fee) p.1 ∧
      RoundTrip (OnV3 fee) (OnV4 key) p.2) tiers pairs

/-- A pool with ether on a side. -/
def HasEther (key : PoolKey) : Prop := erc20 key.currency0 = WETH ∨ erc20 key.currency1 = WETH

section Cycles

variable {key : PoolKey} {token : Address} {fee : FeeTier} {tiers : List FeeTier}

theorem native_ne_weth : NATIVE ≠ WETH := by decide

theorem erc20_eq_weth {c : Address} : erc20 c = WETH ↔ c = NATIVE ∨ c = WETH := by
  unfold erc20
  split
  next h => simp [h]
  next h => simp [h]

theorem v3Leg_trades {src dst : Address} (hsrc : erc20 src = src) (hdst : erc20 dst = dst) :
    Trades (v3Leg src dst fee) src dst where
  input := by
    have h : inputOf (v3Leg src dst fee) = .ok (src, false) := by
      refine (if_pos rfl).trans ?_
      rw [first_path]
      rfl
    rw [h]
    exact congrArg Except.ok hsrc
  output := by
    have h : outputOf (v3Leg src dst fee) = .ok dst := (if_pos rfl).trans last_path
    rw [h]
    exact congrArg Except.ok hdst

/-- A pool between ether and `token`, where WETH, if it is there, is the first currency. -/
structure EtherPair (key : PoolKey) (token : Address) : Prop where
  ne_native : token ≠ NATIVE
  ne_weth : token ≠ WETH
  sides : (key.currency0 = NATIVE ∨ key.currency0 = WETH) ∧ key.currency1 = token ∨
    key.currency0 = token ∧ key.currency1 = NATIVE

theorem EtherPair.erc20_token (h : EtherPair key token) : erc20 token = token :=
  if_neg h.ne_native

/-- What `cyclesForV4` takes for the token of a pool. -/
def tokenOf (key : PoolKey) : Address :=
  otherSide key (if holdsEther key then WETH else key.currency0) WETH

theorem EtherPair.tokenOf_eq (h : EtherPair key token) : tokenOf key = token := by
  obtain ⟨hnative, hweth, ⟨h0 | h0, h1⟩ | ⟨h0, h1⟩⟩ := h
  · simp [tokenOf, otherSide, holdsEther, h0, h1, hnative]
  · simp [tokenOf, otherSide, holdsEther, h0, h1, hnative, native_ne_weth.symm]
  · simp [tokenOf, otherSide, holdsEther, h0, h1, hnative, hweth]

/-- The V4 leg out of ether takes the side that ether is on. -/
theorem EtherPair.v4Leg_buys (h : EtherPair key token) :
    Trades (v4Leg key WETH WETH) WETH token := by
  obtain ⟨hnative, hweth, ⟨h0 | h0, h1⟩ | ⟨h0, h1⟩⟩ := h
  · constructor <;>
      simp [v4Leg, inputOf, outputOf, V4Swap.currencyIn, V4Swap.currencyOut, holdsEther, erc20,
        Except.map, h0, h1, hnative]
  · constructor <;>
      simp [v4Leg, inputOf, outputOf, V4Swap.currencyIn, V4Swap.currencyOut, holdsEther, erc20,
        Except.map, h0, h1, hnative, native_ne_weth.symm]
  · constructor <;>
      simp [v4Leg, inputOf, outputOf, V4Swap.currencyIn, V4Swap.currencyOut, holdsEther, erc20,
        Except.map, h0, h1, hnative]

/-- The V4 leg back into ether takes the other side. -/
theorem EtherPair.v4Leg_sells (h : EtherPair key token) :
    Trades (v4Leg key token WETH) token WETH := by
  obtain ⟨hnative, hweth, ⟨h0 | h0, h1⟩ | ⟨h0, h1⟩⟩ := h
  · constructor <;>
      simp [v4Leg, inputOf, outputOf, V4Swap.currencyIn, V4Swap.currencyOut, holdsEther, erc20,
        Except.map, h0, h1, hnative, hweth, hnative.symm]
  · constructor <;>
      simp [v4Leg, inputOf, outputOf, V4Swap.currencyIn, V4Swap.currencyOut, holdsEther, erc20,
        Except.map, h0, h1, hnative, hweth, hweth.symm, native_ne_weth.symm]
  · constructor <;>
      simp [v4Leg, inputOf, outputOf, V4Swap.currencyIn, V4Swap.currencyOut, holdsEther, erc20,
        Except.map, h0, h1, hnative, hweth]

theorem cyclesForV4_eq (hether : HasEther key) (tiers : List FeeTier) :
    cyclesForV4 key tiers = if tokenOf key = WETH then []
      else tiers.flatMap fun fee => [buyOnV4 key (tokenOf key) fee,
        sellOnV4 key (tokenOf key) fee] := by
  unfold HasEther at hether
  rw [erc20_eq_weth, erc20_eq_weth] at hether
  have hsides : ¬ (holdsEther key = false ∧ key.currency0 ≠ WETH ∧ key.currency1 ≠ WETH) := by
    rintro ⟨hnone, h0, h1⟩
    simp only [holdsEther, Bool.or_eq_false_iff, decide_eq_false_iff_not] at hnone
    rcases hether with (h | h) | (h | h)
    · exact hnone.1 h
    · exact h0 h
    · exact hnone.2 h
    · exact h1 h
  unfold cyclesForV4 tokenOf
  rw [if_neg hsides]

/-- Of any other pool with ether, `cyclesForV4` takes WETH for the token. -/
theorem tokenOf_eq_weth
    (h : key.currency1 = WETH ∨ erc20 key.currency0 = WETH ∧ erc20 key.currency1 = WETH) :
    tokenOf key = WETH := by
  simp only [erc20_eq_weth] at h
  by_cases h0 : key.currency0 = NATIVE
  · rcases h with h1 | ⟨-, h1 | h1⟩
    · simp [tokenOf, otherSide, holdsEther, h0, h1]
    · simp [tokenOf, otherSide, holdsEther, h0, h1]
    · simp [tokenOf, otherSide, holdsEther, h0, h1]
  · rcases h with h1 | ⟨h0' | h0', h1 | h1⟩
    · simp [tokenOf, otherSide, holdsEther, h0, h1, native_ne_weth.symm]
    · exact absurd h0' h0
    · exact absurd h0' h0
    · simp [tokenOf, otherSide, holdsEther, h0', h1]
    · simp [tokenOf, otherSide, holdsEther, h0', h1, native_ne_weth.symm]

theorem etherPair_of (hether : HasEther key) (h1 : key.currency1 ≠ WETH)
    (hboth : ¬ (erc20 key.currency0 = WETH ∧ erc20 key.currency1 = WETH)) :
    ∃ token, EtherPair key token := by
  unfold HasEther at hether
  simp only [erc20_eq_weth] at hether hboth
  rcases hether with h0 | hnative | hweth
  · have hplain : ¬ (key.currency1 = NATIVE ∨ key.currency1 = WETH) := fun h => hboth ⟨h0, h⟩
    exact ⟨key.currency1, fun h => hplain (.inl h), h1, .inl ⟨h0, rfl⟩⟩
  · have hplain : ¬ (key.currency0 = NATIVE ∨ key.currency0 = WETH) :=
      fun h => hboth ⟨h, .inl hnative⟩
    exact ⟨key.currency0, fun h => hplain (.inl h), fun h => hplain (.inr h), .inr ⟨rfl, hnative⟩⟩
  · exact absurd hweth h1

/-- Both round trips of every tier, through the token of the pair. -/
theorem EtherPair.complete (h : EtherPair key token) (hether : HasEther key) :
    Complete key tiers := by
  have hplain : erc20 token = token := h.erc20_token
  have hweth : erc20 WETH = WETH := by decide
  refine ⟨tiers.map fun fee => (buyOnV4 key token fee, sellOnV4 key token fee), ?_, ?_⟩
  · rw [cyclesForV4_eq hether, h.tokenOf_eq, if_neg h.ne_weth, List.flatMap_map]
  · rw [List.forall₂_map_right_iff, List.forall₂_same]
    intro fee _
    constructor
    · exact ⟨⟨rfl, rfl⟩, ⟨rfl, feeOf_path⟩, h.ne_weth, h.v4Leg_buys, v3Leg_trades hplain hweth⟩
    · exact ⟨⟨rfl, feeOf_path⟩, ⟨rfl, rfl⟩, h.ne_weth, v3Leg_trades hweth hplain, h.v4Leg_sells⟩

/-- **Every round trip of a pool.**  The cycles of a V4 pool with ether are both round trips of
every tier, exactly when there are no tiers, or WETH is not the second currency and the pool
has a token beside ether. -/
theorem complete_iff (key : PoolKey) (tiers : List FeeTier) (hether : HasEther key) :
    Complete key tiers ↔ tiers = [] ∨ key.currency1 ≠ WETH ∧
      ¬ (erc20 key.currency0 = WETH ∧ erc20 key.currency1 = WETH) := by
  constructor
  · rintro ⟨pairs, hcycles, hpairs⟩
    by_cases hgood : key.currency1 ≠ WETH ∧
        ¬ (erc20 key.currency0 = WETH ∧ erc20 key.currency1 = WETH)
    · exact .inr hgood
    · left
      have hnone : tokenOf key = WETH := tokenOf_eq_weth (by tauto)
      rw [cyclesForV4_eq hether, if_pos hnone] at hcycles
      cases hpairs with
      | nil => rfl
      | cons => simp at hcycles
  · rintro (rfl | ⟨h1, hboth⟩)
    · refine ⟨[], ?_, .nil⟩
      rw [cyclesForV4_eq hether]
      split <;> rfl
    · obtain ⟨token, hpair⟩ := etherPair_of hether h1 hboth
      exact hpair.complete hether

/-- A token at the address of one, against WETH. -/
def tokenBelowWeth : PoolKey := ⟨1, WETH, 500, 10, NATIVE⟩

theorem complete_sample : Complete ⟨NATIVE, 1, 500, 10, NATIVE⟩ [500, 3000] :=
  (complete_iff _ _ (.inl (by decide))).mpr (.inr (by decide))

/-- A pool whose token sorts below WETH gets no cycle at all. -/
theorem tokenBelowWeth_dropped :
    HasEther tokenBelowWeth ∧ ¬ Complete tokenBelowWeth [500] := by
  refine ⟨.inr (by decide), ?_⟩
  rintro ⟨pairs, hcycles, hpairs⟩
  have hnone : cyclesForV4 tokenBelowWeth [500] = [] := by decide
  rw [hnone] at hcycles
  cases hpairs with
  | cons => simp at hcycles

end Cycles

end CrossCycles

end Ordo
