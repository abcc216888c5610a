import Ordo.Liquidity
import Ordo.StakeFarm

/-!
# Stake vaults as a zap uses them

Every coin is a ledger of who holds how much.  A vault takes both sides of a deposit into its
position, mints shares and refunds the rest; it burns shares and pays out the matching slice.
Its farm keeps the shares that are staked.  The two generations differ in the coin of the
ether side: the first keeps it as WETH and refunds ether, the second takes and pays ether.

What the pools and the position managers do is a parameter, and so is a harvest of the vault's
fees.  An allowance that is missing makes a call revert, and is left out.

What a zap holds is its `purse`; a lemma beside each operation says what it does to the purse.
-/

namespace Ordo

namespace StakeZap

open Stake V4Liquidity

/-! ### Coins and the world -/

inductive Coin where
  | eth
  | erc20 (token : Address)
  deriving DecidableEq

/-- Why a call on a zap, or on a vault a zap uses, reverts. -/
inductive ZapError where
  | transferFailed
  | nothingIn
  | permitFailed
  | slippage
  | swapMinOut
  | minOut (got want : Nat)
  | stake (e : StakeError)
  deriving DecidableEq

abbrev Call := Except ZapError

def revertIf (condition : Prop) [Decidable condition] (e : ZapError) : Call Unit :=
  if condition then .error e else .ok ()

/-- A call to another contract, which reverts when it gives nothing. -/
def answered {α : Type} : Option α → Call α
  | some a => .ok a
  | none => .error (.stake .reverted)

def ofStake {α : Type} : Except StakeError α → Call α
  | .ok a => .ok a
  | .error e => .error (.stake e)

/-- The farm and the share token of one vault, with what `FarmWorld` records. -/
structure Books where
  farm : StakeFarm
  shares : Shares
  received : Nat
  claimed : Address → Nat

/-- Who holds what; the stakes are numbered as the factory lists them. -/
structure World (Market : Type) where
  holds : Coin → Address → Nat
  books : Nat → Books
  market : Market

/-- A stake of the factory. -/
structure StakeSite where
  vault : Address
  farm : Address
  token : Address
  tickLower : Int
  tickUpper : Int

/-- The two generations: over V3 pools and WETH, over V4 pools and ether. -/
inductive Generation where
  | v3
  | v4
  deriving DecidableEq

/-- The zap, and what it is deployed among.  The token of a V3 stake is the side of its pool
that is not WETH. -/
structure Site where
  generation : Generation
  zap : Address
  weth : Address
  /-- Where the pools and the position managers keep their coins. -/
  venue : Address
  stakes : Nat → StakeSite
  weth_ne : weth ≠ zap
  venue_ne : venue ≠ zap
  vault_ne : ∀ i, (stakes i).vault ≠ zap
  farm_ne : ∀ i, (stakes i).farm ≠ zap
  dead_ne : (0xdead : Address) ≠ zap
  token_ne : generation = .v3 → ∀ i, (stakes i).token ≠ weth

/-- Zap 1, WETH 2, venue 3; one stake, with vault 4, farm 5 and token 6. -/
def sampleSite : Site where
  generation := .v4
  zap := 1
  weth := 2
  venue := 3
  stakes _ := ⟨4, 5, 6, -60, 60⟩
  weth_ne := by decide
  venue_ne := by decide
  vault_ne _ := by decide
  farm_ne _ := by decide
  dead_ne := by decide
  token_ne h := nomatch h

/-- A caller, or someone staked for.  What is sent to the zap itself is a donation. -/
abbrev User (site : Site) := { a : Address // a ≠ site.zap }

/-- What a zap holds: coins, and shares of each vault. -/
structure Purse where
  coin : Coin → Nat
  shares : Nat → Nat

variable {Market : Type}

def World.purse (site : Site) (w : World Market) : Purse where
  coin c := w.holds c site.zap
  shares i := (w.books i).shares.balanceOf site.zap

/-- What an exact-input swap spends of its input, and what comes out. -/
structure Fill (amountIn : Nat) where
  spent : Nat
  out : Nat
  within : spent ≤ amountIn

/-- The pools, the position managers and the harvests.  `none` is a revert. -/
structure Dex (site : Site) (Market : Type) where
  /-- An exact-input swap of ether for the token of a stake, or of the token for ether, at
  whatever price it takes. -/
  swap : Market → Nat → Bool → (amountIn : Nat) → Option (Fill amountIn × Market)
  /-- The price and the tick of the pool of a stake. -/
  slot0 : Market → Nat → Nat × Int
  /-- The liquidity of a vault's position. -/
  liquidity : Market → Nat → Nat
  /-- A V3 position is opened or increased with at most as much of both sides: the liquidity that
  is added, and what it takes. -/
  increase : Market → Nat → Nat → Nat → Option ((Nat × Nat × Nat) × Market)
  /-- A V4 position is opened or increased by a liquidity, for at most as much of both sides:
  what it takes. -/
  modify : Market → Nat → Nat → Nat → Nat → Option ((Nat × Nat) × Market)
  /-- Liquidity is removed from the position, for at least as much of both sides. -/
  decrease : Market → Nat → Nat → Nat → Nat → Option ((Nat × Nat) × Market)
  /-- `harvest` of a vault. -/
  harvest : Nat → Nat → World Market → Call (World Market)
  harvest_purse : ∀ {now i : Nat} {w w' : World Market},
    harvest now i w = .ok w' → w'.purse site = w.purse site

section Lift

theorem revertIf_ok {c : Prop} [Decidable c] {e : ZapError} {u : Unit} :
    revertIf c e = .ok u ↔ ¬ c := by
  unfold revertIf
  split <;> simp_all

theorem answered_ok {α : Type} {o : Option α} {a : α} : answered o = .ok a ↔ o = some a := by
  cases o <;> simp [answered]

theorem ofStake_ok {α : Type} {x : Except StakeError α} {a : α} :
    ofStake x = .ok a ↔ x = .ok a := by
  cases x <;> simp [ofStake]

end Lift

/-! ### Coins change hands -/

namespace World

variable (w : World Market)

def send (c : Coin) (src dst : Address) (amount : Nat) : Call (World Market) :=
  if w.holds c src < amount then .error .transferFailed
  else .ok { w with holds := Function.update w.holds c (moved (w.holds c) src dst amount) }

/-- Nothing is sent when there is nothing to send. -/
def sendAny (c : Coin) (src dst : Address) (amount : Nat) : Call (World Market) :=
  if amount = 0 then .ok w else w.send c src dst amount

/-- An account's WETH is set. -/
def setWeth (site : Site) (a : Address) (n : Nat) : World Market :=
  let weth := Coin.erc20 site.weth
  { w with holds := Function.update w.holds weth (Function.update (w.holds weth) a n) }

/-- `weth.deposit{value: amount}()` -/
def wrap (site : Site) (a : Address) (amount : Nat) : Call (World Market) := do
  let w ← w.send .eth a site.weth amount
  return w.setWeth site a (w.holds (.erc20 site.weth) a + amount)

/-- `weth.withdraw(amount)` -/
def unwrap (site : Site) (a : Address) (amount : Nat) : Call (World Market) := do
  revertIf (w.holds (.erc20 site.weth) a < amount) (.stake .reverted)
  (w.setWeth site a (w.holds (.erc20 site.weth) a - amount)).send .eth site.weth a amount

/-- WETH is unwrapped and paid as ether. -/
def payWeth (site : Site) (src dst : Address) (amount : Nat) : Call (World Market) :=
  if amount = 0 then .ok w
  else do
    let w ← w.unwrap site src amount
    w.send .eth src dst amount

end World

section Purses

variable {site : Site} {w w' : World Market} {c : Coin} {cs : List Coin} {src dst : Address}
  {amount : Nat}

/-- The coins `cs` may have changed in a purse, and no other. -/
def Touches (cs : List Coin) (p q : Purse) : Prop := ∀ c, c ∉ cs → q.coin c = p.coin c

theorem Touches.refl (p : Purse) : Touches cs p p := fun _ _ => rfl

theorem Touches.trans {p q r : Purse} (hpq : Touches cs p q) (hqr : Touches cs q r) :
    Touches cs p r := fun c hc => (hqr c hc).trans (hpq c hc)

theorem send_ok : w.send c src dst amount = .ok w' ↔ amount ≤ w.holds c src ∧
    w' = { w with holds := Function.update w.holds c (moved (w.holds c) src dst amount) } := by
  unfold World.send
  split
  · constructor
    · intro h
      cases h
    · intro h
      omega
  · constructor
    · intro h
      cases h
      exact ⟨by omega, rfl⟩
    · rintro ⟨-, rfl⟩
      rfl

/-- A change in the ledger of one coin touches that coin. -/
theorem touches_setLedger (hc : c ∈ cs) (f : Address → Nat) :
    Touches cs (w.purse site)
      (World.purse site { w with holds := Function.update w.holds c f }) := by
  intro d hd
  have hne : d ≠ c := fun h => hd (h ▸ hc)
  show Function.update w.holds c f d site.zap = w.holds d site.zap
  rw [Function.update_of_ne hne]

/-- An operation on coins: it touches the coins `cs` of a purse, and its shares stay. -/
structure Spends (site : Site) (cs : List Coin) (w w' : World Market) : Prop where
  touches : Touches cs (w.purse site) (w'.purse site)
  shares : (w'.purse site).shares = (w.purse site).shares

theorem Spends.refl (w : World Market) : Spends site cs w w := ⟨Touches.refl _, rfl⟩

theorem Spends.trans {w₁ w₂ w₃ : World Market} (h : Spends site cs w₁ w₂)
    (h' : Spends site cs w₂ w₃) : Spends site cs w₁ w₃ :=
  ⟨h.touches.trans h'.touches, h'.shares.trans h.shares⟩

/-- Whether a coin that goes from one account to another may touch the coins `cs`. -/
def Aside (site : Site) (cs : List Coin) (c : Coin) (src dst : Address) : Prop :=
  c ∈ cs ∨ src ≠ site.zap ∧ dst ≠ site.zap

theorem spends_send (hc : Aside site cs c src dst) (h : w.send c src dst amount = .ok w') :
    Spends site cs w w' := by
  obtain ⟨-, rfl⟩ := send_ok.mp h
  rcases hc with hc | ⟨hsrc, hdst⟩
  · exact ⟨touches_setLedger hc _, rfl⟩
  · refine ⟨?_, rfl⟩
    intro d _
    show Function.update w.holds c _ d site.zap = w.holds d site.zap
    by_cases hd : d = c
    · rw [hd, Function.update_self, moved_other hsrc.symm hdst.symm]
    · rw [Function.update_of_ne hd]

theorem spends_sendAny (hc : Aside site cs c src dst)
    (h : w.sendAny c src dst amount = .ok w') : Spends site cs w w' := by
  unfold World.sendAny at h
  split at h
  · cases h
    exact Spends.refl w
  · exact spends_send hc h

theorem spends_setWeth {a : Address} (ha : .erc20 site.weth ∈ cs ∨ a ≠ site.zap) (n : Nat) :
    Spends site cs w (w.setWeth site a n) := by
  rcases ha with hweth | ha
  · exact ⟨touches_setLedger hweth _, rfl⟩
  · refine ⟨?_, rfl⟩
    intro d _
    show Function.update w.holds (.erc20 site.weth) _ d site.zap = w.holds d site.zap
    by_cases hd : d = .erc20 site.weth
    · rw [hd, Function.update_self, Function.update_of_ne ha.symm]
    · rw [Function.update_of_ne hd]

/-- Ether and WETH of an account may be touched. -/
def Ethers (site : Site) (cs : List Coin) (a : Address) : Prop :=
  (.eth ∈ cs ∧ .erc20 site.weth ∈ cs) ∨ a ≠ site.zap

theorem spends_wrap (hsrc : Ethers site cs src) (h : w.wrap site src amount = .ok w') :
    Spends site cs w w' := by
  obtain ⟨w₁, hsend, h⟩ := bind_ok.mp h
  cases h
  rcases hsrc with ⟨heth, hweth⟩ | hsrc
  · exact (spends_send (.inl heth) hsend).trans (spends_setWeth (.inl hweth) _)
  · exact (spends_send (.inr ⟨hsrc, site.weth_ne⟩) hsend).trans (spends_setWeth (.inr hsrc) _)

theorem spends_unwrap (hsrc : Ethers site cs src) (h : w.unwrap site src amount = .ok w') :
    Spends site cs w w' := by
  obtain ⟨-, -, h⟩ := bind_ok.mp h
  rcases hsrc with ⟨heth, hweth⟩ | hsrc
  · exact (spends_setWeth (.inl hweth) _).trans (spends_send (.inl heth) h)
  · exact (spends_setWeth (.inr hsrc) _).trans (spends_send (.inr ⟨site.weth_ne, hsrc⟩) h)

theorem spends_payWeth (hsrc : Ethers site cs src) (hpay : Aside site cs .eth src dst)
    (h : w.payWeth site src dst amount = .ok w') : Spends site cs w w' := by
  unfold World.payWeth at h
  split at h
  · cases h
    exact Spends.refl w
  · obtain ⟨w₁, hunwrap, hsend⟩ := bind_ok.mp h
    exact (spends_unwrap hsrc hunwrap).trans (spends_send hpay hsend)

/-- What the zap sends leaves its purse. -/
theorem coin_send_out (hdst : dst ≠ site.zap) (h : w.send c site.zap dst amount = .ok w') :
    amount ≤ (w.purse site).coin c ∧
      (w'.purse site).coin c = (w.purse site).coin c - amount := by
  obtain ⟨hle, rfl⟩ := send_ok.mp h
  refine ⟨hle, ?_⟩
  show Function.update w.holds c _ c site.zap = _
  rw [Function.update_self, moved_src hdst.symm]
  rfl

theorem coin_send_in (hsrc : src ≠ site.zap) (h : w.send c src site.zap amount = .ok w') :
    (w'.purse site).coin c = (w.purse site).coin c + amount := by
  obtain ⟨-, rfl⟩ := send_ok.mp h
  show Function.update w.holds c _ c site.zap = _
  rw [Function.update_self, moved_dst hsrc]
  rfl

/-- A zap that sends all it holds of a coin holds none. -/
theorem coin_sendAny_all (hdst : dst ≠ site.zap)
    (h : w.sendAny c site.zap dst (w.holds c site.zap) = .ok w') : (w'.purse site).coin c = 0 := by
  unfold World.sendAny at h
  split at h
  next hzero =>
    cases h
    exact hzero
  next =>
    obtain ⟨-, hleft⟩ := coin_send_out hdst h
    rw [hleft]
    exact Nat.sub_self _

end Purses

/-! ### The farm -/

namespace World

variable (site : Site) (now i : Nat) (w : World Market)

/-- The world as the farm of a stake sees it. -/
def farmWorld : FarmWorld where
  farm := (w.books i).farm
  shares := (w.books i).shares
  weth := w.holds (.erc20 site.weth)
  received := (w.books i).received
  claimed := (w.books i).claimed

def setFarmWorld (f : FarmWorld) : World Market :=
  { w with
    holds := Function.update w.holds (.erc20 site.weth) f.weth
    books := Function.update w.books i ⟨f.farm, f.shares, f.received, f.claimed⟩ }

def farmSite : FarmSite := ⟨(site.stakes i).farm, (site.stakes i).vault, site.zap⟩

def setShares (s : Shares) : World Market :=
  { w with books := Function.update w.books i { w.books i with shares := s } }

/-- `IERC20(address(v)).approve(farm, shares)` and `stakeFor(user, shares)` -/
def stakeFor (user : Address) (shares : Nat) : Call (World Market) := do
  let w := w.setShares i ((w.books i).shares.approve site.zap (site.stakes i).farm shares)
  let f ← ofStake ((w.farmWorld site i).stakeFor (farmSite site i) now site.zap user shares)
  return w.setFarmWorld site i f

/-- `IOrdoStakeFarm(v.farm()).withdrawFor(user, shares)` -/
def withdrawFor (user : Address) (shares : Nat) : Call (World Market) := do
  let f ← ofStake ((w.farmWorld site i).withdrawFor (farmSite site i) now site.zap user shares)
  return w.setFarmWorld site i f

end World

/-! ### The vaults -/

def MIN_SHARES : Nat := 10 ^ 9

def DEAD : Address := 0xdead

section Vaults

variable (site : Site) (dex : Dex site Market) (now i : Nat) (w : World Market)

/-- The shares of a deposit that added `liq` to the `before` of the position. -/
def mintFor (dst : Address) (liq before : Nat) : Call (World Market × Nat) := do
  let s := (w.books i).shares
  if s.totalSupply = 0 then do
    revertIf (liq ≤ MIN_SHARES) (.stake .firstDepositTooSmall)
    let s ← ofStake (s.mint DEAD MIN_SHARES)
    let s ← ofStake (s.mint dst (liq - MIN_SHARES))
    return (w.setShares i s, liq - MIN_SHARES)
  else do
    let scaled ← ofStake (checked (mulU liq s.totalSupply))
    let shares ← ofStake (checked (divU scaled before))
    revertIf (shares = 0) (.stake .zeroShares)
    let s ← ofStake (s.mint dst shares)
    return (w.setShares i s, shares)

namespace VaultV4

/-- `deposit` of the second generation: ether as value, the token by allowance. -/
def deposit (sender : Address) (value tokenDesired ethMin tokenMin : Nat) (dst : Address) :
    Call (World Market × Nat) := do
  let vault := (site.stakes i).vault
  let token := Coin.erc20 (site.stakes i).token
  let w ← w.send .eth sender vault value
  revertIf (dst = 0) (.stake .zeroAddress)
  let w ← dex.harvest now i w
  let before := dex.liquidity w.market i
  let (sqrtP, tick) := dex.slot0 w.market i
  let (liq, usedEth, usedToken) ← answered
    (size (site.stakes i).tickLower (site.stakes i).tickUpper value tokenDesired sqrtP tick)
  revertIf (liq = 0) .nothingIn
  revertIf (usedEth < ethMin ∨ usedToken < tokenMin) .slippage
  let w ← w.sendAny token sender vault usedToken
  let ((takenEth, takenToken), market) ← answered (dex.modify w.market i liq usedEth usedToken)
  revertIf (w.holds .eth vault < usedEth) (.stake .reverted)
  -- The position manager takes no more than it is told.
  revertIf (usedEth < takenEth ∨ usedToken < takenToken) (.stake .reverted)
  let w ← { w with market }.send .eth vault site.venue takenEth
  let w ← w.send token vault site.venue takenToken
  let (w, shares) ← mintFor i w dst liq before
  -- The vault holds no ether between calls: what is there is the depositor's change.
  let w ← w.sendAny .eth vault sender (w.holds .eth vault)
  return (w, shares)

/-- `withdraw` of the second generation: ether arrives as ether. -/
def withdraw (sender : Address) (shares ethMin tokenMin : Nat) (dst : Address) :
    Call (World Market) := do
  let vault := (site.stakes i).vault
  let token := Coin.erc20 (site.stakes i).token
  revertIf (shares = 0) (.stake .zeroShares)
  revertIf (dst = 0) (.stake .zeroAddress)
  let w ← dex.harvest now i w
  let s := (w.books i).shares
  let liq ← ofStake (checked (divU (dex.liquidity w.market i * shares) s.totalSupply))
  let s ← ofStake (s.burn sender shares)
  let w := w.setShares i s
  if liq = 0 then return w
  else do
    let ((eth, tokens), market) ← answered (dex.decrease w.market i liq ethMin tokenMin)
    let w ← { w with market }.send .eth site.venue vault eth
    let w ← w.send token site.venue vault tokens
    let w ← w.sendAny .eth vault dst eth
    w.sendAny token vault dst tokens

end VaultV4

namespace VaultV3

/-- The WETH side of a deposit comes by allowance, or as ether that is wrapped. -/
def pullWeth (sender vault : Address) (value wethDesired : Nat) : Call (World Market) :=
  if value = 0 then w.sendAny (.erc20 site.weth) sender vault wethDesired
  else w.wrap site vault value

/-- `deposit` of the first generation: the ether side is WETH, unless ether comes as value.
Whatever the position does not take is refunded, the WETH as ether. -/
def deposit (sender : Address) (value wethDesired tokenDesired wethMin tokenMin : Nat)
    (dst : Address) : Call (World Market × Nat) := do
  let vault := (site.stakes i).vault
  let weth := Coin.erc20 site.weth
  let token := Coin.erc20 (site.stakes i).token
  let w ← w.sendAny .eth sender vault value
  revertIf (dst = 0) (.stake .zeroAddress)
  let w ← dex.harvest now i w
  let before := dex.liquidity w.market i
  let heldWeth := w.holds weth vault
  let heldToken := w.holds token vault
  let w ← pullWeth site w sender vault value wethDesired
  let wethDesired := if value = 0 then wethDesired else value
  let w ← w.sendAny token sender vault tokenDesired
  let ((liq, usedWeth, usedToken), market) ← answered
    (dex.increase w.market i wethDesired tokenDesired)
  -- The position manager takes no more than it is approved for, and no less than the minimums.
  revertIf (wethDesired < usedWeth ∨ tokenDesired < usedToken) (.stake .reverted)
  revertIf (usedWeth < wethMin ∨ usedToken < tokenMin) (.stake .reverted)
  let w ← { w with market }.send weth vault site.venue usedWeth
  let w ← w.send token vault site.venue usedToken
  let (w, shares) ← mintFor i w dst liq before
  let refundWeth ← ofStake (checked (subU (w.holds weth vault) heldWeth))
  let w ← w.payWeth site vault sender refundWeth
  let refundToken ← ofStake (checked (subU (w.holds token vault) heldToken))
  let w ← w.sendAny token vault sender refundToken
  return (w, shares)

/-- `withdraw` of the first generation: WETH arrives as ether. -/
def withdraw (sender : Address) (shares wethMin tokenMin : Nat) (dst : Address) :
    Call (World Market) := do
  let vault := (site.stakes i).vault
  let weth := Coin.erc20 site.weth
  let token := Coin.erc20 (site.stakes i).token
  revertIf (shares = 0) (.stake .zeroShares)
  revertIf (dst = 0) (.stake .zeroAddress)
  let w ← dex.harvest now i w
  let s := (w.books i).shares
  let liq ← ofStake (checked (divU (dex.liquidity w.market i * shares) s.totalSupply))
  let s ← ofStake (s.burn sender shares)
  let w := w.setShares i s
  let ((wethOut, tokens), market) ← answered (dex.decrease w.market i liq wethMin tokenMin)
  let w ← { w with market }.send weth site.venue vault wethOut
  let w ← w.send token site.venue vault tokens
  let w ← w.payWeth site vault dst wethOut
  w.sendAny token vault dst tokens

end VaultV3

end Vaults

/-! ### What they do to the purse -/

section Specs

variable {site : Site} {dex : Dex site Market} {now i : Nat} {w w' : World Market}
  {cs : List Coin}

/-- The zap's shares of one stake are set, and the coins `cs` may have changed. -/
structure Reshares (site : Site) (cs : List Coin) (i n : Nat) (w w' : World Market) : Prop where
  touches : Touches cs (w.purse site) (w'.purse site)
  shares : (w'.purse site).shares = Function.update (w.purse site).shares i n

theorem Reshares.at {n : Nat} (h : Reshares site cs i n w w') : (w'.purse site).shares i = n := by
  rw [h.shares, Function.update_self]

theorem Spends.reshares {w₁ w₂ w₃ : World Market} {n : Nat} (h : Spends site cs w₁ w₂)
    (h' : Reshares site cs i n w₂ w₃) : Reshares site cs i n w₁ w₃ where
  touches := h.touches.trans h'.touches
  shares := by rw [h'.shares, h.shares]

theorem Reshares.spends {w₁ w₂ w₃ : World Market} {n : Nat} (h : Reshares site cs i n w₁ w₂)
    (h' : Spends site cs w₂ w₃) : Reshares site cs i n w₁ w₃ where
  touches := h.touches.trans h'.touches
  shares := by rw [h'.shares, h.shares]

/-- Shares that come and go leave the purse with those it had. -/
theorem Reshares.back {w₁ w₂ w₃ : World Market} {n : Nat} (h : Reshares site cs i n w₁ w₂)
    (h' : Reshares site cs i ((w₁.purse site).shares i) w₂ w₃) : Spends site cs w₁ w₃ where
  touches := h.touches.trans h'.touches
  shares := by
    rw [h'.shares, h.shares, Function.update_idem, Function.update_eq_self]

theorem reshares_setShares {s : Shares} {n : Nat} (hs : s.balanceOf site.zap = n) :
    Reshares site cs i n w (w.setShares i s) where
  touches := Touches.refl _
  shares := by
    funext j
    show (Function.update w.books i _ j).shares.balanceOf site.zap = _
    by_cases hj : j = i
    · subst hj
      rw [Function.update_self, Function.update_self]
      exact hs
    · rw [Function.update_of_ne hj, Function.update_of_ne hj]
      rfl

theorem spends_market (w : World Market) (market : Market) : Spends site cs w { w with market } :=
  ⟨Touches.refl _, rfl⟩

theorem spends_harvest (h : dex.harvest now i w = .ok w') : Spends site cs w w' := by
  have hpurse := dex.harvest_purse h
  constructor
  · rw [hpurse]
    exact Touches.refl _
  · rw [hpurse]

theorem mint_ok {s s' : Shares} {dst : Address} {n : Nat} (h : s.mint dst n = .ok s') :
    s'.balanceOf = Function.update s.balanceOf dst (s.balanceOf dst + n) := by
  unfold Shares.mint at h
  split at h
  · cases h
    rfl
  · cases h

theorem burn_ok {s s' : Shares} {src : Address} {n : Nat} (h : s.burn src n = .ok s') :
    n ≤ s.balanceOf src ∧
      s'.balanceOf = Function.update s.balanceOf src (s.balanceOf src - n) := by
  unfold Shares.burn at h
  split at h
  · cases h
  · cases h
    exact ⟨by omega, rfl⟩

/-- The zap is minted what the deposit returns. -/
theorem mintFor_reshares {liq before n : Nat} (h : mintFor i w site.zap liq before = .ok (w', n)) :
    Reshares site cs i ((w.purse site).shares i + n) w w' := by
  unfold mintFor at h
  dsimp only at h
  split at h
  · obtain ⟨-, -, h⟩ := bind_ok.mp h
    obtain ⟨s, hdead, h⟩ := bind_ok.mp h
    obtain ⟨s', hmint, h⟩ := bind_ok.mp h
    cases h
    have hother : site.zap ≠ DEAD := site.dead_ne.symm
    have hbalance : s'.balanceOf site.zap = (w.purse site).shares i + (liq - MIN_SHARES) := by
      rw [mint_ok (ofStake_ok.mp hmint), Function.update_self, mint_ok (ofStake_ok.mp hdead),
        Function.update_of_ne hother]
      rfl
    exact reshares_setShares hbalance
  · obtain ⟨scaled, -, h⟩ := bind_ok.mp h
    obtain ⟨shares, -, h⟩ := bind_ok.mp h
    obtain ⟨-, -, h⟩ := bind_ok.mp h
    obtain ⟨s', hmint, h⟩ := bind_ok.mp h
    cases h
    have hbalance : s'.balanceOf site.zap = (w.purse site).shares i + n := by
      rw [mint_ok (ofStake_ok.mp hmint), Function.update_self]
      rfl
    exact reshares_setShares hbalance

theorem burn_reshares {s : Shares} {n : Nat}
    (h : (w.books i).shares.burn site.zap n = .ok s) :
    Reshares site cs i ((w.purse site).shares i - n) w (w.setShares i s) := by
  obtain ⟨-, hbalances⟩ := burn_ok h
  have hbalance : s.balanceOf site.zap = (w.purse site).shares i - n := by
    rw [hbalances, Function.update_self]
    rfl
  exact reshares_setShares hbalance

/-! #### The farm -/

theorem reshares_setFarmWorld {f : FarmWorld} {n : Nat}
    (hweth : f.weth site.zap = (w.purse site).coin (.erc20 site.weth))
    (hshares : f.shares.balanceOf site.zap = n) :
    Reshares site cs i n w (w.setFarmWorld site i f) where
  touches := by
    intro c _
    show Function.update w.holds (.erc20 site.weth) f.weth c site.zap = w.holds c site.zap
    by_cases hc : c = .erc20 site.weth
    · rw [hc, Function.update_self]
      exact hweth
    · rw [Function.update_of_ne hc]
  shares := by
    funext j
    show (Function.update w.books i _ j).shares.balanceOf site.zap = _
    by_cases hj : j = i
    · subst hj
      rw [Function.update_self, Function.update_self]
      exact hshares
    · rw [Function.update_of_ne hj, Function.update_of_ne hj]
      rfl

theorem spends_approve (spender : Address) (n : Nat) :
    Spends site cs w (w.setShares i ((w.books i).shares.approve site.zap spender n)) where
  touches := Touches.refl _
  shares := by
    have h : Reshares site cs i ((w.purse site).shares i) w
        (w.setShares i ((w.books i).shares.approve site.zap spender n)) := reshares_setShares rfl
    rw [h.shares, Function.update_eq_self]

/-- The shares that are staked leave the zap. -/
theorem stakeFor_reshares {user : Address} {n : Nat}
    (h : w.stakeFor site now i user n = .ok w') :
    Reshares site cs i ((w.purse site).shares i - n) w w' := by
  obtain ⟨f, hstake, h⟩ := bind_ok.mp h
  cases h
  have hstake := ofStake_ok.mp hstake
  unfold FarmWorld.stakeFor FarmWorld.stakeWith at hstake
  obtain ⟨updated, -, hstake⟩ := bind_ok.mp hstake
  obtain ⟨-, -, hstake⟩ := bind_ok.mp hstake
  obtain ⟨added, -, hstake⟩ := bind_ok.mp hstake
  obtain ⟨shares, hmoved, hstake⟩ := bind_ok.mp hstake
  cases hstake
  obtain ⟨-, -, -, hbalances⟩ := Shares.transferFrom_moves hmoved
  have hleft : shares.balanceOf site.zap = (w.purse site).shares i - n := by
    rw [hbalances]
    exact (moved_src (site.farm_ne i).symm).trans
      (by simp [World.farmWorld, World.setShares, World.purse, Shares.approve])
  exact (spends_approve _ _).reshares (reshares_setFarmWorld rfl hleft)

/-- The shares that are unstaked come to the zap, and the rewards go to the holder. -/
theorem withdrawFor_reshares {user : Address} {n : Nat} (huser : user ≠ site.zap)
    (h : w.withdrawFor site now i user n = .ok w') :
    Reshares site cs i ((w.purse site).shares i + n) w w' := by
  obtain ⟨f, hleave, h⟩ := bind_ok.mp h
  cases h
  have hleave := ofStake_ok.mp hleave
  unfold FarmWorld.withdrawFor at hleave
  obtain ⟨updated, -, hleave⟩ := bind_ok.mp hleave
  obtain ⟨-, -, hleave⟩ := bind_ok.mp hleave
  obtain ⟨-, -, hleave⟩ := bind_ok.mp hleave
  obtain ⟨left, -, hleave⟩ := bind_ok.mp hleave
  obtain ⟨shares, hmoved, hleave⟩ := bind_ok.mp hleave
  obtain ⟨-, -, -, -, hbalances⟩ := Shares.move_eq_ok.mp hmoved
  have hcame : shares.balanceOf site.zap = (w.purse site).shares i + n := by
    rw [hbalances]
    exact moved_dst (site.farm_ne i)
  unfold FarmWorld.payRewardsIfAny at hleave
  split at hleave
  next =>
    obtain ⟨weth, hpaid, hleave⟩ := bind_ok.mp hleave
    cases hleave
    refine reshares_setFarmWorld ?_ hcame
    unfold sendWeth at hpaid
    split at hpaid
    next => cases hpaid
    next =>
      cases hpaid
      exact moved_other (site.farm_ne i).symm huser.symm
  next =>
    cases hleave
    exact reshares_setFarmWorld rfl hcame

/-! #### The vaults -/

/-- A deposit of the zap mints it the shares that are returned. -/
theorem VaultV4.deposit_reshares {value tokenDesired ethMin tokenMin n : Nat} (heth : .eth ∈ cs)
    (htoken : .erc20 (site.stakes i).token ∈ cs)
    (h : VaultV4.deposit site dex now i w site.zap value tokenDesired ethMin tokenMin site.zap =
      .ok (w', n)) : Reshares site cs i ((w.purse site).shares i + n) w w' := by
  unfold VaultV4.deposit at h
  obtain ⟨w₁, hvalue, h⟩ := bind_ok.mp h
  obtain ⟨-, -, h⟩ := bind_ok.mp h
  obtain ⟨w₂, hharvest, h⟩ := bind_ok.mp h
  obtain ⟨⟨liq, usedEth, usedToken⟩, -, h⟩ := bind_ok.mp h
  obtain ⟨-, -, h⟩ := bind_ok.mp h
  obtain ⟨-, -, h⟩ := bind_ok.mp h
  obtain ⟨w₃, hpull, h⟩ := bind_ok.mp h
  obtain ⟨⟨⟨takenEth, takenToken⟩, market⟩, -, h⟩ := bind_ok.mp h
  obtain ⟨-, -, h⟩ := bind_ok.mp h
  obtain ⟨-, -, h⟩ := bind_ok.mp h
  obtain ⟨w₄, hplaceEth, h⟩ := bind_ok.mp h
  obtain ⟨w₅, hplaceToken, h⟩ := bind_ok.mp h
  obtain ⟨⟨w₆, shares⟩, hmint, h⟩ := bind_ok.mp h
  obtain ⟨w₇, hrefund, h⟩ := bind_ok.mp h
  cases h
  have hpulled : Spends site cs w w₃ :=
    ((spends_send (.inl heth) hvalue).trans (spends_harvest hharvest)).trans
      (spends_sendAny (.inl htoken) hpull)
  have hplaced : Spends site cs w₃ w₅ :=
    ((spends_market w₃ market).trans (spends_send (.inl heth) hplaceEth)).trans
      (spends_send (.inl htoken) hplaceToken)
  have hbefore := hpulled.trans hplaced
  rw [← hbefore.shares]
  exact (hbefore.reshares (mintFor_reshares hmint)).spends (spends_sendAny (.inl heth) hrefund)

theorem VaultV3.deposit_reshares {value wethDesired tokenDesired wethMin tokenMin n : Nat}
    (heth : .eth ∈ cs) (hweth : .erc20 site.weth ∈ cs)
    (htoken : .erc20 (site.stakes i).token ∈ cs)
    (h : VaultV3.deposit site dex now i w site.zap value wethDesired tokenDesired wethMin tokenMin
      site.zap = .ok (w', n)) : Reshares site cs i ((w.purse site).shares i + n) w w' := by
  unfold VaultV3.deposit at h
  obtain ⟨w₁, hvalue, h⟩ := bind_ok.mp h
  obtain ⟨-, -, h⟩ := bind_ok.mp h
  obtain ⟨w₂, hharvest, h⟩ := bind_ok.mp h
  obtain ⟨w₃, hpullWeth, h⟩ := bind_ok.mp h
  obtain ⟨w₄, hpullToken, h⟩ := bind_ok.mp h
  obtain ⟨⟨⟨liq, usedWeth, usedToken⟩, market⟩, -, h⟩ := bind_ok.mp h
  obtain ⟨-, -, h⟩ := bind_ok.mp h
  obtain ⟨-, -, h⟩ := bind_ok.mp h
  obtain ⟨w₅, hplaceWeth, h⟩ := bind_ok.mp h
  obtain ⟨w₆, hplaceToken, h⟩ := bind_ok.mp h
  obtain ⟨⟨w₇, shares⟩, hmint, h⟩ := bind_ok.mp h
  obtain ⟨refundWeth, -, h⟩ := bind_ok.mp h
  obtain ⟨w₈, hrefundWeth, h⟩ := bind_ok.mp h
  obtain ⟨refundToken, -, h⟩ := bind_ok.mp h
  obtain ⟨w₉, hrefundToken, h⟩ := bind_ok.mp h
  cases h
  have hethers : ∀ a, Ethers site cs a := fun _ => .inl ⟨heth, hweth⟩
  have hside : Spends site cs w₂ w₃ := by
    unfold VaultV3.pullWeth at hpullWeth
    split at hpullWeth
    · exact spends_sendAny (.inl hweth) hpullWeth
    · exact spends_wrap (hethers _) hpullWeth
  have hpulled : Spends site cs w w₄ :=
    (((spends_sendAny (.inl heth) hvalue).trans (spends_harvest hharvest)).trans hside).trans
      (spends_sendAny (.inl htoken) hpullToken)
  have hplaced : Spends site cs w₄ w₆ :=
    ((spends_market w₄ market).trans (spends_send (.inl hweth) hplaceWeth)).trans
      (spends_send (.inl htoken) hplaceToken)
  have hrefunds : Spends site cs w₇ w' :=
    (spends_payWeth (hethers _) (.inl heth) hrefundWeth).trans
      (spends_sendAny (.inl htoken) hrefundToken)
  have hbefore := hpulled.trans hplaced
  rw [← hbefore.shares]
  exact (hbefore.reshares (mintFor_reshares hmint)).spends hrefunds

/-- Both sides of a stake may be paid to an account. -/
def PaidTo (site : Site) (cs : List Coin) (i : Nat) (dst : Address) : Prop :=
  (.eth ∈ cs ∧ .erc20 (site.stakes i).token ∈ cs) ∨ dst ≠ site.zap

theorem PaidTo.aside {dst : Address} (h : PaidTo site cs i dst) :
    Aside site cs .eth (site.stakes i).vault dst ∧
      Aside site cs (.erc20 (site.stakes i).token) (site.stakes i).vault dst := by
  rcases h with ⟨heth, htoken⟩ | hdst
  · exact ⟨.inl heth, .inl htoken⟩
  · exact ⟨.inr ⟨site.vault_ne i, hdst⟩, .inr ⟨site.vault_ne i, hdst⟩⟩

/-- A withdrawal of the zap burns its shares, and touches no coin of a zap that is not paid. -/
theorem VaultV4.withdraw_reshares {n ethMin tokenMin : Nat} {dst : Address}
    (hpaid : PaidTo site cs i dst)
    (h : VaultV4.withdraw site dex now i w site.zap n ethMin tokenMin dst = .ok w') :
    Reshares site cs i ((w.purse site).shares i - n) w w' := by
  unfold VaultV4.withdraw at h
  obtain ⟨-, -, h⟩ := bind_ok.mp h
  obtain ⟨-, -, h⟩ := bind_ok.mp h
  obtain ⟨w₁, hharvest, h⟩ := bind_ok.mp h
  obtain ⟨liq, -, h⟩ := bind_ok.mp h
  obtain ⟨s, hburn, h⟩ := bind_ok.mp h
  have hbefore : Spends site cs w w₁ := spends_harvest hharvest
  rw [← hbefore.shares]
  have hburned := hbefore.reshares (burn_reshares (ofStake_ok.mp hburn))
  have hpast : site.venue ≠ site.zap ∧ (site.stakes i).vault ≠ site.zap :=
    ⟨site.venue_ne, site.vault_ne i⟩
  dsimp only at h
  split at h
  · cases h
    exact hburned
  · obtain ⟨⟨⟨eth, tokens⟩, market⟩, -, h⟩ := bind_ok.mp h
    obtain ⟨w₂, heths, h⟩ := bind_ok.mp h
    obtain ⟨w₃, htokens, h⟩ := bind_ok.mp h
    obtain ⟨w₄, hpayEth, hpayToken⟩ := bind_ok.mp h
    have hcollected : Spends site cs (w₁.setShares i s) w₃ :=
      ((spends_market _ market).trans (spends_send (.inr hpast) heths)).trans
        (spends_send (.inr hpast) htokens)
    have hpays : Spends site cs w₃ w' :=
      (spends_sendAny hpaid.aside.1 hpayEth).trans (spends_sendAny hpaid.aside.2 hpayToken)
    exact hburned.spends (hcollected.trans hpays)

theorem VaultV3.withdraw_reshares {n wethMin tokenMin : Nat} {dst : Address}
    (hpaid : PaidTo site cs i dst)
    (h : VaultV3.withdraw site dex now i w site.zap n wethMin tokenMin dst = .ok w') :
    Reshares site cs i ((w.purse site).shares i - n) w w' := by
  unfold VaultV3.withdraw at h
  obtain ⟨-, -, h⟩ := bind_ok.mp h
  obtain ⟨-, -, h⟩ := bind_ok.mp h
  obtain ⟨w₁, hharvest, h⟩ := bind_ok.mp h
  obtain ⟨liq, -, h⟩ := bind_ok.mp h
  obtain ⟨s, hburn, h⟩ := bind_ok.mp h
  have hbefore : Spends site cs w w₁ := spends_harvest hharvest
  rw [← hbefore.shares]
  have hburned := hbefore.reshares (burn_reshares (ofStake_ok.mp hburn))
  have hpast : site.venue ≠ site.zap ∧ (site.stakes i).vault ≠ site.zap :=
    ⟨site.venue_ne, site.vault_ne i⟩
  obtain ⟨⟨⟨wethOut, tokens⟩, market⟩, -, h⟩ := bind_ok.mp h
  obtain ⟨w₂, hweths, h⟩ := bind_ok.mp h
  obtain ⟨w₃, htokens, h⟩ := bind_ok.mp h
  obtain ⟨w₄, hpayWeth, hpayToken⟩ := bind_ok.mp h
  have hcollected : Spends site cs (w₁.setShares i s) w₃ :=
    ((spends_market _ market).trans (spends_send (.inr hpast) hweths)).trans
      (spends_send (.inr hpast) htokens)
  have hpays : Spends site cs w₃ w' :=
    (spends_payWeth (.inr (site.vault_ne i)) hpaid.aside.1 hpayWeth).trans
      (spends_sendAny hpaid.aside.2 hpayToken)
  exact hburned.spends (hcollected.trans hpays)

end Specs

end StakeZap

end Ordo
