import Ordo.Guarded
import Ordo.ZapVaults

/-!
# Stake zaps

A zap takes one coin or both, swaps half where it must, deposits everything it holds, stakes the
shares for the user and pays back what is left; or it unstakes, redeems and pays out, selling
the token side where the user asks for ether alone.  It keeps no amounts of its own: at each
point it reads what it holds.

`holds_nothing_iff` says of a run of calls by any users, with anything happening outside the
zap in between, when the zap holds nothing after each: exactly when each call of `zapOutToETH`
that goes through sells the whole of the token side.  What a partial sale leaves is the next
caller's.
-/

namespace Ordo

namespace StakeZap

variable {Market : Type}

/-! ### The zaps -/

section Zaps

variable (site : Site) (dex : Dex site Market) (now i : Nat) (w : World Market)

/-- An exact-input swap that is paid from what the zap holds, with the ether side as `ether`. -/
def exchange (ether : Coin) (ethIn : Bool) (amountIn minOut : Nat) : Call (World Market) :=
  let token := Coin.erc20 (site.stakes i).token
  if amountIn = 0 then .ok w
  else do
    let (fill, market) ← answered (dex.swap w.market i ethIn amountIn)
    revertIf (fill.out < minOut) .swapMinOut
    let w := { w with market }
    let w ← w.sendAny (if ethIn then ether else token) site.zap site.venue fill.spent
    w.sendAny (if ethIn then token else ether) site.venue site.zap fill.out

namespace ZapV4

def swapExactIn (ethIn : Bool) (amountIn minOut : Nat) : Call (World Market) :=
  exchange site dex i w .eth ethIn amountIn minOut

/-- Deposit everything the zap holds of both sides, stake the shares, return the dust. -/
def depositAndStake (user : User site) : Call (World Market) := do
  let token := Coin.erc20 (site.stakes i).token
  let (w, shares) ← VaultV4.deposit site dex now i w site.zap (w.holds .eth site.zap)
    (w.holds token site.zap) 0 0 site.zap
  let w ← w.stakeFor site now i user shares
  let w ← w.sendAny .eth site.zap user (w.holds .eth site.zap)
  w.sendAny token site.zap user (w.holds token site.zap)

def zapETH (sender : User site) (value minTokenOut : Nat) : Call (World Market) := do
  let w ← w.sendAny .eth sender site.zap value
  revertIf (value = 0) .nothingIn
  let w ← swapExactIn site dex i w true (value / 2) minTokenOut
  depositAndStake site dex now i w sender

def zapWETHFor (sender : User site) (amount minTokenOut : Nat) (user : User site) :
    Call (World Market) := do
  revertIf (amount = 0) .nothingIn
  let w ← w.send (.erc20 site.weth) sender site.zap amount
  let w ← w.unwrap site site.zap amount
  let w ← swapExactIn site dex i w true (amount / 2) minTokenOut
  depositAndStake site dex now i w user

def zapWETH (sender : User site) (amount minTokenOut : Nat) : Call (World Market) :=
  zapWETHFor site dex now i w sender amount minTokenOut sender

def zapOut (sender : User site) (shares minEth minToken : Nat) : Call (World Market) := do
  let w ← w.withdrawFor site now i sender shares
  VaultV4.withdraw site dex now i w site.zap shares minEth minToken sender

/-- `zapOutToETH` up to the sale: the stake is redeemed to the zap. -/
def redeem (sender : User site) (shares : Nat) : Call (World Market) := do
  let w ← w.withdrawFor site now i sender shares
  VaultV4.withdraw site dex now i w site.zap shares 0 0 site.zap

def zapOutToETH (sender : User site) (shares minEthOut : Nat) : Call (World Market) := do
  let w ← redeem site dex now i w sender shares
  let w ← swapExactIn site dex i w false (w.holds (.erc20 (site.stakes i).token) site.zap) 0
  let ethOut := w.holds .eth site.zap
  revertIf (ethOut < minEthOut) (.minOut ethOut minEthOut)
  w.send .eth site.zap sender ethOut

def zapToken (sender : User site) (amount minEthOut : Nat) : Call (World Market) := do
  revertIf (amount = 0) .nothingIn
  let w ← w.send (.erc20 (site.stakes i).token) sender site.zap amount
  let w ← swapExactIn site dex i w false (amount / 2) minEthOut
  depositAndStake site dex now i w sender

def zapBoth (sender : User site) (value tokenAmount : Nat) : Call (World Market) := do
  let w ← w.sendAny .eth sender site.zap value
  revertIf (value = 0 ∧ tokenAmount = 0) .nothingIn
  let w ← w.sendAny (.erc20 (site.stakes i).token) sender site.zap tokenAmount
  depositAndStake site dex now i w sender

end ZapV4

namespace ZapV3

def swap (ethIn : Bool) (amountIn minOut : Nat) : Call (World Market) :=
  exchange site dex i w (.erc20 site.weth) ethIn amountIn minOut

/-- Deposit everything the zap holds of both tokens, stake the shares, return the dust. -/
def depositAndStake (user : User site) : Call (World Market) := do
  let weth := Coin.erc20 site.weth
  let token := Coin.erc20 (site.stakes i).token
  let (w, shares) ← VaultV3.deposit site dex now i w site.zap 0 (w.holds weth site.zap)
    (w.holds token site.zap) 0 0 site.zap
  let w ← w.stakeFor site now i user shares
  let w ← w.sendAny .eth site.zap user (w.holds .eth site.zap)
  let w ← w.payWeth site site.zap user (w.holds weth site.zap)
  w.sendAny token site.zap user (w.holds token site.zap)

def zapETH (sender : User site) (value minTokenOut : Nat) : Call (World Market) := do
  let w ← w.sendAny .eth sender site.zap value
  revertIf (value = 0) .nothingIn
  let w ← w.wrap site site.zap value
  let w ← swap site dex i w true (value / 2) minTokenOut
  depositAndStake site dex now i w sender

def zapWETHFor (sender : User site) (amount minTokenOut : Nat) (user : User site) :
    Call (World Market) := do
  revertIf (amount = 0) .nothingIn
  let w ← w.send (.erc20 site.weth) sender site.zap amount
  let w ← swap site dex i w true (amount / 2) minTokenOut
  depositAndStake site dex now i w user

def zapWETH (sender : User site) (amount minTokenOut : Nat) : Call (World Market) :=
  zapWETHFor site dex now i w sender amount minTokenOut sender

def zapOut (sender : User site) (shares minEth minToken : Nat) : Call (World Market) := do
  let w ← w.withdrawFor site now i sender shares
  VaultV3.withdraw site dex now i w site.zap shares minEth minToken sender

/-- `zapOutToETH` up to the sale: the stake is redeemed to the zap, the WETH side as ether. -/
def redeem (sender : User site) (shares : Nat) : Call (World Market) := do
  let w ← w.withdrawFor site now i sender shares
  VaultV3.withdraw site dex now i w site.zap shares 0 0 site.zap

def unwrapAll : Call (World Market) :=
  if w.holds (.erc20 site.weth) site.zap = 0 then .ok w
  else w.unwrap site site.zap (w.holds (.erc20 site.weth) site.zap)

def zapOutToETH (sender : User site) (shares minEthOut : Nat) : Call (World Market) := do
  let w ← redeem site dex now i w sender shares
  let w ← swap site dex i w false (w.holds (.erc20 (site.stakes i).token) site.zap) 0
  let w ← unwrapAll site w
  let ethOut := w.holds .eth site.zap
  revertIf (ethOut < minEthOut) (.minOut ethOut minEthOut)
  w.send .eth site.zap sender ethOut

def zapToken (sender : User site) (amount minWethOut : Nat) : Call (World Market) := do
  revertIf (amount = 0) .nothingIn
  let w ← w.send (.erc20 (site.stakes i).token) sender site.zap amount
  let w ← swap site dex i w false (amount / 2) minWethOut
  depositAndStake site dex now i w sender

/-- The ether of `zapBoth` is wrapped, if there is any. -/
def wrapAny (value : Nat) : Call (World Market) :=
  if value = 0 then .ok w else w.wrap site site.zap value

def zapBoth (sender : User site) (value tokenAmount : Nat) : Call (World Market) := do
  let w ← w.sendAny .eth sender site.zap value
  revertIf (value = 0 ∧ tokenAmount = 0) .nothingIn
  let w ← wrapAny site w value
  let w ← w.sendAny (.erc20 (site.stakes i).token) sender site.zap tokenAmount
  depositAndStake site dex now i w sender

end ZapV3

end Zaps

/-! ### Runs -/

/-- A call on the zap.  `granted` says that the allowance covers what a permit is for, once the
permit was tried. -/
inductive ZapCall (site : Site) where
  | zapETH (value minTokenOut : Nat)
  | zapWETH (amount minTokenOut : Nat)
  | zapWETHFor (amount minTokenOut : Nat) (user : User site)
  | zapOut (shares minEth minToken : Nat)
  | zapOutToETH (shares minEthOut : Nat)
  | zapToken (amount minOut : Nat)
  | zapTokenWithPermit (granted : Bool) (amount minOut : Nat)
  | zapBoth (value tokenAmount : Nat)
  | zapBothWithPermit (granted : Bool) (value tokenAmount : Nat)

section Performs

variable (site : Site) (dex : Dex site Market) (now i : Nat) (w : World Market)
  (sender : User site)

/-- `_permit` -/
def permitted (granted : Bool) (call : Call (World Market)) : Call (World Market) :=
  if granted then call else .error .permitFailed

def performV4 : ZapCall site → Call (World Market)
  | .zapETH value min => ZapV4.zapETH site dex now i w sender value min
  | .zapWETH amount min => ZapV4.zapWETH site dex now i w sender amount min
  | .zapWETHFor amount min user => ZapV4.zapWETHFor site dex now i w sender amount min user
  | .zapOut shares minEth minToken => ZapV4.zapOut site dex now i w sender shares minEth minToken
  | .zapOutToETH shares min => ZapV4.zapOutToETH site dex now i w sender shares min
  | .zapToken amount min => ZapV4.zapToken site dex now i w sender amount min
  | .zapTokenWithPermit granted amount min =>
      permitted granted (ZapV4.zapToken site dex now i w sender amount min)
  | .zapBoth value amount => ZapV4.zapBoth site dex now i w sender value amount
  | .zapBothWithPermit granted value amount =>
      permitted granted (ZapV4.zapBoth site dex now i w sender value amount)

def performV3 : ZapCall site → Call (World Market)
  | .zapETH value min => ZapV3.zapETH site dex now i w sender value min
  | .zapWETH amount min => ZapV3.zapWETH site dex now i w sender amount min
  | .zapWETHFor amount min user => ZapV3.zapWETHFor site dex now i w sender amount min user
  | .zapOut shares minEth minToken => ZapV3.zapOut site dex now i w sender shares minEth minToken
  | .zapOutToETH shares min => ZapV3.zapOutToETH site dex now i w sender shares min
  | .zapToken amount min => ZapV3.zapToken site dex now i w sender amount min
  | .zapTokenWithPermit granted amount min =>
      permitted granted (ZapV3.zapToken site dex now i w sender amount min)
  | .zapBoth value amount => ZapV3.zapBoth site dex now i w sender value amount
  | .zapBothWithPermit granted value amount =>
      permitted granted (ZapV3.zapBoth site dex now i w sender value amount)

def perform (call : ZapCall site) : Call (World Market) :=
  match site.generation with
  | .v3 => performV3 site dex now i w sender call
  | .v4 => performV4 site dex now i w sender call

end Performs

/-! ### What a call leaves in the zap -/

section Calls

variable {site : Site} {dex : Dex site Market} {now i : Nat} {w w' : World Market}
  {sender user : User site} {cs : List Coin}

/-- No ether, no token and no shares. -/
structure HoldsNothing (p : Purse) : Prop where
  coin : ∀ c, p.coin c = 0
  shares : ∀ i, p.shares i = 0

/-- Of the coins `cs` nothing is left, and nothing else has changed in the purse. -/
structure Clears (site : Site) (cs : List Coin) (w w' : World Market) : Prop where
  spends : Spends site cs w w'
  none : ∀ c ∈ cs, (w'.purse site).coin c = 0

theorem Spends.clears {w₁ w₂ w₃ : World Market} (h : Spends site cs w₁ w₂)
    (h' : Clears site cs w₂ w₃) : Clears site cs w₁ w₃ := ⟨h.trans h'.spends, h'.none⟩

theorem Spends.holdsNothing (h : Spends site [] w w') (hw : HoldsNothing (w.purse site)) :
    HoldsNothing (w'.purse site) where
  coin c := by
    rw [h.touches c List.not_mem_nil]
    exact hw.coin c
  shares j := by
    rw [h.shares]
    exact hw.shares j

theorem Clears.holdsNothing (h : Clears site cs w w') (hw : HoldsNothing (w.purse site)) :
    HoldsNothing (w'.purse site) where
  coin c := by
    by_cases hc : c ∈ cs
    · exact h.none c hc
    · rw [h.spends.touches c hc]
      exact hw.coin c
  shares j := by
    rw [h.spends.shares]
    exact hw.shares j

/-- A swap touches the two sides it is between. -/
theorem exchange_spends {ether : Coin} {ethIn : Bool} {amountIn minOut : Nat} (hether : ether ∈ cs)
    (htoken : .erc20 (site.stakes i).token ∈ cs)
    (h : exchange site dex i w ether ethIn amountIn minOut = .ok w') : Spends site cs w w' := by
  have hside : ∀ b : Bool, (if b then ether else .erc20 (site.stakes i).token) ∈ cs ∧
      (if b then .erc20 (site.stakes i).token else ether) ∈ cs := by
    intro b
    cases b
    · exact ⟨htoken, hether⟩
    · exact ⟨hether, htoken⟩
  unfold exchange at h
  dsimp only at h
  split at h
  · cases h
    exact Spends.refl w
  · obtain ⟨⟨fill, market⟩, -, h⟩ := bind_ok.mp h
    obtain ⟨-, -, h⟩ := bind_ok.mp h
    obtain ⟨w₁, hpaid, hout⟩ := bind_ok.mp h
    exact ((spends_market w market).trans (spends_sendAny (.inl (hside ethIn).1) hpaid)).trans
      (spends_sendAny (.inl (hside ethIn).2) hout)

/-- What is deposited is staked: the shares that come go to the farm. -/
theorem staked_spends {w₁ w₂ w₃ : World Market} {n : Nat}
    (hdeposit : Reshares site cs i ((w₁.purse site).shares i + n) w₁ w₂)
    (hstake : w₂.stakeFor site now i user n = .ok w₃) : Spends site cs w₁ w₃ := by
  have hback : (w₂.purse site).shares i - n = (w₁.purse site).shares i := by
    rw [hdeposit.at]
    exact Nat.add_sub_cancel _ _
  apply hdeposit.back
  rw [← hback]
  exact stakeFor_reshares hstake

/-- What is unstaked is redeemed: the shares that come are burned. -/
theorem redeemed_spends {w₁ w₂ w₃ : World Market} {n : Nat}
    (hunstake : w₁.withdrawFor site now i sender n = .ok w₂)
    (hredeem : Reshares site cs i ((w₂.purse site).shares i - n) w₂ w₃) : Spends site cs w₁ w₃ := by
  have hunstaked : Reshares site cs i ((w₁.purse site).shares i + n) w₁ w₂ :=
    withdrawFor_reshares sender.2 hunstake
  have hback : (w₂.purse site).shares i - n = (w₁.purse site).shares i := by
    rw [hunstaked.at]
    exact Nat.add_sub_cancel _ _
  apply hunstaked.back
  rw [← hback]
  exact hredeem

theorem coin_setWeth (n : Nat) :
    ((w.setWeth site site.zap n).purse site).coin (.erc20 site.weth) = n ∧
      ((w.setWeth site site.zap n).purse site).coin .eth = (w.purse site).coin .eth := by
  have heth : Coin.eth ≠ .erc20 site.weth := by simp
  constructor
  · show Function.update w.holds (.erc20 site.weth) _ (.erc20 site.weth) site.zap = n
    rw [Function.update_self, Function.update_self]
  · show Function.update w.holds (.erc20 site.weth)
      (Function.update (w.holds (.erc20 site.weth)) site.zap n) .eth site.zap = _
    rw [Function.update_of_ne heth]
    rfl

namespace ZapV4

/-- The two sides of a stake. -/
def sides (site : Site) (i : Nat) : List Coin := [.eth, .erc20 (site.stakes i).token]

theorem eth_mem : Coin.eth ∈ sides site i := List.mem_cons_self

theorem token_mem : Coin.erc20 (site.stakes i).token ∈ sides site i :=
  List.mem_cons_of_mem _ List.mem_cons_self

theorem depositAndStake_clears (h : depositAndStake site dex now i w user = .ok w') :
    Clears site (sides site i) w w' := by
  unfold depositAndStake at h
  obtain ⟨⟨w₁, shares⟩, hdeposit, h⟩ := bind_ok.mp h
  obtain ⟨w₂, hstake, h⟩ := bind_ok.mp h
  obtain ⟨w₃, hpayEth, hpayToken⟩ := bind_ok.mp h
  have hstaked : Spends site (sides site i) w w₂ :=
    staked_spends (VaultV4.deposit_reshares eth_mem token_mem hdeposit) hstake
  have hdust : Spends site (sides site i) w₂ w' :=
    (spends_sendAny (.inl eth_mem) hpayEth).trans (spends_sendAny (.inl token_mem) hpayToken)
  have hlater : Spends site [.erc20 (site.stakes i).token] w₃ w' :=
    spends_sendAny (.inl List.mem_cons_self) hpayToken
  refine ⟨hstaked.trans hdust, ?_⟩
  intro c hc
  rcases List.mem_cons.mp hc with rfl | hc
  · rw [hlater.touches .eth (by simp)]
    exact coin_sendAny_all user.2 hpayEth
  · rw [List.mem_singleton.mp hc]
    exact coin_sendAny_all user.2 hpayToken

theorem zapETH_clears {value minOut : Nat}
    (h : zapETH site dex now i w sender value minOut = .ok w') :
    Clears site (sides site i) w w' := by
  unfold zapETH at h
  obtain ⟨w₁, hvalue, h⟩ := bind_ok.mp h
  obtain ⟨-, -, h⟩ := bind_ok.mp h
  obtain ⟨w₂, hswap, hdeposit⟩ := bind_ok.mp h
  have hsides : Spends site (sides site i) w w₂ :=
    (spends_sendAny (.inl eth_mem) hvalue).trans (exchange_spends eth_mem token_mem hswap)
  exact hsides.clears (depositAndStake_clears hdeposit)

/-- WETH that comes and is unwrapped leaves ether. -/
theorem spends_unwrapped {w₁ w₂ : World Market} {amount : Nat}
    (hcome : w.send (.erc20 site.weth) sender site.zap amount = .ok w₁)
    (hunwrap : w₁.unwrap site site.zap amount = .ok w₂) : Spends site [.eth] w w₂ := by
  have hwrapped : Spends site [.eth, .erc20 site.weth] w w₂ :=
    (spends_send (.inl (by simp)) hcome).trans (spends_unwrap (.inl (by simp)) hunwrap)
  refine ⟨?_, hwrapped.shares⟩
  intro c hc
  by_cases hweth : c = .erc20 site.weth
  · subst hweth
    obtain ⟨-, -, hunwrap⟩ := bind_ok.mp hunwrap
    have hlast : Spends site [.eth] _ w₂ := spends_send (.inl (by simp)) hunwrap
    have hcame : w₁.holds (.erc20 site.weth) site.zap = _ := coin_send_in sender.2 hcome
    rw [hlast.touches _ hc, (coin_setWeth _).1, hcame]
    exact Nat.add_sub_cancel _ _
  · exact hwrapped.touches c (by simp_all)

theorem zapWETHFor_clears {amount minOut : Nat}
    (h : zapWETHFor site dex now i w sender amount minOut user = .ok w') :
    Clears site (sides site i) w w' := by
  unfold zapWETHFor at h
  obtain ⟨-, -, h⟩ := bind_ok.mp h
  obtain ⟨w₁, hcome, h⟩ := bind_ok.mp h
  obtain ⟨w₂, hunwrap, h⟩ := bind_ok.mp h
  obtain ⟨w₃, hswap, hdeposit⟩ := bind_ok.mp h
  have hether := spends_unwrapped hcome hunwrap
  have hunwrapped : Spends site (sides site i) w w₂ := by
    refine ⟨?_, hether.shares⟩
    intro c hc
    exact hether.touches c fun h => hc (List.mem_singleton.mp h ▸ eth_mem)
  exact (hunwrapped.trans (exchange_spends eth_mem token_mem hswap)).clears
    (depositAndStake_clears hdeposit)

theorem zapToken_clears {amount minOut : Nat}
    (h : zapToken site dex now i w sender amount minOut = .ok w') :
    Clears site (sides site i) w w' := by
  unfold zapToken at h
  obtain ⟨-, -, h⟩ := bind_ok.mp h
  obtain ⟨w₁, hcome, h⟩ := bind_ok.mp h
  obtain ⟨w₂, hswap, hdeposit⟩ := bind_ok.mp h
  have hsides : Spends site (sides site i) w w₂ :=
    (spends_send (.inl token_mem) hcome).trans (exchange_spends eth_mem token_mem hswap)
  exact hsides.clears (depositAndStake_clears hdeposit)

theorem zapBoth_clears {value amount : Nat}
    (h : zapBoth site dex now i w sender value amount = .ok w') :
    Clears site (sides site i) w w' := by
  unfold zapBoth at h
  obtain ⟨w₁, hvalue, h⟩ := bind_ok.mp h
  obtain ⟨-, -, h⟩ := bind_ok.mp h
  obtain ⟨w₂, hcome, hdeposit⟩ := bind_ok.mp h
  have hsides : Spends site (sides site i) w w₂ :=
    (spends_sendAny (.inl eth_mem) hvalue).trans (spends_sendAny (.inl token_mem) hcome)
  exact hsides.clears (depositAndStake_clears hdeposit)

/-- `zapOut` pays past the zap. -/
theorem zapOut_spends {shares minEth minToken : Nat}
    (h : zapOut site dex now i w sender shares minEth minToken = .ok w') : Spends site [] w w' := by
  unfold zapOut at h
  obtain ⟨w₁, hunstake, hredeem⟩ := bind_ok.mp h
  exact redeemed_spends hunstake (VaultV4.withdraw_reshares (.inr sender.2) hredeem)

theorem redeem_spends {shares : Nat} (h : redeem site dex now i w sender shares = .ok w') :
    Spends site (sides site i) w w' := by
  unfold redeem at h
  obtain ⟨w₁, hunstake, hredeem⟩ := bind_ok.mp h
  exact redeemed_spends hunstake (VaultV4.withdraw_reshares (.inl ⟨eth_mem, token_mem⟩) hredeem)

end ZapV4

namespace ZapV3

def sides (site : Site) (i : Nat) : List Coin :=
  [.eth, .erc20 site.weth, .erc20 (site.stakes i).token]

theorem eth_mem : Coin.eth ∈ sides site i := List.mem_cons_self

theorem weth_mem : Coin.erc20 site.weth ∈ sides site i :=
  List.mem_cons_of_mem _ List.mem_cons_self

theorem token_mem : Coin.erc20 (site.stakes i).token ∈ sides site i :=
  List.mem_cons_of_mem _ (List.mem_cons_of_mem _ List.mem_cons_self)

theorem ethers (a : Address) : Ethers site (sides site i) a := .inl ⟨eth_mem, weth_mem⟩

/-- A zap that unwraps and pays all the WETH it holds holds none, and no more ether. -/
theorem payWeth_all
    (h : w.payWeth site site.zap user (w.holds (.erc20 site.weth) site.zap) = .ok w') :
    (w'.purse site).coin (.erc20 site.weth) = 0 ∧
      (w'.purse site).coin .eth = (w.purse site).coin .eth := by
  unfold World.payWeth at h
  split at h
  next hzero =>
    cases h
    exact ⟨hzero, rfl⟩
  next =>
    obtain ⟨w₁, hunwrap, hpay⟩ := bind_ok.mp h
    obtain ⟨-, -, hunwrap⟩ := bind_ok.mp hunwrap
    have hcame := coin_send_in site.weth_ne hunwrap
    obtain ⟨-, hleft⟩ := coin_send_out user.2 hpay
    have hether : Spends site [.eth] _ w' :=
      (spends_send (.inl List.mem_cons_self) hunwrap).trans
        (spends_send (.inl List.mem_cons_self) hpay)
    constructor
    · rw [hether.touches _ (by simp), (coin_setWeth _).1]
      exact Nat.sub_self _
    · rw [hleft, hcame, Nat.add_sub_cancel]
      exact (coin_setWeth _).2

theorem depositAndStake_clears (h : depositAndStake site dex now i w user = .ok w') :
    Clears site (sides site i) w w' := by
  unfold depositAndStake at h
  obtain ⟨⟨w₁, shares⟩, hdeposit, h⟩ := bind_ok.mp h
  obtain ⟨w₂, hstake, h⟩ := bind_ok.mp h
  obtain ⟨w₃, hpayEth, h⟩ := bind_ok.mp h
  obtain ⟨w₄, hpayWeth, hpayToken⟩ := bind_ok.mp h
  have hstaked : Spends site (sides site i) w w₂ :=
    staked_spends (VaultV3.deposit_reshares eth_mem weth_mem token_mem hdeposit) hstake
  have hdust : Spends site (sides site i) w₂ w' :=
    ((spends_sendAny (.inl eth_mem) hpayEth).trans
      (spends_payWeth (ethers _) (.inl eth_mem) hpayWeth)).trans
        (spends_sendAny (.inl token_mem) hpayToken)
  have hlast : Spends site [.erc20 (site.stakes i).token] w₄ w' :=
    spends_sendAny (.inl List.mem_cons_self) hpayToken
  have htoken := coin_sendAny_all user.2 hpayToken
  obtain ⟨hweth, heth⟩ := payWeth_all hpayWeth
  refine ⟨hstaked.trans hdust, ?_⟩
  intro c hc
  by_cases hside : c = .erc20 (site.stakes i).token
  · rw [hside]
    exact htoken
  · rw [hlast.touches c fun h => hside (List.mem_singleton.mp h)]
    rcases List.mem_cons.mp hc with rfl | hc
    · rw [heth]
      exact coin_sendAny_all user.2 hpayEth
    · rcases List.mem_cons.mp hc with rfl | hc
      · exact hweth
      · exact absurd (List.mem_singleton.mp hc) hside

theorem zapETH_clears {value minOut : Nat}
    (h : zapETH site dex now i w sender value minOut = .ok w') :
    Clears site (sides site i) w w' := by
  unfold zapETH at h
  obtain ⟨w₁, hvalue, h⟩ := bind_ok.mp h
  obtain ⟨-, -, h⟩ := bind_ok.mp h
  obtain ⟨w₂, hwrap, h⟩ := bind_ok.mp h
  obtain ⟨w₃, hswap, hdeposit⟩ := bind_ok.mp h
  have hsides : Spends site (sides site i) w w₃ :=
    ((spends_sendAny (.inl eth_mem) hvalue).trans (spends_wrap (ethers _) hwrap)).trans
      (exchange_spends weth_mem token_mem hswap)
  exact hsides.clears (depositAndStake_clears hdeposit)

theorem zapWETHFor_clears {amount minOut : Nat}
    (h : zapWETHFor site dex now i w sender amount minOut user = .ok w') :
    Clears site (sides site i) w w' := by
  unfold zapWETHFor at h
  obtain ⟨-, -, h⟩ := bind_ok.mp h
  obtain ⟨w₁, hcome, h⟩ := bind_ok.mp h
  obtain ⟨w₂, hswap, hdeposit⟩ := bind_ok.mp h
  have hsides : Spends site (sides site i) w w₂ :=
    (spends_send (.inl weth_mem) hcome).trans (exchange_spends weth_mem token_mem hswap)
  exact hsides.clears (depositAndStake_clears hdeposit)

theorem zapToken_clears {amount minOut : Nat}
    (h : zapToken site dex now i w sender amount minOut = .ok w') :
    Clears site (sides site i) w w' := by
  unfold zapToken at h
  obtain ⟨-, -, h⟩ := bind_ok.mp h
  obtain ⟨w₁, hcome, h⟩ := bind_ok.mp h
  obtain ⟨w₂, hswap, hdeposit⟩ := bind_ok.mp h
  have hsides : Spends site (sides site i) w w₂ :=
    (spends_send (.inl token_mem) hcome).trans (exchange_spends weth_mem token_mem hswap)
  exact hsides.clears (depositAndStake_clears hdeposit)

theorem zapBoth_clears {value amount : Nat}
    (h : zapBoth site dex now i w sender value amount = .ok w') :
    Clears site (sides site i) w w' := by
  unfold zapBoth at h
  obtain ⟨w₁, hvalue, h⟩ := bind_ok.mp h
  obtain ⟨-, -, h⟩ := bind_ok.mp h
  obtain ⟨w₂, hwrap, h⟩ := bind_ok.mp h
  obtain ⟨w₃, hcome, hdeposit⟩ := bind_ok.mp h
  have hwrapped : Spends site (sides site i) w₁ w₂ := by
    unfold wrapAny at hwrap
    split at hwrap
    · cases hwrap
      exact Spends.refl _
    · exact spends_wrap (ethers _) hwrap
  have hsides : Spends site (sides site i) w w₃ :=
    ((spends_sendAny (.inl eth_mem) hvalue).trans hwrapped).trans
      (spends_sendAny (.inl token_mem) hcome)
  exact hsides.clears (depositAndStake_clears hdeposit)

theorem zapOut_spends {shares minEth minToken : Nat}
    (h : zapOut site dex now i w sender shares minEth minToken = .ok w') : Spends site [] w w' := by
  unfold zapOut at h
  obtain ⟨w₁, hunstake, hredeem⟩ := bind_ok.mp h
  exact redeemed_spends hunstake (VaultV3.withdraw_reshares (.inr sender.2) hredeem)

theorem redeem_spends {shares : Nat} (h : redeem site dex now i w sender shares = .ok w') :
    Spends site (sides site i) w w' := by
  unfold redeem at h
  obtain ⟨w₁, hunstake, hredeem⟩ := bind_ok.mp h
  exact redeemed_spends hunstake (VaultV3.withdraw_reshares (.inl ⟨eth_mem, token_mem⟩) hredeem)

end ZapV3

/-! ### The sale of the token side -/

/-- The pool takes the whole of the token the zap holds. -/
def TakesAll (dex : Dex site Market) (i : Nat) (w : World Market) : Prop :=
  ∀ fill market, dex.swap w.market i false (w.holds (.erc20 (site.stakes i).token) site.zap) =
    some (fill, market) → fill.spent = w.holds (.erc20 (site.stakes i).token) site.zap

/-- A sale leaves none of the token exactly when the pool takes it all. -/
theorem sale_leaves_none_iff {ether : Coin} (hether : ether ≠ .erc20 (site.stakes i).token)
    (h : exchange site dex i w ether false (w.holds (.erc20 (site.stakes i).token) site.zap) 0 =
      .ok w') :
    (w'.purse site).coin (.erc20 (site.stakes i).token) = 0 ↔ TakesAll dex i w := by
  unfold exchange at h
  dsimp only at h
  split at h
  next hzero =>
    cases h
    refine iff_of_true hzero ?_
    intro fill market _
    have hwithin := fill.within
    omega
  next =>
    obtain ⟨⟨fill, market⟩, hfill, h⟩ := bind_ok.mp h
    obtain ⟨-, -, h⟩ := bind_ok.mp h
    obtain ⟨w₁, hpaid, hout⟩ := bind_ok.mp h
    have hwithin := fill.within
    have hbought : Spends site [ether] w₁ w' := spends_sendAny (.inl List.mem_cons_self) hout
    have hleft : (w₁.purse site).coin (.erc20 (site.stakes i).token) =
        w.holds (.erc20 (site.stakes i).token) site.zap - fill.spent := by
      unfold World.sendAny at hpaid
      split at hpaid
      next hnone =>
        cases hpaid
        rw [hnone]
        rfl
      next => exact (coin_send_out site.venue_ne hpaid).2
    rw [hbought.touches _ (by simpa using hether.symm), hleft]
    constructor
    · intro hnone fill' market' hfill'
      have hsame := hfill'.symm.trans (answered_ok.mp hfill)
      obtain ⟨rfl, -⟩ := Prod.mk.inj (Option.some.inj hsame)
      omega
    · intro htakes
      have hspent := htakes fill market (answered_ok.mp hfill)
      omega

/-- A zap that held nothing, spent the coins `cs` and has none of them but perhaps one. -/
theorem holdsNothing_iff {c : Coin} (hw : HoldsNothing (w.purse site)) (h : Spends site cs w w')
    (hothers : ∀ d ∈ cs, d ≠ c → (w'.purse site).coin d = 0) :
    HoldsNothing (w'.purse site) ↔ (w'.purse site).coin c = 0 := by
  constructor
  · intro hnothing
    exact hnothing.coin c
  · intro hnone
    constructor
    · intro d
      by_cases hd : d = c
      · rw [hd]
        exact hnone
      · by_cases hmem : d ∈ cs
        · exact hothers d hmem hd
        · rw [h.touches d hmem]
          exact hw.coin d
    · intro j
      rw [h.shares]
      exact hw.shares j

namespace ZapV4

/-- An exit to ether leaves nothing exactly when the pool takes all of the token side. -/
theorem zapOutToETH_iff {shares minEthOut : Nat} (hw : HoldsNothing (w.purse site))
    (h : zapOutToETH site dex now i w sender shares minEthOut = .ok w') :
    HoldsNothing (w'.purse site) ↔
      ∀ w₁, redeem site dex now i w sender shares = .ok w₁ → TakesAll dex i w₁ := by
  unfold zapOutToETH at h
  obtain ⟨w₁, hredeem, h⟩ := bind_ok.mp h
  obtain ⟨w₂, hsale, h⟩ := bind_ok.mp h
  obtain ⟨-, -, hpay⟩ := bind_ok.mp h
  have hether : Coin.eth ≠ .erc20 (site.stakes i).token := by simp
  have hspends : Spends site (sides site i) w w' :=
    ((redeem_spends hredeem).trans (exchange_spends eth_mem token_mem hsale)).trans
      (spends_send (.inl eth_mem) hpay)
  have hlast : Spends site [.eth] w₂ w' := spends_send (.inl List.mem_cons_self) hpay
  have hnoEther : (w'.purse site).coin .eth = 0 := by
    rw [(coin_send_out sender.2 hpay).2]
    exact Nat.sub_self _
  have hothers : ∀ d ∈ sides site i, d ≠ .erc20 (site.stakes i).token →
      (w'.purse site).coin d = 0 := by
    intro d hd hne
    rcases List.mem_cons.mp hd with rfl | hd
    · exact hnoEther
    · exact absurd (List.mem_singleton.mp hd) hne
  have hnone : (w'.purse site).coin (.erc20 (site.stakes i).token) = 0 ↔ TakesAll dex i w₁ := by
    rw [hlast.touches _ (by simp)]
    exact sale_leaves_none_iff hether hsale
  rw [holdsNothing_iff hw hspends hothers, hnone]
  constructor
  · intro htakes w₃ hredeem'
    cases hredeem.symm.trans hredeem'
    exact htakes
  · intro htakes
    exact htakes w₁ hredeem

end ZapV4

namespace ZapV3

theorem unwrapAll_none (h : unwrapAll site w = .ok w') :
    (w'.purse site).coin (.erc20 site.weth) = 0 ∧ Spends site [.eth, .erc20 site.weth] w w' := by
  unfold unwrapAll at h
  split at h
  next hzero =>
    cases h
    exact ⟨hzero, Spends.refl _⟩
  next =>
    have hspends : Spends site [.eth, .erc20 site.weth] w w' :=
      spends_unwrap (.inl (by simp)) h
    obtain ⟨-, -, h⟩ := bind_ok.mp h
    have hether : Spends site [.eth] _ w' := spends_send (.inl List.mem_cons_self) h
    refine ⟨?_, hspends⟩
    rw [hether.touches _ (by simp), (coin_setWeth _).1]
    exact Nat.sub_self _

theorem zapOutToETH_iff {shares minEthOut : Nat} (hne : (site.stakes i).token ≠ site.weth)
    (hw : HoldsNothing (w.purse site))
    (h : zapOutToETH site dex now i w sender shares minEthOut = .ok w') :
    HoldsNothing (w'.purse site) ↔
      ∀ w₁, redeem site dex now i w sender shares = .ok w₁ → TakesAll dex i w₁ := by
  unfold zapOutToETH at h
  obtain ⟨w₁, hredeem, h⟩ := bind_ok.mp h
  obtain ⟨w₂, hsale, h⟩ := bind_ok.mp h
  obtain ⟨w₃, hunwrap, h⟩ := bind_ok.mp h
  obtain ⟨-, -, hpay⟩ := bind_ok.mp h
  have hside : Coin.erc20 site.weth ≠ .erc20 (site.stakes i).token := by simpa using hne.symm
  obtain ⟨hnoWeth, hunwrapped⟩ := unwrapAll_none hunwrap
  have hlast : Spends site [.eth] w₃ w' := spends_send (.inl List.mem_cons_self) hpay
  have hpaid : Spends site [.eth, .erc20 site.weth] w₂ w' :=
    hunwrapped.trans (spends_send (.inl List.mem_cons_self) hpay)
  have hpaidSides : Spends site (sides site i) w₂ w' := by
    refine ⟨?_, hpaid.shares⟩
    intro c hc
    refine hpaid.touches c fun hmem => hc ?_
    rcases List.mem_cons.mp hmem with rfl | hmem
    · exact eth_mem
    · rw [List.mem_singleton.mp hmem]
      exact weth_mem
  have hspends : Spends site (sides site i) w w' :=
    ((redeem_spends hredeem).trans (exchange_spends weth_mem token_mem hsale)).trans hpaidSides
  have hnoEther : (w'.purse site).coin .eth = 0 := by
    rw [(coin_send_out sender.2 hpay).2]
    exact Nat.sub_self _
  have hothers : ∀ d ∈ sides site i, d ≠ .erc20 (site.stakes i).token →
      (w'.purse site).coin d = 0 := by
    intro d hd hother
    rcases List.mem_cons.mp hd with rfl | hd
    · exact hnoEther
    · rcases List.mem_cons.mp hd with rfl | hd
      · rw [hlast.touches _ (by simp)]
        exact hnoWeth
      · exact absurd (List.mem_singleton.mp hd) hother
  have hnone : (w'.purse site).coin (.erc20 (site.stakes i).token) = 0 ↔ TakesAll dex i w₁ := by
    rw [hpaid.touches _ (by simpa using hne)]
    exact sale_leaves_none_iff hside hsale
  rw [holdsNothing_iff hw hspends hothers, hnone]
  constructor
  · intro htakes w₄ hredeem'
    cases hredeem.symm.trans hredeem'
    exact htakes
  · intro htakes
    exact htakes w₁ hredeem

end ZapV3

end Calls

/-! ### Runs -/

section Runs

/-- Anything that happens outside the zap; what is sent to the zap from outside is a donation. -/
structure Outside (site : Site) (Market : Type) where
  act : World Market → World Market
  keeps : ∀ w, (act w).purse site = w.purse site

/-- A call of a user on the zap, with a stake of the factory, or something outside.  In a farm's
`compound` the sender is the farm. -/
inductive Event (site : Site) (Market : Type) where
  | call (now i : Nat) (sender : User site) (call : ZapCall site)
  | outside (o : Outside site Market)

variable (site : Site) (dex : Dex site Market)

/-- A call that reverts leaves no trace. -/
def step (w : World Market) : Event site Market → World Market
  | .call now i sender call =>
      match perform site dex now i w sender call with
      | .ok w' => w'
      | .error _ => w
  | .outside o => o.act w

/-- `zapOutToETH` up to the sale. -/
def redeem (now i : Nat) (w : World Market) (sender : User site) (shares : Nat) :
    Call (World Market) :=
  match site.generation with
  | .v3 => ZapV3.redeem site dex now i w sender shares
  | .v4 => ZapV4.redeem site dex now i w sender shares

/-- An exit to ether that goes through sells the whole of the token side: once the stake is
redeemed, the pool takes all of it. -/
def SellsAll (w : World Market) : Event site Market → Prop
  | .call now i sender (.zapOutToETH shares minEthOut) =>
      ∀ w' w₁, perform site dex now i w sender (.zapOutToETH shares minEthOut) = .ok w' →
        redeem site dex now i w sender shares = .ok w₁ → TakesAll dex i w₁
  | _ => True

variable {site dex} {w w' : World Market} {now i : Nat} {sender : User site}

theorem permitted_ok {granted : Bool} {call : Call (World Market)}
    (h : permitted granted call = .ok w') : call = .ok w' := by
  cases granted with
  | true => exact h
  | false => cases h

/-- Every call but an exit to ether leaves a zap that held nothing with nothing. -/
theorem performV4_holdsNothing {call : ZapCall site} (hw : HoldsNothing (w.purse site))
    (hcall : ∀ shares min, call ≠ .zapOutToETH shares min)
    (h : performV4 site dex now i w sender call = .ok w') : HoldsNothing (w'.purse site) := by
  cases call with
  | zapETH => exact (ZapV4.zapETH_clears h).holdsNothing hw
  | zapWETH => exact (ZapV4.zapWETHFor_clears h).holdsNothing hw
  | zapWETHFor => exact (ZapV4.zapWETHFor_clears h).holdsNothing hw
  | zapOut => exact (ZapV4.zapOut_spends h).holdsNothing hw
  | zapOutToETH shares min => exact absurd rfl (hcall shares min)
  | zapToken => exact (ZapV4.zapToken_clears h).holdsNothing hw
  | zapTokenWithPermit => exact (ZapV4.zapToken_clears (permitted_ok h)).holdsNothing hw
  | zapBoth => exact (ZapV4.zapBoth_clears h).holdsNothing hw
  | zapBothWithPermit => exact (ZapV4.zapBoth_clears (permitted_ok h)).holdsNothing hw

theorem performV3_holdsNothing {call : ZapCall site} (hw : HoldsNothing (w.purse site))
    (hcall : ∀ shares min, call ≠ .zapOutToETH shares min)
    (h : performV3 site dex now i w sender call = .ok w') : HoldsNothing (w'.purse site) := by
  cases call with
  | zapETH => exact (ZapV3.zapETH_clears h).holdsNothing hw
  | zapWETH => exact (ZapV3.zapWETHFor_clears h).holdsNothing hw
  | zapWETHFor => exact (ZapV3.zapWETHFor_clears h).holdsNothing hw
  | zapOut => exact (ZapV3.zapOut_spends h).holdsNothing hw
  | zapOutToETH shares min => exact absurd rfl (hcall shares min)
  | zapToken => exact (ZapV3.zapToken_clears h).holdsNothing hw
  | zapTokenWithPermit => exact (ZapV3.zapToken_clears (permitted_ok h)).holdsNothing hw
  | zapBoth => exact (ZapV3.zapBoth_clears h).holdsNothing hw
  | zapBothWithPermit => exact (ZapV3.zapBoth_clears (permitted_ok h)).holdsNothing hw

theorem perform_holdsNothing {call : ZapCall site} (hw : HoldsNothing (w.purse site))
    (hcall : ∀ shares min, call ≠ .zapOutToETH shares min)
    (h : perform site dex now i w sender call = .ok w') : HoldsNothing (w'.purse site) := by
  unfold perform at h
  split at h
  · exact performV3_holdsNothing hw hcall h
  · exact performV4_holdsNothing hw hcall h

theorem perform_zapOutToETH_iff {shares min : Nat} (hw : HoldsNothing (w.purse site))
    (h : perform site dex now i w sender (.zapOutToETH shares min) = .ok w') :
    HoldsNothing (w'.purse site) ↔
      ∀ w₁, redeem site dex now i w sender shares = .ok w₁ → TakesAll dex i w₁ := by
  cases hgen : site.generation with
  | v3 =>
      rw [perform, hgen] at h
      rw [redeem, hgen]
      exact ZapV3.zapOutToETH_iff (site.token_ne hgen i) hw h
  | v4 =>
      rw [perform, hgen] at h
      rw [redeem, hgen]
      exact ZapV4.zapOutToETH_iff hw h

theorem step_call_ok {call : ZapCall site}
    (h : perform site dex now i w sender call = .ok w') :
    step site dex w (.call now i sender call) = w' := by
  rw [step, h]

theorem step_call_error {call : ZapCall site} {e : ZapError}
    (h : perform site dex now i w sender call = .error e) :
    step site dex w (.call now i sender call) = w := by
  rw [step, h]

theorem sellsAll_of_error {call : ZapCall site} {e : ZapError}
    (h : perform site dex now i w sender call = .error e) :
    SellsAll site dex w (.call now i sender call) := by
  cases call with
  | zapOutToETH shares min =>
      intro w' w₁ hgoes
      rw [h] at hgoes
      cases hgoes
  | _ => trivial

/-- What the zap holds is nothing. -/
def Clean (site : Site) (w : World Market) : Prop := HoldsNothing (w.purse site)

/-- A step leaves a clean zap clean exactly when it sells all that it must. -/
theorem step_clean_iff (w : World Market) (e : Event site Market) (hw : Clean site w) :
    Clean site (step site dex w e) ↔ SellsAll site dex w e := by
  cases e with
  | outside o =>
      refine iff_of_true ?_ trivial
      rw [Clean, step, o.keeps]
      exact hw
  | call now i sender call =>
      cases hperform : perform site dex now i w sender call with
      | error e =>
          rw [step_call_error hperform]
          exact iff_of_true hw (sellsAll_of_error hperform)
      | ok w' =>
          rw [step_call_ok hperform]
          cases call with
          | zapOutToETH shares min =>
              refine (perform_zapOutToETH_iff hw hperform).trans ?_
              constructor
              · intro hall w'' w₁ _
                exact hall w₁
              · intro hall w₁
                exact hall w' w₁ hperform
          | _ => exact iff_of_true (perform_holdsNothing hw (by simp) hperform) trivial

/-- The zap holds nothing after each call of a run, exactly when each exit to ether that goes
through sells the whole of the token side. -/
theorem holds_nothing_iff (site : Site) (dex : Dex site Market) (w : World Market)
    (es : List (Event site Market)) (hstart : Clean site w) :
    (∀ pre post, es = pre ++ post → Clean site (pre.foldl (step site dex) w)) ↔
      Guarded.Along (step site dex) (SellsAll site dex) w es := by
  have hkeeps : ∀ w e, Clean site w → SellsAll site dex w e → Clean site (step site dex w e) :=
    fun w e hw => (step_clean_iff w e hw).mpr
  exact Guarded.throughout_iff.trans
    ((and_iff_right hstart).trans (Guarded.along_iff hkeeps step_clean_iff hstart))

end Runs

/-! ### One exit -/

section Sample

/-- A pool that takes all it is offered, or a quarter. -/
def sampleDex (whole : Bool) : Dex sampleSite Unit where
  swap _ _ _ amountIn :=
    if whole then some (⟨amountIn, amountIn, Nat.le_refl _⟩, ())
    else some (⟨amountIn / 4, amountIn / 4, Nat.div_le_self _ _⟩, ())
  slot0 _ _ := (0, 0)
  liquidity _ _ := 100
  increase _ _ _ _ := none
  modify _ _ _ _ _ := none
  decrease _ _ liq _ _ := some ((liq, liq), ())
  harvest _ _ w := .ok w
  harvest_purse h := by
    cases h
    rfl

/-- Account 7 has staked 40 of the 100 shares. -/
def sampleWorld : World Unit where
  holds _ a := if a = 3 then 1000 else 0
  books _ :=
    { farm := { totalSupply := 100, balanceOf := Function.update (fun _ => 0) 7 40 }
      shares :=
        { totalSupply := 100
          balanceOf := Function.update (fun _ => 0) 5 100
          allowance := fun _ _ => 0
          backed := Custody.sum_single 5 100
          fits := by decide }
      received := 0
      claimed := fun _ => 0 }
  market := ()

def sampleExit : Event sampleSite Unit := .call 0 0 ⟨7, by decide⟩ (.zapOutToETH 40 0)

theorem sampleWorld_clean : Clean sampleSite sampleWorld where
  coin _ := rfl
  shares _ := by
    have hne : (1 : Address) ≠ 5 := by decide
    show Function.update (fun _ : Address => 0) 5 100 (1 : Address) = 0
    rw [Function.update_of_ne hne]

/-- The pool takes all that the exit sells. -/
theorem holds_nothing_sample : Clean sampleSite
    ([sampleExit].foldl (step sampleSite (sampleDex true)) sampleWorld) := by
  refine (holds_nothing_iff sampleSite (sampleDex true) sampleWorld [sampleExit]
    sampleWorld_clean).mpr ?_ [sampleExit] [] rfl
  rw [Guarded.along_cons]
  refine ⟨?_, Guarded.along_nil⟩
  intro w' w₁ _ _ fill market hfill
  cases hfill
  rfl

/-- The pool takes a quarter of what the exit sells, and the rest stays in the zap. -/
theorem exit_leaves_tokens : ¬ ∀ pre post, [sampleExit] = pre ++ post →
    Clean sampleSite (pre.foldl (step sampleSite (sampleDex false)) sampleWorld) := by
  intro h
  have hafter := h [sampleExit] [] rfl
  have hleft : (step sampleSite (sampleDex false) sampleWorld sampleExit).holds
      (.erc20 6) 1 = 30 := by decide +kernel
  have hnone := hafter.coin (.erc20 6)
  exact absurd (hleft.symm.trans hnone) (by decide)

end Sample

end StakeZap

end Ordo
