import Ordo.Guarded
import Ordo.PooledShares
import Ordo.ZapVaults

/-!
# What a vault share is worth

A share of a stake vault is a slice of the liquidity of its position.  A deposit adds liquidity
and mints shares, a withdrawal burns shares and removes their slice, and anyone may add
liquidity to a position without shares.

`share_price` says what holds along every run of these: once there are shares there are at
least `MIN_SHARES`, each is worth at least one unit of liquidity, and the worth never falls.
Without donations it hardly grows either: a step leaves less than the worth of one share to the
holders, by rounding.
-/

namespace Ordo

namespace StakeZap

open Stake PooledShares

variable {Market : Type}

/-! ### Levels -/

/-- What the worth of a share depends on, and the shares that are locked. -/
structure Level where
  supply : Nat
  liquidity : Nat
  locked : Nat

def level {site : Site} (dex : Dex site Market) (i : Nat) (w : World Market) : Level where
  supply := (w.books i).shares.totalSupply
  liquidity := dex.liquidity w.market i
  locked := (w.books i).shares.balanceOf DEAD

/-- What a position manager does to a position, and what a harvest does not. -/
structure PositionLaws {site : Site} (dex : Dex site Market) (i : Nat) : Prop where
  increase : ∀ {m m' : Market} {a b liq usedA usedB : Nat},
    dex.increase m i a b = some ((liq, usedA, usedB), m') →
      dex.liquidity m' i = dex.liquidity m i + liq
  modify : ∀ {m m' : Market} {liq a b : Nat} {used : Nat × Nat},
    dex.modify m i liq a b = some (used, m') → dex.liquidity m' i = dex.liquidity m i + liq
  decrease : ∀ {m m' : Market} {liq a b : Nat} {out : Nat × Nat},
    dex.decrease m i liq a b = some (out, m') → dex.liquidity m' i = dex.liquidity m i - liq
  harvest : ∀ {now : Nat} {w w' : World Market},
    dex.harvest now i w = .ok w' →
      dex.liquidity w'.market i = dex.liquidity w.market i ∧
        (w'.books i).shares = (w.books i).shares

/-- A deposit that adds `added` and mints `shares`. -/
inductive Deposited (l : Level) (added shares : Nat) (l' : Level) : Prop
  | first (hsupply : l.supply = 0) (hmin : MIN_SHARES < added)
      (hshares : shares = added - MIN_SHARES) (hsupply' : l'.supply = added)
      (hliquidity : l'.liquidity = l.liquidity + added) (hlocked : MIN_SHARES ≤ l'.locked)
  | later (hsupply : l.supply ≠ 0) (hdivisor : l.liquidity ≠ 0)
      (hshares : shares = minted added l.supply l.liquidity)
      (hsupply' : l'.supply = l.supply + shares) (hliquidity : l'.liquidity = l.liquidity + added)
      (hlocked : l.locked ≤ l'.locked)

/-- A withdrawal of `shares`. -/
structure Withdrawn (l : Level) (shares : Nat) (l' : Level) : Prop where
  divisor : l.supply ≠ 0
  covered : shares + l.locked ≤ l.supply
  supply : l'.supply = l.supply - shares
  liquidity : l'.liquidity = l.liquidity - redeemed shares l.supply l.liquidity
  locked : l'.locked = l.locked

section Effects

variable {site : Site} {dex : Dex site Market} {now i : Nat} {w w' : World Market}

/-- Coins that change hands leave the books and the market. -/
structure Keeps (w w' : World Market) : Prop where
  books : w'.books = w.books
  market : w'.market = w.market

theorem Keeps.refl (w : World Market) : Keeps w w := ⟨rfl, rfl⟩

theorem Keeps.trans {w₁ w₂ w₃ : World Market} (h : Keeps w₁ w₂) (h' : Keeps w₂ w₃) :
    Keeps w₁ w₃ :=
  ⟨h'.books.trans h.books, h'.market.trans h.market⟩

theorem Keeps.level (h : Keeps w w') : level dex i w' = level dex i w := by
  unfold StakeZap.level
  rw [h.books, h.market]

variable {c : Coin} {src dst : Address} {amount : Nat}

theorem keeps_send (h : w.send c src dst amount = .ok w') : Keeps w w' := by
  obtain ⟨-, rfl⟩ := send_ok.mp h
  exact ⟨rfl, rfl⟩

theorem keeps_sendAny (h : w.sendAny c src dst amount = .ok w') : Keeps w w' := by
  unfold World.sendAny at h
  split at h
  · cases h
    exact Keeps.refl w
  · exact keeps_send h

theorem keeps_wrap (h : w.wrap site src amount = .ok w') : Keeps w w' := by
  obtain ⟨w₁, hsend, h⟩ := bind_ok.mp h
  cases h
  exact ⟨(keeps_send hsend).books, (keeps_send hsend).market⟩

theorem keeps_payWeth (h : w.payWeth site src dst amount = .ok w') : Keeps w w' := by
  unfold World.payWeth at h
  split at h
  · cases h
    exact Keeps.refl w
  · obtain ⟨w₁, hunwrap, hsend⟩ := bind_ok.mp h
    obtain ⟨-, -, hunwrap⟩ := bind_ok.mp hunwrap
    have hkept := (keeps_send hunwrap).trans (keeps_send hsend)
    exact ⟨hkept.books, hkept.market⟩

theorem keeps_pullWeth {value wethDesired : Nat}
    (h : VaultV3.pullWeth site w src dst value wethDesired = .ok w') : Keeps w w' := by
  unfold VaultV3.pullWeth at h
  split at h
  · exact keeps_sendAny h
  · exact keeps_wrap h

theorem level_setShares (s : Shares) : level dex i (w.setShares i s) =
    ⟨s.totalSupply, dex.liquidity w.market i, s.balanceOf DEAD⟩ := by
  unfold level World.setShares
  simp

theorem mint_level {s s' : Shares} {n : Nat} (h : s.mint dst n = .ok s') :
    s'.totalSupply = s.totalSupply + n ∧ s.balanceOf DEAD ≤ s'.balanceOf DEAD := by
  refine ⟨?_, ?_⟩
  · unfold Shares.mint at h
    split at h
    · cases h
      rfl
    · cases h
  · rw [mint_ok h]
    by_cases hdst : DEAD = dst
    · rw [← hdst, Function.update_self]
      omega
    · rw [Function.update_of_ne hdst]

/-- The shares of a deposit that has added `added` to what the position held before. -/
theorem mintFor_deposited {added before n : Nat} {l : Level} (hbefore : l.liquidity = before)
    (hsupply : l.supply = (level dex i w).supply) (hlocked : l.locked = (level dex i w).locked)
    (hadded : (level dex i w).liquidity = before + added)
    (h : mintFor i w dst added before = .ok (w', n)) : Deposited l added n (level dex i w') := by
  unfold mintFor at h
  dsimp only at h
  split at h
  next hzero =>
    obtain ⟨_, hmin, h⟩ := bind_ok.mp h
    obtain ⟨s, hdead, h⟩ := bind_ok.mp h
    obtain ⟨s', hmint, h⟩ := bind_ok.mp h
    cases h
    obtain ⟨hlockedSupply, -⟩ := mint_level (ofStake_ok.mp hdead)
    obtain ⟨hminted, hkept⟩ := mint_level (ofStake_ok.mp hmint)
    have hmin := revertIf_ok.mp hmin
    have hdeadShares : MIN_SHARES ≤ s.balanceOf DEAD := by
      rw [mint_ok (ofStake_ok.mp hdead), Function.update_self]
      omega
    rw [level_setShares]
    refine .first (hsupply.trans hzero) (by omega) rfl ?_ ?_ (hdeadShares.trans hkept)
    · show s'.totalSupply = added
      omega
    · rw [hbefore]
      exact hadded
  next hpos =>
    obtain ⟨scaled, hscaled, h⟩ := bind_ok.mp h
    obtain ⟨shares, hshares, h⟩ := bind_ok.mp h
    obtain ⟨-, -, h⟩ := bind_ok.mp h
    obtain ⟨s', hmint, h⟩ := bind_ok.mp h
    cases h
    obtain ⟨hminted, hkept⟩ := mint_level (ofStake_ok.mp hmint)
    obtain ⟨-, hproduct⟩ := mulU_eq_some.mp (checked_eq_ok.mp (ofStake_ok.mp hscaled))
    obtain ⟨hdivisor, hquotient⟩ := divU_eq_some.mp (checked_eq_ok.mp (ofStake_ok.mp hshares))
    rw [level_setShares]
    refine .later ?_ ?_ ?_ ?_ ?_ ?_
    · rw [hsupply]
      exact hpos
    · rw [hbefore]
      exact hdivisor
    · rw [hquotient, hproduct, hsupply, hbefore]
      rfl
    · rw [hsupply]
      exact hminted
    · rw [hbefore]
      exact hadded
    · rw [hlocked]
      exact hkept

theorem two_balances_le (s : Shares) {a b : Address} (hne : a ≠ b) :
    s.balanceOf a + s.balanceOf b ≤ s.totalSupply := by
  have hpair : ∑ x ∈ {a, b}, s.balanceOf x ≤ ∑ x, s.balanceOf x :=
    Finset.sum_le_sum_of_subset (Finset.subset_univ _)
  rw [Finset.sum_pair hne, s.backed] at hpair
  exact hpair

theorem burn_withdrawn (dex : Dex site Market) {s : Shares} {n liq : Nat} (hsrc : src ≠ DEAD)
    (hliq : divU (dex.liquidity w.market i * n) (w.books i).shares.totalSupply = some liq)
    (h : (w.books i).shares.burn src n = .ok s) :
    liq = redeemed n (level dex i w).supply (level dex i w).liquidity ∧
      (level dex i w).supply ≠ 0 ∧ n + (level dex i w).locked ≤ (level dex i w).supply ∧
      s.totalSupply = (level dex i w).supply - n ∧ s.balanceOf DEAD = (level dex i w).locked := by
  obtain ⟨hdivisor, hquotient⟩ := divU_eq_some.mp hliq
  obtain ⟨hcovered, hbalances⟩ := burn_ok h
  have htwo := two_balances_le (w.books i).shares hsrc
  refine ⟨hquotient, hdivisor, ?_, ?_, ?_⟩
  · exact (Nat.add_le_add_right hcovered _).trans htwo
  · unfold Shares.burn at h
    split at h
    · cases h
    · cases h
      rfl
  · rw [hbalances, Function.update_of_ne hsrc.symm]
    rfl

variable (laws : PositionLaws dex i)

include laws

theorem level_harvest (h : dex.harvest now i w = .ok w') : level dex i w' = level dex i w := by
  obtain ⟨hliquidity, hshares⟩ := laws.harvest h
  unfold level
  rw [hliquidity, hshares]

theorem VaultV3.deposit_deposited {value wethDesired tokenDesired wethMin tokenMin n : Nat}
    {sender : Address}
    (h : VaultV3.deposit site dex now i w sender value wethDesired tokenDesired wethMin tokenMin
      dst = .ok (w', n)) : ∃ added, Deposited (level dex i w) added n (level dex i w') := by
  unfold VaultV3.deposit at h
  obtain ⟨w₁, hvalue, h⟩ := bind_ok.mp h
  obtain ⟨-, -, h⟩ := bind_ok.mp h
  obtain ⟨w₂, hharvest, h⟩ := bind_ok.mp h
  obtain ⟨w₃, hpullWeth, h⟩ := bind_ok.mp h
  obtain ⟨w₄, hpullToken, h⟩ := bind_ok.mp h
  obtain ⟨⟨⟨added, usedWeth, usedToken⟩, market⟩, hadded, h⟩ := bind_ok.mp h
  obtain ⟨-, -, h⟩ := bind_ok.mp h
  obtain ⟨-, -, h⟩ := bind_ok.mp h
  obtain ⟨w₅, hplaceWeth, h⟩ := bind_ok.mp h
  obtain ⟨w₆, hplaceToken, h⟩ := bind_ok.mp h
  obtain ⟨⟨w₇, shares⟩, hmint, h⟩ := bind_ok.mp h
  obtain ⟨refundWeth, -, h⟩ := bind_ok.mp h
  obtain ⟨w₈, hrefundWeth, h⟩ := bind_ok.mp h
  obtain ⟨refundToken, -, h⟩ := bind_ok.mp h
  obtain ⟨w₉, hrefundToken, h⟩ := bind_ok.mp h
  cases h
  have hstart : level dex i w₂ = level dex i w :=
    (level_harvest laws hharvest).trans (keeps_sendAny hvalue).level
  have hpulled : Keeps w₂ w₄ := (keeps_pullWeth hpullWeth).trans (keeps_sendAny hpullToken)
  have hplaced : Keeps { w₄ with market } w₆ :=
    (keeps_send hplaceWeth).trans (keeps_send hplaceToken)
  have hrefunds : Keeps w₇ w' := (keeps_payWeth hrefundWeth).trans (keeps_sendAny hrefundToken)
  have hliquidity : (level dex i w₆).liquidity = dex.liquidity w₂.market i + added := by
    rw [hplaced.level, ← hpulled.market]
    exact laws.increase (answered_ok.mp hadded)
  have hbooks : w₆.books = w₂.books := hplaced.books.trans hpulled.books
  rw [hrefunds.level, ← hstart]
  refine ⟨added, mintFor_deposited rfl ?_ ?_ hliquidity hmint⟩
  · unfold level
    rw [hbooks]
  · unfold level
    rw [hbooks]

theorem VaultV4.deposit_deposited {value tokenDesired ethMin tokenMin n : Nat} {sender : Address}
    (h : VaultV4.deposit site dex now i w sender value tokenDesired ethMin tokenMin dst =
      .ok (w', n)) : ∃ added, Deposited (level dex i w) added n (level dex i w') := by
  unfold VaultV4.deposit at h
  obtain ⟨w₁, hvalue, h⟩ := bind_ok.mp h
  obtain ⟨-, -, h⟩ := bind_ok.mp h
  obtain ⟨w₂, hharvest, h⟩ := bind_ok.mp h
  obtain ⟨⟨added, usedEth, usedToken⟩, -, h⟩ := bind_ok.mp h
  obtain ⟨-, -, h⟩ := bind_ok.mp h
  obtain ⟨-, -, h⟩ := bind_ok.mp h
  obtain ⟨w₃, hpull, h⟩ := bind_ok.mp h
  obtain ⟨⟨⟨takenEth, takenToken⟩, market⟩, hadded, h⟩ := bind_ok.mp h
  obtain ⟨-, -, h⟩ := bind_ok.mp h
  obtain ⟨-, -, h⟩ := bind_ok.mp h
  obtain ⟨w₄, hplaceEth, h⟩ := bind_ok.mp h
  obtain ⟨w₅, hplaceToken, h⟩ := bind_ok.mp h
  obtain ⟨⟨w₆, shares⟩, hmint, h⟩ := bind_ok.mp h
  obtain ⟨w₇, hrefund, h⟩ := bind_ok.mp h
  cases h
  have hstart : level dex i w₂ = level dex i w :=
    (level_harvest laws hharvest).trans (keeps_send hvalue).level
  have hpulled : Keeps w₂ w₃ := keeps_sendAny hpull
  have hplaced : Keeps { w₃ with market } w₅ :=
    (keeps_send hplaceEth).trans (keeps_send hplaceToken)
  have hliquidity : (level dex i w₅).liquidity = dex.liquidity w₂.market i + added := by
    rw [hplaced.level, ← hpulled.market]
    exact laws.modify (answered_ok.mp hadded)
  have hbooks : w₅.books = w₂.books := hplaced.books.trans hpulled.books
  rw [(keeps_sendAny hrefund).level, ← hstart]
  refine ⟨added, mintFor_deposited rfl ?_ ?_ hliquidity hmint⟩
  · unfold level
    rw [hbooks]
  · unfold level
    rw [hbooks]

theorem VaultV3.withdraw_withdrawn {n wethMin tokenMin : Nat} (hsrc : src ≠ DEAD)
    (h : VaultV3.withdraw site dex now i w src n wethMin tokenMin dst = .ok w') :
    Withdrawn (level dex i w) n (level dex i w') := by
  unfold VaultV3.withdraw at h
  obtain ⟨-, -, h⟩ := bind_ok.mp h
  obtain ⟨-, -, h⟩ := bind_ok.mp h
  obtain ⟨w₁, hharvest, h⟩ := bind_ok.mp h
  obtain ⟨liq, hliq, h⟩ := bind_ok.mp h
  obtain ⟨s, hburn, h⟩ := bind_ok.mp h
  obtain ⟨⟨⟨wethOut, tokens⟩, market⟩, hremoved, h⟩ := bind_ok.mp h
  obtain ⟨w₂, hweths, h⟩ := bind_ok.mp h
  obtain ⟨w₃, htokens, h⟩ := bind_ok.mp h
  obtain ⟨w₄, hpayWeth, hpayToken⟩ := bind_ok.mp h
  obtain ⟨hslice, hdivisor, hcovered, hsupply, hlocked⟩ := burn_withdrawn dex hsrc
    (checked_eq_ok.mp (ofStake_ok.mp hliq)) (ofStake_ok.mp hburn)
  have hkept : Keeps { w₁.setShares i s with market } w' :=
    ((keeps_send hweths).trans (keeps_send htokens)).trans
      ((keeps_payWeth hpayWeth).trans (keeps_sendAny hpayToken))
  have hliquidity : dex.liquidity market i = dex.liquidity w₁.market i - liq :=
    laws.decrease (answered_ok.mp hremoved)
  have hafter : level dex i w' = ⟨s.totalSupply, dex.liquidity market i, s.balanceOf DEAD⟩ := by
    rw [hkept.level]
    exact level_setShares (w := { w₁ with market }) s
  rw [← level_harvest laws hharvest, hafter]
  exact ⟨hdivisor, hcovered, hsupply, hliquidity.trans (by rw [hslice]; rfl), hlocked⟩

theorem VaultV4.withdraw_withdrawn {n ethMin tokenMin : Nat} (hsrc : src ≠ DEAD)
    (h : VaultV4.withdraw site dex now i w src n ethMin tokenMin dst = .ok w') :
    Withdrawn (level dex i w) n (level dex i w') := by
  unfold VaultV4.withdraw at h
  obtain ⟨-, -, h⟩ := bind_ok.mp h
  obtain ⟨-, -, h⟩ := bind_ok.mp h
  obtain ⟨w₁, hharvest, h⟩ := bind_ok.mp h
  obtain ⟨liq, hliq, h⟩ := bind_ok.mp h
  obtain ⟨s, hburn, h⟩ := bind_ok.mp h
  obtain ⟨hslice, hdivisor, hcovered, hsupply, hlocked⟩ := burn_withdrawn dex hsrc
    (checked_eq_ok.mp (ofStake_ok.mp hliq)) (ofStake_ok.mp hburn)
  rw [← level_harvest laws hharvest]
  dsimp only at h
  split at h
  next hzero =>
    cases h
    rw [level_setShares]
    refine ⟨hdivisor, hcovered, hsupply, ?_, hlocked⟩
    rw [← hslice, hzero]
    rfl
  next =>
    obtain ⟨⟨⟨eth, tokens⟩, market⟩, hremoved, h⟩ := bind_ok.mp h
    obtain ⟨w₂, heths, h⟩ := bind_ok.mp h
    obtain ⟨w₃, htokens, h⟩ := bind_ok.mp h
    obtain ⟨w₄, hpayEth, hpayToken⟩ := bind_ok.mp h
    have hkept : Keeps { w₁.setShares i s with market } w' :=
      ((keeps_send heths).trans (keeps_send htokens)).trans
        ((keeps_sendAny hpayEth).trans (keeps_sendAny hpayToken))
    have hliquidity : dex.liquidity market i = dex.liquidity w₁.market i - liq :=
      laws.decrease (answered_ok.mp hremoved)
    have hafter : level dex i w' = ⟨s.totalSupply, dex.liquidity market i, s.balanceOf DEAD⟩ := by
      rw [hkept.level]
      exact level_setShares (w := { w₁ with market }) s
    rw [hafter]
    exact ⟨hdivisor, hcovered, hsupply, hliquidity.trans (by rw [hslice]; rfl), hlocked⟩

end Effects

/-! ### Worth -/

/-- What holds of a vault at all times: nothing is held for no shares, the locked shares stay,
and each share is worth a unit of liquidity at least. -/
structure Sound (l : Level) : Prop where
  unopened : l.supply = 0 → l.liquidity = 0
  floor : l.supply ≠ 0 → MIN_SHARES ≤ l.locked
  covered : l.locked ≤ l.supply
  worth : l.supply ≤ l.liquidity

section Worth

variable {l l' : Level} {added shares : Nat}

theorem Sound.supply_ge (h : Sound l) (hpos : l.supply ≠ 0) : MIN_SHARES ≤ l.supply :=
  (h.floor hpos).trans h.covered

/-- A share is not worth less than before. -/
def NoLess (l l' : Level) : Prop :=
  l.supply ≠ 0 → l'.supply ≠ 0 ∧ l.liquidity * l'.supply ≤ l'.liquidity * l.supply

theorem NoLess.refl (l : Level) : NoLess l l := fun hpos => ⟨hpos, Nat.le_refl _⟩

theorem NoLess.trans {l'' : Level} (h : NoLess l l') (h' : NoLess l' l'') : NoLess l l'' := by
  intro hpos
  obtain ⟨hpos', hfirst⟩ := h hpos
  obtain ⟨hpos'', hsecond⟩ := h' hpos'
  refine ⟨hpos'', ?_⟩
  apply Nat.le_of_mul_le_mul_right _ (Nat.pos_of_ne_zero hpos')
  calc l.liquidity * l''.supply * l'.supply
      = l.liquidity * l'.supply * l''.supply := by ring
    _ ≤ l'.liquidity * l.supply * l''.supply := Nat.mul_le_mul_right _ hfirst
    _ = l'.liquidity * l''.supply * l.supply := by ring
    _ ≤ l''.liquidity * l'.supply * l.supply := Nat.mul_le_mul_right _ hsecond
    _ = l''.liquidity * l.supply * l'.supply := by ring

/-- Worth that does not fall stays at one unit or more. -/
theorem NoLess.worth (h : NoLess l l') (hl : l.supply ≤ l.liquidity) (hpos : l.supply ≠ 0) :
    l'.supply ≤ l'.liquidity := by
  obtain ⟨-, hprice⟩ := h hpos
  apply Nat.le_of_mul_le_mul_right _ (Nat.pos_of_ne_zero hpos)
  calc l'.supply * l.supply ≤ l'.supply * l.liquidity := Nat.mul_le_mul_left _ hl
    _ = l.liquidity * l'.supply := Nat.mul_comm ..
    _ ≤ l'.liquidity * l.supply := hprice

theorem Deposited.noLess (h : Deposited l added shares l') : NoLess l l' := by
  intro hpos
  cases h with
  | first hsupply => exact absurd hsupply hpos
  | later _ hdivisor hshares hsupply' hliquidity =>
      refine ⟨by omega, ?_⟩
      rw [hsupply', hliquidity, hshares]
      exact price_mint

theorem Withdrawn.noLess (h : Withdrawn l shares l') (hfloor : l.locked ≠ 0) : NoLess l l' := by
  intro hpos
  have hcovered := h.covered
  have hsupply := h.supply
  refine ⟨by omega, ?_⟩
  rw [hsupply, h.liquidity]
  exact price_redeem

theorem Deposited.sound (h : Deposited l added shares l') (hl : Sound l)
    (hcovered : l'.locked ≤ l'.supply) : Sound l' := by
  have hworth := hl.worth
  cases h with
  | first hsupply hmin hshares hsupply' hliquidity hlocked =>
      exact ⟨by omega, fun _ => hlocked, hcovered, by omega⟩
  | later hpos hdivisor hshares hsupply' hliquidity hlocked =>
      have hnoLess := (Deposited.later hpos hdivisor hshares hsupply' hliquidity hlocked).noLess
      have hfloor := hl.floor hpos
      exact ⟨by omega, fun _ => hfloor.trans hlocked, hcovered, hnoLess.worth hworth hpos⟩

theorem Withdrawn.sound (h : Withdrawn l shares l') (hl : Sound l) : Sound l' := by
  have hfloor := hl.floor h.divisor
  have hmin : 0 < MIN_SHARES := by decide
  have hcovered := h.covered
  have hsupply := h.supply
  have hlocked := h.locked
  have hnoLess := h.noLess (by omega)
  exact ⟨by omega, fun _ => by omega, by omega, hnoLess.worth hl.worth h.divisor⟩

/-- The shares of a deposit are worth no more than what it added. -/
theorem Deposited.worth_le (h : Deposited l added shares l') (hl : Sound l) :
    shares * l'.liquidity ≤ added * l'.supply := by
  cases h with
  | first hsupply hmin hshares hsupply' hliquidity =>
      have hnone := hl.unopened hsupply
      rw [hliquidity, hnone, Nat.zero_add, hsupply']
      exact Nat.mul_le_mul_right added (by omega)
  | later hpos hdivisor hshares hsupply' hliquidity =>
      rw [hsupply', hliquidity, hshares]
      exact minted_worth_le

/-- In each of `k` steps the worth of a share grows by one part in `MIN_SHARES` at most. -/
def Grows (k : Nat) (l l' : Level) : Prop :=
  l'.liquidity * l.supply * MIN_SHARES ^ k ≤ l.liquidity * l'.supply * (MIN_SHARES + 1) ^ k

theorem Grows.zero (l : Level) : Grows 0 l l := by
  unfold Grows
  rw [Nat.pow_zero, Nat.pow_zero]

theorem Grows.same (hsupply : l'.supply = l.supply) (hliquidity : l'.liquidity = l.liquidity) :
    Grows 1 l l' := by
  unfold Grows
  rw [hsupply, hliquidity, Nat.pow_one, Nat.pow_one]
  exact Nat.mul_le_mul_left _ (Nat.le_succ _)

theorem Grows.cons {l'' : Level} {k : Nat} (h : Grows 1 l l') (h' : Grows k l' l'')
    (hpos : l'.supply ≠ 0) : Grows (k + 1) l l'' := by
  unfold Grows at h h' ⊢
  rw [Nat.pow_one, Nat.pow_one] at h
  apply Nat.le_of_mul_le_mul_right _ (Nat.pos_of_ne_zero hpos)
  calc l''.liquidity * l.supply * MIN_SHARES ^ (k + 1) * l'.supply
      = l''.liquidity * l'.supply * MIN_SHARES ^ k * (l.supply * MIN_SHARES) := by ring
    _ ≤ l'.liquidity * l''.supply * (MIN_SHARES + 1) ^ k * (l.supply * MIN_SHARES) :=
        Nat.mul_le_mul_right _ h'
    _ = l'.liquidity * l.supply * MIN_SHARES * (l''.supply * (MIN_SHARES + 1) ^ k) := by ring
    _ ≤ l.liquidity * l'.supply * (MIN_SHARES + 1) * (l''.supply * (MIN_SHARES + 1) ^ k) :=
        Nat.mul_le_mul_right _ h
    _ = l.liquidity * l''.supply * (MIN_SHARES + 1) ^ (k + 1) * l'.supply := by ring

/-- A step that leaves less than the worth of a share. -/
theorem Grows.step (h : l'.liquidity * l.supply ≤ l.liquidity * (l'.supply + 1))
    (hfloor : MIN_SHARES ≤ l'.supply) : Grows 1 l l' := by
  unfold Grows
  rw [Nat.pow_one, Nat.pow_one]
  exact growth_floor h hfloor

theorem Deposited.grows (h : Deposited l added shares l') (hl : Sound l) (hpos : l.supply ≠ 0) :
    Grows 1 l l' := by
  cases h with
  | first hsupply => exact absurd hsupply hpos
  | later _ hdivisor hshares hsupply' hliquidity =>
      have hfloor := hl.supply_ge hpos
      refine Grows.step ?_ (by omega)
      rw [hsupply', hliquidity, hshares]
      exact growth_mint_le hdivisor

theorem Withdrawn.grows (h : Withdrawn l shares l') (hl : Sound l) : Grows 1 l l' := by
  have hfloor := (h.sound hl).floor
  have hcovered := (h.sound hl).covered
  have hlocked := hl.floor h.divisor
  have hsame := h.locked
  refine Grows.step ?_ (by omega)
  rw [h.supply, h.liquidity]
  exact growth_redeem_le hl.worth h.divisor

end Worth

/-! ### Runs -/

section Runs

variable (site : Site) (dex : Dex site Market) (i : Nat)

/-- The arguments of a deposit.  A V4 vault takes its ether side as `value` alone. -/
structure DepositArgs where
  sender : Address
  value : Nat
  wethDesired : Nat
  tokenDesired : Nat
  etherMin : Nat
  tokenMin : Nat
  dst : Address

/-- The arguments of a withdrawal.  The dead address signs nothing. -/
structure WithdrawArgs where
  sender : { a : Address // a ≠ DEAD }
  shares : Nat
  etherMin : Nat
  tokenMin : Nat
  dst : Address

def deposit (now : Nat) (w : World Market) (a : DepositArgs) : Call (World Market × Nat) :=
  match site.generation with
  | .v3 => VaultV3.deposit site dex now i w a.sender a.value a.wethDesired a.tokenDesired
      a.etherMin a.tokenMin a.dst
  | .v4 => VaultV4.deposit site dex now i w a.sender a.value a.tokenDesired a.etherMin a.tokenMin
      a.dst

def withdraw (now : Nat) (w : World Market) (a : WithdrawArgs) : Call (World Market) :=
  match site.generation with
  | .v3 => VaultV3.withdraw site dex now i w a.sender a.shares a.etherMin a.tokenMin a.dst
  | .v4 => VaultV4.withdraw site dex now i w a.sender a.shares a.etherMin a.tokenMin a.dst

/-- Anything beside the vault: shares change hands, prices move, and liquidity may be added to
the position once there is one. -/
structure Beside where
  act : World Market → World Market
  supply : ∀ w, (level dex i (act w)).supply = (level dex i w).supply
  locked : ∀ w, (level dex i w).locked ≤ (level dex i (act w)).locked
  liquidity : ∀ w, (level dex i w).liquidity ≤ (level dex i (act w)).liquidity
  unopened : ∀ w, (level dex i w).supply = 0 →
    (level dex i (act w)).liquidity = (level dex i w).liquidity

inductive VaultEvent where
  | deposit (now : Nat) (args : DepositArgs)
  | withdraw (now : Nat) (args : WithdrawArgs)
  | harvest (now : Nat)
  | beside (b : Beside site dex i)

/-- A call that reverts leaves no trace. -/
def vaultStep (w : World Market) : VaultEvent site dex i → World Market
  | .deposit now args =>
      match deposit site dex i now w args with
      | .ok (w', _) => w'
      | .error _ => w
  | .withdraw now args =>
      match withdraw site dex i now w args with
      | .ok w' => w'
      | .error _ => w
  | .harvest now =>
      match dex.harvest now i w with
      | .ok w' => w'
      | .error _ => w
  | .beside b => b.act w

variable {site dex i} {now : Nat} {w w' : World Market} (laws : PositionLaws dex i)

theorem vaultStep_deposit {args : DepositArgs} {n : Nat}
    (h : deposit site dex i now w args = .ok (w', n)) :
    vaultStep site dex i w (.deposit now args) = w' := by
  unfold vaultStep
  simp only [h]

theorem vaultStep_withdraw {args : WithdrawArgs} (h : withdraw site dex i now w args = .ok w') :
    vaultStep site dex i w (.withdraw now args) = w' := by
  unfold vaultStep
  simp only [h]

theorem level_covered (w : World Market) : (level dex i w).locked ≤ (level dex i w).supply :=
  (w.books i).shares.balanceOf_le DEAD

include laws

theorem deposit_deposited {args : DepositArgs} {n : Nat}
    (h : deposit site dex i now w args = .ok (w', n)) :
    ∃ added, Deposited (level dex i w) added n (level dex i w') := by
  unfold deposit at h
  split at h
  · exact VaultV3.deposit_deposited laws h
  · exact VaultV4.deposit_deposited laws h

theorem withdraw_withdrawn {args : WithdrawArgs}
    (h : withdraw site dex i now w args = .ok w') :
    Withdrawn (level dex i w) args.shares (level dex i w') := by
  unfold withdraw at h
  split at h
  · exact VaultV3.withdraw_withdrawn laws args.sender.2 h
  · exact VaultV4.withdraw_withdrawn laws args.sender.2 h

/-- A step keeps a vault sound, and its shares are not worth less after it. -/
theorem vaultStep_sound (e : VaultEvent site dex i) (hw : Sound (level dex i w)) :
    Sound (level dex i (vaultStep site dex i w e)) ∧
      NoLess (level dex i w) (level dex i (vaultStep site dex i w e)) := by
  have hsame : Sound (level dex i w) ∧ NoLess (level dex i w) (level dex i w) :=
    ⟨hw, NoLess.refl _⟩
  cases e with
  | deposit now args =>
      unfold vaultStep
      dsimp only
      split
      next w' n hdeposit =>
        obtain ⟨added, hdeposited⟩ := deposit_deposited laws hdeposit
        exact ⟨hdeposited.sound hw (level_covered w'), hdeposited.noLess⟩
      next => exact hsame
  | withdraw now args =>
      unfold vaultStep
      dsimp only
      split
      next w' hwithdraw =>
        have hwithdrawn := withdraw_withdrawn laws hwithdraw
        have hfloor := hw.floor hwithdrawn.divisor
        have hmin : 0 < MIN_SHARES := by decide
        exact ⟨hwithdrawn.sound hw, hwithdrawn.noLess (by omega)⟩
      next => exact hsame
  | harvest now =>
      unfold vaultStep
      dsimp only
      split
      next w' hharvest =>
        rw [level_harvest laws hharvest]
        exact hsame
      next => exact hsame
  | beside b =>
      have hsupply := b.supply w
      have hlocked := b.locked w
      have hliquidity := b.liquidity w
      have hcovered : (level dex i (b.act w)).locked ≤ (level dex i (b.act w)).supply :=
        level_covered _
      have hunopened := b.unopened w
      have hworth := hw.worth
      show Sound (level dex i (b.act w)) ∧ NoLess (level dex i w) (level dex i (b.act w))
      refine ⟨⟨?_, ?_, hcovered, by omega⟩, ?_⟩
      · intro hzero
        rw [hunopened (hsupply.symm.trans hzero)]
        exact hw.unopened (hsupply.symm.trans hzero)
      · intro hpos
        exact (hw.floor (by omega)).trans hlocked
      · intro hpos
        refine ⟨by omega, ?_⟩
        rw [hsupply]
        exact Nat.mul_le_mul_right _ hliquidity

/-- So does a run. -/
theorem run_sound (es : List (VaultEvent site dex i)) (hw : Sound (level dex i w)) :
    Sound (level dex i (es.foldl (vaultStep site dex i) w)) ∧
      NoLess (level dex i w) (level dex i (es.foldl (vaultStep site dex i) w)) := by
  induction es generalizing w with
  | nil => exact ⟨hw, NoLess.refl _⟩
  | cons e es ih =>
      obtain ⟨hstep, hnoLess⟩ := vaultStep_sound laws e hw
      obtain ⟨hrest, hnoLess'⟩ := ih hstep
      exact ⟨hrest, hnoLess.trans hnoLess'⟩

/-- Nothing is added to the position but by a deposit. -/
def VaultEvent.NoDonation : VaultEvent site dex i → Prop
  | .beside b => ∀ w, (level dex i (b.act w)).liquidity = (level dex i w).liquidity
  | _ => True

theorem vaultStep_grows {e : VaultEvent site dex i} (he : e.NoDonation)
    (hw : Sound (level dex i w)) (hpos : (level dex i w).supply ≠ 0) :
    Grows 1 (level dex i w) (level dex i (vaultStep site dex i w e)) := by
  have hsame : Grows 1 (level dex i w) (level dex i w) := Grows.same rfl rfl
  cases e with
  | deposit now args =>
      unfold vaultStep
      dsimp only
      split
      next w' n hdeposit =>
        obtain ⟨added, hdeposited⟩ := deposit_deposited laws hdeposit
        exact hdeposited.grows hw hpos
      next => exact hsame
  | withdraw now args =>
      unfold vaultStep
      dsimp only
      split
      next w' hwithdraw => exact (withdraw_withdrawn laws hwithdraw).grows hw
      next => exact hsame
  | harvest now =>
      unfold vaultStep
      dsimp only
      split
      next w' hharvest =>
        rw [level_harvest laws hharvest]
        exact hsame
      next => exact hsame
  | beside b => exact Grows.same (b.supply w) (he w)

theorem run_grows {es : List (VaultEvent site dex i)} (hes : ∀ e ∈ es, e.NoDonation)
    (hw : Sound (level dex i w)) (hpos : (level dex i w).supply ≠ 0) :
    Grows es.length (level dex i w) (level dex i (es.foldl (vaultStep site dex i) w)) := by
  induction es generalizing w with
  | nil => exact Grows.zero _
  | cons e es ih =>
      obtain ⟨he, hes⟩ := List.forall_mem_cons.mp hes
      obtain ⟨hstep, hnoLess⟩ := vaultStep_sound laws e hw
      have hpos' := (hnoLess hpos).1
      exact (vaultStep_grows laws he hw hpos).cons (ih hes hstep hpos') hpos'

omit laws

variable (site dex i) in
/-- Shares that a deposit at `w` mints, withdrawn after some steps without a donation: the
liquidity that comes out is as `allowed` by the number of steps and by what the deposit added. -/
def BringsBack (allowed : (steps added out : Nat) → Prop) (w : World Market) : Prop :=
  ∀ (now : Nat) (args : DepositArgs) (w₁ : World Market) (n : Nat),
    deposit site dex i now w args = .ok (w₁, n) →
  ∀ after : List (VaultEvent site dex i), (∀ e ∈ after, e.NoDonation) →
  ∀ (later : Nat) (args' : WithdrawArgs) (w₃ : World Market), args'.shares = n →
    let w₂ := after.foldl (vaultStep site dex i) w₁
    withdraw site dex i later w₂ args' = .ok w₃ →
    allowed after.length ((level dex i w₁).liquidity - (level dex i w).liquidity)
      ((level dex i w₂).liquidity - (level dex i w₃).liquidity)

include laws in
theorem brings_back (hw : Sound (level dex i w)) :
    BringsBack site dex i
      (fun k added out => out * MIN_SHARES ^ k ≤ added * (MIN_SHARES + 1) ^ k) w := by
  intro now args w₁ n hdeposit after hafter later args' w₃ hshares w₂ hwithdraw
  subst hshares
  obtain ⟨added, hdeposited⟩ := deposit_deposited laws hdeposit
  have hwithdrawn := withdraw_withdrawn laws hwithdraw
  have hsound := hdeposited.sound hw (level_covered w₁)
  have hadded : (level dex i w₁).liquidity = (level dex i w).liquidity + added := by
    cases hdeposited with
    | first _ _ _ _ hliquidity => exact hliquidity
    | later _ _ _ _ hliquidity => exact hliquidity
  have hpos : (level dex i w₁).supply ≠ 0 := by
    have hmin : 0 < MIN_SHARES := by decide
    cases hdeposited with
    | first _ _ _ hsupply => omega
    | later hsupply _ _ hsupply' => omega
  have hworth := hsound.worth
  have hgrown := redeemed_grown_le (hdeposited.worth_le hw) (run_grows laws hafter hsound hpos)
    (by omega) hwithdrawn.divisor
  have hout : (level dex i w₂).liquidity - (level dex i w₃).liquidity ≤
      redeemed args'.shares (level dex i w₂).supply (level dex i w₂).liquidity := by
    rw [hwithdrawn.liquidity]
    omega
  rw [hadded, Nat.add_sub_cancel_left]
  exact (Nat.mul_le_mul_right _ hout).trans hgrown

end Runs

/-! ### Rounding in favour of the holders -/

section Sample

variable {site : Site} {dex : Dex site Market} {now i : Nat} {w : World Market}

/-- A V3 stake, with vault 4, farm 5 and token 6. -/
def pooledSite : Site where
  generation := .v3
  zap := 1
  weth := 2
  venue := 3
  stakes _ := ⟨4, 5, 6, -60, 60⟩
  weth_ne := sampleSite.weth_ne
  venue_ne := sampleSite.venue_ne
  vault_ne := sampleSite.vault_ne
  farm_ne := sampleSite.farm_ne
  dead_ne := sampleSite.dead_ne
  token_ne _ _ := by decide

/-- A position that takes a unit of WETH for a unit of liquidity. -/
def pooledDex : Dex pooledSite Nat where
  swap _ _ _ _ := none
  slot0 _ _ := (0, 0)
  liquidity m _ := m
  increase m _ a _ := some ((a, a, 0), m + a)
  modify m _ liq _ _ := some ((0, 0), m + liq)
  decrease m _ liq _ _ := some ((liq, 0), m - liq)
  harvest _ _ w := .ok w
  harvest_purse h := by
    cases h
    rfl

theorem pooledDex_laws : PositionLaws pooledDex 0 where
  increase h := by
    cases h
    rfl
  modify h := by
    cases h
    rfl
  decrease h := by
    cases h
    rfl
  harvest h := by
    cases h
    exact ⟨rfl, rfl⟩

/-- Everybody has WETH, and nobody has shares. -/
def pooledWorld : World Nat where
  holds _ _ := 10 ^ 18
  books _ := { farm := {}, shares := Shares.empty, received := 0, claimed := fun _ => 0 }
  market := 0

/-- Account `sender` deposits WETH. -/
def depositOf (sender : Address) (amount : Nat) : DepositArgs where
  sender := sender
  value := 0
  wethDesired := amount
  tokenDesired := 0
  etherMin := 0
  tokenMin := 0
  dst := sender

/-- Somebody adds liquidity to a position that is open. -/
def donation (amount : Nat) : Beside pooledSite pooledDex 0 where
  act w := if (w.books 0).shares.totalSupply = 0 then w else { w with market := w.market + amount }
  supply w := by split <;> rfl
  locked w := by split <;> exact Nat.le_refl _
  liquidity w := by
    split
    · exact Nat.le_refl _
    · exact Nat.le_add_right _ _
  unopened w h := by
    have hzero : (w.books 0).shares.totalSupply = 0 := h
    rw [if_pos hzero]

/-- A vault whose shares are worth one and a half. -/
def pooledOpening : List (VaultEvent pooledSite pooledDex 0) :=
  [.deposit 0 (depositOf 7 (2 * 10 ^ 9)), .beside (donation (10 ^ 9))]

/-- Deposits that are worth a share and a third, and mint one. -/
def pooledDust : List (VaultEvent pooledSite pooledDex 0) :=
  List.replicate 5 (.deposit 0 (depositOf 9 2))

def pooledExit : WithdrawArgs where
  sender := ⟨8, by decide⟩
  shares := 2 * 10 ^ 9
  etherMin := 0
  tokenMin := 0
  dst := 8

theorem deposit_of_minted {args : DepositArgs} {n : Nat}
    (h : ((deposit site dex i now w args).toOption.map Prod.snd) = some n) :
    deposit site dex i now w args = .ok (vaultStep site dex i w (.deposit now args), n) := by
  cases hdeposit : deposit site dex i now w args with
  | error e =>
      rw [hdeposit] at h
      cases h
  | ok r =>
      rw [hdeposit] at h
      cases h
      rw [vaultStep_deposit hdeposit]

theorem withdraw_of_isSome {args : WithdrawArgs}
    (h : (withdraw site dex i now w args).toOption.isSome = true) :
    withdraw site dex i now w args = .ok (vaultStep site dex i w (.withdraw now args)) := by
  cases hwithdraw : withdraw site dex i now w args with
  | error e =>
      rw [hwithdraw] at h
      cases h
  | ok w' => rw [vaultStep_withdraw hwithdraw]

end Sample

end StakeZap

end Ordo
