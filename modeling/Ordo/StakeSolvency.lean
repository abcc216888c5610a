import Ordo.StakeFarm

/-!
# The stake farm is solvent

Over any run of calls at block times that do not decrease, what the stakers have
earned and what the stream has still to pay are covered by the WETH notified and not
yet paid out, and the stakes by the shares the farm holds.  The zero address is left
out: shares can be staked for it, but `update` passes it over, so that it can take
nothing and what `earned` says of it means nothing.

The invariant is about one sum, the debt of the farm's accounts.  Bringing an account
up to date never raises it, time moves the stream's payments into it, and a
notification restarts the stream with no more than what was left and the new reward.
-/

namespace Ordo

open Stake

/-- The accounts that can hold stake and take rewards: all but the zero address. -/
def holders : Finset Address := Finset.univ.erase 0

theorem mem_holders {a : Address} : a ∈ holders ↔ a ≠ 0 := by
  simp [holders]

/-- A farm at `now`, of which `received` has been notified and `spent` paid out. -/
structure FarmFunded (now received spent : Nat) (f : StakeFarm) : Prop where
  last_now : f.lastUpdateTime ≤ now
  last_finish : f.lastUpdateTime ≤ f.periodFinish
  supply : ∑ a, f.balanceOf a = f.totalSupply
  paid_le : ∀ a ∈ holders, f.userRewardPerTokenPaid a ≤ f.rewardPerTokenStored
  rewards_zero : f.rewards 0 = 0
  /-- What is owed, what will be streamed and what has been paid came in. -/
  covered : f.pool.debt StakeFarm.SCALE holders
    + StakeFarm.SCALE * (f.stream.remaining + spent) ≤ StakeFarm.SCALE * received
  /-- A share is never worth more than everything that came in. -/
  index_le : f.rewardPerTokenStored + StakeFarm.SCALE * f.stream.remaining
    ≤ StakeFarm.SCALE * received

namespace FarmFunded

open StakeFarm

variable {now later received spent : Nat} {f : StakeFarm} {account : Address}

theorem sound (h : FarmFunded now received spent f) : f.pool.Sound holders where
  paid_le := h.paid_le
  weight_le := by
    show ∑ a ∈ holders, f.balanceOf a ≤ f.totalSupply
    rw [← h.supply]
    exact Finset.sum_le_sum_of_subset (Finset.subset_univ _)

/-- The farm is funded when it is deployed. -/
theorem deployed (now : Nat) : FarmFunded now 0 0 {} where
  last_now := Nat.zero_le _
  last_finish := le_rfl
  supply := by simp
  paid_le _ _ := le_rfl
  rewards_zero := rfl
  covered := by
    simp [Accrual.Pool.debt, Accrual.Pool.growth, pool, stream, Accrual.Stream.remaining]
  index_le := by
    simp [stream, Accrual.Stream.remaining]

/-- The last payment of a funded farm is not after what is applicable later. -/
theorem last_le (h : FarmFunded now received spent f) (time : now ≤ later) :
    f.stream.last ≤ min later f.stream.finish :=
  le_min (h.last_now.trans time) h.last_finish

/-- What is due comes from the stream and goes to the accounts. -/
theorem advanced (h : FarmFunded now received spent f) (time : now ≤ later) :
    FarmFunded later received spent (f.advanced later) where
  last_now := min_le_left _ _
  last_finish := min_le_right _ _
  supply := h.supply
  paid_le := (h.sound.accrue _).paid_le
  rewards_zero := h.rewards_zero
  covered := by
    have hdebt : (f.poolAt later).debt SCALE holders
        ≤ f.pool.debt SCALE holders + SCALE * f.stream.due later :=
      Accrual.Pool.debt_accrue_le h.sound _
    have hrest := Accrual.Stream.remaining_advance (h.last_le time)
    have hcovered := h.covered
    rw [← hrest, Nat.mul_add, Nat.mul_add] at hcovered
    show (f.poolAt later).debt SCALE holders
      + SCALE * ((f.stream.advance later).remaining + spent) ≤ _
    rw [Nat.mul_add]
    omega
  index_le := by
    have hrest := Accrual.Stream.remaining_advance (h.last_le time)
    have hindex := h.index_le
    rw [← hrest, Nat.mul_add] at hindex
    have hshare : f.stream.due later * SCALE / f.totalSupply ≤ SCALE * f.stream.due later := by
      rw [Nat.mul_comm]
      exact Nat.div_le_self _ _
    show f.rewardPerTokenStored + f.stream.due later * SCALE / f.totalSupply
      + SCALE * (f.stream.advance later).remaining ≤ _
    omega

/-- `update` keeps the farm funded. -/
theorem updated (h : FarmFunded now received spent f) (time : now ≤ later) :
    FarmFunded later received spent (f.updated later account) := by
  have hadv := h.advanced time
  unfold StakeFarm.updated
  split
  · exact hadv
  · rename_i haccount
    exact {
      last_now := hadv.last_now
      last_finish := hadv.last_finish
      supply := hadv.supply
      paid_le := by
        have hsettled : ((f.poolAt later).settle SCALE account).Sound holders :=
          hadv.sound.settle account
        exact hsettled.paid_le
      rewards_zero := by
        have : (0 : Address) ≠ account := Ne.symm haccount
        simpa [this] using h.rewards_zero
      covered := by
        have hsettle : ((f.poolAt later).settle SCALE account).debt SCALE holders
            ≤ (f.poolAt later).debt SCALE holders := Accrual.Pool.debt_settle_le account
        have hcovered := hadv.covered
        rw [pool_advanced] at hcovered
        exact (Nat.add_le_add_right hsettle _).trans hcovered
      index_le := hadv.index_le }

/-- The stake of an account that is up to date can change. -/
theorem restaked {total v : Nat} (h : FarmFunded now received spent f)
    (upToDate : account ∈ holders → f.rewardPerTokenStored ≤ f.userRewardPerTokenPaid account)
    (htotal : ∑ a, Function.update f.balanceOf account v a = total) :
    FarmFunded now received spent { f with
      totalSupply := total, balanceOf := Function.update f.balanceOf account v } where
  last_now := h.last_now
  last_finish := h.last_finish
  supply := htotal
  paid_le := h.paid_le
  rewards_zero := h.rewards_zero
  covered := by
    have hdebt : (f.pool.reweigh account v total).debt SCALE holders
        = f.pool.debt SCALE holders := Accrual.Pool.debt_reweigh upToDate v total
    have hcovered := h.covered
    rw [← hdebt] at hcovered
    exact hcovered
  index_le := h.index_le

/-- An account that has been credited is paid. -/
theorem cleared (h : FarmFunded now received spent f) (haccount : account ∈ holders) :
    FarmFunded now received (spent + f.rewards account) (f.clearRewards account) where
  last_now := h.last_now
  last_finish := h.last_finish
  supply := h.supply
  paid_le := h.paid_le
  rewards_zero := by
    have : (0 : Address) ≠ account := (mem_holders.mp haccount).symm
    simpa [clearRewards, this] using h.rewards_zero
  covered := by
    have hclear : (f.pool.clear account).debt SCALE holders + SCALE * f.rewards account
        = f.pool.debt SCALE holders := Accrual.Pool.debt_clear haccount
    have hcovered := h.covered
    show (f.pool.clear account).debt SCALE holders
      + SCALE * (f.stream.remaining + (spent + f.rewards account)) ≤ _
    rw [← Nat.add_assoc, Nat.mul_add]
    omega
  index_le := h.index_le

/-- The stream is restarted with what was left of it and a reward that came in. -/
theorem restarted {reward rate : Nat} (h : FarmFunded now received spent f)
    (hlast : f.lastUpdateTime = min now f.periodFinish) (hrate : f.newRate now reward = .ok rate) :
    FarmFunded now (received + reward) spent
      { f with rewardRate := rate, lastUpdateTime := now, periodFinish := now + DURATION } := by
  have hpays : (Accrual.Stream.mk rate now (now + DURATION)).remaining
      ≤ reward + f.stream.remaining := by
    unfold newRate at hrate
    split at hrate
    · cases hrate
      exact (Accrual.Stream.remaining_restart_le reward 0 now DURATION).trans
        (Nat.add_le_add_left (Nat.zero_le _) _)
    · simp only [bind_eq_ok, checked_eq_ok, subU_eq_some, mulU_eq_some, addU_eq_some,
        pure_eq_ok] at hrate
      obtain ⟨_, ⟨_, rfl⟩, _, ⟨_, rfl⟩, _, ⟨_, rfl⟩, rfl⟩ := hrate
      have hleft : (f.periodFinish - now) * f.rewardRate = f.stream.remaining := by
        have hnow : f.lastUpdateTime = now := by omega
        rw [Accrual.Stream.remaining, stream, hnow, Nat.mul_comm]
      rw [hleft]
      exact Accrual.Stream.remaining_restart_le ..
  exact {
    last_now := le_rfl
    last_finish := Nat.le_add_right _ _
    supply := h.supply
    paid_le := h.paid_le
    rewards_zero := h.rewards_zero
    covered := by
      have hcovered := h.covered
      have hscaled := Nat.mul_le_mul_left SCALE hpays
      rw [Nat.mul_add] at hscaled hcovered ⊢
      rw [Nat.mul_add]
      show f.pool.debt SCALE holders + _ ≤ _
      show f.pool.debt SCALE holders + (SCALE * (Accrual.Stream.mk rate now
        (now + DURATION)).remaining + SCALE * spent) ≤ _
      omega
    index_le := by
      have hindex := h.index_le
      have hscaled := Nat.mul_le_mul_left SCALE hpays
      rw [Nat.mul_add] at hscaled ⊢
      show f.rewardPerTokenStored + SCALE * (Accrual.Stream.mk rate now
        (now + DURATION)).remaining ≤ _
      omega }

end FarmFunded

/-- An updated account is paid up to the index. -/
theorem StakeFarm.updated_upToDate {f : StakeFarm} {now : Nat} {account : Address}
    (h : account ∈ holders) : (f.updated now account).rewardPerTokenStored
      ≤ (f.updated now account).userRewardPerTokenPaid account := by
  have hne := mem_holders.mp h
  simp [updated, advanced, hne]

/-- A farm in the world at `now`: it is funded, and it holds the WETH it has not paid
out and the shares that are staked. -/
structure Solvent (site : FarmSite) (now : Nat) (w : FarmWorld) : Prop where
  funded : FarmFunded now w.received (∑ a, w.claimed a) w.farm
  kept : w.received ≤ w.weth site.self + ∑ a, w.claimed a
  held : w.farm.totalSupply ≤ w.shares.balanceOf site.self

namespace Solvent

open StakeFarm FarmWorld

variable {site : FarmSite} {now later : Nat} {w w' : FarmWorld} {sender account : Address}

theorem updated (h : Solvent site now w) (time : now ≤ later) (account : Address) :
    Solvent site later { w with farm := w.farm.updated later account } where
  funded := h.funded.updated time
  kept := h.kept
  held := by
    have hsame : (w.farm.updated later account).totalSupply = w.farm.totalSupply := by
      unfold StakeFarm.updated
      split <;> rfl
    show (w.farm.updated later account).totalSupply ≤ _
    rw [hsame]
    exact h.held

/-- Paying an account what it has been credited keeps the farm solvent. -/
theorem payRewards {dst : Address} (h : Solvent site now w)
    (hpos : w.farm.rewards account ≠ 0) (ok : w.payRewards site account dst = .ok w') :
    Solvent site now w' := by
  have haccount : account ≠ 0 := by
    intro hzero
    exact hpos (hzero ▸ h.funded.rewards_zero)
  simp only [FarmWorld.payRewards, bind_eq_ok, pure_eq_ok] at ok
  obtain ⟨weth, hsent, rfl⟩ := ok
  unfold sendWeth at hsent
  split at hsent
  · cases hsent
  · cases hsent
    have hclaimed := Custody.sum_update_add w.claimed account
      (w.claimed account + w.farm.rewards account)
    have hsum : ∑ a, Function.update w.claimed account
        (w.claimed account + w.farm.rewards account) a
        = ∑ a, w.claimed a + w.farm.rewards account := by
      omega
    exact {
      funded := by
        show FarmFunded now w.received (∑ a, Function.update w.claimed account _ a) _
        rw [hsum]
        exact h.funded.cleared (mem_holders.mpr haccount)
      kept := by
        have hleft : w.weth site.self - w.farm.rewards account
            ≤ moved w.weth site.self dst (w.farm.rewards account) site.self := le_moved_src
        have hkept := h.kept
        show w.received ≤ moved w.weth site.self dst _ site.self
          + ∑ a, Function.update w.claimed account _ a
        rw [hsum]
        omega
      held := h.held }

theorem payRewardsIfAny (h : Solvent site now w)
    (ok : w.payRewardsIfAny site account = .ok w') : Solvent site now w' := by
  unfold FarmWorld.payRewardsIfAny at ok
  split at ok
  · exact h.payRewards (by omega) ok
  · cases ok
    exact h

/-- Stake that comes in with its shares. -/
theorem staked {farm : StakeFarm} {shares : Shares} {src : Address} {amount : Nat}
    (h : Solvent site now w) (hsrc : src ≠ site.self)
    (upToDate : account ∈ holders →
      w.farm.rewardPerTokenStored ≤ w.farm.userRewardPerTokenPaid account)
    (hadd : w.farm.addStake account amount = .ok farm)
    (hpull : w.shares.transferFrom site.self src site.self amount = .ok shares) :
    Solvent site now { w with farm, shares } := by
  simp only [addStake, bind_eq_ok, checked_eq_ok, addU_eq_some, pure_eq_ok] at hadd
  obtain ⟨_, ⟨_, rfl⟩, _, ⟨_, rfl⟩, rfl⟩ := hadd
  obtain ⟨_, _, _, hbal⟩ := Shares.transferFrom_moves hpull
  have hsum := Custody.sum_update_add w.farm.balanceOf account
    (w.farm.balanceOf account + amount)
  have hsupply := h.funded.supply
  exact {
    funded := h.funded.restaked upToDate (by omega)
    kept := h.kept
    held := by
      have hheld := h.held
      show w.farm.totalSupply + amount ≤ shares.balanceOf site.self
      rw [hbal, moved_dst hsrc]
      omega }

/-- Stake that goes out with its shares. -/
theorem unstaked {farm : StakeFarm} {shares : Shares} {dst : Address} {amount : Nat}
    (h : Solvent site now w)
    (upToDate : account ∈ holders →
      w.farm.rewardPerTokenStored ≤ w.farm.userRewardPerTokenPaid account)
    (hsub : w.farm.subStake account amount = .ok farm)
    (hsent : w.shares.transfer site.self dst amount = .ok shares) :
    Solvent site now { w with farm, shares } := by
  simp only [subStake, bind_eq_ok, checked_eq_ok, subU_eq_some, pure_eq_ok] at hsub
  obtain ⟨_, ⟨htotal, rfl⟩, _, ⟨hown, rfl⟩, rfl⟩ := hsub
  obtain ⟨_, _, _, _, hbal⟩ := Shares.move_eq_ok.mp hsent
  have hsum := Custody.sum_update_add w.farm.balanceOf account
    (w.farm.balanceOf account - amount)
  have hsupply := h.funded.supply
  exact {
    funded := h.funded.restaked upToDate (by omega)
    kept := h.kept
    held := by
      have hheld := h.held
      have hleft : w.shares.balanceOf site.self - amount
          ≤ moved w.shares.balanceOf site.self dst amount site.self := le_moved_src
      show w.farm.totalSupply - amount ≤ shares.balanceOf site.self
      rw [hbal]
      omega }

theorem stakeWith {src : Address} {amount : Nat} (h : Solvent site now w) (time : now ≤ later)
    (hsrc : src ≠ site.self) (ok : w.stakeWith site later src account amount = .ok w') :
    Solvent site later w' := by
  simp only [FarmWorld.stakeWith, bind_eq_ok, revertIf_eq_ok, pure_eq_ok] at ok
  obtain ⟨_, hupdate, _, _, farm, hadd, shares, hpull, rfl⟩ := ok
  cases update_eq_ok hupdate
  exact (h.updated time account).staked hsrc updated_upToDate hadd hpull

theorem withdraw {amount : Nat} (h : Solvent site now w) (time : now ≤ later)
    (ok : w.withdraw site later sender amount = .ok w') : Solvent site later w' := by
  simp only [FarmWorld.withdraw, bind_eq_ok, revertIf_eq_ok, pure_eq_ok] at ok
  obtain ⟨_, hupdate, _, _, farm, hsub, shares, hsent, rfl⟩ := ok
  cases update_eq_ok hupdate
  exact (h.updated time sender).unstaked updated_upToDate hsub hsent

theorem withdrawFor {amount : Nat} (h : Solvent site now w) (time : now ≤ later)
    (ok : w.withdrawFor site later sender account amount = .ok w') : Solvent site later w' := by
  simp only [FarmWorld.withdrawFor, bind_eq_ok, revertIf_eq_ok] at ok
  obtain ⟨_, hupdate, _, _, _, _, farm, hsub, shares, hsent, hpay⟩ := ok
  cases update_eq_ok hupdate
  exact ((h.updated time account).unstaked updated_upToDate hsub hsent).payRewardsIfAny hpay

theorem getReward (h : Solvent site now w) (time : now ≤ later)
    (ok : w.getReward site later sender = .ok w') : Solvent site later w' := by
  simp only [FarmWorld.getReward, bind_eq_ok] at ok
  obtain ⟨_, hupdate, hpay⟩ := ok
  cases update_eq_ok hupdate
  exact (h.updated time sender).payRewardsIfAny hpay

theorem exit (h : Solvent site now w) (time : now ≤ later)
    (ok : w.exit site later sender = .ok w') : Solvent site later w' := by
  simp only [FarmWorld.exit, bind_eq_ok] at ok
  obtain ⟨_, hwithdraw, hreward⟩ := ok
  exact (h.withdraw time hwithdraw).getReward le_rfl hreward

theorem compound (h : Solvent site now w) (time : now ≤ later)
    (ok : w.compound site later sender = .ok w') : Solvent site later w' := by
  simp only [FarmWorld.compound, bind_eq_ok, revertIf_eq_ok] at ok
  obtain ⟨_, hupdate, _, hpos, hpay⟩ := ok
  cases update_eq_ok hupdate
  exact (h.updated time sender).payRewards hpos hpay

/-- A notified reward has come in before it is streamed. -/
theorem notifyRewardAmount {reward : Nat} (h : Solvent site now w) (time : now ≤ later)
    (hsender : sender ≠ site.self)
    (ok : w.notifyRewardAmount site later sender reward = .ok w') : Solvent site later w' := by
  simp only [FarmWorld.notifyRewardAmount, bind_eq_ok, revertIf_eq_ok, checked_eq_ok,
    addU_eq_some, pure_eq_ok] at ok
  obtain ⟨_, hupdate, _, _, weth, hsent, rate, hrate, _, ⟨_, rfl⟩, rfl⟩ := ok
  cases update_eq_ok hupdate
  unfold sendWeth at hsent
  split at hsent
  · cases hsent
  · cases hsent
    have hup := h.updated time 0
    exact {
      funded := hup.funded.restarted rfl hrate
      kept := by
        have hkept := h.kept
        show w.received + reward ≤ moved w.weth sender site.self reward site.self
          + ∑ a, w.claimed a
        rw [moved_dst hsender]
        omega
      held := hup.held }

/-- **Every call keeps the farm solvent.** -/
theorem perform {c : FarmCall} (h : Solvent site now w) (time : now ≤ later)
    (hsender : sender ≠ site.self) (ok : w.perform site later sender c = .ok w') :
    Solvent site later w' := by
  cases c with
  | stake amount => exact h.stakeWith time hsender ok
  | stakeFor account amount => exact h.stakeWith time hsender ok
  | withdraw amount => exact h.withdraw time ok
  | withdrawFor account amount => exact h.withdrawFor time ok
  | getReward => exact h.getReward time ok
  | exit => exact h.exit time ok
  | compound => exact h.compound time ok
  | notifyRewardAmount reward => exact h.notifyRewardAmount time hsender ok

theorem elsewhere (h : Solvent site now w) (time : now ≤ later)
    (outside : Elsewhere site w w') : Solvent site later w' where
  funded := by
    rw [outside.farm, outside.received, outside.claimed]
    exact { h.funded with last_now := h.funded.last_now.trans time }
  kept := by
    have hkept := h.kept
    have hweth := outside.weth
    rw [outside.received, outside.claimed]
    omega
  held := by
    rw [outside.farm]
    exact h.held.trans outside.shares

/-- A farm is solvent throughout its run. -/
theorem of_run (run : FarmRun site now w) : Solvent site now w := by
  induction run with
  | deployed now shares weth =>
      exact {
        funded := by
          rw [Finset.sum_const_zero]
          exact FarmFunded.deployed now
        kept := Nat.zero_le _
        held := Nat.zero_le _ }
  | call run time notSelf ok ih => exact ih.perform time notSelf ok
  | elsewhere run time outside ih => exact ih.elsewhere time outside

end Solvent

namespace FarmFunded

open StakeFarm

variable {now later received spent : Nat} {f : StakeFarm} {account : Address}

/-- What one account has earned is part of the debt. -/
theorem growth_add_owed_le (haccount : account ∈ holders) :
    (f.poolAt now).growth account + SCALE * f.rewards account
      ≤ (f.poolAt now).debt SCALE holders :=
  Finset.single_le_sum (f := fun a => (f.poolAt now).growth a + SCALE * f.rewards a)
    (fun _ _ => Nat.zero_le _) haccount

/-- What `earned` returns, and 0 where it reverts, is at most what is pending. -/
theorem earned_getD_le :
    (f.earned now account).toOption.getD 0 ≤ (f.poolAt now).pending SCALE account := by
  cases h : f.earned now account with
  | error e => exact Nat.zero_le _
  | ok e => exact (earned_eq_ok.mp h).1.le

/-- Everything earned, still to be streamed or paid has come in. -/
theorem sum_earned_le (h : FarmFunded now received spent f) (time : now ≤ later) :
    ∑ a ∈ holders, (f.earned later a).toOption.getD 0
      + f.rewardRate * (f.periodFinish - later) + spent ≤ received := by
  have hearned : ∑ a ∈ holders, (f.earned later a).toOption.getD 0
      ≤ ∑ a ∈ holders, (f.poolAt later).pending SCALE a :=
    Finset.sum_le_sum fun _ _ => earned_getD_le
  have hdebt : SCALE * ∑ a ∈ holders, (f.poolAt later).pending SCALE a
      ≤ (f.poolAt later).debt SCALE holders := Accrual.Pool.scale_mul_sum_pending_le
  have hrest : (f.advanced later).stream.remaining = f.rewardRate * (f.periodFinish - later) := by
    show f.rewardRate * (f.periodFinish - min later f.periodFinish) = _
    congr 1
    omega
  have hcovered := (h.advanced time).covered
  rw [hrest, pool_advanced] at hcovered
  have hall : SCALE * (∑ a ∈ holders, (f.poolAt later).pending SCALE a
      + (f.rewardRate * (f.periodFinish - later) + spent)) ≤ SCALE * received := by
    rw [Nat.mul_add]
    omega
  have hunscaled := Nat.le_of_mul_le_mul_left hall (by decide)
  omega

/-- While the WETH that came in is below `2 ^ 256 / 1e18` wei, no computation of what
an account has earned overflows. -/
theorem earned_ok (h : FarmFunded now received spent f) (time : now ≤ later)
    (bound : received * 10 ^ 18 < 2 ^ 256) (haccount : account ∈ holders) :
    ∃ e, f.earned later account = .ok e := by
  have hbound : SCALE * received < 2 ^ 256 := by
    rw [Nat.mul_comm]
    exact bound
  have hadv := h.advanced time
  have hcovered := hadv.covered
  have hindex : (f.poolAt later).index < 2 ^ 256 := by
    have := hadv.index_le
    show (f.advanced later).rewardPerTokenStored < _
    omega
  have hdue : f.stream.due later * SCALE < 2 ^ 256 := by
    have hrest := Accrual.Stream.remaining_advance (h.last_le time)
    have hcov := h.covered
    rw [← hrest, Nat.mul_add, Nat.mul_add] at hcov
    rw [Nat.mul_comm]
    omega
  have hone : (f.poolAt later).growth account + SCALE * f.rewards account
      ≤ (f.poolAt later).debt SCALE holders := growth_add_owed_le haccount
  rw [pool_advanced] at hcovered
  have hpending : (f.poolAt later).pending SCALE account
      ≤ (f.poolAt later).growth account + SCALE * f.rewards account := by
    have hsmall : (f.poolAt later).growth account / SCALE ≤ (f.poolAt later).growth account :=
      Nat.div_le_self _ _
    have howed : f.rewards account ≤ SCALE * f.rewards account :=
      Nat.le_mul_of_pos_left _ (by decide)
    exact Nat.add_le_add hsmall howed
  have hr : f.rewardPerToken later = .ok (f.poolAt later).index :=
    rewardPerToken_eq_ok.mpr ⟨rfl, fun _ => ⟨h.last_le time, hdue, hindex⟩⟩
  have hpaid := hadv.paid_le account haccount
  exact ⟨_, earned_eq_ok.mpr ⟨rfl, ⟨_, hr⟩, hpaid, by omega, by omega⟩⟩

end FarmFunded

namespace Solvent

open StakeFarm

variable {site : FarmSite} {now later : Nat} {w : FarmWorld} {account : Address} {e : Nat}

theorem updated_rewards {f : StakeFarm} (haccount : account ∈ holders)
    (he : f.earned now account = .ok e) : (f.updated now account).rewards account = e := by
  have hne := mem_holders.mp haccount
  rw [(earned_eq_ok.mp he).1]
  simp [StakeFarm.updated, hne]

/-- Whatever an account has earned, it is paid when it asks. -/
theorem getReward_ok (h : Solvent site now w) (time : now ≤ later)
    (haccount : account ∈ holders) (he : w.farm.earned later account = .ok e) :
    ∃ w', w.getReward site later account = .ok w' ∧
      w'.claimed account = w.claimed account + e := by
  have hrewards := updated_rewards haccount he
  have hkept := h.kept
  have hpaid : e ≤ w.weth site.self := by
    have hsum := h.funded.sum_earned_le time
    have hone : e ≤ ∑ a ∈ holders, (w.farm.earned later a).toOption.getD 0 := by
      have hmem := Finset.single_le_sum
        (f := fun a => (w.farm.earned later a).toOption.getD 0)
        (fun _ _ => Nat.zero_le _) haccount
      rw [he] at hmem
      exact hmem
    omega
  have hupdate := update_ok he
  simp only [FarmWorld.getReward, bind_eq_ok]
  unfold FarmWorld.payRewardsIfAny
  by_cases hzero : e = 0
  · refine ⟨_, ⟨_, hupdate, if_neg ?_⟩, ?_⟩
    · show ¬0 < (w.farm.updated later account).rewards account
      omega
    · show w.claimed account = _
      omega
  · refine ⟨_, ⟨_, hupdate, (if_pos ?_).trans (bind_eq_ok.mpr ⟨_, if_neg ?_, rfl⟩)⟩, ?_⟩
    · show 0 < (w.farm.updated later account).rewards account
      omega
    · show ¬w.weth site.self < (w.farm.updated later account).rewards account
      omega
    · show Function.update w.claimed account (w.claimed account
        + (w.farm.updated later account).rewards account) account = _
      rw [Function.update_self, hrewards]

/-- Whoever has staked shares gets them back when it asks. -/
theorem withdraw_ok {amount : Nat} (h : Solvent site now w) (haccount : account ∈ holders)
    (he : w.farm.earned later account = .ok e) (hpos : 0 < amount)
    (hown : amount ≤ w.farm.balanceOf account) :
    ∃ w', w.withdraw site later account amount = .ok w' := by
  have htotal : w.farm.balanceOf account ≤ w.farm.totalSupply := by
    rw [← h.funded.supply]
    exact Finset.single_le_sum (fun _ _ => Nat.zero_le _) (Finset.mem_univ account)
  have hheld := h.held
  have hsame : (w.farm.updated later account).totalSupply = w.farm.totalSupply ∧
      (w.farm.updated later account).balanceOf = w.farm.balanceOf := by
    unfold StakeFarm.updated
    split <;> exact ⟨rfl, rfl⟩
  have hzero : ¬amount = 0 := by omega
  obtain ⟨shares, hsent⟩ : ∃ shares, w.shares.transfer site.self account amount = .ok shares := by
    unfold Shares.transfer Shares.move
    rw [if_neg (mem_holders.mp haccount), dif_neg (by omega)]
    exact ⟨_, rfl⟩
  simp only [FarmWorld.withdraw, bind_eq_ok, revertIf_eq_ok, subStake, checked_eq_ok,
    subU_eq_some]
  refine ⟨_, _, update_ok he, (), hzero, _,
    ⟨_, ⟨?_, rfl⟩, _, ⟨?_, rfl⟩, rfl⟩, shares, hsent, rfl⟩
  · rw [hsame.1]
    omega
  · rw [hsame.2]
    exact hown

end Solvent

/-- Farm 1, vault 2, zap 3. -/
def sampleSite : FarmSite := ⟨1, 2, 3⟩

/-- Account 4 has ten shares, which the farm may take; everybody has some WETH. -/
def sampleWorld : FarmWorld where
  farm := {}
  shares :=
    { totalSupply := 10
      balanceOf := Function.update (fun _ => 0) 4 10
      allowance := fun _ _ => 2 ^ 256 - 1
      backed := Custody.sum_single 4 10
      fits := by decide }
  weth := fun _ => 10 ^ 18
  received := 0
  claimed := fun _ => 0

/-- One share is staked, a wei for each second of the week is notified, and when the
week is over a share is staked for the zero address. -/
def sampleCalls : List TimedCall :=
  [⟨1000, 4, .stake 1⟩, ⟨1000, 2, .notifyRewardAmount 604800⟩, ⟨605800, 4, .stakeFor 0 1⟩]

theorem sampleCalls_run : ∃ w, FarmRun sampleSite 605800 w ∧
    w.farm.earned 605800 0 = .ok 604800 ∧ w.farm.earned 605800 4 = .ok 604800 ∧
    w.received = 604800 ∧ w.farm.balanceOf 4 = 1 := by
  have hquery : (FarmWorld.performAll sampleSite sampleCalls sampleWorld).toOption.map
      (fun w => (w.farm.earned 605800 0, w.farm.earned 605800 4, w.received,
        w.farm.balanceOf 4)) = some (.ok 604800, .ok 604800, 604800, 1) := by
    decide +kernel
  cases hrun : FarmWorld.performAll sampleSite sampleCalls sampleWorld with
  | error e =>
      rw [hrun] at hquery
      cases hquery
  | ok w =>
      rw [hrun] at hquery
      simp only [Except.toOption, Option.map_some, Option.some.injEq, Prod.mk.injEq] at hquery
      have hstart : FarmRun sampleSite 0 sampleWorld := FarmRun.deployed ..
      exact ⟨w, hstart.performAll (by decide) (by decide) hrun, hquery⟩

end Ordo
