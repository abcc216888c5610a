import Ordo.Accrual
import Ordo.Shares

/-!
# The stake farm

Shares of a vault are staked in the farm, and the WETH the vault notifies is paid
out over seven days, in proportion to the stakes.  The farm keeps no list of its
stakers: it keeps an index and brings an account up to date when the account is
used.  A call is a function of the block time and the world, which is the farm
with the two tokens it holds; a revert is an error and leaves no trace.

The guard against reentrancy is left out: the only contracts the farm calls while
it is locked are the share token and WETH, and neither calls back.
-/

namespace Ordo

open Stake

/-- `DURATION`: seven days. -/
def DURATION : Nat := 7 * 24 * 3600

/-- The farm's storage. -/
structure StakeFarm where
  periodFinish : Nat := 0
  rewardRate : Nat := 0
  lastUpdateTime : Nat := 0
  rewardPerTokenStored : Nat := 0
  totalSupply : Nat := 0
  userRewardPerTokenPaid : Address → Nat := fun _ => 0
  rewards : Address → Nat := fun _ => 0
  balanceOf : Address → Nat := fun _ => 0

namespace StakeFarm

def lastTimeRewardApplicable (f : StakeFarm) (now : Nat) : Nat :=
  if now < f.periodFinish then now else f.periodFinish

def rewardPerToken (f : StakeFarm) (now : Nat) : Except StakeError Nat :=
  if f.totalSupply = 0 then .ok f.rewardPerTokenStored
  else do
    let elapsed ← checked (subU (f.lastTimeRewardApplicable now) f.lastUpdateTime)
    let streamed ← checked (mulU elapsed f.rewardRate)
    let scaled ← checked (mulU streamed (10 ^ 18))
    let delta ← checked (divU scaled f.totalSupply)
    checked (addU f.rewardPerTokenStored delta)

def earned (f : StakeFarm) (now : Nat) (account : Address) : Except StakeError Nat := do
  let perToken ← f.rewardPerToken now
  let growth ← checked (subU perToken (f.userRewardPerTokenPaid account))
  let scaled ← checked (mulU (f.balanceOf account) growth)
  checked (addU (scaled / 10 ^ 18) (f.rewards account))

/-- The modifier `update`: the index is brought up to date, and the account with it
unless it is the zero address. -/
def update (f : StakeFarm) (now : Nat) (account : Address) : Except StakeError StakeFarm := do
  let perToken ← f.rewardPerToken now
  let f := { f with rewardPerTokenStored := perToken }
  let f := { f with lastUpdateTime := f.lastTimeRewardApplicable now }
  if account = 0 then return f
  else do
    let owed ← f.earned now account
    return { f with
      rewards := Function.update f.rewards account owed
      userRewardPerTokenPaid :=
        Function.update f.userRewardPerTokenPaid account f.rewardPerTokenStored }

/-- The stake of an account grows. -/
def addStake (f : StakeFarm) (account : Address) (amount : Nat) : Except StakeError StakeFarm := do
  let total ← checked (addU f.totalSupply amount)
  let balance ← checked (addU (f.balanceOf account) amount)
  return { f with
    totalSupply := total, balanceOf := Function.update f.balanceOf account balance }

/-- The stake of an account shrinks. -/
def subStake (f : StakeFarm) (account : Address) (amount : Nat) : Except StakeError StakeFarm := do
  let total ← checked (subU f.totalSupply amount)
  let balance ← checked (subU (f.balanceOf account) amount)
  return { f with
    totalSupply := total, balanceOf := Function.update f.balanceOf account balance }

/-- `rewards[account] = 0`. -/
def clearRewards (f : StakeFarm) (account : Address) : StakeFarm :=
  { f with rewards := Function.update f.rewards account 0 }

/-- The rate once `reward` is added to what is left of the stream. -/
def newRate (f : StakeFarm) (now reward : Nat) : Except StakeError Nat :=
  if f.periodFinish ≤ now then .ok (reward / DURATION)
  else do
    let left ← checked (subU f.periodFinish now)
    let leftover ← checked (mulU left f.rewardRate)
    let both ← checked (addU reward leftover)
    return both / DURATION

end StakeFarm

/-- A WETH transfer, which reverts when the balance does not cover it. -/
def sendWeth (weth : Address → Nat) (src dst : Address) (amount : Nat) :
    Except StakeError (Address → Nat) :=
  if weth src < amount then .error .reverted else .ok (moved weth src dst amount)

/-- The farm and its two tokens.  `received` and `claimed` are kept by no contract:
they record the WETH notified so far and what each account has been paid of it. -/
structure FarmWorld where
  farm : StakeFarm
  shares : Shares
  weth : Address → Nat
  received : Nat
  claimed : Address → Nat

/-- The addresses a farm is deployed with, and its own. -/
structure FarmSite where
  self : Address
  vault : Address
  zap : Address

namespace FarmWorld

variable (site : FarmSite) (now : Nat)

/-- What the account has been credited with is sent to `dst` on its behalf. -/
def payRewards (w : FarmWorld) (account dst : Address) : Except StakeError FarmWorld := do
  let r := w.farm.rewards account
  let weth ← sendWeth w.weth site.self dst r
  return { w with
    farm := w.farm.clearRewards account
    weth
    claimed := Function.update w.claimed account (w.claimed account + r) }

/-- `if (r > 0) {...}` around the payment. -/
def payRewardsIfAny (w : FarmWorld) (account : Address) : Except StakeError FarmWorld :=
  if 0 < w.farm.rewards account then w.payRewards site account account else .ok w

/-- `_stake`. -/
def stakeWith (w : FarmWorld) (src account : Address) (amount : Nat) :
    Except StakeError FarmWorld := do
  let farm ← w.farm.update now account
  revertIf (amount = 0) .zeroAmount
  let farm ← farm.addStake account amount
  let shares ← w.shares.transferFrom site.self src site.self amount
  return { w with farm, shares }

def stake (w : FarmWorld) (sender : Address) (amount : Nat) : Except StakeError FarmWorld :=
  w.stakeWith site now sender sender amount

def stakeFor (w : FarmWorld) (sender account : Address) (amount : Nat) :
    Except StakeError FarmWorld :=
  w.stakeWith site now sender account amount

def withdraw (w : FarmWorld) (sender : Address) (amount : Nat) : Except StakeError FarmWorld := do
  let farm ← w.farm.update now sender
  revertIf (amount = 0) .zeroAmount
  let farm ← farm.subStake sender amount
  let shares ← w.shares.transfer site.self sender amount
  return { w with farm, shares }

/-- The zap unstakes for a holder: the shares go to the zap, the rewards to the
holder. -/
def withdrawFor (w : FarmWorld) (sender account : Address) (amount : Nat) :
    Except StakeError FarmWorld := do
  let farm ← w.farm.update now account
  revertIf (sender ≠ site.zap) .notZap
  revertIf (amount = 0) .zeroAmount
  let farm ← farm.subStake account amount
  let shares ← w.shares.transfer site.self sender amount
  { w with farm, shares }.payRewardsIfAny site account

def getReward (w : FarmWorld) (sender : Address) : Except StakeError FarmWorld := do
  let farm ← w.farm.update now sender
  { w with farm }.payRewardsIfAny site sender

def exit (w : FarmWorld) (sender : Address) : Except StakeError FarmWorld := do
  let w ← w.withdraw site now sender (w.farm.balanceOf sender)
  w.getReward site now sender

/-- `compound` up to and including the zap's taking the rewards, the first thing the
zap does.  Whatever else the zap does reaches the farm as calls of its own: this
function is not locked. -/
def compound (w : FarmWorld) (sender : Address) : Except StakeError FarmWorld := do
  let farm ← w.farm.update now sender
  revertIf (farm.rewards sender = 0) .zeroAmount
  { w with farm }.payRewards site sender site.zap

def notifyRewardAmount (w : FarmWorld) (sender : Address) (reward : Nat) :
    Except StakeError FarmWorld := do
  let farm ← w.farm.update now 0
  revertIf (sender ≠ site.vault) .notVault
  let weth ← sendWeth w.weth sender site.self reward
  let rewardRate ← farm.newRate now reward
  let periodFinish ← checked (addU now DURATION)
  return { w with
    farm := { farm with rewardRate, lastUpdateTime := now, periodFinish }
    weth
    received := w.received + reward }

end FarmWorld

/-- A call on the farm. -/
inductive FarmCall
  | stake (amount : Nat)
  | stakeFor (account : Address) (amount : Nat)
  | withdraw (amount : Nat)
  | withdrawFor (account : Address) (amount : Nat)
  | getReward
  | exit
  | compound
  | notifyRewardAmount (reward : Nat)
  deriving DecidableEq

/-- The world after a call. -/
def FarmWorld.perform (site : FarmSite) (now : Nat) (w : FarmWorld) (sender : Address) :
    FarmCall → Except StakeError FarmWorld
  | .stake amount => w.stake site now sender amount
  | .stakeFor account amount => w.stakeFor site now sender account amount
  | .withdraw amount => w.withdraw site now sender amount
  | .withdrawFor account amount => w.withdrawFor site now sender account amount
  | .getReward => w.getReward site now sender
  | .exit => w.exit site now sender
  | .compound => w.compound site now sender
  | .notifyRewardAmount reward => w.notifyRewardAmount site now sender reward

/-- A call at a block time, and who makes it. -/
structure TimedCall where
  time : Nat
  sender : Address
  call : FarmCall
  deriving DecidableEq

/-- The world after calls in order, none of which reverts. -/
def FarmWorld.performAll (site : FarmSite) :
    List TimedCall → FarmWorld → Except StakeError FarmWorld
  | [], w => .ok w
  | c :: rest, w => do
      let w ← w.perform site c.time c.sender c.call
      FarmWorld.performAll site rest w

/-- The calls come at times that do not decrease, the first not before `now`. -/
def Timely (now : Nat) : List TimedCall → Prop
  | [] => True
  | c :: rest => now ≤ c.time ∧ Timely c.time rest

instance Timely.decidable : (now : Nat) → (calls : List TimedCall) → Decidable (Timely now calls)
  | _, [] => .isTrue trivial
  | now, c :: rest =>
      let _ := Timely.decidable c.time rest
      inferInstanceAs (Decidable (now ≤ c.time ∧ Timely c.time rest))

/-- The time of the last of the calls. -/
def lastTime (now : Nat) : List TimedCall → Nat
  | [] => now
  | c :: rest => lastTime c.time rest

/-- What happens outside the farm: the two tokens move, but what the farm holds of
them can only grow, as the farm lets nobody take either. -/
structure Elsewhere (site : FarmSite) (w w' : FarmWorld) : Prop where
  farm : w'.farm = w.farm
  received : w'.received = w.received
  claimed : w'.claimed = w.claimed
  shares : w.shares.balanceOf site.self ≤ w'.shares.balanceOf site.self
  weth : w.weth site.self ≤ w'.weth site.self

/-- Worlds a farm reaches at block times that do not decrease. -/
inductive FarmRun (site : FarmSite) : Nat → FarmWorld → Prop
  | deployed (now : Nat) (shares : Shares) (weth : Address → Nat) :
      FarmRun site now ⟨{}, shares, weth, 0, fun _ => 0⟩
  | call {now later : Nat} {w w' : FarmWorld} {sender : Address} {c : FarmCall}
      (run : FarmRun site now w) (time : now ≤ later) (notSelf : sender ≠ site.self)
      (ok : w.perform site later sender c = .ok w') : FarmRun site later w'
  | elsewhere {now later : Nat} {w w' : FarmWorld}
      (run : FarmRun site now w) (time : now ≤ later) (outside : Elsewhere site w w') :
      FarmRun site later w'

/-- Calls in order take a run further. -/
theorem FarmRun.performAll {site : FarmSite} {now : Nat} {w w' : FarmWorld}
    {calls : List TimedCall} (run : FarmRun site now w) (timely : Timely now calls)
    (notSelf : ∀ c ∈ calls, c.sender ≠ site.self)
    (ok : FarmWorld.performAll site calls w = .ok w') :
    FarmRun site (lastTime now calls) w' := by
  induction calls generalizing now w with
  | nil =>
      cases ok
      exact run
  | cons c rest ih =>
      obtain ⟨_, hcall, hrest⟩ := bind_eq_ok.mp ok
      obtain ⟨hselfs, hself⟩ := And.symm (List.forall_mem_cons.mp notSelf)
      exact ih (run.call timely.1 hself hcall) timely.2 hselfs hrest

namespace StakeFarm

/-- The unit of the index: `1e18`. -/
def SCALE : Nat := 10 ^ 18

/-- The accounts of the farm, as accounts paid from one index. -/
def pool (f : StakeFarm) : Accrual.Pool Address where
  index := f.rewardPerTokenStored
  total := f.totalSupply
  weight := f.balanceOf
  paid := f.userRewardPerTokenPaid
  owed := f.rewards

/-- The farm's payment over time. -/
def stream (f : StakeFarm) : Accrual.Stream where
  rate := f.rewardRate
  last := f.lastUpdateTime
  finish := f.periodFinish

/-- The accounts of the farm once what is due at `now` has come in. -/
def poolAt (f : StakeFarm) (now : Nat) : Accrual.Pool Address :=
  f.pool.accrue SCALE (f.stream.due now)

variable {f f' : StakeFarm} {now : Nat} {account : Address}

theorem lastTimeRewardApplicable_eq : f.lastTimeRewardApplicable now = min now f.periodFinish := by
  unfold lastTimeRewardApplicable
  split <;> omega

/-- The index at `now`, and when the arithmetic for it does not overflow. -/
theorem rewardPerToken_eq_ok {r : Nat} :
    f.rewardPerToken now = .ok r ↔ r = (f.poolAt now).index ∧
      (f.totalSupply ≠ 0 → f.lastUpdateTime ≤ min now f.periodFinish ∧
        f.stream.due now * SCALE < 2 ^ 256 ∧ (f.poolAt now).index < 2 ^ 256) := by
  unfold rewardPerToken
  split
  · rename_i hzero
    have hindex : (f.poolAt now).index = f.rewardPerTokenStored := by
      simp [poolAt, pool, Accrual.Pool.accrue, hzero]
    simp [hindex, hzero, eq_comm]
  · rename_i hpos
    rw [lastTimeRewardApplicable_eq]
    simp only [bind_eq_ok, checked_eq_ok, subU_eq_some, mulU_eq_some, divU_eq_some, addU_eq_some]
    constructor
    · intro h
      obtain ⟨_, ⟨hlast, rfl⟩, _, ⟨_, rfl⟩, _, ⟨hscaled, rfl⟩, _, ⟨_, rfl⟩, hsum, rfl⟩ := h
      exact ⟨rfl, fun _ => ⟨hlast, hscaled, hsum⟩⟩
    · intro h
      obtain ⟨rfl, h⟩ := h
      obtain ⟨hlast, hscaled, hsum⟩ := h hpos
      have hdue : (min now f.periodFinish - f.lastUpdateTime) * f.rewardRate < 2 ^ 256 :=
        (Nat.le_mul_of_pos_right _ (by decide)).trans_lt hscaled
      exact ⟨_, ⟨hlast, rfl⟩, _, ⟨hdue, rfl⟩, _, ⟨hscaled, rfl⟩, _, ⟨hpos, rfl⟩, hsum, rfl⟩

/-- What an account has earned at `now`, and when the arithmetic does not overflow. -/
theorem earned_eq_ok {e : Nat} :
    f.earned now account = .ok e ↔ e = (f.poolAt now).pending SCALE account ∧
      (∃ r, f.rewardPerToken now = .ok r) ∧
      f.userRewardPerTokenPaid account ≤ (f.poolAt now).index ∧
      (f.poolAt now).growth account < 2 ^ 256 ∧
      (f.poolAt now).pending SCALE account < 2 ^ 256 := by
  unfold earned
  simp only [bind_eq_ok, checked_eq_ok, subU_eq_some, mulU_eq_some, addU_eq_some]
  constructor
  · intro h
    obtain ⟨r, hr, _, ⟨hpaid, rfl⟩, _, ⟨hgrowth, rfl⟩, hsum, rfl⟩ := h
    obtain ⟨rfl, _⟩ := rewardPerToken_eq_ok.mp hr
    exact ⟨rfl, ⟨_, hr⟩, hpaid, hgrowth, hsum⟩
  · intro h
    obtain ⟨rfl, ⟨r, hr⟩, hpaid, hgrowth, hsum⟩ := h
    obtain ⟨rfl, _⟩ := rewardPerToken_eq_ok.mp hr
    exact ⟨_, hr, _, ⟨hpaid, rfl⟩, _, ⟨hgrowth, rfl⟩, hsum, rfl⟩

/-- The farm right after `update` has brought its index up to date. -/
def advanced (f : StakeFarm) (now : Nat) : StakeFarm :=
  { f with
    rewardPerTokenStored := (f.poolAt now).index
    lastUpdateTime := min now f.periodFinish }

theorem pool_advanced : (f.advanced now).pool = f.poolAt now := rfl

/-- Nothing more is due at the time of an update. -/
theorem poolAt_advanced : (f.advanced now).poolAt now = f.poolAt now := by
  have hdue : (f.advanced now).stream.due now = 0 := by
    simp [Accrual.Stream.due, stream, advanced]
  rw [poolAt, hdue, pool_advanced, Accrual.Pool.accrue]
  simp

/-- The farm right after `update`. -/
def updated (f : StakeFarm) (now : Nat) (account : Address) : StakeFarm :=
  if account = 0 then f.advanced now
  else
    { f.advanced now with
      rewards := Function.update f.rewards account ((f.poolAt now).pending SCALE account)
      userRewardPerTokenPaid :=
        Function.update f.userRewardPerTokenPaid account (f.poolAt now).index }

/-- What `update` makes of the farm when it does not revert. -/
theorem update_eq_ok (h : f.update now account = .ok f') : f' = f.updated now account := by
  unfold update at h
  simp only [bind_eq_ok, lastTimeRewardApplicable_eq] at h
  obtain ⟨r, hr, h⟩ := h
  obtain ⟨rfl, _⟩ := rewardPerToken_eq_ok.mp hr
  unfold updated
  split at h
  · rw [if_pos ‹_›]
    exact (pure_eq_ok.mp h).symm
  · rw [if_neg ‹_›]
    obtain ⟨e, he, h⟩ := bind_eq_ok.mp h
    obtain ⟨he, _⟩ := (earned_eq_ok (f := f.advanced now)).mp he
    rw [poolAt_advanced] at he
    subst he
    exact (pure_eq_ok.mp h).symm

/-- `update` goes through when what the account has earned can be computed. -/
theorem update_ok {e : Nat} (he : f.earned now account = .ok e) :
    f.update now account = .ok (f.updated now account) := by
  obtain ⟨r, hr⟩ := (earned_eq_ok.mp he).2.1
  have hfits := (rewardPerToken_eq_ok.mp hr).2
  obtain ⟨he, _, hpaid, hgrowth, hsum⟩ := earned_eq_ok.mp he
  have hagain : (f.advanced now).rewardPerToken now = .ok (f.poolAt now).index := by
    rw [rewardPerToken_eq_ok, poolAt_advanced]
    refine ⟨rfl, fun hpos => ⟨le_rfl, ?_, (hfits hpos).2.2⟩⟩
    simp [Accrual.Stream.due, stream, advanced]
  have hearned : (f.advanced now).earned now account = .ok e := by
    rw [earned_eq_ok, poolAt_advanced]
    exact ⟨he, ⟨_, hagain⟩, hpaid, hgrowth, hsum⟩
  unfold update
  simp only [bind_eq_ok, lastTimeRewardApplicable_eq]
  obtain ⟨rfl, _⟩ := rewardPerToken_eq_ok.mp hr
  refine ⟨_, hr, ?_⟩
  unfold updated
  by_cases hzero : account = 0
  · rw [if_pos hzero, if_pos hzero]
    rfl
  · rw [if_neg hzero, if_neg hzero]
    rw [he] at hearned
    exact bind_eq_ok.mpr ⟨_, hearned, rfl⟩

/-- An updated farm has its accounts up to date, and the stream is paid up to now. -/
theorem pool_updated : (f.updated now account).pool
    = if account = 0 then f.poolAt now else (f.poolAt now).settle SCALE account := by
  unfold updated
  split <;> rfl

theorem stream_updated : (f.updated now account).stream = f.stream.advance now := by
  unfold updated
  split <;> rfl

end StakeFarm

end Ordo
