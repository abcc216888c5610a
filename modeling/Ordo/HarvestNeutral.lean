import Ordo.StakeSolvency

/-!
# What a harvest does to the stream

Anyone may harvest a vault: the position's fees are collected, one part in a hundred goes
to the treasury, and the farm is notified of the rest.  By design the farm then pays what
is left of its stream, together with the reward, over seven days from the harvest.

Two runs are compared, with the harvest and without it.

* `StakeFarm.Ahead` relates the farms of the two runs once both have been brought up to
  date: the indices grow alike, and an account may lag by the division that the harvest
  made, until it is used for the first time.
* `harvest_neutral`: what has been earned by then is as it was, the stream loses less than
  a wei for each second, and if the rate does not fall nobody earns less, but for that lag.
-/

namespace Ordo

open Stake

/-- `FEE_BPS`: one part in a hundred. -/
def FEE_BPS : Nat := 100

/-- What a harvest finds: the WETH that the position collected, and the WETH that the
token side was sold for, if it was. -/
structure Harvested where
  weth : Nat
  swapped : Nat

def Harvested.total (fees : Harvested) : Nat := fees.weth + fees.swapped

/-- What the farm is notified of. -/
def Harvested.toFarm (fees : Harvested) : Nat :=
  fees.total - fees.total * FEE_BPS / 10_000

/-- `harvest` of a vault that has its position and its farm.  The vault's own totals, which
nothing reads, are left out. -/
def FarmWorld.harvest (site : FarmSite) (treasury : Address) (now : Nat) (w : FarmWorld)
    (fees : Harvested) : Except StakeError FarmWorld := do
  let total ← checked (addU fees.weth fees.swapped)
  if total = 0 then return w
  else do
    let scaled ← checked (mulU total FEE_BPS)
    let cut := scaled / 10_000
    let toFarm ← checked (subU total cut)
    let weth := Function.update w.weth site.vault (w.weth site.vault + total)
    let weth ← sendWeth weth site.vault treasury cut
    { w with weth }.notifyRewardAmount site now site.vault toFarm

/-- Every call but a notification. -/
def FarmCall.isNotification : FarmCall → Bool
  | .notifyRewardAmount _ => true
  | _ => false

/-- Two runs go on with the same calls, at the same times, up to the next notification. -/
inductive Alongside (site : FarmSite) (start : Nat) (g₀ f₀ : FarmWorld) :
    Nat → FarmWorld → FarmWorld → Prop
  | start : Alongside site start g₀ f₀ start g₀ f₀
  | call {now later : Nat} {g f g' f' : FarmWorld} {sender : Address} {c : FarmCall}
      (runs : Alongside site start g₀ f₀ now g f) (time : now ≤ later)
      (other : c.isNotification = false) (okg : g.perform site later sender c = .ok g')
      (okf : f.perform site later sender c = .ok f') : Alongside site start g₀ f₀ later g' f'
  | elsewhere {now later : Nat} {g f g' f' : FarmWorld}
      (runs : Alongside site start g₀ f₀ now g f) (time : now ≤ later)
      (outg : Elsewhere site g g') (outf : Elsewhere site f f') :
      Alongside site start g₀ f₀ later g' f'

/-! ### What a harvest leaves -/

/-- A farm is notified at `now`. -/
def StakeFarm.notified (f : StakeFarm) (now reward : Nat) : StakeFarm :=
  { f.advanced now with
    rewardRate := (reward + (f.periodFinish - now) * f.rewardRate) / DURATION
    lastUpdateTime := now
    periodFinish := now + DURATION }

theorem StakeFarm.rewardPerToken_of_update {f f' : StakeFarm} {now : Nat} {account : Address}
    (h : f.update now account = .ok f') : ∃ r, f.rewardPerToken now = .ok r := by
  simp only [StakeFarm.update, bind_eq_ok] at h
  obtain ⟨r, hr, -⟩ := h
  exact ⟨r, hr⟩

section Harvest

variable {site : FarmSite} {treasury : Address} {now : Nat} {w w' : FarmWorld}
  {fees : Harvested}

/-- A notification during the stream. -/
theorem notifyRewardAmount_farm {sender : Address} {reward : Nat}
    (hstream : now < w.farm.periodFinish)
    (ok : w.notifyRewardAmount site now sender reward = .ok w') :
    w'.farm = w.farm.notified now reward ∧ w'.received = w.received + reward ∧
      w'.claimed = w.claimed ∧ ∃ r, w.farm.rewardPerToken now = .ok r := by
  simp only [FarmWorld.notifyRewardAmount, bind_eq_ok, revertIf_eq_ok, checked_eq_ok,
    addU_eq_some, pure_eq_ok] at ok
  obtain ⟨_, hupdate, _, _, weth, -, rate, hrate, _, ⟨_, rfl⟩, rfl⟩ := ok
  have hindex := StakeFarm.rewardPerToken_of_update hupdate
  cases StakeFarm.update_eq_ok hupdate
  refine ⟨?_, rfl, rfl, hindex⟩
  have hleft : ¬ w.farm.periodFinish ≤ now := Nat.not_le.mpr hstream
  simp only [StakeFarm.newRate, StakeFarm.updated, if_true, StakeFarm.advanced, hleft,
    if_false, bind_eq_ok, checked_eq_ok, subU_eq_some, mulU_eq_some, addU_eq_some,
    pure_eq_ok] at hrate
  obtain ⟨_, ⟨_, rfl⟩, _, ⟨_, rfl⟩, _, ⟨_, rfl⟩, rfl⟩ := hrate
  rfl

/-- A harvest brings nothing, or it notifies the farm. -/
theorem harvest_cases (hstream : now < w.farm.periodFinish)
    (ok : w.harvest site treasury now fees = .ok w') :
    (fees.toFarm = 0 ∧ w' = w) ∨
      (0 < fees.toFarm ∧ w'.farm = w.farm.notified now fees.toFarm ∧
        w'.received = w.received + fees.toFarm ∧ w'.claimed = w.claimed ∧
        ∃ r, w.farm.rewardPerToken now = .ok r) := by
  simp only [FarmWorld.harvest, bind_eq_ok, checked_eq_ok, addU_eq_some] at ok
  obtain ⟨total, ⟨_, rfl⟩, ok⟩ := ok
  split at ok
  · next hzero =>
      have hnone : fees.total = 0 := hzero
      refine Or.inl ⟨?_, (pure_eq_ok.mp ok).symm⟩
      simp [Harvested.toFarm, hnone]
  · next hsome =>
      simp only [bind_eq_ok, checked_eq_ok, mulU_eq_some, subU_eq_some] at ok
      obtain ⟨_, ⟨_, rfl⟩, _, ⟨_, rfl⟩, weth, -, hnotify⟩ := ok
      refine Or.inr ⟨?_, ?_⟩
      · simp only [Harvested.toFarm, Harvested.total, FEE_BPS]
        omega
      · exact notifyRewardAmount_farm (w := { w with weth }) hstream hnotify

end Harvest

namespace StakeFarm

variable {f g : StakeFarm} {now reward : Nat} {account : Address}

/-- Nothing is due at the time of a notification. -/
theorem poolAt_notified : (f.notified now reward).poolAt now = f.poolAt now := by
  have hdue : (f.notified now reward).stream.due now = 0 := by
    simp [Accrual.Stream.due, stream, notified]
  have hpool : (f.notified now reward).pool = f.poolAt now := rfl
  rw [poolAt, hdue, hpool, Accrual.Pool.accrue]
  simp

/-- What has been earned by a notification is as it was. -/
theorem earned_notified (hindex : ∃ r, f.rewardPerToken now = .ok r) (e : Nat) :
    (f.notified now reward).earned now account = .ok e ↔ f.earned now account = .ok e := by
  have hindex' : ∃ r, (f.notified now reward).rewardPerToken now = .ok r := by
    obtain ⟨r, hr⟩ := hindex
    obtain ⟨-, hfits⟩ := rewardPerToken_eq_ok.mp hr
    refine ⟨_, rewardPerToken_eq_ok.mpr ⟨rfl, fun hpos => ⟨?_, ?_, ?_⟩⟩⟩
    · exact le_min le_rfl (Nat.le_add_right _ _)
    · simp [Accrual.Stream.due, stream, notified]
    · rw [poolAt_notified]
      exact (hfits hpos).2.2
  rw [earned_eq_ok, earned_eq_ok, poolAt_notified]
  constructor
  · rintro ⟨he, -, hpaid, hgrowth, hsum⟩
    exact ⟨he, hindex, hpaid, hgrowth, hsum⟩
  · rintro ⟨he, -, hpaid, hgrowth, hsum⟩
    exact ⟨he, hindex', hpaid, hgrowth, hsum⟩

/-- A notification loses less than a wei for each second. -/
theorem left_lt_notified :
    reward + (f.periodFinish - now) * f.rewardRate <
      (f.notified now reward).rewardRate * ((f.notified now reward).periodFinish - now) +
        DURATION := by
  have hperiod : (f.notified now reward).periodFinish - now = DURATION :=
    Nat.add_sub_cancel_left _ _
  rw [hperiod]
  exact Nat.lt_div_mul_add (by decide)

/-- The rate does not fall if enough comes in. -/
theorem rate_le_notified :
    f.rewardRate ≤ (f.notified now reward).rewardRate ↔
      f.rewardRate * DURATION ≤ reward + (f.periodFinish - now) * f.rewardRate :=
  Nat.le_div_iff_mul_le (by decide)

/-- The index of a stream that goes on. -/
theorem index_poolAt {time : Nat} (h : time ≤ f.periodFinish) :
    (f.poolAt time).index = f.rewardPerTokenStored +
      (time - f.lastUpdateTime) * f.rewardRate * SCALE / f.totalSupply := by
  have hdue : f.stream.due time = (time - f.lastUpdateTime) * f.rewardRate := by
    simp [Accrual.Stream.due, stream, min_eq_left h]
  rw [poolAt, hdue]
  rfl

end StakeFarm

/-! ### The books of a farm -/

/-- What of a world decides what is earned and paid. -/
structure Books where
  farm : StakeFarm
  claimed : Address → Nat

def FarmWorld.books (w : FarmWorld) : Books := ⟨w.farm, w.claimed⟩

namespace Books

def advance (now : Nat) (b : Books) : Books := { b with farm := b.farm.advanced now }

/-- An account is credited with what is pending. -/
def settle (b : Books) (account : Address) : Books :=
  { b with
    farm := { b.farm with
      rewards :=
        Function.update b.farm.rewards account (b.farm.pool.pending StakeFarm.SCALE account)
      userRewardPerTokenPaid :=
        Function.update b.farm.userRewardPerTokenPaid account b.farm.rewardPerTokenStored } }

def touch (now : Nat) (b : Books) (account : Address) : Books :=
  { b with farm := b.farm.updated now account }

/-- The account's stake is `v` from now on, and the farm's `total`. -/
def restake (b : Books) (account : Address) (v total : Nat) : Books :=
  { b with
    farm := { b.farm with
      totalSupply := total, balanceOf := Function.update b.farm.balanceOf account v } }

def add (b : Books) (account : Address) (amount : Nat) : Books :=
  b.restake account (b.farm.balanceOf account + amount) (b.farm.totalSupply + amount)

def sub (b : Books) (account : Address) (amount : Nat) : Books :=
  b.restake account (b.farm.balanceOf account - amount) (b.farm.totalSupply - amount)

def pay (b : Books) (account : Address) : Books where
  farm := b.farm.clearRewards account
  claimed := Function.update b.claimed account (b.claimed account + b.farm.rewards account)

/-- What a call that goes through writes. -/
def perform (now : Nat) (b : Books) (sender : Address) : FarmCall → Books
  | .stake amount => (b.touch now sender).add sender amount
  | .stakeFor account amount => (b.touch now account).add account amount
  | .withdraw amount => (b.touch now sender).sub sender amount
  | .withdrawFor account amount => ((b.touch now account).sub account amount).pay account
  | .getReward => (b.touch now sender).pay sender
  | .exit =>
      (((b.touch now sender).sub sender (b.farm.balanceOf sender)).touch now sender).pay sender
  | .compound => (b.touch now sender).pay sender
  | .notifyRewardAmount _ => b

end Books

theorem Books.touch_eq (now : Nat) (b : Books) (account : Address) :
    b.touch now account =
      if account = 0 then b.advance now else (b.advance now).settle account := by
  unfold touch StakeFarm.updated
  split
  · rfl
  · rfl

section Calls

variable {site : FarmSite} {now amount : Nat} {w w' : FarmWorld} {sender account src : Address}

theorem books_payRewards {dst : Address} (ok : w.payRewards site account dst = .ok w') :
    w'.books = w.books.pay account := by
  simp only [FarmWorld.payRewards, bind_eq_ok, pure_eq_ok] at ok
  obtain ⟨weth, -, rfl⟩ := ok
  rfl

/-- Where nothing is credited, nothing is paid. -/
theorem Books.pay_of_zero {b : Books} (h : b.farm.rewards account = 0) : b.pay account = b := by
  have hrewards : Function.update b.farm.rewards account 0 = b.farm.rewards := by
    rw [← h]
    exact Function.update_eq_self _ _
  have hclaimed : Function.update b.claimed account (b.claimed account) = b.claimed :=
    Function.update_eq_self _ _
  simp only [pay, StakeFarm.clearRewards, h, Nat.add_zero, hrewards, hclaimed]

theorem books_payRewardsIfAny (ok : w.payRewardsIfAny site account = .ok w') :
    w'.books = w.books.pay account := by
  unfold FarmWorld.payRewardsIfAny at ok
  split at ok
  · exact books_payRewards ok
  · next hnone =>
      cases ok
      exact (Books.pay_of_zero (Nat.eq_zero_of_not_pos hnone)).symm

theorem books_stakeWith (ok : w.stakeWith site now src account amount = .ok w') :
    w'.books = (w.books.touch now account).add account amount := by
  simp only [FarmWorld.stakeWith, bind_eq_ok, revertIf_eq_ok, pure_eq_ok] at ok
  obtain ⟨_, hupdate, _, _, farm, hadd, shares, -, rfl⟩ := ok
  cases StakeFarm.update_eq_ok hupdate
  simp only [StakeFarm.addStake, bind_eq_ok, checked_eq_ok, addU_eq_some, pure_eq_ok] at hadd
  obtain ⟨_, ⟨_, rfl⟩, _, ⟨_, rfl⟩, rfl⟩ := hadd
  rfl

theorem farm_of_subStake {f f' : StakeFarm} (ok : f.subStake account amount = .ok f') :
    f' = { f with
      totalSupply := f.totalSupply - amount
      balanceOf := Function.update f.balanceOf account (f.balanceOf account - amount) } := by
  simp only [StakeFarm.subStake, bind_eq_ok, checked_eq_ok, subU_eq_some, pure_eq_ok] at ok
  obtain ⟨_, ⟨_, rfl⟩, _, ⟨_, rfl⟩, rfl⟩ := ok
  rfl

theorem books_withdraw (ok : w.withdraw site now sender amount = .ok w') :
    w'.books = (w.books.touch now sender).sub sender amount := by
  simp only [FarmWorld.withdraw, bind_eq_ok, revertIf_eq_ok, pure_eq_ok] at ok
  obtain ⟨_, hupdate, _, _, farm, hsub, shares, -, rfl⟩ := ok
  cases StakeFarm.update_eq_ok hupdate
  cases farm_of_subStake hsub
  rfl

theorem books_withdrawFor (ok : w.withdrawFor site now sender account amount = .ok w') :
    w'.books = ((w.books.touch now account).sub account amount).pay account := by
  simp only [FarmWorld.withdrawFor, bind_eq_ok, revertIf_eq_ok] at ok
  obtain ⟨_, hupdate, _, _, _, _, farm, hsub, shares, -, hpay⟩ := ok
  cases StakeFarm.update_eq_ok hupdate
  cases farm_of_subStake hsub
  exact books_payRewardsIfAny hpay

theorem books_getReward (ok : w.getReward site now sender = .ok w') :
    w'.books = (w.books.touch now sender).pay sender := by
  simp only [FarmWorld.getReward, bind_eq_ok] at ok
  obtain ⟨_, hupdate, hpay⟩ := ok
  cases StakeFarm.update_eq_ok hupdate
  exact books_payRewardsIfAny hpay

theorem books_exit (ok : w.exit site now sender = .ok w') :
    w'.books = w.books.perform now sender .exit := by
  simp only [FarmWorld.exit, bind_eq_ok] at ok
  obtain ⟨w₁, hwithdraw, hreward⟩ := ok
  rw [books_getReward hreward, books_withdraw hwithdraw]
  rfl

theorem books_compound (ok : w.compound site now sender = .ok w') :
    w'.books = (w.books.touch now sender).pay sender := by
  simp only [FarmWorld.compound, bind_eq_ok, revertIf_eq_ok] at ok
  obtain ⟨_, hupdate, _, _, hpay⟩ := ok
  cases StakeFarm.update_eq_ok hupdate
  exact books_payRewards hpay

theorem books_perform {c : FarmCall} (hother : c.isNotification = false)
    (ok : w.perform site now sender c = .ok w') : w'.books = w.books.perform now sender c := by
  cases c with
  | stake amount => exact books_stakeWith ok
  | stakeFor account amount => exact books_stakeWith ok
  | withdraw amount => exact books_withdraw ok
  | withdrawFor account amount => exact books_withdrawFor ok
  | getReward => exact books_getReward ok
  | exit => exact books_exit ok
  | compound => exact books_compound ok
  | notifyRewardAmount reward => cases hother

end Calls

/-! ### The two runs -/

/-- What the harvest's own division may cost an account: a wei, and one for each unit of
the index that its stake makes of one step. -/
def slack (stakes : Address → Nat) (account : Address) : Nat :=
  stakes account / StakeFarm.SCALE + 1

/-- The account has not been used since the harvest. -/
structure Unused (stakes : Address → Nat) (g f : Books) (a : Address) : Prop where
  paid : g.farm.userRewardPerTokenPaid a = f.farm.userRewardPerTokenPaid a
  rewards : g.farm.rewards a = f.farm.rewards a
  claimed : g.claimed a = f.claimed a
  stake : f.farm.balanceOf a = stakes a

/-- The account has been used since, and lags by no more than its slack. -/
structure Used (stakes : Address → Nat) (g f : Books) (a : Address) : Prop where
  index : g.farm.userRewardPerTokenPaid a + f.farm.rewardPerTokenStored ≤
    g.farm.rewardPerTokenStored + f.farm.userRewardPerTokenPaid a
  earned : f.farm.rewards a + f.claimed a ≤ g.farm.rewards a + g.claimed a + slack stakes a

/-- The two farms, whatever their indices: `g` is the one of the run with the harvest. -/
structure Paired (g f : StakeFarm) : Prop where
  supply : g.totalSupply = f.totalSupply
  stake : g.balanceOf = f.balanceOf
  rate : f.rewardRate ≤ g.rewardRate
  finish : f.periodFinish ≤ g.periodFinish
  paid : ∀ a ≠ 0, g.userRewardPerTokenPaid a ≤ g.rewardPerTokenStored ∧
    f.userRewardPerTokenPaid a ≤ f.rewardPerTokenStored

/-- Both farms have been brought up to date at the same moment. -/
structure Ahead (stakes : Address → Nat) (g f : Books) : Prop
    extends Paired g.farm f.farm where
  last : g.farm.lastUpdateTime = f.farm.lastUpdateTime
  index : f.farm.rewardPerTokenStored ≤ g.farm.rewardPerTokenStored + 1
  accounts : ∀ a ≠ 0, Unused stakes g f a ∨ Used stakes g f a

/-- The farm of the run without the harvest has not been brought up to date since. -/
structure Late (stakes : Address → Nat) (start : Nat) (g f : Books) : Prop
    extends Paired g.farm f.farm where
  last : g.farm.lastUpdateTime = start
  before : f.farm.lastUpdateTime ≤ start
  within : start ≤ f.farm.periodFinish
  index : g.farm.rewardPerTokenStored = (f.farm.poolAt start).index
  accounts : ∀ a ≠ 0, Unused stakes g f a

/-- The sum of two quotients is at most one below the quotient of the sum. -/
theorem add_div_le_succ (x y n : Nat) : (x + y) / n ≤ x / n + y / n + 1 := by
  rcases Nat.eq_zero_or_pos n with rfl | hn
  · simp
  · have hx := Nat.lt_div_mul_add hn (a := x)
    have hy := Nat.lt_div_mul_add hn (a := y)
    refine Nat.lt_succ_iff.mp ((Nat.div_lt_iff_lt_mul hn).mpr ?_)
    calc x + y < (x / n * n + n) + (y / n * n + n) := Nat.add_lt_add hx hy
      _ = (x / n + y / n + 1 + 1) * n := by ring

section Pairs

variable {stakes : Address → Nat} {start now time : Nat} {g f : Books} {a account : Address}

/-- Between two moments the faster stream makes more of the index. -/
theorem Paired.step_le (h : Paired g.farm f.farm) (last time : Nat) :
    (time - last) * f.farm.rewardRate * StakeFarm.SCALE / f.farm.totalSupply ≤
      (time - last) * g.farm.rewardRate * StakeFarm.SCALE / g.farm.totalSupply := by
  rw [h.supply]
  exact Nat.div_le_div_right (Nat.mul_le_mul_right _ (Nat.mul_le_mul_left _ h.rate))

/-- Both farms are brought up to date. -/
theorem Ahead.advanced (h : Ahead stakes g f) (hfinish : time ≤ f.farm.periodFinish) :
    Ahead stakes (g.advance time) (f.advance time) := by
  have hg := StakeFarm.index_poolAt (hfinish.trans h.finish)
  have hf := StakeFarm.index_poolAt hfinish
  rw [h.last] at hg
  have hstep := h.step_le f.farm.lastUpdateTime time
  refine ⟨⟨h.supply, h.stake, h.rate, h.finish, fun a ha => ?_⟩, ?_, ?_, fun a ha => ?_⟩
  · exact (h.paid a ha).imp (Nat.le_add_right_of_le ·) (Nat.le_add_right_of_le ·)
  · exact (min_eq_left (hfinish.trans h.finish)).trans (min_eq_left hfinish).symm
  · show (f.farm.poolAt time).index ≤ (g.farm.poolAt time).index + 1
    have hindex := h.index
    omega
  · rcases h.accounts a ha with hsame | hused
    · exact Or.inl ⟨hsame.paid, hsame.rewards, hsame.claimed, hsame.stake⟩
    · refine Or.inr ⟨?_, hused.earned⟩
      show g.farm.userRewardPerTokenPaid a + (f.farm.poolAt time).index ≤
        (g.farm.poolAt time).index + f.farm.userRewardPerTokenPaid a
      have hindex := hused.index
      omega

/-- The one division that the harvest adds costs one step of the index. -/
theorem Late.advanced (h : Late stakes start g f) (htime : start ≤ time)
    (hfinish : time ≤ f.farm.periodFinish) :
    Ahead stakes (g.advance time) (f.advance time) := by
  have hg := StakeFarm.index_poolAt (hfinish.trans h.finish)
  have hf := StakeFarm.index_poolAt hfinish
  have hstart := StakeFarm.index_poolAt h.within
  rw [h.last, h.index, hstart] at hg
  have hstep := h.step_le start time
  -- what is due up to `time` is what was due at the harvest, and what came due since
  have hsplit : (time - f.farm.lastUpdateTime) * f.farm.rewardRate * StakeFarm.SCALE =
      (start - f.farm.lastUpdateTime) * f.farm.rewardRate * StakeFarm.SCALE +
        (time - start) * f.farm.rewardRate * StakeFarm.SCALE := by
    have hlength : time - f.farm.lastUpdateTime =
        (start - f.farm.lastUpdateTime) + (time - start) := by
      have hbefore := h.before
      omega
    rw [hlength]
    ring
  have hfloor := add_div_le_succ
    ((start - f.farm.lastUpdateTime) * f.farm.rewardRate * StakeFarm.SCALE)
    ((time - start) * f.farm.rewardRate * StakeFarm.SCALE) f.farm.totalSupply
  rw [← hsplit] at hfloor
  refine ⟨⟨h.supply, h.stake, h.rate, h.finish, fun a ha => ?_⟩, ?_, ?_, fun a ha => ?_⟩
  · exact (h.paid a ha).imp (Nat.le_add_right_of_le ·) (Nat.le_add_right_of_le ·)
  · exact (min_eq_left (hfinish.trans h.finish)).trans (min_eq_left hfinish).symm
  · show (f.farm.poolAt time).index ≤ (g.farm.poolAt time).index + 1
    omega
  · have hsame := h.accounts a ha
    exact Or.inl ⟨hsame.paid, hsame.rewards, hsame.claimed, hsame.stake⟩

/-- **Nobody lags by more than the slack.** -/
theorem Ahead.pending_le (h : Ahead stakes g f) (ha : a ≠ 0) :
    f.farm.pool.pending StakeFarm.SCALE a + f.claimed a ≤
      g.farm.pool.pending StakeFarm.SCALE a + g.claimed a + slack stakes a := by
  have hstake : g.farm.balanceOf a = f.farm.balanceOf a := congrFun h.stake a
  have hf : f.farm.pool.pending StakeFarm.SCALE a =
      f.farm.balanceOf a * (f.farm.rewardPerTokenStored - f.farm.userRewardPerTokenPaid a) /
        StakeFarm.SCALE + f.farm.rewards a := rfl
  have hg : g.farm.pool.pending StakeFarm.SCALE a =
      f.farm.balanceOf a * (g.farm.rewardPerTokenStored - g.farm.userRewardPerTokenPaid a) /
        StakeFarm.SCALE + g.farm.rewards a := by
    rw [← hstake]
    rfl
  obtain ⟨hpaidg, hpaidf⟩ := h.paid a ha
  have hindex := h.index
  rcases h.accounts a ha with hsame | hused
  · have hgrowth : f.farm.balanceOf a *
        (f.farm.rewardPerTokenStored - f.farm.userRewardPerTokenPaid a) ≤
        f.farm.balanceOf a *
          (g.farm.rewardPerTokenStored - g.farm.userRewardPerTokenPaid a) +
            f.farm.balanceOf a := by
      rw [← Nat.mul_succ]
      refine Nat.mul_le_mul_left _ ?_
      rw [hsame.paid] at hpaidg ⊢
      omega
    have hfloor := (Nat.div_le_div_right (c := StakeFarm.SCALE) hgrowth).trans
      (add_div_le_succ _ _ _)
    rw [hf, hg, slack, ← hsame.stake, hsame.rewards, hsame.claimed]
    omega
  · have hgrowth : f.farm.balanceOf a *
        (f.farm.rewardPerTokenStored - f.farm.userRewardPerTokenPaid a) ≤
        f.farm.balanceOf a *
          (g.farm.rewardPerTokenStored - g.farm.userRewardPerTokenPaid a) := by
      refine Nat.mul_le_mul_left _ ?_
      have hlag := hused.index
      omega
    have hfloor := Nat.div_le_div_right (c := StakeFarm.SCALE) hgrowth
    have hearned := hused.earned
    rw [hf, hg]
    omega

/-- An account that is brought up to date. -/
theorem Ahead.settle (h : Ahead stakes g f) (ha : account ≠ 0) :
    Ahead stakes (g.settle account) (f.settle account) ∧
      Used stakes (g.settle account) (f.settle account) account := by
  have hused : Used stakes (g.settle account) (f.settle account) account := by
    constructor
    · simp only [Books.settle, Function.update_self]
      exact le_rfl
    · simp only [Books.settle, Function.update_self]
      exact h.pending_le ha
  refine ⟨⟨⟨h.supply, h.stake, h.rate, h.finish, fun a hne => ?_⟩, h.last, h.index,
    fun a hne => ?_⟩, hused⟩
  · rcases eq_or_ne a account with rfl | hother
    · simp [Books.settle]
    · simpa [Books.settle, hother] using h.paid a hne
  · rcases eq_or_ne a account with rfl | hother
    · exact Or.inr hused
    · rcases h.accounts a hne with hsame | hold
      · refine Or.inl ⟨?_, ?_, hsame.claimed, hsame.stake⟩
        · simpa [Books.settle, hother] using hsame.paid
        · simpa [Books.settle, hother] using hsame.rewards
      · refine Or.inr ⟨?_, ?_⟩
        · simpa [Books.settle, hother] using hold.index
        · simpa [Books.settle, hother] using hold.earned

/-- The account of a call has been brought up to date, unless it is the zero address. -/
structure InHand (stakes : Address → Nat) (account : Address) (g f : Books) : Prop
    extends Ahead stakes g f where
  used : account ≠ 0 → Used stakes g f account

theorem Ahead.touch_of_advanced (h : Ahead stakes (g.advance now) (f.advance now))
    (account : Address) :
    InHand stakes account (g.touch now account) (f.touch now account) := by
  rw [Books.touch_eq, Books.touch_eq]
  split
  · next hzero => exact ⟨h, fun hne => absurd hzero hne⟩
  · next hne =>
      obtain ⟨hahead, hused⟩ := h.settle hne
      exact ⟨hahead, fun _ => hused⟩

/-- The stake of an account in hand changes. -/
theorem InHand.restake (h : InHand stakes account g f) {v v' total total' : Nat}
    (hv : v = v') (htotal : total = total') :
    InHand stakes account (g.restake account v total) (f.restake account v' total') := by
  subst hv htotal
  refine ⟨⟨⟨rfl, ?_, h.rate, h.finish, h.paid⟩, h.last, h.index, fun a hne => ?_⟩,
    fun hne => ⟨(h.used hne).index, (h.used hne).earned⟩⟩
  · exact congrArg (Function.update · account v) h.stake
  · rcases eq_or_ne a account with rfl | hother
    · exact Or.inr ⟨(h.used hne).index, (h.used hne).earned⟩
    · rcases h.accounts a hne with hsame | hold
      · refine Or.inl ⟨hsame.paid, hsame.rewards, hsame.claimed, ?_⟩
        simpa [Books.restake, hother] using hsame.stake
      · exact Or.inr ⟨hold.index, hold.earned⟩

theorem InHand.add (h : InHand stakes account g f) (amount : Nat) :
    InHand stakes account (g.add account amount) (f.add account amount) :=
  h.restake (congrArg (· + amount) (congrFun h.stake account)) (congrArg (· + amount) h.supply)

theorem InHand.sub (h : InHand stakes account g f) (amount : Nat) :
    InHand stakes account (g.sub account amount) (f.sub account amount) :=
  h.restake (congrArg (· - amount) (congrFun h.stake account)) (congrArg (· - amount) h.supply)

/-- What is credited to an account in hand is paid. -/
theorem InHand.pay (h : InHand stakes account g f) :
    InHand stakes account (g.pay account) (f.pay account) := by
  have hused : account ≠ 0 → Used stakes (g.pay account) (f.pay account) account := by
    intro hne
    refine ⟨(h.used hne).index, ?_⟩
    have hearned := (h.used hne).earned
    simp only [Books.pay, StakeFarm.clearRewards, Function.update_self]
    omega
  refine ⟨⟨⟨h.supply, h.stake, h.rate, h.finish, h.paid⟩, h.last, h.index,
    fun a hne => ?_⟩, hused⟩
  rcases eq_or_ne a account with rfl | hother
  · exact Or.inr (hused hne)
  · rcases h.accounts a hne with hsame | hold
    · refine Or.inl ⟨hsame.paid, ?_, ?_, hsame.stake⟩
      · simpa [Books.pay, StakeFarm.clearRewards, hother] using hsame.rewards
      · simpa [Books.pay, hother] using hsame.claimed
    · refine Or.inr ⟨hold.index, ?_⟩
      simpa [Books.pay, StakeFarm.clearRewards, hother] using hold.earned

@[simp] theorem Books.finish_touch (now : Nat) (b : Books) (account : Address) :
    (b.touch now account).farm.periodFinish = b.farm.periodFinish := by
  rw [touch_eq]
  split
  · rfl
  · rfl

/-- Only a notification moves the end of the stream. -/
theorem Books.finish_perform (now : Nat) (b : Books) (sender : Address) (c : FarmCall) :
    (b.perform now sender c).farm.periodFinish = b.farm.periodFinish := by
  cases c with
  | stake amount => exact finish_touch ..
  | stakeFor account amount => exact finish_touch ..
  | withdraw amount => exact finish_touch ..
  | withdrawFor account amount => exact finish_touch ..
  | getReward => exact finish_touch ..
  | exit => exact (finish_touch ..).trans (finish_touch ..)
  | compound => exact finish_touch ..
  | notifyRewardAmount reward => rfl

/-- One run follows the other, from the harvest on. -/
def Follows (stakes : Address → Nat) (start : Nat) (g f : Books) : Prop :=
  Late stakes start g f ∨ Ahead stakes g f

theorem Follows.advanced (h : Follows stakes start g f) (hstart : start ≤ time)
    (hfinish : time ≤ f.farm.periodFinish) : Ahead stakes (g.advance time) (f.advance time) := by
  rcases h with hlate | hahead
  · exact hlate.advanced hstart hfinish
  · exact hahead.advanced hfinish

/-- **A call keeps one run behind the other**, whichever it is. -/
theorem Follows.perform (h : Follows stakes start g f) (hstart : start ≤ time)
    (hfinish : time ≤ f.farm.periodFinish) (sender : Address) (c : FarmCall) :
    Follows stakes start (g.perform time sender c) (f.perform time sender c) := by
  have htouch := fun account => (h.advanced hstart hfinish).touch_of_advanced account
  cases c with
  | stake amount => exact Or.inr ((htouch sender).add amount).toAhead
  | stakeFor account amount => exact Or.inr ((htouch account).add amount).toAhead
  | withdraw amount => exact Or.inr ((htouch sender).sub amount).toAhead
  | withdrawFor account amount => exact Or.inr ((htouch account).sub amount).pay.toAhead
  | getReward => exact Or.inr (htouch sender).pay.toAhead
  | exit =>
      have hstake : g.farm.balanceOf sender = f.farm.balanceOf sender := by
        rcases h with hlate | hahead
        · exact congrFun hlate.stake sender
        · exact congrFun hahead.stake sender
      simp only [Books.perform, hstake]
      have hout := ((htouch sender).sub (f.farm.balanceOf sender)).toAhead
      have hagain := hout.advanced (hfinish.trans (Books.finish_touch ..).ge)
      exact Or.inr (hagain.touch_of_advanced sender).pay.toAhead
  | compound => exact Or.inr (htouch sender).pay.toAhead
  | notifyRewardAmount reward => exact h

end Pairs

section Runs

variable {site : FarmSite} {start now : Nat} {g₀ f₀ g f : FarmWorld}
  {stakes : Address → Nat}

theorem Alongside.start_le (runs : Alongside site start g₀ f₀ now g f) : start ≤ now := by
  induction runs with
  | start => exact le_rfl
  | call runs time other okg okf ih => exact ih.trans time
  | elsewhere runs time outg outf ih => exact ih.trans time

/-- **One run stays behind the other** up to the end of the old stream. -/
theorem Alongside.follows (runs : Alongside site start g₀ f₀ now g f)
    (h : Follows stakes start g₀.books f₀.books) (hfinish : now ≤ f₀.farm.periodFinish) :
    Follows stakes start g.books f.books ∧ f.farm.periodFinish = f₀.farm.periodFinish := by
  induction runs with
  | start => exact ⟨h, rfl⟩
  | @call earlier later g f g' f' sender c runs time other okg okf ih =>
      obtain ⟨hbefore, hsame⟩ := ih (time.trans hfinish)
      have hg := books_perform other okg
      have hf := books_perform other okf
      rw [← hsame] at hfinish
      refine ⟨?_, ?_⟩
      · rw [hg, hf]
        exact hbefore.perform (runs.start_le.trans time) hfinish sender c
      · have hend := congrArg (·.farm.periodFinish) hf
        exact (hend.trans (Books.finish_perform ..)).trans hsame
  | @elsewhere earlier later g f g' f' runs time outg outf ih =>
      obtain ⟨hbefore, hsame⟩ := ih (time.trans hfinish)
      have hg : g'.books = g.books := by rw [FarmWorld.books, outg.farm, outg.claimed]; rfl
      have hf : f'.books = f.books := by rw [FarmWorld.books, outf.farm, outf.claimed]; rfl
      rw [hg, hf, outf.farm]
      exact ⟨hbefore, hsame⟩

/-- A stream never lasts longer than its seven days. -/
theorem finish_le_of_run {w : FarmWorld} (run : FarmRun site now w) :
    w.farm.periodFinish ≤ now + DURATION := by
  induction run with
  | deployed now shares weth => exact Nat.zero_le _
  | @call now later w w' sender c run time notSelf ok ih =>
      cases hc : c.isNotification with
      | true =>
          cases c with
          | notifyRewardAmount reward =>
              simp only [FarmWorld.perform, FarmWorld.notifyRewardAmount, bind_eq_ok,
                revertIf_eq_ok, checked_eq_ok, addU_eq_some, pure_eq_ok] at ok
              obtain ⟨_, _, _, _, _, _, _, _, _, ⟨_, rfl⟩, rfl⟩ := ok
              exact le_rfl
          | _ => cases hc
      | false =>
          have hend := congrArg (·.farm.periodFinish) (books_perform hc ok)
          have hsame : w'.farm.periodFinish = w.farm.periodFinish :=
            hend.trans (Books.finish_perform ..)
          omega
  | elsewhere run time outside ih =>
      rw [outside.farm]
      omega

end Runs

section Neutral

variable {site : FarmSite} {treasury : Address} {now time : Nat} {w w' : FarmWorld}
  {fees : Harvested}

/-- Without a reward both runs are one. -/
theorem ahead_self (run : FarmRun site now w) :
    Ahead w.farm.balanceOf w.books w.books where
  supply := rfl
  stake := rfl
  rate := le_rfl
  finish := le_rfl
  paid a ha := by
    have hpaid := (Solvent.of_run run).funded.paid_le a (mem_holders.mpr ha)
    exact ⟨hpaid, hpaid⟩
  last := rfl
  index := Nat.le_succ _
  accounts a _ := Or.inl ⟨rfl, rfl, rfl, rfl⟩

/-- Where the two runs part. -/
theorem late_harvest (run : FarmRun site now w) (htime : now ≤ time)
    (hstream : time < w.farm.periodFinish)
    (hfarm : w'.farm = w.farm.notified time fees.toFarm) (hclaimed : w'.claimed = w.claimed)
    (hrate : w.farm.rewardRate ≤ w'.farm.rewardRate) :
    Late w.farm.balanceOf time w'.books w.books := by
  have hfunded := (Solvent.of_run run).funded
  refine ⟨⟨?_, ?_, hrate, ?_, fun a ha => ?_⟩, ?_, ?_, hstream.le, ?_, fun a _ => ⟨?_, ?_, ?_, rfl⟩⟩
  · exact congrArg (·.totalSupply) hfarm
  · exact congrArg (·.balanceOf) hfarm
  · have hend : w'.farm.periodFinish = time + DURATION := congrArg (·.periodFinish) hfarm
    have hlast := finish_le_of_run run
    show w.farm.periodFinish ≤ w'.farm.periodFinish
    omega
  · have hpaid := hfunded.paid_le a (mem_holders.mpr ha)
    refine ⟨?_, hpaid⟩
    show w'.farm.userRewardPerTokenPaid a ≤ w'.farm.rewardPerTokenStored
    rw [hfarm]
    exact hpaid.trans (Nat.le_add_right _ _)
  · exact congrArg (·.lastUpdateTime) hfarm
  · exact hfunded.last_now.trans htime
  · exact congrArg (·.rewardPerTokenStored) hfarm
  · exact congrFun (congrArg (·.userRewardPerTokenPaid) hfarm) a
  · exact congrFun (congrArg (·.rewards) hfarm) a
  · exact congrFun hclaimed a

/-- One run stays behind the other as far as earnings go. -/
theorem Follows.earned_le {g f : FarmWorld} {stakes : Address → Nat} {start : Nat}
    (h : Follows stakes start g.books f.books) (hstart : start ≤ time)
    (hfinish : time ≤ f.farm.periodFinish) {a : Address} (ha : a ≠ 0) {e e' : Nat}
    (he : g.farm.earned time a = .ok e) (he' : f.farm.earned time a = .ok e') :
    e' + f.claimed a ≤ e + g.claimed a + slack stakes a := by
  have hpending := (h.advanced hstart hfinish).pending_le ha
  rw [(StakeFarm.earned_eq_ok.mp he).1, (StakeFarm.earned_eq_ok.mp he').1]
  exact hpending

/-- **What one more harvest does.**  During a stream it leaves what everybody has earned
by then; the stream is worth what was left and the reward, less than a wei for each second
of the new week; and the rate does not fall exactly if nothing came in or enough did.  In
that case nobody has earned less up to the end of the old stream, whatever is called until
the next notification, but for the one division that the harvest adds. -/
theorem harvest_neutral (run : FarmRun site now w) (htime : now ≤ time)
    (hstream : time < w.farm.periodFinish)
    (ok : w.harvest site treasury time fees = .ok w') :
    (∀ a e, w'.farm.earned time a = .ok e ↔ w.farm.earned time a = .ok e) ∧
    fees.toFarm + (w.farm.periodFinish - time) * w.farm.rewardRate <
      w'.farm.rewardRate * (w'.farm.periodFinish - time) + DURATION ∧
    (w.farm.rewardRate ≤ w'.farm.rewardRate ↔ fees.toFarm = 0 ∨ w.farm.rewardRate * DURATION ≤
      fees.toFarm + (w.farm.periodFinish - time) * w.farm.rewardRate) ∧
    (w.farm.rewardRate ≤ w'.farm.rewardRate → ∀ last g f,
      Alongside site time w' w last g f → ∀ later, last ≤ later → later ≤ w.farm.periodFinish →
        ∀ a ≠ 0, ∀ e e', g.farm.earned later a = .ok e → f.farm.earned later a = .ok e' →
          e' + f.claimed a ≤ e + g.claimed a + slack w.farm.balanceOf a) := by
  have hcases := harvest_cases hstream ok
  refine ⟨?_, ?_, ?_, ?_⟩
  · intro a e
    rcases hcases with ⟨-, rfl⟩ | ⟨-, hfarm, -, -, hindex⟩
    · exact Iff.rfl
    · rw [hfarm]
      exact StakeFarm.earned_notified hindex e
  · rcases hcases with ⟨hnone, rfl⟩ | ⟨-, hfarm, -⟩
    · rw [hnone, Nat.zero_add, Nat.mul_comm]
      exact Nat.lt_add_of_pos_right (by decide)
    · rw [hfarm]
      exact StakeFarm.left_lt_notified
  · rcases hcases with ⟨hnone, rfl⟩ | ⟨hpos, hfarm, -⟩
    · exact iff_of_true le_rfl (Or.inl hnone)
    · rw [hfarm, StakeFarm.rate_le_notified]
      exact (or_iff_right (Nat.ne_of_gt hpos)).symm
  · intro hrate last g f runs later hlast hlater a ha e e' he he'
    have hstart : Follows w.farm.balanceOf time w'.books w.books := by
      rcases hcases with ⟨-, rfl⟩ | ⟨-, hfarm, -, hclaimed, -⟩
      · exact Or.inr (ahead_self run)
      · exact Or.inl (late_harvest run htime hstream hfarm hclaimed hrate)
    obtain ⟨hfollows, hsame⟩ := runs.follows hstart (hlast.trans hlater)
    exact hfollows.earned_le (runs.start_le.trans hlast) (hlater.trans hsame.ge) ha he he'

end Neutral

/-! ### A harvest of dust -/

/-- A share is staked, and a wei for each second of the week is notified. -/
def streamCalls : List TimedCall := [⟨1000, 4, .stake 1⟩, ⟨1000, 2, .notifyRewardAmount 604800⟩]

/-- The stream under way, a harvest in the middle of it, and what the staker has earned at
the end with and without it. -/
def streamQuery (fees : Harvested) : Except StakeError (Nat × Nat × Nat × Nat × Nat) := do
  let w ← FarmWorld.performAll sampleSite streamCalls sampleWorld
  let w' ← w.harvest sampleSite 5 303400 fees
  let without ← w.farm.earned 605800 4
  let earned ← w'.farm.earned 605800 4
  return (without, earned, w.farm.periodFinish, w.farm.rewardRate, w'.farm.rewardRate)

theorem streamCalls_run {fees : Harvested} {without earned finish rate rate' : Nat}
    (hquery : (streamQuery fees).toOption = some (without, earned, finish, rate, rate')) :
    ∃ w w', FarmRun sampleSite 1000 w ∧ w.harvest sampleSite 5 303400 fees = .ok w' ∧
      w.farm.earned 605800 4 = .ok without ∧ w'.farm.earned 605800 4 = .ok earned ∧
      w.farm.periodFinish = finish ∧ w.farm.rewardRate = rate ∧ w'.farm.rewardRate = rate' := by
  cases hrun : streamQuery fees with
  | error e =>
      rw [hrun] at hquery
      cases hquery
  | ok answer =>
      rw [hrun] at hquery
      cases hquery
      simp only [streamQuery, bind_eq_ok, pure_eq_ok, Prod.mk.injEq] at hrun
      obtain ⟨w, hw, w', hharvest, _, hwithout, _, hearned, rfl, rfl, hfinish, hrate, hrate'⟩ :=
        hrun
      have hstart : FarmRun sampleSite 0 sampleWorld := FarmRun.deployed ..
      exact ⟨w, w', hstart.performAll (by decide) (by decide) hw, hharvest, hwithout, hearned,
        hfinish, hrate, hrate'⟩

/-- With a harvest of one wei the rate falls to nothing, and the staker has earned half. -/
theorem dust_harvest_costs :
    ∃ w w', FarmRun sampleSite 1000 w ∧ w.harvest sampleSite 5 303400 ⟨1, 0⟩ = .ok w' ∧
      605800 ≤ w.farm.periodFinish ∧ w.farm.earned 605800 4 = .ok 604800 ∧
      w'.farm.earned 605800 4 = .ok 302400 := by
  have hquery : (streamQuery ⟨1, 0⟩).toOption = some (604800, 302400, 605800, 1, 0) := by
    decide +kernel
  obtain ⟨w, w', run, hharvest, hwithout, hearned, hfinish, -⟩ := streamCalls_run hquery
  exact ⟨w, w', run, hharvest, hfinish.ge, hwithout, hearned⟩

/-- A harvest of enough costs the staker nothing. -/
theorem harvest_neutral_sample :
    ∃ w w' : FarmWorld, w.harvest sampleSite 5 303400 ⟨400000, 0⟩ = .ok w' ∧
      604800 + w.claimed 4 ≤ 604800 + w'.claimed 4 + slack w.farm.balanceOf 4 := by
  have hquery : (streamQuery ⟨400000, 0⟩).toOption = some (604800, 604800, 605800, 1, 1) := by
    decide +kernel
  obtain ⟨w, w', run, hharvest, hwithout, hearned, hfinish, hrate, hrate'⟩ :=
    streamCalls_run hquery
  obtain ⟨-, -, -, hnobody⟩ :=
    harvest_neutral run (by decide) (by rw [hfinish]; decide) hharvest
  exact ⟨w, w', hharvest, hnobody (by rw [hrate, hrate']) _ _ _ .start 605800 (by decide)
    hfinish.ge 4 (by decide) _ _ hearned hwithout⟩

end Ordo
