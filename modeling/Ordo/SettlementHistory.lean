import Mathlib.Algebra.Order.BigOperators.Group.Finset
import Ordo.SettlementSolvency

/-!
# What a run does to one searcher

The journal of a run, read for one searcher, is a history of moves of the
`Delayed` account made of the bond and the withdrawal slot.  `History P s t new`
says so of the entries `new` written between `s` and `t`, with what is true of
each entry by itself and of the opportunity ids settled among them.  It
composes, every step of every function has it, and so every run does.

Both results are then read off a history: a bond goes down only by what its
searcher withdrew or signed for, once for each opportunity; and what was free
at one time stays chargeable for the delay.
-/

namespace Ordo.OrdoSettlement

open Reentrant

/-- A searcher's bond and slot. -/
def account (s : State) (a : Address) : Delayed.Account :=
  ⟨s.bond a, (s.withdrawal a).amount, (s.withdrawal a).readyAt⟩

/-- What an entry is to the account of `a`. -/
def move (a : Address) : Entry → Option Delayed.Move
  | .deposited b v => if b = a then some (.deposit v) else none
  | .requested b v time => if b = a then some (.request v time) else none
  | .cancelled b => if b = a then some .cancel else none
  | .withdrawn b v _ time => if b = a then some (.pay v time) else none
  | .settled _ _ c _ => if c.searcher = a then some (.charge c.chargeWei) else none
  | .claimed _ _ => none

/-- The moves of `a` in a stretch of the journal, oldest first. -/
def moves (a : Address) (es : List Entry) : List Delayed.Move :=
  (es.filterMap (move a)).reverse

/-- The ids settled in a stretch of the journal. -/
def settledIds (es : List Entry) : List Bytes32 :=
  es.filterMap fun
    | .settled _ _ c _ => some c.opportunityId
    | _ => none

/-- The ids settled against `a`. -/
def chargedIds (a : Address) (es : List Entry) : List Bytes32 :=
  es.filterMap fun
    | .settled _ _ c _ => if c.searcher = a then some c.opportunityId else none
    | _ => none

/-- What was charged to `a`. -/
def charged (a : Address) (es : List Entry) : Nat := Delayed.charged (moves a es)

/-- What `a` withdrew. -/
def withdrawn (a : Address) (es : List Entry) : Nat := Delayed.paid (moves a es)

/-- What `a` put in. -/
def deposited (a : Address) (es : List Entry) : Nat := Delayed.deposited (moves a es)

/-- A withdrawal was due, and a charge was the auctioneer's, within a bid the
searcher signed. -/
def Authorised (P : Params) : Entry → Prop
  | .withdrawn _ _ readyAt time => readyAt ≠ 0 ∧ readyAt ≤ time
  | .settled sender auctioneer c sig =>
      sender = auctioneer ∧ ValidBid P c sig ∧ c.chargeWei ≤ c.maxAmountWei
  | _ => True

theorem moves_append (a : Address) (xs ys : List Entry) :
    moves a (xs ++ ys) = moves a ys ++ moves a xs := by
  simp [moves]

theorem settledIds_append (xs ys : List Entry) :
    settledIds (xs ++ ys) = settledIds xs ++ settledIds ys := by
  simp [settledIds]

/-- The entries `new` lead from `s` to `t`. -/
structure History (P : Params) (s t : State) (new : List Entry) : Prop where
  journal : t.journal = new ++ s.journal
  now_le : s.now ≤ t.now
  fits : t.now < 2 ^ 64
  run (a : Address) :
    Delayed.run P.WITHDRAW_DELAY (account s a) (moves a new) = some (account t a)
  stamps (a : Address) : ∀ m ∈ moves a new, Delayed.Within s.now t.now m
  authorised : ∀ e ∈ new, Authorised P e
  settled (id : Bytes32) : t.settled id = true ↔ s.settled id = true ∨ id ∈ settledIds new
  fresh : ∀ id ∈ settledIds new, s.settled id = false
  once : (settledIds new).Nodup

/-- Nothing happened, but perhaps to parts a history does not look at. -/
theorem History.still {P : Params} {s t : State} (hjournal : t.journal = s.journal)
    (hnow : s.now ≤ t.now) (hfits : t.now < 2 ^ 64) (hbond : t.bond = s.bond)
    (hwithdrawal : t.withdrawal = s.withdrawal) (hsettled : t.settled = s.settled) :
    History P s t [] where
  journal := hjournal
  now_le := hnow
  fits := hfits
  run a := by simp [moves, account, hbond, hwithdrawal]
  stamps a := by simp [moves]
  authorised := by simp
  settled id := by simp [settledIds, hsettled]
  fresh := by simp [settledIds]
  once := List.nodup_nil

/-- Time stamps stay within a longer stretch. -/
theorem within_mono {lo lo' hi hi' : Nat} {m : Delayed.Move} (h : Delayed.Within lo hi m)
    (hlo : lo' ≤ lo) (hhi : hi ≤ hi') : Delayed.Within lo' hi' m := by
  cases m <;> simp only [Delayed.Within] at h ⊢ <;> omega

theorem History.trans {P : Params} {s t u : State} {xs ys : List Entry}
    (h₁ : History P s t xs) (h₂ : History P t u ys) : History P s u (ys ++ xs) where
  journal := by rw [h₂.journal, h₁.journal, List.append_assoc]
  now_le := h₁.now_le.trans h₂.now_le
  fits := h₂.fits
  run a := by
    rw [moves_append]
    exact Delayed.run_append (h₁.run a) (h₂.run a)
  stamps a m hm := by
    rw [moves_append, List.mem_append] at hm
    rcases hm with hm | hm
    · exact within_mono (h₁.stamps a m hm) (Nat.le_refl _) h₂.now_le
    · exact within_mono (h₂.stamps a m hm) h₁.now_le (Nat.le_refl _)
  authorised e he := by
    rcases List.mem_append.mp he with he | he
    · exact h₂.authorised e he
    · exact h₁.authorised e he
  settled id := by
    rw [h₂.settled, h₁.settled, settledIds_append, List.mem_append]
    tauto
  fresh id hid := by
    rw [settledIds_append, List.mem_append] at hid
    rcases hid with hid | hid
    · have hmid := h₂.fresh id hid
      by_contra hset
      have hset' := (h₁.settled id).mpr (Or.inl (by simpa using hset))
      simp [hmid] at hset'
    · exact h₁.fresh id hid
  once := by
    rw [settledIds_append]
    refine h₂.once.append h₁.once ?_
    intro id hlate hearly
    have hset := (h₁.settled id).mpr (Or.inr hearly)
    simp [h₂.fresh id hlate] at hset

/-! ## Every step has a history -/

/-- One entry is a history if it is one for every account and for the ids. -/
theorem History.entry {P : Params} {s t : State} {e : Entry}
    (hjournal : t.journal = e :: s.journal) (hnow : t.now = s.now) (hfits : s.now < 2 ^ 64)
    (hrun : ∀ a, Delayed.run P.WITHDRAW_DELAY (account s a) (moves a [e]) =
      some (account t a))
    (hstamps : ∀ a, ∀ m ∈ moves a [e], Delayed.Within s.now s.now m)
    (hauth : Authorised P e)
    (hsettled : ∀ id, t.settled id = true ↔ s.settled id = true ∨ id ∈ settledIds [e])
    (hfresh : ∀ id ∈ settledIds [e], s.settled id = false) : History P s t [e] where
  journal := hjournal
  now_le := hnow.ge
  fits := hnow ▸ hfits
  run := hrun
  stamps a m hm := hnow ▸ hstamps a m hm
  authorised := by simpa using hauth
  settled := hsettled
  fresh := hfresh
  once := by cases e <;> simp [settledIds]

/-- The steps a call takes by itself have a history. -/
theorem History.change {P : Params} {s t : State} {m : Msg} (hchange : Change P s m t)
    (hfits : s.now < 2 ^ 64) : ∃ new, History P s t new := by
  cases hchange with
  | deposit sender value =>
      refine ⟨_, History.entry rfl rfl hfits (fun a => ?_) (fun a => ?_) trivial
        (by simp [settledIds, State.record]) (by simp [settledIds])⟩
      · by_cases ha : sender = a
        · subst ha
          simp [moves, move, account, State.record, plus, Delayed.run, Delayed.apply]
        · simp [moves, move, account, State.record, plus, ha, Function.update_of_ne (Ne.symm ha)]
      · by_cases ha : sender = a <;> simp [moves, move, ha, Delayed.Within]
  | requestWithdraw sender amount hpos hbond hfit =>
      refine ⟨_, History.entry rfl rfl hfits (fun a => ?_) (fun a => ?_) trivial
        (by simp [settledIds, State.record]) (by simp [settledIds])⟩
      · have hnow : toU64 s.now = s.now := Nat.mod_eq_of_lt hfits
        by_cases ha : sender = a
        · subst ha
          simp [moves, move, account, State.record, Delayed.run, Delayed.apply, hbond, hnow]
        · simp [moves, move, account, State.record, ha, Function.update_of_ne (Ne.symm ha)]
      · by_cases ha : sender = a <;> simp [moves, move, ha, Delayed.Within]
  | cancelWithdraw sender =>
      refine ⟨_, History.entry rfl rfl hfits (fun a => ?_) (fun a => ?_) trivial
        (by simp [settledIds, State.record]) (by simp [settledIds])⟩
      · by_cases ha : sender = a
        · subst ha
          simp [moves, move, account, State.record, Delayed.run, Delayed.apply]
        · simp [moves, move, account, State.record, ha, Function.update_of_ne (Ne.symm ha)]
      · by_cases ha : sender = a <;> simp [moves, move, ha, Delayed.Within]
  | withdrawBond sender hunlocked hpending hready hfunds =>
      refine ⟨_, History.entry rfl rfl hfits (fun a => ?_) (fun a => ?_) ⟨hpending, hready⟩
        (by simp [settledIds, State.record]) (by simp [settledIds])⟩
      · by_cases ha : sender = a
        · subst ha
          simp [moves, move, account, State.record, Delayed.run, Delayed.apply,
            payable_eq_min, Delayed.Account.due, hready]
        · simp [moves, move, account, State.record, ha, Function.update_of_ne (Ne.symm ha)]
      · by_cases ha : sender = a <;> simp [moves, move, ha, Delayed.Within]
  | settle sender c sig p hsender hfresh hbid hsig hbond huser =>
      refine ⟨_, History.entry rfl rfl hfits (fun a => ?_) (fun a => ?_)
        ⟨hsender, hsig, hbid⟩ ?_ (by simpa [settledIds] using hfresh)⟩
      · by_cases ha : c.searcher = a
        · subst ha
          simp [moves, move, account, State.record, Delayed.run, Delayed.apply, hbond]
        · simp [moves, move, account, State.record, ha, Function.update_of_ne (Ne.symm ha)]
      · by_cases ha : c.searcher = a <;> simp [moves, move, ha, Delayed.Within]
      · intro id
        by_cases hid : id = c.opportunityId
        · simp [settledIds, State.record, hid]
        · simp [settledIds, State.record, hid]
  | claim sender hunlocked hfunds =>
      refine ⟨_, History.entry rfl rfl hfits (fun a => ?_) (fun a => ?_) trivial
        (by simp [settledIds, State.record]) (by simp [settledIds])⟩
      · simp [moves, move, account, State.record, List.filterMap_cons]
      · simp [moves, move, List.filterMap_cons]
  | setAuctioneer | setSplit | setProtocolTreasury | transferOwnership =>
      exact ⟨_, History.still rfl (Nat.le_refl _) hfits rfl rfl rfl⟩

/-- Every run has a history. -/
theorem Reaches.history {P : Params} {s t : State} (h : (system P).Reaches s t)
    (hfits : s.now < 2 ^ 64) : ∃ new, History P s t new := by
  refine System.reaches_rel
    (R := fun s t => s.now < 2 ^ 64 → ∃ new, History P s t new) ?_ ?_ ?_ ?_ h hfits
  · intro s hs
    exact ⟨[], History.still rfl (Nat.le_refl _) hs rfl rfl rfl⟩
  · intro s t u hfirst hsecond hs
    obtain ⟨xs, hxs⟩ := hfirst hs
    obtain ⟨ys, hys⟩ := hsecond hxs.fits
    exact ⟨ys ++ xs, hxs.trans hys⟩
  · rintro s t ⟨value, later, hlater, hle, rfl⟩ hs
    exact ⟨[], History.still rfl hle hlater rfl rfl rfl⟩
  · intro m s
    refine sat_entry P m ?_ ?_
    · intro t hchange _ hs
      exact History.change hchange hs
    · rintro t q u hchange _ _ ⟨s₁, s₂, hbefore, rfl, hafter⟩ hs
      obtain ⟨own, hown⟩ := History.change hchange hs
      obtain ⟨xs, hxs⟩ := hbefore hown.fits
      obtain ⟨ys, hys⟩ := hafter hxs.fits
      have hunlock : History P u { u with locked := false } [] :=
        History.still rfl (Nat.le_refl _) hys.fits rfl rfl rfl
      exact ⟨_, ((hown.trans hxs).trans hys).trans hunlock⟩

/-! ## Charges -/

/-- All a searcher has in: what is free, and what is on its way out. -/
def stake (s : State) (a : Address) : Nat := collateral s a + payable s a

/-- A pending withdrawal stays inside the bond until it is paid. -/
theorem stake_eq_bond (s : State) (a : Address) : stake s a = s.bond a := by
  unfold stake collateral
  rw [payable_eq_min]
  dsimp only
  split <;> omega

/-- What `collateral` answers is what is free. -/
theorem collateral_eq_free (s : State) (a : Address) :
    collateral s a = (account s a).free := by
  simp only [collateral, account, Delayed.Account.free]
  split <;> omega

/-- Only deposits, withdrawals and charges move a stake. -/
theorem History.balance {P : Params} {s t : State} {new : List Entry}
    (h : History P s t new) (a : Address) :
    stake t a + charged a new + withdrawn a new = stake s a + deposited a new := by
  simp only [stake_eq_bond]
  exact Delayed.run_balance (h.run a)

theorem charged_eq (a : Address) (es : List Entry) :
    charged a es = ((es.filterMap (move a)).map Delayed.Move.charged).sum := by
  simp [charged, moves, Delayed.charged, List.sum_reverse]

theorem chargedIds_sublist (a : Address) (es : List Entry) :
    (chargedIds a es).Sublist (settledIds es) := by
  induction es with
  | nil => exact List.Sublist.refl _
  | cons e es ih =>
      cases e with
      | settled sender auctioneer c sig =>
          by_cases ha : c.searcher = a
          · simpa [chargedIds, settledIds, ha] using ih
          · simpa [chargedIds, settledIds, ha] using ih.cons c.opportunityId
      | deposited | requested | cancelled | withdrawn | claimed => exact ih

/-- Charges within the bids add up to at most the bids. -/
theorem charged_le_sum {P : Params} {a : Address} {es : List Entry} {M : Bytes32 → Nat}
    (hauth : ∀ e ∈ es, Authorised P e)
    (hM : ∀ sender auctioneer c sig, Entry.settled sender auctioneer c sig ∈ es →
      c.searcher = a → ValidBid P c sig → c.maxAmountWei ≤ M c.opportunityId) :
    charged a es ≤ ((chargedIds a es).map M).sum := by
  rw [charged_eq]
  induction es with
  | nil => exact Nat.le_refl _
  | cons e es ih =>
      have hrest := ih (fun e he => hauth e (List.mem_cons_of_mem _ he))
        (fun sender auctioneer c sig he => hM sender auctioneer c sig
          (List.mem_cons_of_mem _ he))
      cases e with
      | settled sender auctioneer c sig =>
          obtain ⟨-, hsig, hbid⟩ := hauth _ List.mem_cons_self
          by_cases ha : c.searcher = a
          · have hmax := hM sender auctioneer c sig List.mem_cons_self ha hsig
            simp only [chargedIds, List.filterMap_cons, move, ha, if_true, List.map_cons,
              List.sum_cons, Delayed.Move.charged] at hrest ⊢
            omega
          · simpa [chargedIds, move, ha] using hrest
      | deposited b | requested b | cancelled b | withdrawn b =>
          by_cases ha : b = a <;>
            simpa [chargedIds, move, ha, Delayed.Move.charged] using hrest
      | claimed b v => simpa [chargedIds, move, List.filterMap_cons] using hrest

/-- **Charge authorization.**  Along every run from a reachable state, what a
searcher has in, free or on its way out, goes down only by its own withdrawals,
each of them due, and by charges the auctioneer sent with the searcher's
signature over a bid no smaller than the charge.  No opportunity id is settled
twice, whether in the run or before it.  So whatever bounds the bids the
searcher signed, opportunity by opportunity, bounds what it was charged when
summed over the distinct opportunities settled against it. -/
theorem charges_are_authorised (P : Params) {s₀ s t : State} (hinit : Deployed s₀)
    (hs : (system P).Reaches s₀ s) (ht : (system P).Reaches s t) :
    ∃ new, t.journal = new ++ s.journal ∧
      (∀ a, stake t a + charged a new + withdrawn a new = stake s a + deposited a new) ∧
      (∀ e ∈ new, Authorised P e) ∧
      (settledIds new).Nodup ∧ (∀ id ∈ settledIds new, s.settled id = false) ∧
      ∀ (a : Address) (M : Bytes32 → Nat),
        (∀ sender auctioneer c sig, Entry.settled sender auctioneer c sig ∈ new →
          c.searcher = a → ValidBid P c sig → c.maxAmountWei ≤ M c.opportunityId) →
        charged a new ≤ ∑ id ∈ (chargedIds a new).toFinset, M id := by
  obtain ⟨_, hbefore⟩ := Reaches.history hs hinit.fits
  obtain ⟨new, hnew⟩ := Reaches.history ht hbefore.fits
  refine ⟨new, hnew.journal, hnew.balance, hnew.authorised, hnew.once, hnew.fresh, ?_⟩
  intro a M hM
  have hnodup : (chargedIds a new).Nodup := hnew.once.sublist (chargedIds_sublist a new)
  rw [List.sum_toFinset M hnodup]
  exact charged_le_sum hnew.authorised hM

/-- The run that charges account 2 with 20 of the 40 wei it bid. -/
theorem charges_are_authorised_sample :
    ∃ new, new = [Entry.settled 1 1 Sample.bid Sample.sig] ∧
      stake Sample.charged 2 + charged 2 new + withdrawn 2 new =
        stake Sample.asked 2 + deposited 2 new ∧
      charged 2 new ≤ ∑ _id ∈ (chargedIds 2 new).toFinset, 40 := by
  obtain ⟨new, hjournal, hbalance, -, -, -, hcap⟩ := charges_are_authorised Sample.params
    Sample.deployed_start Sample.reaches_asked Sample.reaches_charged
  have hnew : new = [Entry.settled 1 1 Sample.bid Sample.sig] :=
    List.append_cancel_right (hjournal.symm.trans rfl)
  refine ⟨new, hnew, hbalance 2, hcap 2 (fun _ => 40) ?_⟩
  intro sender auctioneer c sig hmem _ _
  rw [hnew, List.mem_singleton] at hmem
  cases hmem
  decide

/-! ## The delay -/

/-- **The withdrawal delay.**  What `collateral` answers for a searcher in a
reachable state at time `t` is still chargeable, or has been charged since, in
every state a run reaches before `t + WITHDRAW_DELAY`, whatever was deposited,
requested, cancelled, requested again and withdrawn in between. -/
theorem collateral_stays_for_the_delay (P : Params) {s₀ s t : State} (hinit : Deployed s₀)
    (hs : (system P).Reaches s₀ s) (ht : (system P).Reaches s t)
    (hsoon : t.now < s.now + P.WITHDRAW_DELAY) :
    ∃ new, t.journal = new ++ s.journal ∧
      ∀ a, collateral s a ≤ t.bond a + charged a new := by
  obtain ⟨_, hbefore⟩ := Reaches.history hs hinit.fits
  obtain ⟨new, hnew⟩ := Reaches.history ht hbefore.fits
  refine ⟨new, hnew.journal, fun a => ?_⟩
  rw [collateral_eq_free]
  exact Delayed.free_stays (hnew.run a) (hnew.stamps a) hsoon

/-- Account 2 has 10 of its 50 wei free, and 20 charged soon after. -/
theorem collateral_stays_for_the_delay_sample :
    ∃ new, Sample.charged.journal = new ++ Sample.asked.journal ∧
      10 ≤ Sample.charged.bond 2 + charged 2 new := by
  obtain ⟨new, hjournal, hstays⟩ := collateral_stays_for_the_delay Sample.params
    Sample.deployed_start Sample.reaches_asked Sample.reaches_charged (by decide)
  exact ⟨new, hjournal, hstays 2⟩

end Ordo.OrdoSettlement
