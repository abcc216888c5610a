import Ordo.Custody
import Ordo.SettlementSteps

/-!
# Solvency of the settlement contract

Every wei the contract holds is in somebody's bond, in somebody's claim, or was
forced in.  The state is read as a `Custody.Book` over two accounts for every
address; each function is a few operations on that book, and since a book
always adds up, the proof is only that the function leaves the state the book
describes.

`Due s v` is the invariant inside a function: all but `v` of the balance is
accounted for.  It is `Due s 0` whenever anybody else can look.
-/

namespace Ordo.OrdoSettlement

open Reentrant Custody

/-- The accounts of a state: bonds on the left, claims on the right. -/
def accounts (s : State) : Address ⊕ Address → Nat := Sum.elim s.bond s.claimable

/-- A book describes the state, but for `v` of the balance. -/
def Due (s : State) (v : Nat) : Prop :=
  ∃ b : Book (Address ⊕ Address),
    b.owed = accounts s ∧ b.held + v = s.balance ∧ b.spare = s.forced

/-- A book describes the state. -/
def Covered (s : State) : Prop := Due s 0

/-- The balance is what was forced in and what everybody is owed. -/
theorem Covered.balance_eq {s : State} (h : Covered s) :
    s.balance = s.forced + (∑ a, s.bond a) + ∑ a, s.claimable a := by
  obtain ⟨b, howed, hheld, hspare⟩ := h
  have hb := b.balanced
  rw [howed, hspare, accounts, Fintype.sum_sum_type] at hb
  simp only [Sum.elim_inl, Sum.elim_inr] at hb
  omega

/-- What one account is owed can be paid. -/
theorem Covered.owed_le {s : State} (h : Covered s) (a : Address) :
    s.bond a ≤ s.balance ∧ s.claimable a ≤ s.balance := by
  obtain ⟨b, howed, hheld, -⟩ := h
  have hbond := b.owed_le_held (.inl a)
  have hclaim := b.owed_le_held (.inr a)
  simp only [howed, accounts, Sum.elim_inl, Sum.elim_inr] at hbond hclaim
  omega

/-! ## Operations on the book -/

/-- Ether arrives. -/
theorem Due.arrive {s : State} {v w : Nat} (h : Due s v) :
    Due { s with balance := s.balance + w } (v + w) := by
  obtain ⟨b, howed, hheld, hspare⟩ := h
  exact ⟨b, howed, by dsimp only; omega, hspare⟩

/-- Ether that is not owed to anybody leaves. -/
theorem Due.leave {s : State} {v w : Nat} (h : Due s (v + w)) :
    Due { s with balance := s.balance - w } v := by
  obtain ⟨b, howed, hheld, hspare⟩ := h
  exact ⟨b, howed, by dsimp only; omega, hspare⟩

/-- Ether is forced in. -/
theorem Due.force {s : State} {v w : Nat} (h : Due s v) :
    Due { s with balance := s.balance + w, forced := s.forced + w } v := by
  obtain ⟨b, howed, hheld, hspare⟩ := h
  exact ⟨b.gift w, howed, by simp only [Book.gift]; omega, by simp only [Book.gift, hspare]⟩

/-- A bond takes up part of what is due. -/
theorem Due.bondUp {s : State} {v w : Nat} (h : Due s (v + w)) (a : Address) :
    Due { s with bond := Function.update s.bond a (s.bond a + w) } v := by
  obtain ⟨b, howed, hheld, hspare⟩ := h
  refine ⟨b.credit (.inl a) w, ?_, by simp only [Book.credit]; omega, hspare⟩
  simp only [Book.credit, howed, accounts, Sum.elim_inl, Sum.update_elim_inl]

/-- A claim takes up part of what is due. -/
theorem Due.claimUp {s : State} {v w : Nat} (h : Due s (v + w)) (a : Address) :
    Due { s with claimable := Function.update s.claimable a (s.claimable a + w) } v := by
  obtain ⟨b, howed, hheld, hspare⟩ := h
  refine ⟨b.credit (.inr a) w, ?_, by simp only [Book.credit]; omega, hspare⟩
  simp only [Book.credit, howed, accounts, Sum.elim_inr, Sum.update_elim_inr]

/-- A bond gives up `w`. -/
theorem Due.bondDown {s : State} {v w : Nat} (h : Due s v) (a : Address)
    (hw : w ≤ s.bond a) :
    Due { s with bond := Function.update s.bond a (s.bond a - w) } (v + w) := by
  obtain ⟨b, howed, hheld, hspare⟩ := h
  have hle : w ≤ b.owed (.inl a) := by simpa only [howed, accounts, Sum.elim_inl] using hw
  have hfits := b.owed_le_held (.inl a)
  refine ⟨b.debit (.inl a) w hle, ?_, by simp only [Book.debit]; omega, hspare⟩
  simp only [Book.debit, howed, accounts, Sum.elim_inl, Sum.update_elim_inl]

/-- A claim gives up `w`. -/
theorem Due.claimDown {s : State} {v w : Nat} (h : Due s v) (a : Address)
    (hw : w ≤ s.claimable a) :
    Due { s with claimable := Function.update s.claimable a (s.claimable a - w) } (v + w) := by
  obtain ⟨b, howed, hheld, hspare⟩ := h
  have hle : w ≤ b.owed (.inr a) := by simpa only [howed, accounts, Sum.elim_inr] using hw
  have hfits := b.owed_le_held (.inr a)
  refine ⟨b.debit (.inr a) w hle, ?_, by simp only [Book.debit]; omega, hspare⟩
  simp only [Book.debit, howed, accounts, Sum.elim_inr, Sum.update_elim_inr]

/-- What is due depends on the accounts and the ether alone. -/
theorem Due.congr {s t : State} {v : Nat} (h : Due s v) (hbond : t.bond = s.bond)
    (hclaim : t.claimable = s.claimable) (hbalance : t.balance = s.balance)
    (hforced : t.forced = s.forced) : Due t v := by
  obtain ⟨b, howed, hheld, hspare⟩ := h
  exact ⟨b, by rw [howed, accounts, accounts, hbond, hclaim], by rw [hheld, hbalance],
    by rw [hspare, hforced]⟩

/-! ## Every function keeps the book -/

/-- The steps a call takes by itself keep the state covered. -/
theorem Covered.change {P : Params} {s t : State} {m : Msg} (h : Covered s)
    (hchange : Change P s m t) : Covered t := by
  cases hchange with
  | deposit sender value =>
      have harrived := (Due.arrive (w := value) h).bondUp sender
      exact harrived.congr rfl rfl rfl rfl
  | withdrawBond sender hunlocked hpending hready hfunds =>
      have hle : payable s sender ≤ s.bond sender := by
        rw [payable_eq_min]
        exact Nat.min_le_right _ _
      exact (h.bondDown sender hle).leave.congr rfl rfl rfl rfl
  | settle sender c sig p hsender hfresh hbid hsig hbond huser =>
      have hdue := h.bondDown c.searcher hbond
      rw [show 0 + c.chargeWei = 0 + p.protocolAmt + p.appAmt + p.userAmt by
        have := p.total
        omega] at hdue
      have hsplit := ((hdue.claimUp c.user).claimUp c.app).claimUp s.protocolTreasury
      exact hsplit.congr rfl rfl rfl rfl
  | claim sender hunlocked hfunds =>
      have hdue := (h.claimDown sender (Nat.le_refl _)).leave
      rw [Nat.sub_self] at hdue
      exact hdue.congr rfl rfl rfl rfl
  | requestWithdraw | cancelWithdraw | setAuctioneer | setSplit | setProtocolTreasury
  | transferOwnership => exact h.congr rfl rfl rfl rfl

/-- Whatever a called recipient does, the state comes back covered. -/
theorem Covered.around {P : Params} {s t : State} {q : Send} {ok : Bool} (h : Covered s)
    (hcall : (system P).around (fun s t => Covered s → Covered t) s q t ok) :
    Covered t := by
  obtain ⟨s₁, s₂, h₁, rfl, h₂⟩ := hcall
  exact h₂ (h₁ h)

/-- What the constructor leaves when it does not revert. -/
theorem constructor_ok {sender auctioneer treasury : Address}
    {appBps protocolBps balance now : Nat} {s : State}
    (h : constructor sender auctioneer treasury appBps protocolBps balance now = .ok s) :
    s = {
      bond := fun _ => 0, claimable := fun _ => 0, settled := fun _ => false
      withdrawal := fun _ => ⟨0, 0⟩
      owner := sender, auctioneer, protocolTreasury := treasury, appBps, protocolBps
      locked := false, balance, now, forced := balance, journal := [] } := by
  unfold constructor at h
  split at h
  · cases h
  · split at h
    · cases h
    · cases h
      rfl

/-- A deployed contract owes nothing. -/
theorem Deployed.covered {s : State} (h : Deployed s) : Covered s := by
  obtain ⟨sender, auctioneer, treasury, appBps, protocolBps, balance, now, -, hs⟩ := h
  cases constructor_ok hs
  refine ⟨Book.empty balance, ?_, rfl, rfl⟩
  funext a
  cases a <;> rfl

theorem Deployed.unlocked {s : State} (h : Deployed s) : s.locked = false := by
  obtain ⟨sender, auctioneer, treasury, appBps, protocolBps, balance, now, -, hs⟩ := h
  cases constructor_ok hs
  rfl

/-- Block times are 64-bit. -/
theorem Deployed.fits {s : State} (h : Deployed s) : s.now < 2 ^ 64 := by
  obtain ⟨sender, auctioneer, treasury, appBps, protocolBps, balance, now, hnow, hs⟩ := h
  cases constructor_ok hs
  exact hnow

/-- Every state anybody can look at is covered, pending transfers included. -/
theorem Visible.covered {P : Params} {s : State} (h : (system P).Visible Deployed s) :
    Covered s := by
  refine System.visible_invariant ?_ ?_ ?_ ?_ h
  · rintro s t ⟨value, later, -, -, rfl⟩ hs
    exact (Due.force hs).congr rfl rfl rfl rfl
  · intro m s hs
    refine sat_entry P m (fun t hchange _ => hs.change hchange) ?_
    intro t q u hchange _ _ hcall
    exact ((hs.change hchange).around hcall).congr rfl rfl rfl rfl
  · exact fun s hs => hs.covered
  · intro m s hs
    exact guarded_entry P m fun t hchange => hs.change hchange

/-- A recipient that takes the ether and does nothing else. -/
def accept (s : State) (_ : Send) : State × Bool := (s, true)

/-- A covered contract pays a matured withdrawal. -/
theorem Covered.withdrawBond_pays {P : Params} {s : State} (h : Covered s) (a : Address)
    (hunlocked : s.locked = false) (hpending : (s.withdrawal a).readyAt ≠ 0)
    (hready : (s.withdrawal a).readyAt ≤ s.now) :
    ∃ t, (entry P ⟨a, 0, .withdrawBond⟩ s).eval accept = .ok (t, ()) ∧
      t.balance + payable s a = s.balance := by
  have hfunds : payable s a ≤ s.balance := by
    rw [payable_eq_min]
    exact (Nat.min_le_right _ _).trans (h.owed_le a).1
  unfold payable at hfunds ⊢
  simp [entry, notPayable, withdrawBond, nonReentrant, send, accept, hunlocked, hpending,
    hready, hfunds, State.record]

/-- A covered contract pays a claim. -/
theorem Covered.claim_pays {P : Params} {s : State} (h : Covered s) (a : Address)
    (hunlocked : s.locked = false) (hclaim : s.claimable a ≠ 0) :
    ∃ t, (entry P ⟨a, 0, .claim⟩ s).eval accept = .ok (t, ()) ∧
      t.balance + s.claimable a = s.balance := by
  have hfunds := (h.owed_le a).2
  simp [entry, notPayable, claim, nonReentrant, send, accept, hunlocked, hclaim, hfunds,
    State.record]

/-- A charge takes from one bond what it adds to all claims together. -/
theorem Parts.sum_claims {s : State} {c : Settlement} (p : Parts s c) :
    ∑ a, p.claims a = (∑ a, s.claimable a) + c.chargeWei := by
  have hplus (f : Address → Nat) (a : Address) (v : Nat) :
      ∑ b, plus f a v b = (∑ b, f b) + v := by
    have h := sum_update_add f a (f a + v)
    unfold plus
    omega
  rw [Parts.claims, hplus, hplus, hplus]
  have htotal := p.total
  omega

/-- A successful settlement splits its charge and moves nothing else. -/
theorem sat_settle {P : Params} {E : State → Send → State → Bool → Prop} {s : State}
    (sender : Address) (c : Settlement) (sig : Bytes) :
    Sat E (entry P ⟨sender, 0, .settle c sig⟩ s) fun t _ =>
      c.chargeWei ≤ s.bond c.searcher ∧
        t.bond = Function.update s.bond c.searcher (s.bond c.searcher - c.chargeWei) ∧
        ∃ p : Parts s c, t.claimable = p.claims := by
  refine sat_entry P _ ?_ ?_
  · intro t hchange _
    cases hchange with
    | settle _ _ _ p _ _ _ _ hbond _ => exact ⟨hbond, rfl, p, rfl⟩
  · intro t q u hchange hbefore hafter
    cases hchange with
    | settle => exact absurd (hbefore.symm.trans hafter) (by decide)

/-- No action leaves the lock otherwise than it found it. -/
theorem Reaches.locked_eq {P : Params} {s t : State} (h : (system P).Reaches s t) :
    t.locked = s.locked := by
  refine System.reaches_rel (R := fun s t => t.locked = s.locked) (fun _ => rfl) ?_ ?_ ?_ h
  · intro s t u hfirst hsecond
    exact hsecond.trans hfirst
  · rintro s t ⟨value, later, -, -, rfl⟩
    rfl
  · intro m s
    refine sat_entry P m (fun t _ hlock => hlock) ?_
    intro t q u _ hbefore _ _
    exact hbefore.symm

/-- **Solvency.**  Wherever anybody can look, in the middle of a transfer or
between transactions, the contract's ether is what was forced in plus all bonds
plus all claims, so no bond and no claim exceeds it.  Between transactions a
matured withdrawal and a claim are paid in full to a recipient that takes them.
A settlement debits one bond by exactly the parts it credits. -/
theorem ether_backs_bonds_and_claims (P : Params) :
    (∀ s, (system P).Visible Deployed s →
      s.balance = s.forced + (∑ a, s.bond a) + ∑ a, s.claimable a ∧
      ∀ a, payable s a ≤ s.balance ∧ s.claimable a ≤ s.balance) ∧
    (∀ s₀ s, Deployed s₀ → (system P).Reaches s₀ s → ∀ a,
      ((s.withdrawal a).readyAt ≠ 0 → (s.withdrawal a).readyAt ≤ s.now →
        ∃ t, (entry P ⟨a, 0, .withdrawBond⟩ s).eval accept = .ok (t, ()) ∧
          t.balance + payable s a = s.balance) ∧
      (s.claimable a ≠ 0 →
        ∃ t, (entry P ⟨a, 0, .claim⟩ s).eval accept = .ok (t, ()) ∧
          t.balance + s.claimable a = s.balance)) ∧
    (∀ E s sender c sig, Sat E (entry P ⟨sender, 0, .settle c sig⟩ s) fun t _ =>
      t.bond c.searcher + c.chargeWei = s.bond c.searcher ∧
      (∀ a, a ≠ c.searcher → t.bond a = s.bond a) ∧
      (∑ a, t.claimable a) = (∑ a, s.claimable a) + c.chargeWei ∧
      ∃ p : Parts s c, t.claimable = p.claims ∧
        p.userAmt + p.appAmt + p.protocolAmt = c.chargeWei) := by
  refine ⟨fun s hs => ?_, fun s₀ s hinit hreach a => ?_, fun E s sender c sig => ?_⟩
  · have hcovered := Visible.covered hs
    refine ⟨hcovered.balance_eq, fun a => ⟨?_, (hcovered.owed_le a).2⟩⟩
    rw [payable_eq_min]
    exact (Nat.min_le_right _ _).trans (hcovered.owed_le a).1
  · have hcovered := Visible.covered (System.visible_of_reaches hinit hreach)
    have hunlocked : s.locked = false := by
      rw [Reaches.locked_eq hreach]
      exact hinit.unlocked
    exact ⟨hcovered.withdrawBond_pays a hunlocked, hcovered.claim_pays a hunlocked⟩
  · refine (sat_settle sender c sig).mono ?_
    rintro t - ⟨hbond, hafter, p, hclaims⟩
    refine ⟨?_, ?_, ?_, p, hclaims, p.total⟩
    · rw [hafter, Function.update_self]
      omega
    · intro a ha
      rw [hafter, Function.update_of_ne ha]
    · rw [hclaims, p.sum_claims]

/-! ## A run -/

namespace Sample

/-- A delay of a hundred seconds; every signature is account 2's. -/
def params : Params where
  WITHDRAW_DELAY := 100
  DOMAIN_SEPARATOR := 8
  BID_TYPEHASH := 9
  keccak := fun _ => 7
  ecrecover := fun _ _ _ _ => 2

/-- Deployed by account 1, which is also auctioneer and treasury; 3 wei are
already there. -/
def start : State where
  bond := fun _ => 0
  claimable := fun _ => 0
  settled := fun _ => false
  withdrawal := fun _ => ⟨0, 0⟩
  owner := 1
  auctioneer := 1
  protocolTreasury := 1
  appBps := 1000
  protocolBps := 500
  locked := false
  balance := 3
  now := 5
  forced := 3
  journal := []

theorem deployed_start : Deployed start :=
  ⟨1, 1, 1, 1000, 500, 3, 5, by decide, rfl⟩

/-- A bid of account 2 for opportunity 9. -/
def bid : Settlement where
  searcher := 2
  opportunityId := 9
  maxAmountWei := 40
  chargeWei := 20
  user := 4
  app := 5

/-- A signature of the right form. -/
def sig : Bytes := List.replicate 64 0 ++ [27]

/-- Account 2 bonds 50 wei and asks for 40 back. -/
def asked : State :=
  (system params).exec accept ⟨2, 0, .requestWithdraw 40⟩
    ((system params).exec accept ⟨2, 50, .deposit⟩ start)

/-- The bid is charged. -/
def charged : State := (system params).exec accept ⟨1, 0, .settle bid sig⟩ asked

/-- Time passes, and the request is ready. -/
def matured : State := { charged with now := 200 }

theorem reaches_asked : (system params).Reaches start asked :=
  (System.reaches_exec (fun _ _ => rfl) _ _).trans (System.reaches_exec (fun _ _ => rfl) _ _)

theorem reaches_charged : (system params).Reaches asked charged :=
  System.reaches_exec (fun _ _ => rfl) _ _

theorem reaches_matured : (system params).Reaches start matured :=
  (reaches_asked.trans reaches_charged).tail ⟨0, 0, 200, by decide, by decide, rfl⟩

end Sample

/-- Account 2 gets what the charge left of its bond; the user of the bid gets
seventeen twentieths of it. -/
theorem ether_backs_bonds_and_claims_sample :
    (∃ t, (entry Sample.params ⟨2, 0, .withdrawBond⟩ Sample.matured).eval accept =
        .ok (t, ()) ∧ t.balance + 30 = 53) ∧
      ∃ t, (entry Sample.params ⟨4, 0, .claim⟩ Sample.matured).eval accept =
        .ok (t, ()) ∧ t.balance + 17 = 53 := by
  have hpays := (ether_backs_bonds_and_claims Sample.params).2.1 Sample.start Sample.matured
    Sample.deployed_start Sample.reaches_matured
  exact ⟨(hpays 2).1 (by decide) (by decide), (hpays 4).2 (by decide)⟩

end Ordo.OrdoSettlement
