import Ordo.Settlement

/-!
# What a call of the settlement contract can do

`Change P s m t` lists, one constructor for each function, the state `t` a
message `m` leaves when its own code is done or waits for its transfer.  The
two theorems about `entry` say that this is all there is: every pending state
is such a `t`, and a successful call ends in it, or in what came back from the
transfer with the lock released.  No later proof unfolds a function body.
-/

namespace Ordo.OrdoSettlement

open Reentrant

/-- What a matured withdrawal pays: the request or what is left. -/
def payable (s : State) (searcher : Address) : Nat :=
  if (s.withdrawal searcher).amount < s.bond searcher then (s.withdrawal searcher).amount
  else s.bond searcher

theorem payable_eq_min (s : State) (a : Address) :
    payable s a = min (s.withdrawal a).amount (s.bond a) := by
  unfold payable
  split <;> omega

/-- Add to one entry of a mapping. -/
def plus (f : Address → Nat) (a : Address) (v : Nat) : Address → Nat :=
  Function.update f a (f a + v)

/-- The searcher's signature over a bid is good. -/
def ValidBid (P : Params) (s : Settlement) (sig : Bytes) : Prop :=
  ecdsaSigner P.ecrecover (P.bidDigest s.searcher s.opportunityId s.maxAmountWei) sig =
    some s.searcher

/-- The three parts of a charge, as the contract rounds them. -/
structure Parts (s : State) (c : Settlement) where
  appAmt : Nat
  protocolAmt : Nat
  userAmt : Nat
  appAmt_eq : appAmt = if c.app = 0 then 0 else c.chargeWei * s.appBps / 10000
  protocolAmt_eq : protocolAmt = c.chargeWei * s.protocolBps / 10000
  total : userAmt + appAmt + protocolAmt = c.chargeWei

/-- The claims after a charge is split. -/
def Parts.claims {s : State} {c : Settlement} (p : Parts s c) : Address → Nat :=
  plus (plus (plus s.claimable c.user p.userAmt) c.app p.appAmt)
    s.protocolTreasury p.protocolAmt

/-- The state a message leaves by its own code, up to and including the ether
of its transfer. -/
inductive Change (P : Params) (s : State) : Msg → State → Prop
  | deposit (sender : Address) (value : Nat) :
      Change P s ⟨sender, value, .deposit⟩
        ({ s with balance := s.balance + value, bond := plus s.bond sender value }.record
          (.deposited sender value))
  | requestWithdraw (sender : Address) (amount : Nat) (hpos : amount ≠ 0)
      (hbond : amount ≤ s.bond sender)
      (hfit : toU64 s.now + P.WITHDRAW_DELAY < 2 ^ 64) :
      Change P s ⟨sender, 0, .requestWithdraw amount⟩
        ({ s with
          withdrawal := Function.update s.withdrawal sender
            ⟨amount, toU64 s.now + P.WITHDRAW_DELAY⟩ }.record
          (.requested sender amount s.now))
  | cancelWithdraw (sender : Address) :
      Change P s ⟨sender, 0, .cancelWithdraw⟩
        ({ s with withdrawal := Function.update s.withdrawal sender ⟨0, 0⟩ }.record
          (.cancelled sender))
  | withdrawBond (sender : Address) (hunlocked : s.locked = false)
      (hpending : (s.withdrawal sender).readyAt ≠ 0)
      (hready : (s.withdrawal sender).readyAt ≤ s.now)
      (hfunds : payable s sender ≤ s.balance) :
      Change P s ⟨sender, 0, .withdrawBond⟩
        ({ s with
          locked := true
          withdrawal := Function.update s.withdrawal sender ⟨0, 0⟩
          bond := Function.update s.bond sender (s.bond sender - payable s sender)
          balance := s.balance - payable s sender }.record
          (.withdrawn sender (payable s sender) (s.withdrawal sender).readyAt s.now))
  | settle (sender : Address) (c : Settlement) (sig : Bytes) (p : Parts s c)
      (hsender : sender = s.auctioneer) (hfresh : s.settled c.opportunityId = false)
      (hbid : c.chargeWei ≤ c.maxAmountWei) (hsig : ValidBid P c sig)
      (hbond : c.chargeWei ≤ s.bond c.searcher) (huser : c.user ≠ 0) :
      Change P s ⟨sender, 0, .settle c sig⟩
        ({ s with
          settled := Function.update s.settled c.opportunityId true
          bond := Function.update s.bond c.searcher (s.bond c.searcher - c.chargeWei)
          claimable := p.claims }.record
          (.settled sender s.auctioneer c sig))
  | claim (sender : Address) (hunlocked : s.locked = false)
      (hfunds : s.claimable sender ≤ s.balance) :
      Change P s ⟨sender, 0, .claim⟩
        ({ s with
          locked := true
          claimable := Function.update s.claimable sender 0
          balance := s.balance - s.claimable sender }.record
          (.claimed sender (s.claimable sender)))
  | setAuctioneer (sender auctioneer : Address) (howner : sender = s.owner)
      (hnew : auctioneer ≠ 0) :
      Change P s ⟨sender, 0, .setAuctioneer auctioneer⟩ { s with auctioneer }
  | setSplit (sender : Address) (appBps protocolBps : Nat) (howner : sender = s.owner)
      (hsplit : appBps + protocolBps ≤ 10000) :
      Change P s ⟨sender, 0, .setSplit appBps protocolBps⟩ { s with appBps, protocolBps }
  | setProtocolTreasury (sender treasury : Address) (howner : sender = s.owner)
      (hnew : treasury ≠ 0) :
      Change P s ⟨sender, 0, .setProtocolTreasury treasury⟩
        { s with protocolTreasury := treasury }
  | transferOwnership (sender owner : Address) (howner : sender = s.owner)
      (hnew : owner ≠ 0) :
      Change P s ⟨sender, 0, .transferOwnership owner⟩ { s with owner }

section Bodies

variable {E : State → Send → State → Bool → Prop} {G : State → Prop} {s : State}

@[simp] theorem sat_share (amount bps : Nat) (post : State → Nat → Prop) :
    Sat E (share amount bps s) post ↔
      (amount * bps < 2 ^ 256 → post s (amount * bps / 10000)) := by
  simp [share]

@[simp] theorem guarded_share (amount bps : Nat) :
    Guarded E G (share amount bps s) ↔ True := by
  simp [share]

@[simp] theorem sat_appShare (app : Address) (amount bps : Nat)
    (post : State → Nat → Prop) :
    Sat E (appShare app amount bps s) post ↔
      ((app ≠ 0 → amount * bps < 2 ^ 256) →
        post s (if app = 0 then 0 else amount * bps / 10000)) := by
  by_cases h : app = 0 <;> simp [appShare, h]

@[simp] theorem guarded_appShare (app : Address) (amount bps : Nat) :
    Guarded E G (appShare app amount bps s) ↔ True := by
  by_cases h : app = 0 <;> simp [appShare, h]

@[simp] theorem sat_credit (beneficiary : Address) (amount : Nat)
    (post : State → Unit → Prop) :
    Sat E (credit beneficiary amount s) post ↔
      (s.claimable beneficiary + amount < 2 ^ 256 ∨ amount = 0 →
        post { s with claimable := plus s.claimable beneficiary amount } ()) := by
  by_cases h : 0 < amount
  · simp [credit, h, plus, Nat.pos_iff_ne_zero.mp h]
  · have h0 : amount = 0 := by omega
    simp [credit, h0, plus]

@[simp] theorem guarded_credit (beneficiary : Address) (amount : Nat) :
    Guarded E G (credit beneficiary amount s) ↔ True := by
  by_cases h : 0 < amount <;> simp [credit, h]

/-- A guarded function runs its body locked and unlocks after it. -/
theorem sat_nonReentrant {body : Body Unit} {post : State → Unit → Prop}
    (h : s.locked = false →
      Sat E (body { s with locked := true }) fun t _ => post { t with locked := false } ()) :
    Sat E (nonReentrant body s) post := by
  simpa [nonReentrant] using h

/-- A transfer hands over what the contract has. -/
theorem sat_send {recipient : Address} {amount : Nat} {post : State → Unit → Prop}
    (h : amount ≤ s.balance → ∀ t,
      E { s with balance := s.balance - amount } ⟨recipient, amount⟩ t true → post t ()) :
    Sat E (send recipient amount s) post := by
  simpa [send] using h

theorem guarded_nonReentrant {body : Body Unit}
    (h : s.locked = false → Guarded E G (body { s with locked := true })) :
    Guarded E G (nonReentrant body s) := by
  simpa [nonReentrant] using h

theorem guarded_send {recipient : Address} {amount : Nat}
    (h : amount ≤ s.balance → G { s with balance := s.balance - amount }) :
    Guarded E G (send recipient amount s) := by
  simpa [send] using h

/-- **All a call does.**  A successful call ends in the state its own code
leaves, or in what its transfer came back with, unlocked. -/
theorem sat_entry (P : Params) (m : Msg) {post : State → Unit → Prop}
    (hdone : ∀ t, Change P s m t → t.locked = s.locked → post t ())
    (hcall : ∀ t q u, Change P s m t → s.locked = false → t.locked = true →
      E t q u true → post { u with locked := false } ()) :
    Sat E (entry P m s) post := by
  obtain ⟨sender, value, call⟩ := m
  cases call with
  | deposit =>
      simp [entry, deposit]
      intro hfit
      exact hdone _ (.deposit sender value) rfl
  | requestWithdraw amount =>
      simp [entry, notPayable, requestWithdraw]
      intro hvalue hpos hbond hfit
      subst hvalue
      exact hdone _ (.requestWithdraw sender amount hpos hbond hfit) rfl
  | cancelWithdraw =>
      simp [entry, notPayable, cancelWithdraw]
      intro hvalue hpending
      subst hvalue
      exact hdone _ (.cancelWithdraw sender) rfl
  | withdrawBond =>
      simp only [entry, notPayable, withdrawBond, Prog.bind_apply, sat_bind, Prog.sat_require]
      intro hvalue
      refine sat_nonReentrant fun hunlocked => ?_
      simp
      intro hpending hready
      refine sat_send fun hfunds u hsend => ?_
      subst hvalue
      exact hcall _ _ u (.withdrawBond sender hunlocked hpending hready hfunds) hunlocked rfl
        hsend
  | settle c sig =>
      simp [entry, notPayable, settle, recover]
      intro hvalue hsender hfresh hbid signer hsig hsigner hbond huser _ _ happ hprotocol _ _ _
      subst hvalue hsigner
      refine hdone _ (.settle sender c sig ⟨_, _, _, rfl, rfl, ?_⟩ hsender hfresh hbid hsig
        hbond huser) rfl
      omega
  | claim =>
      simp only [entry, notPayable, claim, Prog.bind_apply, sat_bind, Prog.sat_require]
      intro hvalue
      refine sat_nonReentrant fun hunlocked => ?_
      simp
      intro hpos
      refine sat_send fun hfunds u hsend => ?_
      subst hvalue
      exact hcall _ _ u (.claim sender hunlocked hfunds) hunlocked rfl hsend
  | setAuctioneer auctioneer =>
      simp [entry, notPayable, setAuctioneer, onlyOwner]
      intro hvalue howner hnew
      subst hvalue
      exact hdone _ (.setAuctioneer sender auctioneer howner hnew) rfl
  | setSplit appBps protocolBps =>
      simp [entry, notPayable, setSplit, onlyOwner]
      intro hvalue howner hsplit
      subst hvalue
      exact hdone _ (.setSplit sender appBps protocolBps howner hsplit) rfl
  | setProtocolTreasury treasury =>
      simp [entry, notPayable, setProtocolTreasury, onlyOwner]
      intro hvalue howner hnew
      subst hvalue
      exact hdone _ (.setProtocolTreasury sender treasury howner hnew) rfl
  | transferOwnership owner =>
      simp [entry, notPayable, transferOwnership, onlyOwner]
      intro hvalue howner hnew
      subst hvalue
      exact hdone _ (.transferOwnership sender owner howner hnew) rfl

/-- **All a call shows.**  While a call waits for its transfer, the state is
the one its own code leaves. -/
theorem guarded_entry (P : Params) (m : Msg) (h : ∀ t, Change P s m t → G t) :
    Guarded E G (entry P m s) := by
  obtain ⟨sender, value, call⟩ := m
  cases call with
  | withdrawBond =>
      simp only [entry, notPayable, withdrawBond, Prog.bind_apply, guarded_bind,
        Prog.guarded_require, Prog.sat_require, true_and]
      intro hvalue
      refine guarded_nonReentrant fun hunlocked => ?_
      simp
      intro hpending hready
      refine guarded_send fun hfunds => ?_
      subst hvalue
      exact h _ (.withdrawBond sender hunlocked hpending hready hfunds)
  | claim =>
      simp only [entry, notPayable, claim, Prog.bind_apply, guarded_bind,
        Prog.guarded_require, Prog.sat_require, true_and]
      intro hvalue
      refine guarded_nonReentrant fun hunlocked => ?_
      simp
      intro hpos
      refine guarded_send fun hfunds => ?_
      subst hvalue
      exact h _ (.claim sender hunlocked hfunds)
  | deposit => simp [entry, deposit]
  | requestWithdraw amount => simp [entry, notPayable, requestWithdraw]
  | cancelWithdraw => simp [entry, notPayable, cancelWithdraw]
  | settle c sig => simp [entry, notPayable, settle, recover]
  | setAuctioneer auctioneer => simp [entry, notPayable, setAuctioneer, onlyOwner]
  | setSplit appBps protocolBps => simp [entry, notPayable, setSplit, onlyOwner]
  | setProtocolTreasury treasury => simp [entry, notPayable, setProtocolTreasury, onlyOwner]
  | transferOwnership owner => simp [entry, notPayable, transferOwnership, onlyOwner]

end Bodies

end Ordo.OrdoSettlement
