import Mathlib.Data.List.Nodup
import Mathlib.Data.List.Perm.Subperm
import Mathlib.Data.Nat.ModEq
import Mathlib.Logic.Function.Basic
import Mathlib.Tactic.Common
import Ordo.PrivateSend

/-!
# Calls that share a cursor

`rpcFetch` asks one upstream after the other, starting at the one that answered last, and
pauses for another round when all of them throttle.  Where it stands in the list is the
shared cursor plus the number of the request in the round, and while it waits for an answer
another call may move the cursor.

1.  What a round has sent is one request for each place in the list, at the cursor as it
    was then (`kept_run`).
2.  So its last round has asked every upstream, and none twice, exactly when no cursor was
    moved back by the number of requests in between (`rotates_iff`).
-/

namespace Ordo

namespace RpcFetch

open PrivateSend (UpstreamError isRetryableRpcError)

/-- A request to an upstream, and the cursor that it was sent at. -/
structure Sent where
  call : Nat
  round : Nat
  i : Nat
  cursor : Nat
  idx : Nat
  deriving DecidableEq

/-- Where a call is.  It waits for an answer, or for the next round, or has ended; with no
upstream there is no error to throw but that one. -/
inductive Phase where
  | asking (round i idx : Nat) (allThrottled : Bool) (lastErr : Option UpstreamError)
  | pausing (round : Nat) (lastErr : Option UpstreamError)
  | returned
  | threw (err : Option UpstreamError)
  deriving DecidableEq

structure State where
  cursor : Nat
  cursorLeftPrimaryAt : Nat
  calls : Nat → Option Phase
  sent : List Sent

/-- What happens between two awaits. -/
inductive Event where
  | called (call now : Nat)
  | answered (call now : Nat)
  | failed (call : Nat) (e : UpstreamError)
  | resumed (call : Nat)

def FALLBACK_STICKY_MS : Nat := 30000

def THROTTLE_RETRY_MS : List Nat := [350, 900]

section Fetch

def State.become (s : State) (call : Nat) (phase : Phase) : State :=
  { s with calls := Function.update s.calls call (some phase) }

@[simp] theorem State.become_self (s : State) (call : Nat) (phase : Phase) :
    (s.become call phase).calls call = some phase :=
  Function.update_self call _ _

theorem State.become_other (s : State) {call other : Nat} (phase : Phase)
    (h : other ≠ call) : (s.become call phase).calls other = s.calls other :=
  Function.update_of_ne h _ _

variable (n : Nat)

/-- The loop over `n` upstreams from the `i`-th request of the round on. -/
def rotate (s : State) (call round i : Nat) (allThrottled : Bool) (lastErr : Option UpstreamError) :
    State :=
  if i < n then
    { s.become call (.asking round i ((s.cursor + i) % n) allThrottled lastErr) with
      sent := s.sent ++ [⟨call, round, i, s.cursor, (s.cursor + i) % n⟩] }
  else if allThrottled ∧ round + 1 ≤ THROTTLE_RETRY_MS.length then
    s.become call (.pausing (round + 1) lastErr)
  else s.become call (.threw lastErr)

def beginRound (s : State) (call round : Nat) (lastErr : Option UpstreamError) : State :=
  rotate n s call round 0 (decide (0 < n)) lastErr

/-- The cursor goes back to the first upstream when a fallback has been used for long. -/
def expire (s : State) (now : Nat) : State :=
  if s.cursor ≠ 0 ∧ s.cursorLeftPrimaryAt + FALLBACK_STICKY_MS < now then { s with cursor := 0 }
  else s

/-- An upstream that has answered is asked first from then on. -/
def stick (s : State) (idx now : Nat) : State :=
  { s with
    cursorLeftPrimaryAt := if idx ≠ 0 ∧ s.cursor = 0 then now else s.cursorLeftPrimaryAt
    cursor := idx }

/-- A call starts. -/
def called (s : State) (call now : Nat) : State :=
  match s.calls call with
  | none => beginRound n (expire s now) call 0 none
  | some _ => s

/-- An upstream has answered. -/
def answered (s : State) (call now : Nat) : State :=
  match s.calls call with
  | some (.asking _ _ idx _ _) => (stick s idx now).become call .returned
  | _ => s

/-- The request has failed, or the upstream has answered with an error. -/
def failed (s : State) (call : Nat) (e : UpstreamError) : State :=
  match s.calls call with
  | some (.asking round i _ allThrottled _) =>
      if e.isFinal then s.become call (.threw (some e))
      else rotate n s call round (i + 1) (allThrottled && isRetryableRpcError e) (some e)
  | _ => s

/-- The pause before a round is over. -/
def resumed (s : State) (call : Nat) : State :=
  match s.calls call with
  | some (.pausing round lastErr) => beginRound n s call round lastErr
  | _ => s

def step (s : State) : Event → State
  | .called call now => called n s call now
  | .answered call now => answered s call now
  | .failed call e => failed n s call e
  | .resumed call => resumed n s call

def init : State := ⟨0, 0, fun _ => none, []⟩

def run (es : List Event) : State :=
  es.foldl (step n) init

end Fetch

/-! ### What a call has sent -/

def own (sent : List Sent) (call : Nat) : List Sent := sent.filter (·.call = call)

/-- The requests of a call in its last round. -/
def lastRound (sent : List Sent) (call : Nat) : List Sent :=
  (own sent call).filter fun x => ∀ y ∈ own sent call, y.round ≤ x.round

/-- The upstreams that were asked. -/
def visited {Url : Type*} (urls : List Url) (requests : List Sent) : List Url :=
  requests.filterMap fun x => urls[x.idx]?

/-- Between two requests of a round the cursor was not moved back by their distance. -/
def Advances (n : Nat) (requests : List Sent) : Prop :=
  requests.Pairwise fun x y => ¬ y.cursor + (y.i - x.i) ≡ x.cursor [MOD n]

/-- So far a round has sent its first `m` requests. -/
structure InRound (n round m : Nat) (sent : List Sent) : Prop where
  requests : (sent.filter (·.round = round)).map Sent.i = List.range m
  latest : ∀ x ∈ sent, x.round ≤ round
  place : ∀ x ∈ sent, x.idx = (x.cursor + x.i) % n

section Own

variable {sent : List Sent} {x : Sent} {call n round m : Nat}

theorem own_append_self (h : x.call = call) : own (sent ++ [x]) call = own sent call ++ [x] := by
  simp [own, h]

theorem own_append_other (h : x.call ≠ call) : own (sent ++ [x]) call = own sent call := by
  simp [own, h]

/-- The next request of the round. -/
theorem InRound.send (h : InRound n round m sent) (hround : x.round = round) (hi : x.i = m)
    (hplace : x.idx = (x.cursor + x.i) % n) : InRound n round (m + 1) (sent ++ [x]) where
  requests := by
    have hkept : [x].filter (·.round = round) = [x] := by simp [hround]
    rw [List.filter_append, List.map_append, h.requests, hkept, List.map_singleton, hi,
      List.range_succ]
  latest := by
    intro y hy
    rcases List.mem_append.mp hy with hy | hy
    · exact h.latest y hy
    · rw [List.mem_singleton.mp hy, hround]
  place := by
    intro y hy
    rcases List.mem_append.mp hy with hy | hy
    · exact h.place y hy
    · rw [List.mem_singleton.mp hy]
      exact hplace

/-- A round that has sent nothing. -/
theorem inRound_zero (hbefore : ∀ x ∈ sent, x.round < round)
    (hplace : ∀ x ∈ sent, x.idx = (x.cursor + x.i) % n) : InRound n round 0 sent where
  requests := by
    have hnone : sent.filter (·.round = round) = [] := by
      rw [List.filter_eq_nil_iff]
      intro x hx
      rw [decide_eq_true_eq]
      exact (hbefore x hx).ne
    rw [hnone]
    rfl
  latest := fun x hx => (hbefore x hx).le
  place := hplace

/-- A round that has sent something is the last one. -/
theorem InRound.lastRound_eq (h : InRound n round m (own sent call)) (hm : 0 < m) :
    lastRound sent call = (own sent call).filter (·.round = round) := by
  have hsome : ∃ y ∈ own sent call, y.round = round := by
    have hmem : 0 ∈ ((own sent call).filter (·.round = round)).map Sent.i := by
      rw [h.requests]
      exact List.mem_range.mpr hm
    obtain ⟨y, hy, -⟩ := List.mem_map.mp hmem
    rw [List.mem_filter, decide_eq_true_eq] at hy
    exact ⟨y, hy⟩
  obtain ⟨y, hy, hlast⟩ := hsome
  refine List.filter_congr fun x hx => decide_eq_decide.mpr ⟨fun hmax => ?_, fun hx' z hz => ?_⟩
  · exact le_antisymm (h.latest x hx) (hlast ▸ hmax y hy)
  · rw [hx']
    exact h.latest z hz

end Own

/-! ### One step, and the run -/

section Kept

variable {n call other : Nat}
  {s : State}

/-- What a call has sent, by where it is. -/
def Fits (n : Nat) (sent : List Sent) :
    Option (Phase) → Prop
  | none => sent = []
  | some (.asking round i _ _ _) => i < n ∧ InRound n round (i + 1) sent
  | some (.pausing round _) =>
      0 < n ∧ (∀ x ∈ sent, x.round < round) ∧ ∀ x ∈ sent, x.idx = (x.cursor + x.i) % n
  | some .returned => True
  | some (.threw none) => True
  | some (.threw (some e)) =>
      e.isFinal ∨ 0 < n ∧ ∃ round, InRound n round n sent

def Kept (n : Nat) (s : State) : Prop :=
  ∀ call, Fits n (own s.sent call) (s.calls call)

/-- A call that sends nothing. -/
theorem Kept.become (h : Kept n s) {phase : Phase}
    (hfits : Fits n (own s.sent call) (some phase)) :
    Kept n (s.become call phase) := by
  intro other
  by_cases hother : other = call
  · subst hother
    rw [State.become_self]
    exact hfits
  · rw [State.become_other s phase hother]
    exact h other

/-- **The loop.**  It sends the next request of the round, or the round is over. -/
theorem Kept.rotate (h : Kept n s) (hn : 0 < n) {round i : Nat}
    (hi : i ≤ n) (hround : InRound n round i (own s.sent call)) (allThrottled : Bool)
    (lastErr : Option UpstreamError) :
    Kept n (rotate n s call round i allThrottled lastErr) := by
  unfold RpcFetch.rotate
  split
  next hmore =>
    intro other
    by_cases hother : other = call
    · subst hother
      simp only [State.become_self, own_append_self]
      exact ⟨hmore, hround.send rfl rfl rfl⟩
    · simp only [State.become_other s _ hother]
      rw [own_append_other (Ne.symm hother)]
      exact h other
  next hover =>
    have hall : i = n := le_antisymm hi (not_lt.mp hover)
    subst hall
    split
    next => exact h.become ⟨hn, fun x hx => Nat.lt_succ_of_le (hround.latest x hx), hround.place⟩
    next =>
      refine h.become ?_
      cases lastErr with
      | none => trivial
      | some e => exact Or.inr ⟨hn, round, hround⟩

theorem expire_sent (s : State) (now : Nat) : (expire s now).sent = s.sent := by
  unfold expire
  split
  · rfl
  · rfl

theorem Kept.expire (h : Kept n s) (now : Nat) :
    Kept n (expire s now) := by
  unfold RpcFetch.expire
  split
  · exact h
  · exact h

theorem Kept.called (h : Kept n s) (call now : Nat) :
    Kept n (called n s call now) := by
  have hcall := h call
  unfold RpcFetch.called
  split
  next hphase =>
    rw [hphase] at hcall
    rcases Nat.eq_zero_or_pos n with hn | hn
    · -- no upstream: there is nothing to ask
      subst hn
      have hthrew : Kept 0 ((RpcFetch.expire s now).become call (.threw none)) :=
        (h.expire now).become trivial
      exact hthrew
    · refine (h.expire now).rotate hn (Nat.zero_le n) ?_ _ _
      rw [expire_sent, hcall]
      exact inRound_zero (by simp) (by simp)
  next => exact h

theorem Kept.answered (h : Kept n s) (call now : Nat) :
    Kept n (answered s call now) := by
  unfold RpcFetch.answered
  split
  next round i idx allThrottled lastErr hphase =>
    have hstick : Kept n (stick s idx now) := h
    have hreturned : Kept n ((stick s idx now).become call .returned) := hstick.become trivial
    exact hreturned
  next => exact h

theorem Kept.failed (h : Kept n s) (call : Nat) (e : UpstreamError) :
    Kept n
      (failed n s call e) := by
  have hcall := h call
  unfold RpcFetch.failed
  split
  next round i idx allThrottled lastErr hphase =>
    rw [hphase] at hcall
    obtain ⟨hi, hround⟩ := hcall
    split
    next hdefinitive => exact h.become (Or.inl hdefinitive)
    next => exact h.rotate (Nat.zero_lt_of_lt hi) hi hround _ _
  next => exact h

theorem Kept.resumed (h : Kept n s) (call : Nat) :
    Kept n (resumed n s call) := by
  have hcall := h call
  unfold RpcFetch.resumed
  split
  next round lastErr hphase =>
    rw [hphase] at hcall
    obtain ⟨hn, hbefore, hplace⟩ := hcall
    exact h.rotate hn (Nat.zero_le n) (inRound_zero hbefore hplace) _ _
  next => exact h

theorem Kept.step (h : Kept n s) (e : Event) :
    Kept n (step n s e) := by
  cases e with
  | called call now => exact h.called call now
  | answered call now => exact h.answered call now
  | failed call e => exact h.failed call e
  | resumed call => exact h.resumed call

theorem kept_run (es : List Event) :
    Kept n (run n es) := by
  rw [run]
  have hstart : Kept n init := fun _ => rfl
  generalize init = s at hstart
  induction es generalizing s with
  | nil => exact hstart
  | cons e es ih => exact ih _ (hstart.step e)

end Kept

/-! ### Which upstreams a round asks -/

section Places

variable {n round : Nat} {requests : List Sent} {Url : Type*} {urls : List Url}

/-- The requests of a round are at different places exactly when the cursor advances. -/
theorem places_nodup_iff (hi : requests.map Sent.i = List.range n)
    (hplace : ∀ x ∈ requests, x.idx = (x.cursor + x.i) % n) :
    (requests.map Sent.idx).Nodup ↔ Advances n requests := by
  have hsorted : requests.Pairwise fun x y => x.i < y.i := by
    rw [← List.pairwise_map, hi]
    exact List.pairwise_lt_range
  have hapart : ∀ x ∈ requests, ∀ y ∈ requests, x.i < y.i →
      (x.idx ≠ y.idx ↔ ¬ y.cursor + (y.i - x.i) ≡ x.cursor [MOD n]) := by
    intro x hx y hy hlt
    have hshift : y.cursor + y.i = y.cursor + (y.i - x.i) + x.i := by omega
    rw [hplace x hx, hplace y hy, hshift, ne_comm, not_iff_not]
    exact ⟨Nat.ModEq.add_right_cancel' x.i, Nat.ModEq.add_right x.i⟩
  rw [Advances, List.Nodup, List.pairwise_map]
  constructor
  · intro h
    exact ((h.and hsorted).imp_of_mem fun hx hy hxy => (hapart _ hx _ hy hxy.2).mp hxy.1)
  · intro h
    exact ((h.and hsorted).imp_of_mem fun hx hy hxy => (hapart _ hx _ hy hxy.2).mpr hxy.1)

/-- **A round.**  It asks every upstream, and none twice, exactly when no upstream is in the
list twice and the cursor advances. -/
theorem visited_iff (hi : requests.map Sent.i = List.range urls.length)
    (hplace : ∀ x ∈ requests, x.idx = (x.cursor + x.i) % urls.length) (hn : 0 < urls.length) :
    ((∀ u ∈ urls, u ∈ visited urls requests) ∧ (visited urls requests).Nodup) ↔
      urls.Nodup ∧ Advances urls.length requests := by
  have hlt : ∀ j ∈ requests.map Sent.idx, j < urls.length := by
    intro j hj
    obtain ⟨x, hx, rfl⟩ := List.mem_map.mp hj
    rw [hplace x hx]
    exact Nat.mod_lt _ hn
  have hlength : requests.length = urls.length := by
    have hsame := congrArg List.length hi
    rwa [List.length_map, List.length_range] at hsame
  have hfound : ∀ x ∈ requests, (urls[x.idx]?).isSome := by
    intro x hx
    rw [List.getElem?_eq_getElem (hlt _ (List.mem_map_of_mem hx))]
    rfl
  have hcount : (visited urls requests).length = urls.length := by
    rw [visited, List.filterMap_length_eq_length.mpr hfound, hlength]
  have hsubset : visited urls requests ⊆ urls := by
    intro u hu
    obtain ⟨x, -, hx⟩ := List.mem_filterMap.mp hu
    exact List.mem_of_getElem? hx
  -- as many requests as places: if none is repeated then all are there
  have hperm : (visited urls requests).Nodup → (visited urls requests).Perm urls := fun h =>
    (h.subperm hsubset).perm_of_length_le hcount.ge
  rw [← places_nodup_iff hi hplace]
  constructor
  · rintro ⟨-, hnodup⟩
    refine ⟨(hperm hnodup).nodup_iff.mp hnodup, ?_⟩
    rw [visited, List.Nodup, List.pairwise_filterMap] at hnodup
    rw [List.Nodup, List.pairwise_map]
    refine hnodup.imp_of_mem fun hx _ hapart hsame => ?_
    obtain ⟨u, hu⟩ := Option.isSome_iff_exists.mp (hfound _ hx)
    exact hapart u hu u (hsame ▸ hu) rfl
  · rintro ⟨hurls, hplaces⟩
    have hnodup : (visited urls requests).Nodup := by
      rw [visited, List.Nodup, List.pairwise_filterMap]
      rw [List.Nodup, List.pairwise_map] at hplaces
      refine hplaces.imp_of_mem fun hx _ hapart u hu u' hu' hsame => hapart ?_
      subst hsame
      exact (List.getElem?_inj (hlt _ (List.mem_map_of_mem hx)) hurls).mp (hu.trans hu'.symm)
    exact ⟨fun u hu => (hperm hnodup).mem_iff.mpr hu, hnodup⟩

/-- While nobody moves the cursor, the round goes through the list. -/
theorem advances_of_still {c : Nat} (hi : requests.map Sent.i = List.range n)
    (hstill : ∀ x ∈ requests, x.cursor = c) : Advances n requests := by
  have hsorted : requests.Pairwise fun x y => x.i < y.i := by
    rw [← List.pairwise_map, hi]
    exact List.pairwise_lt_range
  refine hsorted.imp_of_mem fun {x y} hx hy hlt hmod => ?_
  have hbound : y.i < n := by
    rw [← List.mem_range, ← hi]
    exact List.mem_map_of_mem hy
  rw [hstill x hx, hstill y hy] at hmod
  have hzero : y.i - x.i ≡ 0 [MOD n] := Nat.ModEq.add_left_cancel' c hmod
  rw [Nat.ModEq, Nat.zero_mod, Nat.mod_eq_of_lt (by omega)] at hzero
  omega

end Places

/-- **The last round.**  A call that throws a transport or throttle error has asked every
upstream in its last round, and none twice, exactly when no upstream is in the list twice
and between two of its requests nobody moved the cursor back by their distance. -/
theorem rotates_iff {Url : Type*} (urls : List Url) (es : List Event) {call : Nat}
    {e : UpstreamError}
    (hthrew : (run urls.length es).calls call = some (.threw (some e)))
    (hnot : e.isFinal = false) :
    let asked := lastRound (run urls.length es).sent call
    ((∀ u ∈ urls, u ∈ visited urls asked) ∧ (visited urls asked).Nodup) ↔
      urls.Nodup ∧ Advances urls.length asked := by
  intro asked
  have hkept := kept_run (n := urls.length) es call
  rw [hthrew] at hkept
  rcases hkept with hfinal | ⟨hn, round, hround⟩
  · rw [hnot] at hfinal
    cases hfinal
  · have hasked : asked = (own _ call).filter (·.round = round) := hround.lastRound_eq hn
    rw [hasked]
    exact visited_iff hround.requests (fun x hx => hround.place x (List.mem_of_mem_filter hx)) hn

section Sample

/-- Two upstreams. -/
def pair : List String := ["https://a", "https://b"]

def unreachable : UpstreamError := ⟨"fetch failed", none, none, false⟩

/-- A call that is alone and fails at both. -/
def alone : List Event := [.called 0 0, .failed 0 unreachable, .failed 0 unreachable]

theorem rotates_iff_alone :
    (∀ u ∈ pair, u ∈ visited pair (lastRound (run pair.length alone).sent 0)) ∧
      (visited pair (lastRound (run pair.length alone).sent 0)).Nodup := by
  have hthrew : (run pair.length alone).calls 0 = some (.threw (some unreachable)) := by
    decide +kernel
  exact (rotates_iff pair alone hthrew (by decide)).mpr
    ⟨by decide, advances_of_still (c := 0) (by decide +kernel) (by decide +kernel)⟩

/-- While call 0 waits for the first upstream, call 1 is answered by the second one: call 0
asks the first again and throws, and has not asked the second. -/
def crossing : List Event :=
  [.called 0 0, .called 1 0, .failed 1 unreachable, .answered 1 0, .failed 0 unreachable,
    .failed 0 unreachable]

theorem first_asked_twice :
    ¬ ∀ (urls : List String) (es : List Event) (call : Nat) (e : UpstreamError),
      (run urls.length es).calls call = some (.threw (some e)) → e.isFinal = false →
        let asked := lastRound (run urls.length es).sent call
        (∀ u ∈ urls, u ∈ visited urls asked) ∧ (visited urls asked).Nodup := by
  intro hclaim
  obtain ⟨hevery, -⟩ := hclaim pair crossing 0 unreachable (by decide +kernel) (by decide)
  have hmissed := hevery "https://b" (by decide)
  exact absurd hmissed (by decide +kernel)

end Sample

end RpcFetch

end Ordo
