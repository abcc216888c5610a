import Mathlib.Data.List.Count
import Mathlib.Logic.Function.Basic
import Ordo.Guarded
import Ordo.Hex

/-!
# The connection of a searcher

A searcher keeps one WebSocket to the auction, hears of opportunities on it and answers with
bids.  When the socket fails or closes it connects again, after a delay that doubles; `error`
and `close` of a socket share the handler, and the timer that is pending keeps the second of
them from connecting twice.

Sockets are numbered as they are made.  An event may come of any socket at any time, and a
`close` of an old one may come when its replacement is open already.

* `one_connection` — where such an event never comes with no reconnect pending, one socket at
  most is live, one timer at most is pending, and what is heard is handled once;
* `late_event_doubles` — where it does, and the searcher is connected, the timer that it starts
  makes a second live socket.
-/

namespace Ordo

namespace SearcherSocket

inductive Phase where
  | connecting
  | opened
  /-- `close()` was called on it. -/
  | closing
  /-- It has failed, and its `close` is still to come. -/
  | failed
  /-- It is closed, or was never made. -/
  | gone
  deriving DecidableEq

/-- A connection, or one that is being made or taken down in order. -/
def Phase.live : Phase → Bool
  | .connecting | .opened | .closing => true
  | .failed | .gone => false

/-- Messages come. -/
def Phase.hears : Phase → Bool
  | .opened | .closing => true
  | .connecting | .failed | .gone => false

/-- What `onOpportunity` answers. -/
structure Decision where
  maxBidWei : Nat
  backrunRawTx : Text

/-- The message that carries a bid. -/
structure Bid where
  opportunityId : Text
  searcher : Text
  bidWei : Nat
  backrunRawTx : Text
  bidSig : Text

/-- What `JSON.parse` makes of a message. -/
inductive Message (Opp : Type) where
  | notJson
  /-- Of another type than `opportunity`. -/
  | other
  | opportunity (opp : Opp)

/-- The account of the searcher, and the identifier an opportunity carries. -/
structure Sdk (Opp : Type) where
  id : Opp → Text
  address : Text
  signBid : Text → Nat → Text

/-- The searcher, its sockets, and the timers and handlers that are pending. -/
structure World (Opp : Type) where
  /-- `this.ws` -/
  ws : Option Nat := none
  closed : Bool := false
  backoffMs : Nat := 1000
  reconnectTimer : Option Nat := none
  /-- How many sockets were made. -/
  made : Nat := 0
  phase : Nat → Phase := fun _ => .gone
  /-- The timers that are set and neither ran nor were cleared, with their delays. -/
  timers : List (Nat × Nat) := []
  /-- How many timers were set. -/
  set : Nat := 0
  /-- The handlers that wait for a decision or a signature, with their sockets. -/
  deciding : List (Nat × Opp) := []
  /-- The opportunities that `onOpportunity` was called with. -/
  handled : List Opp := []
  bids : List Bid := []
  /-- The opportunities that were sent while some socket heard. -/
  heard : List Opp := []

variable {Opp : Type}

namespace World

variable (w : World Opp)

/-- `connect` -/
def connect : World Opp :=
  { w with
    ws := some w.made
    made := w.made + 1
    phase := Function.update w.phase w.made .connecting }

def setPhase (s : Nat) (p : Phase) : World Opp :=
  { w with phase := Function.update w.phase s p }

def scheduleReconnect : World Opp :=
  if w.closed = true ∨ w.reconnectTimer.isSome = true then w
  else
    { w with
      backoffMs := min (w.backoffMs * 2) 30000
      timers := w.timers ++ [(w.set, w.backoffMs)]
      reconnectTimer := some w.set
      set := w.set + 1 }

/-- The callback of a timer. -/
def fire (timer : Nat) : World Opp :=
  if timer ∈ w.timers.map Prod.fst then
    World.connect { w with
      timers := w.timers.filter (fun t => t.1 ≠ timer)
      reconnectTimer := none }
  else w

/-- The handler of `open`. -/
def opened (s : Nat) : World Opp :=
  if w.phase s = .connecting then { w.setPhase s .opened with backoffMs := 1000 } else w

/-- The handler of `error`. -/
def error (s : Nat) : World Opp :=
  if w.phase s = .gone then w else (w.setPhase s .failed).scheduleReconnect

/-- The handler of `close`. -/
def close (s : Nat) : World Opp :=
  if w.phase s = .gone then w else (w.setPhase s .gone).scheduleReconnect

/-- `ws.close()` -/
def closeSocket (s : Nat) : World Opp :=
  if (w.phase s).live then w.setPhase s .closing else w

/-- `close()` of the searcher. -/
def shut : World Opp :=
  let w : World Opp := { w with
    closed := true
    timers := w.timers.filter (fun t => some t.1 ≠ w.reconnectTimer) }
  match w.ws with
  | some s => w.closeSocket s
  | none => w

/-- The handler of `message`, up to its first wait. -/
def onMessage (s : Nat) : Message Opp → World Opp
  | .notJson | .other => w
  | .opportunity opp =>
      { w with handled := w.handled ++ [opp], deciding := w.deciding ++ [(s, opp)] }

/-- The sockets that hear. -/
def hearing : List Nat := (List.range w.made).filter (fun s => (w.phase s).hears)

/-- The auction sends to every socket that it holds open. -/
def broadcast (m : Message Opp) : World Opp :=
  let heard := match m with
    | .opportunity opp => if w.hearing = [] then w.heard else w.heard ++ [opp]
    | _ => w.heard
  w.hearing.foldl (fun w s => w.onMessage s m) { w with heard := heard }

/-- A handler has its decision, or has failed; what it sends on a socket that is not open is
lost. -/
def decided (sdk : Sdk Opp) (k : Nat) (decision : Option Decision) : World Opp :=
  match w.deciding[k]? with
  | none => w
  | some (s, opp) =>
      let bids := match decision with
        | none => w.bids
        | some d =>
            if w.phase s = .opened then
              w.bids ++ [{ opportunityId := sdk.id opp
                           searcher := sdk.address
                           bidWei := d.maxBidWei
                           backrunRawTx := d.backrunRawTx
                           bidSig := sdk.signBid (sdk.id opp) d.maxBidWei }]
            else w.bids
      { w with deciding := w.deciding.eraseIdx k, bids := bids }

end World

inductive Event (Opp : Type) where
  | opened (s : Nat)
  | error (s : Nat)
  | close (s : Nat)
  | fire (timer : Nat)
  | shut
  | broadcast (m : Message Opp)
  | decided (k : Nat) (decision : Option Decision)

def step (sdk : Sdk Opp) (w : World Opp) : Event Opp → World Opp
  | .opened s => w.opened s
  | .error s => w.error s
  | .close s => w.close s
  | .fire timer => w.fire timer
  | .shut => w.shut
  | .broadcast m => w.broadcast m
  | .decided k decision => w.decided sdk k decision

/-- A searcher that has called `connect`. -/
def connected : World Opp := World.connect {}

/-- One connection: what the claims about a searcher are made of. -/
structure OneConnection (sdk : Sdk Opp) (w : World Opp) : Prop where
  live : ∀ s t, (w.phase s).live → (w.phase t).live → s = t
  timers : w.timers.length ≤ 1
  handled : w.handled = w.heard
  bids : ∀ i, (w.bids.map Bid.opportunityId).count i ≤ (w.heard.map sdk.id).count i

/-- An `error` or `close` that comes with no reconnect pending is of the newest socket. -/
def InTime (w : World Opp) : Event Opp → Prop
  | .error s | .close s =>
      w.phase s ≠ .gone → w.closed = false → w.reconnectTimer = none → w.ws = some s
  | _ => True

/-! ### Sockets and timers -/

/-- A replaced socket is down, and a reconnect is pending only while the newest is down too. -/
structure Wired (w : World Opp) : Prop where
  newest : ∃ n, w.ws = some n ∧ w.made = n + 1
  replaced : ∀ s, w.ws ≠ some s → (w.phase s).live = false
  pending : w.timers = [] ∧ (w.closed = true ∨ w.reconnectTimer = none) ∨
    ∃ timer delay, w.timers = [(timer, delay)] ∧ w.reconnectTimer = some timer ∧
      ∀ s, (w.phase s).live = false

section Sockets

variable {w : World Opp} {s t timer : Nat} {p : Phase}

theorem Wired.timers_le (h : Wired w) : w.timers.length ≤ 1 := by
  rcases h.pending with ⟨hnone, -⟩ | ⟨timer, delay, hone, -⟩
  · rw [hnone]
    exact Nat.zero_le _
  · rw [hone]
    exact Nat.le_refl _

theorem Wired.ws_of_live (h : Wired w) (hs : (w.phase s).live = true) : w.ws = some s := by
  by_contra hne
  rw [h.replaced s hne] at hs
  cases hs

theorem Wired.live_unique (h : Wired w) (hs : (w.phase s).live = true)
    (ht : (w.phase t).live = true) : s = t := by
  have hboth := (h.ws_of_live hs).symm.trans (h.ws_of_live ht)
  exact Option.some.inj hboth

/-- A live socket leaves nothing to reconnect for. -/
theorem Wired.idle (h : Wired w) (hs : (w.phase s).live = true) (hopen : w.closed = false) :
    w.timers = [] ∧ w.reconnectTimer = none := by
  rcases h.pending with ⟨hnone, hclosed | hidle⟩ | ⟨timer, delay, -, -, hdown⟩
  · rw [hopen] at hclosed
    cases hclosed
  · exact ⟨hnone, hidle⟩
  · rw [hdown s] at hs
    cases hs

theorem live_setPhase (hp : p.live = false) (hs : (w.phase t).live = false) :
    ((w.setPhase s p).phase t).live = false := by
  show (Function.update w.phase s p t).live = false
  by_cases hst : t = s
  · rw [hst, Function.update_self]
    exact hp
  · rw [Function.update_of_ne hst]
    exact hs

/-- A socket goes down: in time, or while a reconnect is pending. -/
theorem Wired.down (h : Wired w) (hp : p.live = false)
    (hs : w.closed = false → w.reconnectTimer = none → w.ws = some s) :
    Wired (w.setPhase s p).scheduleReconnect := by
  have hreplaced : ∀ t, w.ws ≠ some t → ((w.setPhase s p).phase t).live = false :=
    fun t ht => live_setPhase hp (h.replaced t ht)
  unfold World.scheduleReconnect
  split
  next hbusy =>
    refine ⟨h.newest, hreplaced, ?_⟩
    rcases h.pending with hidle | ⟨timer, delay, htimers, hpending, hdown⟩
    · exact .inl hidle
    · exact .inr ⟨timer, delay, htimers, hpending, fun t => live_setPhase hp (hdown t)⟩
  next hfree =>
    have hopen : w.closed = false := by
      cases hclosed : w.closed with
      | false => rfl
      | true => exact absurd (.inl hclosed) hfree
    have hnone : w.reconnectTimer = none := by
      cases hpending : w.reconnectTimer with
      | none => rfl
      | some timer =>
          have hsome : w.reconnectTimer.isSome = true := by rw [hpending]; rfl
          exact absurd (.inr hsome) hfree
    have htimers : w.timers = [] := by
      rcases h.pending with ⟨htimers, -⟩ | ⟨timer, delay, -, hpending, -⟩
      · exact htimers
      · rw [hnone] at hpending
        cases hpending
    have hcurrent := hs hopen hnone
    refine ⟨h.newest, hreplaced, .inr ⟨w.set, w.backoffMs, ?_, rfl, ?_⟩⟩
    · show w.timers ++ _ = _
      rw [htimers]
      rfl
    · intro t
      by_cases hts : t = s
      · show (Function.update w.phase s p t).live = false
        rw [hts, Function.update_self]
        exact hp
      · refine hreplaced t fun hws => hts ?_
        exact Option.some.inj (hws.symm.trans hcurrent)

/-- A new socket, made when no other is live. -/
theorem wired_connect (hdown : ∀ s, (w.phase s).live = false) (htimers : w.timers = [])
    (hnone : w.reconnectTimer = none) : Wired w.connect := by
  refine ⟨⟨w.made, rfl, rfl⟩, ?_, .inl ⟨htimers, .inr hnone⟩⟩
  intro s hs
  have hne : s ≠ w.made := fun h => hs (by rw [h]; rfl)
  show (Function.update w.phase w.made .connecting s).live = false
  rw [Function.update_of_ne hne]
  exact hdown s

theorem Wired.fire (h : Wired w) (timer : Nat) : Wired (w.fire timer) := by
  unfold World.fire
  split
  next hmem =>
    rcases h.pending with ⟨hnone, -⟩ | ⟨timer', delay, hone, -, hdown⟩
    · rw [hnone] at hmem
      cases hmem
    · rw [hone] at hmem
      have htimer : timer = timer' := List.mem_singleton.mp hmem
      refine wired_connect hdown ?_ rfl
      show w.timers.filter _ = []
      rw [hone, htimer]
      simp
  next => exact h

/-- The phase of a live socket changes, and it stays live. -/
theorem Wired.alive (h : Wired w) (hs : (w.phase s).live = true) : Wired (w.setPhase s p) := by
  have hcurrent := h.ws_of_live hs
  refine ⟨h.newest, ?_, ?_⟩
  · intro t ht
    have hne : t ≠ s := fun hts => ht (by rw [hts]; exact hcurrent)
    show (Function.update w.phase s p t).live = false
    rw [Function.update_of_ne hne]
    exact h.replaced t ht
  · rcases h.pending with hidle | ⟨timer, delay, -, -, hdown⟩
    · exact .inl hidle
    · rw [hdown s] at hs
      cases hs

theorem Wired.opened (h : Wired w) (s : Nat) : Wired (w.opened s) := by
  unfold World.opened
  split
  next hconnecting =>
    have halive : Wired (w.setPhase s .opened) := h.alive (by rw [hconnecting]; rfl)
    exact ⟨halive.newest, halive.replaced, halive.pending⟩
  next => exact h

theorem Wired.closeSocket (h : Wired w) (s : Nat) : Wired (w.closeSocket s) := by
  unfold World.closeSocket
  split
  next hlive => exact h.alive hlive
  next => exact h

theorem Wired.shut (h : Wired w) : Wired w.shut := by
  obtain ⟨n, hws, hmade⟩ := h.newest
  have hclosed : Wired { w with
      closed := true, timers := w.timers.filter (fun t => some t.1 ≠ w.reconnectTimer) } := by
    refine ⟨⟨n, hws, hmade⟩, h.replaced, .inl ⟨?_, .inl rfl⟩⟩
    show w.timers.filter _ = []
    rcases h.pending with ⟨hnone, -⟩ | ⟨timer, delay, hone, hpending, -⟩
    · rw [hnone]
      rfl
    · rw [hone, hpending]
      simp
  unfold World.shut
  dsimp only
  split
  next s hs => exact hclosed.closeSocket s
  next => exact hclosed

end Sockets

/-! ### What is handled -/

/-- Nothing is heard, handled or bid. -/
structure Quiet (w w' : World Opp) : Prop where
  deciding : w'.deciding = w.deciding
  handled : w'.handled = w.handled
  bids : w'.bids = w.bids
  heard : w'.heard = w.heard

section Handled

variable {w w' : World Opp}

theorem quiet_scheduleReconnect (w : World Opp) (s : Nat) (p : Phase) :
    Quiet w (w.setPhase s p).scheduleReconnect := by
  unfold World.scheduleReconnect
  split <;> exact ⟨rfl, rfl, rfl, rfl⟩

theorem quiet_error (w : World Opp) (s : Nat) : Quiet w (w.error s) := by
  unfold World.error
  split
  · exact ⟨rfl, rfl, rfl, rfl⟩
  · exact quiet_scheduleReconnect w s .failed

theorem quiet_close (w : World Opp) (s : Nat) : Quiet w (w.close s) := by
  unfold World.close
  split
  · exact ⟨rfl, rfl, rfl, rfl⟩
  · exact quiet_scheduleReconnect w s .gone

theorem quiet_opened (w : World Opp) (s : Nat) : Quiet w (w.opened s) := by
  unfold World.opened
  split <;> exact ⟨rfl, rfl, rfl, rfl⟩

theorem quiet_fire (w : World Opp) (timer : Nat) : Quiet w (w.fire timer) := by
  unfold World.fire
  split <;> exact ⟨rfl, rfl, rfl, rfl⟩

theorem quiet_shut (w : World Opp) : Quiet w w.shut := by
  unfold World.shut World.closeSocket
  dsimp only
  split
  · split <;> exact ⟨rfl, rfl, rfl, rfl⟩
  · exact ⟨rfl, rfl, rfl, rfl⟩

/-- Each handler that waits, and each bid, has an opportunity of its own that was handled. -/
def Accounted (sdk : Sdk Opp) (w : World Opp) : Prop :=
  ∀ i, (w.bids.map Bid.opportunityId).count i + (w.deciding.map (fun d => sdk.id d.2)).count i ≤
    (w.handled.map sdk.id).count i

theorem Quiet.accounted {sdk : Sdk Opp} (h : Quiet w w') (hw : Accounted sdk w) :
    Accounted sdk w' := by
  intro i
  rw [h.bids, h.deciding, h.handled]
  exact hw i

theorem accounted_onMessage {sdk : Sdk Opp} (h : Accounted sdk w) (s : Nat) (m : Message Opp) :
    Accounted sdk (w.onMessage s m) := by
  cases m with
  | notJson => exact h
  | other => exact h
  | opportunity opp =>
      intro i
      have hi := h i
      simp only [World.onMessage, List.map_append, List.map_cons, List.map_nil, List.count_append]
      omega

theorem accounted_broadcast {sdk : Sdk Opp} (h : Accounted sdk w) (m : Message Opp) :
    Accounted sdk (w.broadcast m) := by
  unfold World.broadcast
  dsimp only
  generalize (match m with
    | .opportunity opp => if w.hearing = [] then w.heard else w.heard ++ [opp]
    | _ => w.heard) = heard
  have hstart : Accounted sdk { w with heard := heard } := h
  generalize ({ w with heard := heard } : World Opp) = w₁ at hstart
  generalize w.hearing = sockets
  induction sockets generalizing w₁ with
  | nil => exact hstart
  | cons s sockets ih => exact ih _ (accounted_onMessage hstart s m)

theorem accounted_decided {sdk : Sdk Opp} (h : Accounted sdk w) (k : Nat)
    (decision : Option Decision) : Accounted sdk (w.decided sdk k decision) := by
  unfold World.decided
  split
  next => exact h
  next s opp hk =>
    intro i
    have hi := h i
    obtain ⟨hlt, hget⟩ := List.getElem?_eq_some_iff.mp hk
    have hperm := List.getElem_cons_eraseIdx_perm hlt
    have hcount := (hperm.map fun d => sdk.id d.2).count_eq i
    rw [hget, List.map_cons, List.count_cons] at hcount
    dsimp only at hcount ⊢
    split
    · omega
    · split
      · rw [List.map_append, List.count_append, List.map_singleton, List.count_singleton]
        dsimp only
        omega
      · omega

/-- Where one socket at most is live, one at most hears. -/
theorem Wired.hearing (h : Wired w) : w.hearing = [] ∨ ∃ s, w.hearing = [s] := by
  have hlive : ∀ s ∈ w.hearing, (w.phase s).live = true := by
    intro s hs
    have hhears := (List.mem_filter.mp hs).2
    cases hphase : w.phase s <;> rw [hphase] at hhears <;> first | rfl | cases hhears
  have hnodup : w.hearing.Nodup := List.nodup_range.filter _
  generalize w.hearing = sockets at hlive hnodup
  match sockets with
  | [] => exact .inl rfl
  | [s] => exact .inr ⟨s, rfl⟩
  | s :: t :: _ =>
      have hsame : s = t := h.live_unique (hlive s (by simp)) (hlive t (by simp))
      simp [hsame] at hnodup

/-- What is heard is handled, once. -/
theorem Wired.handled_broadcast (h : Wired w) (hw : w.handled = w.heard) (m : Message Opp) :
    (w.broadcast m).handled = (w.broadcast m).heard := by
  unfold World.broadcast
  rcases h.hearing with hnone | ⟨s, hone⟩
  · rw [hnone]
    cases m <;> exact hw
  · rw [hone]
    cases m with
    | notJson => exact hw
    | other => exact hw
    | opportunity opp =>
        show w.handled ++ [opp] = w.heard ++ [opp]
        rw [hw]

theorem wired_broadcast (h : Wired w) (m : Message Opp) : Wired (w.broadcast m) := by
  unfold World.broadcast
  dsimp only
  generalize (match m with
    | .opportunity opp => if w.hearing = [] then w.heard else w.heard ++ [opp]
    | _ => w.heard) = heard
  have hstart : Wired { w with heard := heard } := ⟨h.newest, h.replaced, h.pending⟩
  generalize ({ w with heard := heard } : World Opp) = w₁ at hstart
  generalize w.hearing = sockets
  induction sockets generalizing w₁ with
  | nil => exact hstart
  | cons s sockets ih =>
      refine ih _ ?_
      cases m with
      | notJson => exact hstart
      | other => exact hstart
      | opportunity opp => exact ⟨hstart.newest, hstart.replaced, hstart.pending⟩

theorem wired_decided {sdk : Sdk Opp} (h : Wired w) (k : Nat) (decision : Option Decision) :
    Wired (w.decided sdk k decision) := by
  unfold World.decided
  split
  · exact h
  · exact ⟨h.newest, h.replaced, h.pending⟩

theorem handled_decided {sdk : Sdk Opp} (hw : w.handled = w.heard) (k : Nat)
    (decision : Option Decision) :
    (w.decided sdk k decision).handled = (w.decided sdk k decision).heard := by
  unfold World.decided
  split <;> exact hw

end Handled

/-! ### Runs -/

section Runs

variable {w : World Opp} {sdk : Sdk Opp}

structure Inv (sdk : Sdk Opp) (w : World Opp) : Prop where
  wired : Wired w
  handled : w.handled = w.heard
  accounted : Accounted sdk w

theorem Inv.oneConnection (h : Inv sdk w) : OneConnection sdk w where
  live _ _ hs ht := h.wired.live_unique hs ht
  timers := h.wired.timers_le
  handled := h.handled
  bids i := by
    rw [← h.handled]
    exact (Nat.le_add_right _ _).trans (h.accounted i)

theorem inv_connected : Inv sdk connected where
  wired := wired_connect (fun _ => rfl) rfl rfl
  handled := rfl
  accounted _ := Nat.le_refl _

theorem Inv.quiet {w' : World Opp} (h : Inv sdk w) (hquiet : Quiet w w') (hwired : Wired w') :
    Inv sdk w' where
  wired := hwired
  handled := by
    rw [hquiet.handled, hquiet.heard]
    exact h.handled
  accounted := hquiet.accounted h.accounted

/-- A step in time keeps the connection one. -/
theorem inv_step {e : Event Opp} (h : Inv sdk w) (htime : InTime w e) : Inv sdk (step sdk w e) := by
  cases e with
  | opened s => exact h.quiet (quiet_opened w s) (h.wired.opened s)
  | error s =>
      refine h.quiet (quiet_error w s) ?_
      show Wired (w.error s)
      unfold World.error
      split
      next => exact h.wired
      next hthere => exact h.wired.down rfl (htime hthere)
  | close s =>
      refine h.quiet (quiet_close w s) ?_
      show Wired (w.close s)
      unfold World.close
      split
      next => exact h.wired
      next hthere => exact h.wired.down rfl (htime hthere)
  | fire timer => exact h.quiet (quiet_fire w timer) (h.wired.fire timer)
  | shut => exact h.quiet (quiet_shut w) h.wired.shut
  | broadcast m =>
      exact ⟨wired_broadcast h.wired m, h.wired.handled_broadcast h.handled m,
        accounted_broadcast h.accounted m⟩
  | decided k decision =>
      exact ⟨wired_decided h.wired k decision, handled_decided h.handled k decision,
        accounted_decided h.accounted k decision⟩

theorem inv_run {es : List (Event Opp)} (h : Guarded.Along (step sdk) InTime connected es)
    {pre post : List (Event Opp)} (hsplit : es = pre ++ post) :
    Inv sdk (pre.foldl (step sdk) connected) := by
  have hkeeps : ∀ (w : World Opp) (e : Event Opp), Inv sdk w → InTime w e →
      Inv sdk (step sdk w e) := fun _ _ hinv htime => inv_step hinv htime
  exact Guarded.invariant_along hkeeps inv_connected h hsplit

/-- **One connection.**  In a run in which no `error` or `close` of a replaced socket comes with
no reconnect pending, there is in every state one live socket at most and one pending timer at
most; what is heard is handled once; and for each opportunity that is heard, one bid at most
is sent. -/
theorem one_connection (sdk : Sdk Opp) (es : List (Event Opp))
    (h : Guarded.Along (step sdk) InTime connected es) :
    ∀ pre post, es = pre ++ post → OneConnection sdk (pre.foldl (step sdk) connected) :=
  fun _ _ hsplit => (inv_run h hsplit).oneConnection

/-- An event out of time starts a timer, although the searcher is connected. -/
theorem late_schedules {n s : Nat} {p : Phase} (h : Wired w) (hn : (w.phase n).live = true)
    (hopen : w.closed = false) (hns : n ≠ s) :
    let late := (w.setPhase s p).scheduleReconnect
    late.timers = [(w.set, w.backoffMs)] ∧ late.made = n + 1 ∧ (late.phase n).live = true := by
  obtain ⟨htimers, hnone⟩ := h.idle hn hopen
  obtain ⟨m, hws, hmade⟩ := h.newest
  have hmn : m = n := Option.some.inj (hws.symm.trans (h.ws_of_live hn))
  unfold World.scheduleReconnect
  rw [if_neg (by
    show ¬ (w.closed = true ∨ w.reconnectTimer.isSome = true)
    rw [hopen, hnone]
    decide)]
  refine ⟨?_, ?_, ?_⟩
  · show w.timers ++ _ = _
    rw [htimers]
    rfl
  · show w.made = n + 1
    rw [hmade, hmn]
  · show (Function.update w.phase s p n).live = true
    rw [Function.update_of_ne hns]
    exact hn

/-- **A late event makes two.**  After a run in time that leaves the searcher connected, an
event out of time and the timer that it starts make a second live socket. -/
theorem late_event_doubles (sdk : Sdk Opp) (es : List (Event Opp))
    (h : Guarded.Along (step sdk) InTime connected es) {e : Event Opp} {n : Nat}
    (hlive : ((es.foldl (step sdk) connected).phase n).live = true)
    (hlate : ¬ InTime (es.foldl (step sdk) connected) e) :
    ∃ timer, ¬ OneConnection sdk ((es ++ [e, .fire timer]).foldl (step sdk) connected) := by
  have hwired : Wired (es.foldl (step sdk) connected) :=
    (inv_run h (List.append_nil es).symm).wired
  refine ⟨(es.foldl (step sdk) connected).set, ?_⟩
  rw [List.foldl_append]
  generalize es.foldl (step sdk) connected = w at hlive hlate hwired
  have hfired : ∀ s p, n ≠ s → w.closed = false →
      ¬ OneConnection sdk (((w.setPhase s p).scheduleReconnect).fire w.set) := by
    intro s p hns hopen hone
    obtain ⟨htimers, hmade, hstill⟩ := late_schedules (p := p) hwired hlive hopen hns
    generalize (w.setPhase s p).scheduleReconnect = late at htimers hmade hstill hone
    have hfire : late.fire w.set = World.connect { late with
        timers := late.timers.filter (fun t => t.1 ≠ w.set), reconnectTimer := none } := by
      unfold World.fire
      rw [if_pos (by rw [htimers]; exact List.mem_singleton.mpr rfl)]
    have hne : n ≠ late.made := by omega
    have hold : ((late.fire w.set).phase n).live = true := by
      rw [hfire]
      show (Function.update late.phase late.made .connecting n).live = true
      rw [Function.update_of_ne hne]
      exact hstill
    have hnew : ((late.fire w.set).phase late.made).live = true := by
      rw [hfire]
      show (Function.update late.phase late.made .connecting late.made).live = true
      rw [Function.update_self]
      rfl
    exact hne (hone.live n late.made hold hnew)
  cases e with
  | error s =>
      simp only [InTime, Classical.not_imp] at hlate
      obtain ⟨hthere, hopen, -, hother⟩ := hlate
      have hns : n ≠ s := fun hns => hother (by rw [← hns]; exact hwired.ws_of_live hlive)
      show ¬ OneConnection sdk ((w.error s).fire w.set)
      unfold World.error
      rw [if_neg hthere]
      exact hfired s .failed hns hopen
  | close s =>
      simp only [InTime, Classical.not_imp] at hlate
      obtain ⟨hthere, hopen, -, hother⟩ := hlate
      have hns : n ≠ s := fun hns => hother (by rw [← hns]; exact hwired.ws_of_live hlive)
      show ¬ OneConnection sdk ((w.close s).fire w.set)
      unfold World.close
      rw [if_neg hthere]
      exact hfired s .gone hns hopen
  | opened s => exact absurd trivial hlate
  | fire timer => exact absurd trivial hlate
  | shut => exact absurd trivial hlate
  | broadcast m => exact absurd trivial hlate
  | decided k decision => exact absurd trivial hlate

end Runs

section Sample

/-- Opportunities that are their own identifiers. -/
def plainSdk : Sdk Text where
  id opp := opp
  address := "0x07".toList
  signBid _ _ := "0x".toList

/-- The close of a socket that failed comes before the reconnect. -/
def promptClose : List (Event Text) :=
  [.opened 0, .error 0, .close 0, .fire 0, .opened 1,
    .broadcast (.opportunity "a".toList), .decided 0 (some ⟨5, []⟩)]

theorem one_connection_sample :
    OneConnection plainSdk (promptClose.foldl (step plainSdk) connected) := by
  refine one_connection plainSdk promptClose ?_ promptClose [] rfl
  unfold promptClose
  simp only [Guarded.along_cons]
  exact ⟨trivial, fun _ _ _ => rfl, fun _ _ h => absurd h (by decide), trivial, trivial, trivial,
    trivial, Guarded.along_nil⟩

/-- The close comes when the replacement is open. -/
def lateClose : List (Event Text) :=
  [.opened 0, .error 0, .fire 0, .opened 1, .close 0, .fire 1, .opened 2,
    .broadcast (.opportunity "a".toList), .decided 0 (some ⟨5, []⟩), .decided 0 (some ⟨5, []⟩)]

/-- Then an opportunity is bid on twice. -/
theorem lateClose_bids_twice : ¬ ∀ pre post, lateClose = pre ++ post →
    OneConnection plainSdk (pre.foldl (step plainSdk) connected) := by
  intro h
  have hbids := (h lateClose [] rfl).bids "a".toList
  revert hbids
  decide +kernel

end Sample

end SearcherSocket

end Ordo
