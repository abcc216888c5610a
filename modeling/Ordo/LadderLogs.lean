import Mathlib.Data.List.Nodup
import Mathlib.Logic.Function.Basic
import Ordo.Blocks
import Ordo.Guarded
import Ordo.Hex

/-!
# The ladder managers' logs

`ownerLogs` and `allFeeLogs` keep the logs of a key in an entry: how far it has been read,
and what was found.  A call reads on from there to the head, chunk by chunk, and adds each
chunk to the entry's list; only when it is done does it say how far it has come.  The list
is one object, which all calls for the key share, and so is what they return.

Calls take turns at each `await`.  `logs_right_iff` says when the list that a call returns
is that of the chain: if no block with a matching log has been read into it again.
-/

namespace Ordo

namespace LadderLogs

open Hex BigIntText

structure Log where
  blockNumber : Nat
  logIndex : Nat
  topics : List Text
  deriving DecidableEq

/-- The logs of a manager, block by block; there are none before its deployment. -/
structure Chain where
  logs : Nat → List Log
  deployBlock : Nat
  blockNumber : ∀ n, ∀ l ∈ logs n, l.blockNumber = n
  nodup : ∀ n, (logs n).Nodup
  deployed : ∀ n, n < deployBlock → logs n = []

/-- The topics that are asked for, one place after the other; `none` is any. -/
abbrev Topics := List (Option (List Text))

/-- Whether a log has the topics. -/
def hasTopics (topics : Topics) (l : Log) : Bool :=
  topics.length ≤ l.topics.length &&
    (topics.zip l.topics).all fun (asked, topic) => asked.all (topic ∈ ·)

def pad32 (a : Text) : Text :=
  '0' :: 'x' :: padStart 64 ((a.drop 2).map Char.toLower)

/-- `ownerLogs` asks for the venue's events of an owner. -/
def ownerTopics (venueTopics : List Text) (owner : Text) : Topics :=
  [some venueTopics, none, some [pad32 owner]]

/-- `allFeeLogs` asks for `FeesCollected`, whoever the owner is. -/
def feeTopics (FEES_TOPIC : Text) : Topics := [some [FEES_TOPIC]]

/-- What the cache has for a key.  The last field is not in the source: it is how far the
blocks have been read whose logs are in the list. -/
structure Entry where
  toBlock : Int
  logs : List Log
  readTo : Int
  deriving DecidableEq

/-- Where a call stands. -/
inductive Call where
  | starting (entry : Nat)
  | reading (entry : Nat) (head first span : Int)
  | returned (entry : Nat) (head : Int) (logs : List Log)
  | thrown
  deriving DecidableEq

/-- The entries that were made for a key, the one that is in the cache, and the calls. -/
structure State where
  entries : Nat → Entry
  made : Nat
  cache : Option Nat
  calls : List Call

/-- What happens: a call is made, the head is answered, a chunk is read or is not. -/
inductive Event where
  | call
  | head (i : Nat) (reply : Option Nat)
  | chunk (i : Nat) (ok : Bool)
  deriving DecidableEq

section Calls

variable (c : Chain) (topics : Topics)

/-- The matching logs of a block. -/
def matching (n : Nat) : List Log := (c.logs n).filter (hasTopics topics)

/-- The end of a call. -/
def finish (s : State) (i entry : Nat) (head : Int) : State :=
  { s with
    entries := Function.update s.entries entry { s.entries entry with toBlock := head }
    cache := some entry
    calls := s.calls.set i (.returned entry head (s.entries entry).logs) }

/-- `while (from <= head)`. -/
def loop (s : State) (i entry : Nat) (head first span : Int) : State :=
  if first ≤ head then { s with calls := s.calls.set i (.reading entry head first span) }
  else finish s i entry head

/-- `cur.logs.push(...part)`. -/
def push (s : State) (entry : Nat) (last : Int) (part : List Log) : State :=
  { s with
    entries := Function.update s.entries entry
      { s.entries entry with
        logs := (s.entries entry).logs ++ part
        readTo := max (s.entries entry).readTo last } }

/-- A call takes the entry that is in the cache, or makes one. -/
def onCall (s : State) : State :=
  match s.cache with
  | some entry => { s with calls := s.calls ++ [.starting entry] }
  | none => { s with made := s.made + 1, calls := s.calls ++ [.starting s.made] }

/-- The head is answered, or the call is thrown. -/
def onHead (s : State) (i : Nat) (reply : Option Nat) : State :=
  match s.calls[i]?, reply with
  | some (.starting entry), some head =>
      loop s i entry head ((s.entries entry).toBlock + 1) 400000
  | some (.starting _), none => { s with calls := s.calls.set i .thrown }
  | _, _ => s

/-- A chunk is read, or it is to be read in smaller ones. -/
def onChunk (s : State) (i : Nat) (ok : Bool) : State :=
  match s.calls[i]? with
  | some (.reading entry head first span) =>
      if ok then
        let last := min head (first + span - 1)
        loop (push s entry last (Blocks.between (matching c topics) first last)) i entry head
          (last + 1) span
      else if span ≤ 2000 then { s with calls := s.calls.set i .thrown }
      else { s with calls := s.calls.set i (.reading entry head first (span / 4)) }
  | _ => s

def step (s : State) : Event → State
  | .call => onCall s
  | .head i reply => onHead s i reply
  | .chunk i ok => onChunk c topics s i ok

/-- An empty cache.  An entry begins before the deployment. -/
def fresh : State where
  entries := fun _ => ⟨c.deployBlock - 1, [], c.deployBlock - 1⟩
  made := 0
  cache := none
  calls := []

def run (es : List Event) : State := es.foldl (step c topics) (fresh c)

end Calls

/-- What a call has returned: its entry, its head and the list. -/
def returned (s : State) (i : Nat) : Option (Nat × Int × List Log) :=
  match s.calls[i]? with
  | some (.returned entry head logs) => some (entry, head, logs)
  | _ => none

/-- The logs of a list up to a block. -/
def upTo (head : Int) (logs : List Log) : List Log := logs.filter fun l => l.blockNumber ≤ head

/-- Up to the head the list has every matching log once, in the order of the chain. -/
def Right (c : Chain) (topics : Topics) (head : Int) (logs : List Log) : Prop :=
  upTo head logs = Blocks.between (matching c topics) c.deployBlock head

/-- A chunk that is read into the entry has no matching log, up to the head, in the blocks
that were read into it before. -/
def Unread (c : Chain) (topics : Topics) (entry : Nat) (head : Int) (s : State) : Event → Prop
  | .chunk i true => ∀ head' first span, s.calls[i]? = some (.reading entry head' first span) →
      ∀ n : Nat, first ≤ n → (n : Int) ≤ min head' (first + span - 1) →
        (n : Int) ≤ (s.entries entry).readTo → (n : Int) ≤ head → matching c topics n = []
  | _ => True

/-! ### How far an entry has been read -/

section Places

variable {c : Chain} {topics : Topics} {s : State} {entry : Nat}

/-- Calls read on from what has been read, and an entry claims no more than that. -/
structure Placed (entry : Nat) (s : State) : Prop where
  from_start : -1 ≤ (s.entries entry).toBlock
  toBlock_le : (s.entries entry).toBlock ≤ (s.entries entry).readTo
  reading : ∀ call ∈ s.calls, ∀ head first span, call = .reading entry head first span →
    0 ≤ first ∧ first ≤ head ∧ first ≤ (s.entries entry).readTo + 1 ∧ 0 < span

theorem placed_fresh (c : Chain) (entry : Nat) : Placed entry (fresh c) where
  from_start := by
    have hentry : ((fresh c).entries entry).toBlock = c.deployBlock - 1 := rfl
    omega
  toBlock_le := Int.le_refl _
  reading := fun _ h => by cases h

/-- Calls on another entry do not matter. -/
theorem Placed.set (h : Placed entry s) {i : Nat} {call : Call}
    (hcall : ∀ head first span, call = .reading entry head first span →
      0 ≤ first ∧ first ≤ head ∧ first ≤ (s.entries entry).readTo + 1 ∧ 0 < span) :
    Placed entry { s with calls := s.calls.set i call } := by
  refine ⟨h.from_start, h.toBlock_le, fun call' hmem => ?_⟩
  rcases List.mem_or_eq_of_mem_set hmem with hold | rfl
  · exact h.reading call' hold
  · exact hcall

/-- The loop goes on, or the call is done and what it has read reaches its head. -/
theorem Placed.loop (h : Placed entry s) {i other : Nat} {head first span : Int}
    (hnext : entry = other → 0 ≤ head ∧ 0 ≤ first ∧ 0 < span ∧
      first ≤ (s.entries entry).readTo + 1) : Placed entry (loop s i other head first span) := by
  unfold LadderLogs.loop
  split
  next hin =>
    apply h.set
    intro head' first' span' hcall
    cases hcall
    obtain ⟨-, hfirst, hspan, hread⟩ := hnext rfl
    exact ⟨hfirst, hin, hread, hspan⟩
  next hdone =>
    have hcalls : Placed entry
        { s with calls := s.calls.set i (.returned other head (s.entries other).logs) } :=
      h.set fun _ _ _ hcall => by cases hcall
    unfold finish
    rcases eq_or_ne entry other with rfl | hne
    · obtain ⟨hhead, -, -, hread⟩ := hnext rfl
      refine ⟨?_, ?_, ?_⟩
      · simp only [Function.update_self]
        omega
      · simp only [Function.update_self]
        omega
      · simp only [Function.update_self]
        exact hcalls.reading
    · refine ⟨?_, ?_, ?_⟩
      · simp only [Function.update_of_ne hne]
        exact h.from_start
      · simp only [Function.update_of_ne hne]
        exact h.toBlock_le
      · simp only [Function.update_of_ne hne]
        exact hcalls.reading

theorem Placed.push (h : Placed entry s) (other : Nat) (last : Int) (part : List Log) :
    Placed entry (push s other last part) := by
  unfold LadderLogs.push
  rcases eq_or_ne entry other with rfl | hne
  · refine ⟨?_, ?_, ?_⟩
    · simp only [Function.update_self]
      exact h.from_start
    · simp only [Function.update_self]
      exact h.toBlock_le.trans (Int.le_max_left _ _)
    · simp only [Function.update_self]
      intro call hmem head first span hcall
      obtain ⟨hzero, hin, hnext, hspan⟩ := h.reading call hmem head first span hcall
      exact ⟨hzero, hin, by omega, hspan⟩
  · refine ⟨?_, ?_, ?_⟩
    · simp only [Function.update_of_ne hne]
      exact h.from_start
    · simp only [Function.update_of_ne hne]
      exact h.toBlock_le
    · simp only [Function.update_of_ne hne]
      exact h.reading

/-- **One event.** -/
theorem Placed.onCall (h : Placed entry s) : Placed entry (onCall s) := by
  have hstarting : ∀ {made other : Nat},
      Placed entry { s with made := made, calls := s.calls ++ [.starting other] } := by
    intro made other
    refine ⟨h.from_start, h.toBlock_le, fun call hmem => ?_⟩
    rcases List.mem_append.mp hmem with hold | hnew
    · exact h.reading call hold
    · rw [List.mem_singleton.mp hnew]
      exact fun _ _ _ hcall => by cases hcall
  unfold LadderLogs.onCall
  split
  · exact hstarting
  · exact hstarting

theorem Placed.onHead (h : Placed entry s) (i : Nat) (reply : Option Nat) :
    Placed entry (onHead s i reply) := by
  unfold LadderLogs.onHead
  split
  next other head hcall =>
    apply h.loop
    rintro rfl
    have hstart := h.from_start
    have hle := h.toBlock_le
    exact ⟨Int.natCast_nonneg _, by omega, by omega, by omega⟩
  next => exact h.set fun _ _ _ hcall => by cases hcall
  next => exact h

theorem readTo_push (s : State) (entry : Nat) (last : Int) (part : List Log) :
    ((LadderLogs.push s entry last part).entries entry).readTo =
      max (s.entries entry).readTo last := by
  simp only [LadderLogs.push, Function.update_self]

theorem Placed.onChunk (h : Placed entry s) (i : Nat) (ok : Bool) :
    Placed entry (onChunk c topics s i ok) := by
  unfold LadderLogs.onChunk
  split
  next other head first span hcall =>
    have hreading : entry = other → 0 ≤ first ∧ first ≤ head ∧
        first ≤ (s.entries entry).readTo + 1 ∧ 0 < span := by
      rintro rfl
      exact h.reading _ (List.mem_of_getElem? hcall) head first span rfl
    split
    next =>
      apply (h.push other _ _).loop
      rintro rfl
      obtain ⟨hzero, hin, hnext, hspan⟩ := hreading rfl
      rw [readTo_push]
      exact ⟨by omega, by omega, hspan, by omega⟩
    next =>
      split
      next => exact h.set fun _ _ _ hcall => by cases hcall
      next hlarge =>
        apply h.set
        intro head' first' span' hcall'
        cases hcall'
        obtain ⟨hzero, hin, hnext, hspan⟩ := hreading rfl
        exact ⟨hzero, hin, hnext, by omega⟩
  next => exact h

/-- **One event.** -/
theorem Placed.step (h : Placed entry s) (ev : Event) : Placed entry (step c topics s ev) := by
  cases ev with
  | call => exact h.onCall
  | head i reply => exact h.onHead i reply
  | chunk i ok => exact h.onChunk i ok

end Places

/-! ### What an entry holds -/

section Content

variable {c : Chain} {topics : Topics} {s : State} {entry : Nat} {head : Int}

/-- The matching logs of a block, if it is not behind the head. -/
def visible (c : Chain) (topics : Topics) (head : Int) (n : Nat) : List Log :=
  upTo head (matching c topics n)

theorem visible_of_le {n : Nat} (h : (n : Int) ≤ head) :
    visible c topics head n = matching c topics n := by
  rw [visible, upTo, List.filter_eq_self]
  intro l hl
  rw [c.blockNumber n l (List.mem_filter.mp hl).1]
  exact decide_eq_true h

theorem visible_of_lt {n : Nat} (h : head < n) : visible c topics head n = [] := by
  rw [visible, upTo, List.filter_eq_nil_iff]
  intro l hl
  rw [c.blockNumber n l (List.mem_filter.mp hl).1]
  simpa using h

/-- Up to the head the list is what has been read. -/
def Clean (c : Chain) (topics : Topics) (entry : Nat) (head : Int) (s : State) : Prop :=
  upTo head (s.entries entry).logs =
    Blocks.between (visible c topics head) 0 (s.entries entry).readTo

/-- A log is in the list twice. -/
def Twice (entry : Nat) (head : Int) (s : State) : Prop :=
  ∃ l, (l.blockNumber : Int) ≤ head ∧ 2 ≤ (s.entries entry).logs.count l

theorem clean_fresh (c : Chain) (topics : Topics) (entry : Nat) (head : Int) :
    Clean c topics entry head (fresh c) := by
  have hnone : Blocks.between (visible c topics head) 0 (c.deployBlock - 1) = [] := by
    rw [List.eq_nil_iff_forall_not_mem]
    intro l hl
    obtain ⟨n, -, hn, hl⟩ := (Blocks.mem_between (le_refl _)).mp hl
    have hmem := (List.mem_filter.mp (List.mem_filter.mp hl).1).1
    rw [c.deployed n (by omega)] at hmem
    cases hmem
  exact hnone.symm

theorem upTo_between (first last : Int) :
    upTo head (Blocks.between (matching c topics) first last) =
      Blocks.between (visible c topics head) first last := Blocks.filter_between _

/-- A chunk behind what has been read, but for blocks that have nothing to be found. -/
theorem Clean.push (h : Clean c topics entry head s) (hstart : -1 ≤ (s.entries entry).readTo)
    {first last : Int} (hfirst : 0 ≤ first) (hnext : first ≤ (s.entries entry).readTo + 1)
    (hunread : ∀ n : Nat, first ≤ n → (n : Int) ≤ last → (n : Int) ≤ (s.entries entry).readTo →
      (n : Int) ≤ head → matching c topics n = []) :
    Clean c topics entry head
      (LadderLogs.push s entry last (Blocks.between (matching c topics) first last)) := by
  have hempty : ∀ n : Nat, first ≤ n → (n : Int) ≤ last → (n : Int) ≤ (s.entries entry).readTo →
      visible c topics head n = [] := by
    intro n hge hle hread
    rcases le_or_gt (n : Int) head with hin | hout
    · rw [visible_of_le hin, hunread n hge hle hread hin]
    · exact visible_of_lt hout
  unfold Clean LadderLogs.push
  simp only [Function.update_self]
  have hold : upTo head (s.entries entry).logs = _ := h
  have happend : ∀ part, upTo head ((s.entries entry).logs ++ part) =
      Blocks.between (visible c topics head) 0 (s.entries entry).readTo ++ upTo head part :=
    fun part => by rw [← hold, upTo, upTo, upTo, List.filter_append]
  rw [happend, upTo_between]
  rcases le_or_gt last (s.entries entry).readTo with hback | hon
  · have hnone : Blocks.between (visible c topics head) first last = [] := by
      rw [List.eq_nil_iff_forall_not_mem]
      intro l hl
      obtain ⟨n, hge, hle, hl⟩ := (Blocks.mem_between hfirst).mp hl
      rw [hempty n hge hle (hle.trans hback)] at hl
      cases hl
    rw [hnone, List.append_nil, max_eq_left hback]
  · have hdrop : Blocks.between (visible c topics head) first last =
        Blocks.between (visible c topics head) ((s.entries entry).readTo + 1) last :=
      Blocks.between_drop hfirst (by omega) (fun n hge hle => hempty n hge (by omega) hle) hon.le
    rw [hdrop, max_eq_right hon.le]
    exact Blocks.between_append (le_refl _) (by omega) hon.le

/-- A block is read again that has something to be found. -/
theorem Clean.twice (h : Clean c topics entry head s) {first last : Int} (hfirst : 0 ≤ first)
    {n : Nat} (hge : first ≤ n) (hle : (n : Int) ≤ last)
    (hread : (n : Int) ≤ (s.entries entry).readTo) (hin : (n : Int) ≤ head)
    (hfound : matching c topics n ≠ []) :
    Twice entry head
      (LadderLogs.push s entry last (Blocks.between (matching c topics) first last)) := by
  obtain ⟨l, hl⟩ := List.exists_mem_of_ne_nil _ hfound
  have hblock : (l.blockNumber : Int) ≤ head := by
    rw [c.blockNumber n l (List.mem_filter.mp hl).1]
    exact hin
  have hbefore : l ∈ (s.entries entry).logs := by
    have hmem : l ∈ Blocks.between (visible c topics head) 0 (s.entries entry).readTo := by
      refine (Blocks.mem_between (le_refl _)).mpr ⟨n, Int.natCast_nonneg _, hread, ?_⟩
      rw [visible_of_le hin]
      exact hl
    rw [← show upTo head (s.entries entry).logs = _ from h] at hmem
    exact (List.mem_filter.mp hmem).1
  have hagain : l ∈ Blocks.between (matching c topics) first last :=
    (Blocks.mem_between hfirst).mpr ⟨n, hge, hle, hl⟩
  refine ⟨l, hblock, ?_⟩
  have hone := List.count_pos_iff.mpr hbefore
  have htwo := List.count_pos_iff.mpr hagain
  simp only [LadderLogs.push, Function.update_self, List.count_append]
  omega

/-- What an entry holds is the same. -/
def Same (entry : Nat) (s s' : State) : Prop :=
  (s'.entries entry).logs = (s.entries entry).logs ∧
    (s'.entries entry).readTo = (s.entries entry).readTo

theorem Same.refl (entry : Nat) (s : State) : Same entry s s := ⟨rfl, rfl⟩

theorem same_loop (s : State) (i other entry : Nat) (head first span : Int) :
    Same entry s (loop s i other head first span) := by
  unfold loop
  split
  · exact ⟨rfl, rfl⟩
  · rw [finish, Same]
    rcases eq_or_ne entry other with rfl | hne
    · simp only [Function.update_self, and_self]
    · simp only [Function.update_of_ne hne, and_self]

theorem same_push {s : State} {entry other : Nat} (hne : entry ≠ other) (last : Int)
    (part : List Log) : Same entry s (push s other last part) := by
  simp only [Same, push, Function.update_of_ne hne, and_self]

theorem Same.trans {s s' s'' : State} (h : Same entry s s') (h' : Same entry s' s'') :
    Same entry s s'' := ⟨h'.1.trans h.1, h'.2.trans h.2⟩

theorem same_onCall (s : State) (entry : Nat) : Same entry s (onCall s) := by
  unfold onCall
  split
  · exact ⟨rfl, rfl⟩
  · exact ⟨rfl, rfl⟩

theorem same_onHead (s : State) (entry i : Nat) (reply : Option Nat) :
    Same entry s (onHead s i reply) := by
  unfold onHead
  split
  · exact same_loop _ _ _ _ _ _ _
  · exact ⟨rfl, rfl⟩
  · exact ⟨rfl, rfl⟩

/-- The state when a chunk has been read into an entry. -/
def afterChunk (c : Chain) (topics : Topics) (s : State) (entry : Nat) (head first span : Int) :
    State :=
  push s entry (min head (first + span - 1))
    (Blocks.between (matching c topics) first (min head (first + span - 1)))

/-- A chunk is added to the entry of its call. -/
theorem onChunk_entry (c : Chain) (topics : Topics) (s : State) (entry i : Nat) (ok : Bool) :
    (Same entry s (onChunk c topics s i ok) ∧ (ok = true → ∀ head first span,
        s.calls[i]? ≠ some (.reading entry head first span))) ∨
      ∃ head first span, ok = true ∧ s.calls[i]? = some (.reading entry head first span) ∧
        Same entry (afterChunk c topics s entry head first span) (onChunk c topics s i ok) := by
  unfold onChunk
  split
  next other head first span hcall =>
    by_cases hok : ok = true
    · rw [if_pos hok]
      rcases eq_or_ne entry other with rfl | hne
      · exact Or.inr ⟨head, first, span, hok, hcall, same_loop _ _ _ _ _ _ _⟩
      · refine Or.inl ⟨(same_push hne _ _).trans (same_loop _ _ _ _ _ _ _), ?_⟩
        intro _ head' first' span' hreading
        rw [hcall] at hreading
        cases hreading
        exact hne rfl
    · rw [if_neg hok]
      refine Or.inl ⟨?_, fun htrue => absurd htrue hok⟩
      split
      · exact ⟨rfl, rfl⟩
      · exact ⟨rfl, rfl⟩
  next hnot => exact Or.inl ⟨Same.refl entry s, fun _ head first span => hnot entry head first span⟩

theorem Clean.same {s' : State} (h : Clean c topics entry head s) (hsame : Same entry s s') :
    Clean c topics entry head s' := by
  unfold Clean
  rw [hsame.1, hsame.2]
  exact h

theorem Twice.same {s' : State} (h : Twice entry head s) (hsame : Same entry s s') :
    Twice entry head s' := by
  unfold Twice
  rw [hsame.1]
  exact h

/-- What is in the list twice stays so. -/
theorem Twice.step (h : Twice entry head s) (ev : Event) :
    Twice entry head (step c topics s ev) := by
  cases ev with
  | call => exact h.same (same_onCall s entry)
  | head i reply => exact h.same (same_onHead s entry i reply)
  | chunk i ok =>
      rcases onChunk_entry c topics s entry i ok with
        ⟨hsame, -⟩ | ⟨head', first, span, -, -, hsame⟩
      · exact h.same hsame
      · obtain ⟨l, hblock, htwo⟩ := h
        refine Twice.same ⟨l, hblock, ?_⟩ hsame
        simp only [afterChunk, LadderLogs.push, Function.update_self, List.count_append]
        omega

/-- **One event**: the list stays what was read if no block with something in it is read
again, and has a log twice if one is. -/
theorem Clean.step (h : Clean c topics entry head s) (hplaced : Placed entry s) (ev : Event) :
    (Unread c topics entry head s ev → Clean c topics entry head (step c topics s ev)) ∧
      (¬ Unread c topics entry head s ev → Twice entry head (step c topics s ev)) := by
  cases ev with
  | call => exact ⟨fun _ => h.same (same_onCall s entry), fun hnot => absurd trivial hnot⟩
  | head i reply =>
      exact ⟨fun _ => h.same (same_onHead s entry i reply), fun hnot => absurd trivial hnot⟩
  | chunk i ok =>
      rcases onChunk_entry c topics s entry i ok with
        ⟨hsame, hnot⟩ | ⟨head', first, span, rfl, hcall, hsame⟩
      · refine ⟨fun _ => h.same hsame, fun hagain => absurd ?_ hagain⟩
        cases ok with
        | false => trivial
        | true => exact fun head' first span hcall => absurd hcall (hnot rfl head' first span)
      · obtain ⟨hzero, hin, hnext, hspan⟩ :=
          hplaced.reading _ (List.mem_of_getElem? hcall) head' first span rfl
        constructor
        · intro hunread
          refine Clean.same (h.push ?_ hzero hnext (hunread head' first span hcall)) hsame
          exact hplaced.from_start.trans hplaced.toBlock_le
        · intro hagain
          simp only [Unread, not_forall] at hagain
          obtain ⟨head'', first', span', hcall', n, hge, hle, hread, hinside, hfound⟩ := hagain
          rw [hcall] at hcall'
          cases hcall'
          exact Twice.same (h.twice hzero hge hle hread hinside hfound) hsame

end Content

/-! ### What a call returns -/

section Returns

variable {c : Chain} {topics : Topics} {s : State} {entry : Nat} {head : Int} {logs : List Log}

/-- A log that is twice in the list makes it wrong. -/
theorem Twice.not_right (h : Twice entry head s) (hlogs : logs = (s.entries entry).logs) :
    ¬ Right c topics head logs := by
  obtain ⟨l, hblock, htwo⟩ := h
  intro hright
  have hnodup : (Blocks.between (matching c topics) c.deployBlock head).Nodup := by
    apply Blocks.pairwise_between
    · exact fun n => (c.nodup n).filter _
    · rintro n m hlt x hx y hy rfl
      have hn := c.blockNumber n x (List.mem_filter.mp hx).1
      have hm := c.blockNumber m x (List.mem_filter.mp hy).1
      omega
  rw [← show upTo head logs = _ from hright, hlogs] at hnodup
  have hcount : (upTo head (s.entries entry).logs).count l = (s.entries entry).logs.count l :=
    List.count_filter (by simpa using hblock)
  have hone := List.nodup_iff_count_le_one.mp hnodup l
  omega

/-- A list that is what was read, as far as the head and on, is right. -/
theorem Clean.right (h : Clean c topics entry head s) (hzero : 0 ≤ head)
    (hreached : head ≤ (s.entries entry).readTo) : Right c topics head (s.entries entry).logs := by
  have hbehind :
      Blocks.between (visible c topics head) (head + 1) (s.entries entry).readTo = [] := by
    rw [List.eq_nil_iff_forall_not_mem]
    intro l hl
    obtain ⟨n, hn, -, hl⟩ := (Blocks.mem_between (by omega)).mp hl
    rw [visible_of_lt (by omega)] at hl
    cases hl
  have hseen : Blocks.between (visible c topics head) 0 head =
      Blocks.between (matching c topics) 0 head :=
    Blocks.between_congr (le_refl _) fun n _ hn => visible_of_le hn
  have hnothing : ∀ n : Nat, n < c.deployBlock → matching c topics n = [] := by
    intro n hn
    rw [matching, c.deployed n hn]
    rfl
  have hdeployed : Blocks.between (matching c topics) 0 head =
      Blocks.between (matching c topics) c.deployBlock head := by
    rcases le_or_gt ((c.deployBlock : Int) - 1) head with hin | hout
    · have hdrop : Blocks.between (matching c topics) 0 head =
          Blocks.between (matching c topics) ((c.deployBlock : Int) - 1 + 1) head :=
        Blocks.between_drop (le_refl _) (by omega) (fun n _ hn => hnothing n (by omega)) hin
      rw [hdrop, Int.sub_add_cancel]
    · rw [Blocks.between_empty (a := (c.deployBlock : Int)) (by omega),
        List.eq_nil_iff_forall_not_mem]
      intro l hl
      obtain ⟨n, -, hn, hl⟩ := (Blocks.mem_between (le_refl _)).mp hl
      rw [hnothing n (by omega)] at hl
      cases hl
  rw [Right, ← hdeployed, ← hseen, show upTo head (s.entries entry).logs = _ from h,
    ← Blocks.between_append (le_refl (0 : Int)) (by omega) hreached, hbehind, List.append_nil]

theorem returned_set {i j : Nat} {call : Call} (hbefore : returned s j = none)
    (hafter : returned { s with calls := s.calls.set i call } j = some (entry, head, logs)) :
    call = .returned entry head logs := by
  have hget : ∀ call', (s.calls.set i call)[j]? = some call' → call' = call ∨
      s.calls[j]? = some call' := by
    intro call' hj
    rcases eq_or_ne i j with rfl | hne
    · rw [List.getElem?_set_self'] at hj
      obtain ⟨old, -, rfl⟩ := Option.map_eq_some_iff.mp hj
      exact Or.inl rfl
    · rw [List.getElem?_set_ne hne] at hj
      exact Or.inr hj
  unfold returned at hbefore hafter
  dsimp only at hafter
  split at hafter
  next entry' head' logs' hcall =>
    cases hafter
    rcases hget _ hcall with heq | hold
    · exact heq.symm
    · rw [hold] at hbefore
      cases hbefore
  next => cases hafter

/-- A call that returns when its loop has ended has read as far as its head. -/
theorem returned_loop {i j other : Nat} {head' first span : Int} (hhead : 0 ≤ head')
    (hnext : first ≤ (s.entries other).readTo + 1) (hbefore : returned s j = none)
    (hafter : returned (loop s i other head' first span) j = some (entry, head, logs)) :
    0 ≤ head ∧ head ≤ ((loop s i other head' first span).entries entry).readTo ∧
      logs = ((loop s i other head' first span).entries entry).logs := by
  obtain ⟨hlogs, hread⟩ := same_loop s i other entry head' first span
  rw [hlogs, hread]
  unfold loop at hafter
  split at hafter
  next =>
    have hcall := returned_set hbefore hafter
    cases hcall
  next hdone =>
    have hcall : Call.returned other head' (s.entries other).logs = .returned entry head logs :=
      returned_set (s := s) (i := i) hbefore hafter
    cases hcall
    exact ⟨hhead, by omega, rfl⟩

theorem returned_onCall {j : Nat} (hbefore : returned s j = none) :
    returned (onCall s) j = none := by
  have hadded : ∀ other, returned { s with calls := s.calls ++ [.starting other] } j = none := by
    intro other
    unfold returned at hbefore ⊢
    dsimp only
    rcases lt_or_ge j s.calls.length with hlt | hge
    · rw [List.getElem?_append_left hlt]
      exact hbefore
    · rw [List.getElem?_append_right hge]
      split
      next entry head logs hcall =>
        have hmem := List.mem_singleton.mp (List.mem_of_getElem? hcall)
        cases hmem
      next => rfl
  unfold onCall
  split
  next other _ => exact hadded other
  next => exact hadded s.made

theorem returned_onHead (hplaced : ∀ entry, Placed entry s) {i j : Nat} {reply : Option Nat}
    (hbefore : returned s j = none)
    (hafter : returned (onHead s i reply) j = some (entry, head, logs)) :
    0 ≤ head ∧ head ≤ ((onHead s i reply).entries entry).readTo ∧
      logs = ((onHead s i reply).entries entry).logs := by
  revert hafter
  unfold onHead
  split
  next other head' _ =>
    intro hafter
    have hle := (hplaced other).toBlock_le
    exact returned_loop (Int.natCast_nonneg _) (by omega) hbefore hafter
  next =>
    intro hafter
    cases returned_set hbefore hafter
  next =>
    intro hafter
    rw [hbefore] at hafter
    cases hafter

theorem returned_onChunk (hplaced : ∀ entry, Placed entry s) {i j : Nat} {ok : Bool}
    (hbefore : returned s j = none)
    (hafter : returned (onChunk c topics s i ok) j = some (entry, head, logs)) :
    0 ≤ head ∧ head ≤ ((onChunk c topics s i ok).entries entry).readTo ∧
      logs = ((onChunk c topics s i ok).entries entry).logs := by
  revert hafter
  unfold onChunk
  split
  next other head' first span hcall =>
    obtain ⟨hzero, hin, hnext, hspan⟩ :=
      (hplaced other).reading _ (List.mem_of_getElem? hcall) head' first span rfl
    split
    next =>
      intro hafter
      refine returned_loop (by omega) ?_ hbefore hafter
      rw [readTo_push]
      omega
    next =>
      split
      next =>
        intro hafter
        cases returned_set hbefore hafter
      next =>
        intro hafter
        cases returned_set hbefore hafter
  next =>
    intro hafter
    rw [hbefore] at hafter
    cases hafter

/-- **A return**: the entry has been read as far as the head of the call. -/
theorem returned_step (hplaced : ∀ entry, Placed entry s) {ev : Event} {j : Nat}
    (hbefore : returned s j = none)
    (hafter : returned (step c topics s ev) j = some (entry, head, logs)) :
    0 ≤ head ∧ head ≤ ((step c topics s ev).entries entry).readTo ∧
      logs = ((step c topics s ev).entries entry).logs := by
  cases ev with
  | call =>
      rw [step, returned_onCall hbefore] at hafter
      cases hafter
  | head i reply => exact returned_onHead hplaced hbefore hafter
  | chunk i ok => exact returned_onChunk hplaced hbefore hafter

end Returns

/-! ### Runs -/

section Runs

variable (c : Chain) (topics : Topics)

theorem placed_run (es : List Event) (entry : Nat) : Placed entry (run c topics es) := by
  unfold run
  induction es using List.reverseRecOn with
  | nil => exact placed_fresh c entry
  | append_singleton es ev ih =>
      rw [List.foldl_append]
      exact ih.step ev

theorem twice_foldl {s : State} {entry : Nat} {head : Int} (h : Twice entry head s)
    (es : List Event) : Twice entry head (es.foldl (step c topics) s) := by
  induction es generalizing s with
  | nil => exact h
  | cons ev es ih => exact ih (h.step ev)

/-- **A run**: the list is what was read, unless a block with something in it was read
again. -/
theorem clean_run {entry : Nat} {head : Int} {es : List Event}
    (h : Guarded.Along (step c topics) (Unread c topics entry head) (fresh c) es) :
    Clean c topics entry head (run c topics es) := by
  have hkeeps : ∀ (s : State) (ev : Event), Clean c topics entry head s ∧ Placed entry s →
      Unread c topics entry head s ev →
      Clean c topics entry head (step c topics s ev) ∧ Placed entry (step c topics s ev) :=
    fun s ev hs hunread => ⟨(hs.1.step hs.2 ev).1 hunread, hs.2.step ev⟩
  have hinv := Guarded.invariant_along hkeeps
    ⟨clean_fresh c topics entry head, placed_fresh c entry⟩ h (List.append_nil es).symm
  exact hinv.1

theorem twice_of_not_along {s : State} {entry : Nat} {head : Int} {es : List Event}
    (hclean : Clean c topics entry head s) (hplaced : Placed entry s)
    (h : ¬ Guarded.Along (step c topics) (Unread c topics entry head) s es) :
    Twice entry head (es.foldl (step c topics) s) := by
  induction es generalizing s with
  | nil => exact absurd Guarded.along_nil h
  | cons ev es ih =>
      obtain ⟨hkept, hbroken⟩ := hclean.step hplaced ev
      by_cases hunread : Unread c topics entry head s ev
      · apply ih (hkept hunread) (hplaced.step ev)
        exact fun hrest => h (Guarded.along_cons.mpr ⟨hunread, hrest⟩)
      · exact twice_foldl c topics (hbroken hunread) es

/-- **The log readers**: the list that a call returns is that of the chain up to its head,
in any run in which no block with a matching log was read into the list again, and only in
such a run. -/
theorem logs_right_iff (es : List Event) (ev : Event) (j entry : Nat) (head : Int)
    (logs : List Log) (hbefore : returned (run c topics es) j = none)
    (hafter : returned (run c topics (es ++ [ev])) j = some (entry, head, logs)) :
    Right c topics head logs ↔
      Guarded.Along (step c topics) (Unread c topics entry head) (fresh c) (es ++ [ev]) := by
  have hlast : run c topics (es ++ [ev]) = step c topics (run c topics es) ev :=
    List.foldl_append
  obtain ⟨hzero, hreached, hlogs⟩ : 0 ≤ head ∧
      head ≤ ((run c topics (es ++ [ev])).entries entry).readTo ∧
      logs = ((run c topics (es ++ [ev])).entries entry).logs := by
    rw [hlast] at hafter ⊢
    exact returned_step (placed_run c topics es) hbefore hafter
  constructor
  · intro hright
    by_contra hagain
    have htwice := twice_of_not_along c topics (clean_fresh c topics entry head)
      (placed_fresh c entry) hagain
    exact htwice.not_right hlogs hright
  · intro hunread
    rw [hlogs]
    exact (clean_run c topics hunread).right hzero hreached

end Runs

/-- A chain whose manager has one log, in block 5. -/
def chain : Chain where
  logs := fun n => if n = 5 then [⟨5, 0, [['f']]⟩] else []
  deployBlock := 2
  blockNumber := by
    intro n l hl
    by_cases h : n = 5
    · rw [if_pos h] at hl
      rw [List.mem_singleton.mp hl, h]
    · rw [if_neg h] at hl
      cases hl
  nodup := by
    intro n
    by_cases h : n = 5
    · rw [if_pos h]
      exact List.nodup_singleton _
    · rw [if_neg h]
      exact List.nodup_nil
  deployed := fun n hn => if_neg (by omega)

/-- One call after the other; the head steps back before it is at 10 again. -/
def steppedBack : List Event :=
  [.call, .head 0 (some 10), .chunk 0 true, .call, .head 1 (some 3), .call, .head 2 (some 10)]

/-- The third call returns the log twice. -/
theorem read_twice : ¬ ∀ (c : Chain) (topics : Topics) (es : List Event) (ev : Event)
    (j entry : Nat) (head : Int) (logs : List Log), returned (run c topics es) j = none →
    returned (run c topics (es ++ [ev])) j = some (entry, head, logs) →
    Right c topics head logs := by
  intro h
  have hright := h chain (feeTopics ['f']) steppedBack (.chunk 2 true) 2 0 10
    [⟨5, 0, [['f']]⟩, ⟨5, 0, [['f']]⟩] (by decide) (by decide)
  rw [Right] at hright
  exact absurd hright (by decide)

/-- Two calls at the same head return it once. -/
theorem logs_right_sample : Right chain (feeTopics ['f']) 10 [⟨5, 0, [['f']]⟩] ↔
    Guarded.Along (step chain (feeTopics ['f'])) (Unread chain (feeTopics ['f']) 0 10)
      (fresh chain) [.call, .head 0 (some 10), .chunk 0 true] :=
  logs_right_iff chain (feeTopics ['f']) [.call, .head 0 (some 10)] (.chunk 0 true) 0 0 10
    [⟨5, 0, [['f']]⟩] (by decide) (by decide)

end LadderLogs

end Ordo
