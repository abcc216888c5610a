import Ordo.Delivery

/-!
# What a proof of delivery bounds

An `ok` proof is meant to say that the sender gets at least what was promised, pays
at most what was quoted, and that nothing is lost to a black hole beyond what is
allowed.

A read that failed counts as a balance of zero, and each transfer to a black hole is
compared with an allowance by itself.  `delivery_fails_closed_iff` and
`leaks_bounded_iff` say when an `ok` proof means what it should all the same.
-/

namespace Ordo

namespace Delivery

open BigIntText (hexDigit?)

section Reads

/-- Text that begins with a 32-byte word. -/
def isWord (text : String) : Bool :=
  match text.toList with
  | '0' :: 'x' :: rest => 64 ≤ rest.length && (rest.take 64).all fun c => (hexDigit? c).isSome
  | _ => false

/-- The call succeeded and returned a word. -/
def Succeeded (out : CallOut) : Prop :=
  out.status = some "0x1" ∧ ∃ d, out.returnData = some d ∧ isWord d = true

/-- Every balance read, before and after, succeeded. -/
def ReadsSucceeded (req : DeliveryRequest) (result : List CallOut) : Prop :=
  ∀ i < (tracked req).length,
    Succeeded (callAt result i) ∧ Succeeded (callAt result (txIndex req + 1 + i))

/-- The words that the reads of a balance succeeded with. -/
def ReadPair (req : DeliveryRequest) (result : List CallOut) (holder asset : String)
    (before after : Int) : Prop :=
  ∃ i t, (tracked req)[i]? = some t ∧ t.key = trackKey holder asset ∧
    Succeeded (callAt result i) ∧ readWord (callAt result i) = .ok before ∧
    Succeeded (callAt result (txIndex req + 1 + i)) ∧
    readWord (callAt result (txIndex req + 1 + i)) = .ok after

/-- Every change that was relied on is the difference of two reads that succeeded, and
these differences are within the bounds. -/
structure Backed (req : DeliveryRequest) (result : List CallOut) : Prop where
  tracked : ∀ t ∈ tracked req, ∃ before after,
    ReadPair req result t.holder t.asset before after
  received : ∀ e ∈ req.expect, ∃ before after,
    ReadPair req result req.sender e.asset before after ∧ e.min ≤ after - before
  paid : ∀ p ∈ req.pay, ∃ before after,
    ReadPair req result req.sender p.asset before after ∧ before - after ≤ p.max

/-- A key stands at one position. -/
theorem tracked_index_unique {req : DeliveryRequest} {i j : Nat} {t u : Tracked}
    (hi : (tracked req)[i]? = some t) (hj : (tracked req)[j]? = some u) (h : t.key = u.key) :
    i = j := by
  have hti : ((tracked req).map (·.key))[i]? = some t.key := by
    rw [List.getElem?_map, hi]
    rfl
  have htj : ((tracked req).map (·.key))[j]? = some t.key := by
    rw [List.getElem?_map, hj, h]
    rfl
  have hlt : i < ((tracked req).map (·.key)).length := by
    rw [List.length_map]
    exact (List.getElem?_eq_some_iff.mp hi).1
  exact (List.getElem?_inj hlt (tracked_nodup req)).mp (hti.trans htj.symm)

theorem Backed.reads_succeeded {req : DeliveryRequest} {result : List CallOut}
    (h : Backed req result) : ReadsSucceeded req result := by
  intro i hi
  have hget : (Delivery.tracked req)[i]? = some (Delivery.tracked req)[i] :=
    List.getElem?_eq_getElem hi
  obtain ⟨before, after, j, t, hj, hkey, hb, _, ha, _⟩ :=
    h.tracked (Delivery.tracked req)[i] (List.getElem_mem hi)
  have hsame : j = i := tracked_index_unique hj hget
    (hkey.trans (tracked_keyed (List.getElem_mem hi)).symm)
  rw [← hsame]
  exact ⟨hb, ha⟩

/-- What was measured, when the reads succeeded. -/
theorem Accepts.readPair {req : DeliveryRequest} {result : List CallOut}
    {words : List Reading} (h : Accepts req result words) (hreads : ReadsSucceeded req result)
    {pair : String × String} (hmem : pair ∈ trackedPairs req) :
    ∃ before after, ReadPair req result pair.1 pair.2 before after ∧
      delta words (trackKey pair.1 pair.2) = after - before := by
  obtain ⟨i, t, before, after, hi, hkey, hb, ha, hdelta⟩ := delta_eq h.reads hmem
  have hlt : i < (tracked req).length := (List.getElem?_eq_some_iff.mp hi).1
  exact ⟨before, after, ⟨i, t, hi, hkey, (hreads i hlt).1, hb, (hreads i hlt).2, ha⟩, hdelta⟩

theorem Accepts.backed {req : DeliveryRequest} {result : List CallOut} {words : List Reading}
    (h : Accepts req result words) (hreads : ReadsSucceeded req result) :
    Backed req result where
  tracked := by
    intro t ht
    obtain ⟨i, hi⟩ := List.mem_iff_getElem?.mp ht
    have hlt : i < (Delivery.tracked req).length := (List.getElem?_eq_some_iff.mp hi).1
    obtain ⟨r, _, hb, ha⟩ := readPairs_get h.reads (tracked_nodup req) hi
    rw [Nat.zero_add] at hb ha
    exact ⟨r.before, r.after, i, t, hi, tracked_keyed ht, (hreads i hlt).1, hb,
      (hreads i hlt).2, ha⟩
  received := by
    intro e he
    obtain ⟨before, after, hpair, hdelta⟩ := h.readPair hreads (mem_trackedPairs_expect req e he)
    have hle := h.expected e he
    rw [hdelta] at hle
    exact ⟨before, after, hpair, hle⟩
  paid := by
    intro p hp
    obtain ⟨before, after, hpair, hdelta⟩ := h.readPair hreads (mem_trackedPairs_pay req p hp)
    have hle := h.quoted p hp
    rw [hdelta] at hle
    exact ⟨before, after, hpair, by omega⟩

section Sample

/-- An upstream that answers call `i` of `n` with `f n i`. -/
def answering (f : Nat → Nat → CallOut) : Upstreams := fun params =>
  let n := params.calls.length
  [.block "upstream" (some ((List.range n).map (f n)))]

theorem response_answering (req : DeliveryRequest) (f : Nat → Nat → CallOut) :
    response req (answering f) =
      .ok ("upstream", (List.range (calls req).length).map (f (calls req).length)) := by
  simp [response, answering, simParams, usable]

theorem callAt_answering {n i : Nat} (h : i < n) (f : Nat → CallOut) :
    callAt ((List.range n).map f) i = f i := by
  simp [callAt, h]

theorem callAt_past {result : List CallOut} {i : Nat} (h : result.length ≤ i) :
    callAt result i = {} := by
  rw [callAt, List.getD_eq_getElem?_getD, List.getElem?_eq_none h]
  rfl

theorem length_calls (req : DeliveryRequest) :
    (calls req).length = txIndex req + 1 + (tracked req).length := by
  simp [calls, txIndex, reads]
  omega

/-- A call that succeeded with a word. -/
def returned (n : Nat) : CallOut :=
  { status := some "0x1", returnData := some ("0x" ++ padStart (hexText n)) }

theorem toList_word (n : Nat) : ("0x" ++ padStart (hexText n)).toList =
    '0' :: 'x' :: (List.replicate (64 - (hexText n).length) '0' ++ hexText n) := by
  simp [padStart]

theorem readWord_zero : readWord (returned 0) = .ok 0 := by
  simp only [readWord, returned, ← String.toList_inj, toList_word]
  decide +kernel

theorem readWord_five : readWord (returned 5) = .ok 5 := by
  simp only [readWord, returned, ← String.toList_inj, toList_word]
  decide +kernel

/-- Five tokens are promised. -/
def purchase : DeliveryRequest where
  sender := "0xa11ce"
  dst := "0xb0b"
  data := "0x"
  value := none
  approval := none
  expect := [⟨"0x70ce", 5⟩]
  pay := []
  mustNotRetain := []
  allowLeaks := []

/-- Five tokens were there before and are there after, but the first read of them
fails. -/
def failedRead (n i : Nat) : CallOut :=
  if i = 0 then { status := some "0x0" }
  else if i = (n + 1) / 2 then returned 5
  else returned 0

theorem failedRead_ok (n i : Nat) : ∃ w, readWord (failedRead n i) = .ok w := by
  unfold failedRead
  split
  · exact ⟨0, rfl⟩
  · split
    · exact ⟨5, readWord_five⟩
    · exact ⟨0, readWord_zero⟩

theorem purchase_first : (tracked purchase)[0]? =
    some ⟨trackKey "0xa11ce" "0x70ce", "0xa11ce", "0x70ce"⟩ := by
  have hprefix : [⟨trackKey "0xa11ce" "0x70ce", "0xa11ce", "0x70ce"⟩] <+: tracked purchase :=
    prefix_foldl_track (BLACKHOLES.map fun h => (h, "eth")) _
  obtain ⟨rest, hrest⟩ := hprefix
  rw [← hrest]
  rfl

/-- Black holes are written out, the sender is shorter. -/
theorem hole_key_ne {hole : String} (h : hole ∈ BLACKHOLES) :
    trackKey hole "eth" ≠ trackKey "0xa11ce" "0x70ce" := by
  have hlength : ∀ hole ∈ BLACKHOLES, hole.length = 42 := by decide +kernel
  intro heq
  have hlen := congrArg String.length heq
  have hshort : (trackKey "0xa11ce" "0x70ce").length = 14 := by decide +kernel
  simp only [trackKey, String.length_append] at hlen hshort
  rw [hshort, toLower_eq_map, String.length_map, hlength hole h] at hlen
  omega

end Sample

end Reads

section Leaks

/-- What a log sends of a token to an address that was not minted there. -/
def sentTo (hole token : String) (log : TxLog) : Int :=
  match log.transfer with
  | none => 0
  | some (src, dst) =>
      if sameAddr dst hole ∧ sameAddr log.address token ∧ ¬ sameAddr src ZERO then
        log.amount.toOption.getD 0
      else 0

/-- The same over all the transaction's logs. -/
def totalSent (req : DeliveryRequest) (result : List CallOut) (hole token : String) : Int :=
  (((callAt result (txIndex req)).logs.getD []).map (sentTo hole token)).sum

/-- The largest `max` for a token and an address, or nothing. -/
def allowance (req : DeliveryRequest) (hole token : String) : Int :=
  ((req.allowLeaks.filter fun a => sameAddr a.dst hole && sameAddr a.asset token).map
    (·.max)).foldl max 0

/-- Nothing is lost beyond what is allowed: tokens at the black holes other than the
zero address, whose transfers are burns, ether at all of them, and what the contracts
that must not retain still hold. -/
structure LeaksBounded (req : DeliveryRequest) (result : List CallOut) : Prop where
  tokens : ∀ hole ∈ BLACKHOLES, ¬ sameAddr hole ZERO → ∀ token,
    totalSent req result hole token ≤ allowance req hole token
  ether : ∀ words, readings req result = .ok words →
    ∀ hole ∈ BLACKHOLES, delta words (trackKey hole "eth") ≤ 0
  kept : ∀ words, readings req result = .ok words →
    ∀ r ∈ req.mustNotRetain, delta words (trackKey r.holder r.asset) ≤ 0

/-- An allowance bounds the transfers it is used for taken together. -/
def AllowancesHold (req : DeliveryRequest) (result : List CallOut) : Prop :=
  ∀ a ∈ req.allowLeaks, BLACKHOLES.any (sameAddr · a.dst) → ¬ sameAddr a.dst ZERO →
    totalSent req result a.dst a.asset ≤ allowance req a.dst a.asset

theorem sameAddr_iff {a b : String} : sameAddr a b = true ↔ a.toLower = b.toLower := by
  simp [sameAddr]

/-- Totals and allowances do not depend on the spelling. -/
theorem totalSent_congr {hole hole' token token' : String} (hh : sameAddr hole hole')
    (ht : sameAddr token token') (req : DeliveryRequest) (result : List CallOut) :
    totalSent req result hole token = totalSent req result hole' token' := by
  have hsent : sentTo hole token = sentTo hole' token' := by
    funext log
    unfold sentTo sameAddr
    rw [sameAddr_iff.mp hh, sameAddr_iff.mp ht]
  rw [totalSent, totalSent, hsent]

theorem allowance_congr {hole hole' token token' : String} (hh : sameAddr hole hole')
    (ht : sameAddr token token') (req : DeliveryRequest) :
    allowance req hole token = allowance req hole' token' := by
  simp only [allowance, sameAddr, sameAddr_iff.mp hh, sameAddr_iff.mp ht]

theorem le_foldl_max (xs : List Int) : ∀ start : Int, start ≤ xs.foldl max start := by
  induction xs with
  | nil => exact fun start => le_refl start
  | cons x xs ih => exact fun start => (le_max_left start x).trans (ih (max start x))

theorem allowance_nonneg (req : DeliveryRequest) (hole token : String) :
    0 ≤ allowance req hole token := le_foldl_max _ 0

/-- There are no leaks when every round of the loop lets its log through. -/
theorem tokenLeaks_eq_nil {req : DeliveryRequest} {logs : List TxLog} :
    tokenLeaks req logs = .ok [] ↔ ∀ log ∈ logs, leakOf req log = .ok none := by
  induction logs with
  | nil =>
      constructor
      · intro _ log hmem
        cases hmem
      · intro _
        rfl
  | cons first logs ih =>
      rw [tokenLeaks]
      cases hleak : leakOf req first with
      | error e =>
          constructor
          · intro h
            cases h
          · intro h
            cases hleak.symm.trans (h first List.mem_cons_self)
      | ok leak =>
          constructor
          · intro h
            cases hrest : tokenLeaks req logs with
            | error e =>
                rw [hrest] at h
                cases h
            | ok rest =>
                rw [hrest] at h
                obtain ⟨hnone, rfl⟩ := List.append_eq_nil_iff.mp (Except.ok.inj h)
                intro log hmem
                rcases List.mem_cons.mp hmem with rfl | hmem
                · cases leak with
                  | none => exact hleak
                  | some l => cases hnone
                · exact ih.mp hrest log hmem
          · intro h
            cases hleak.symm.trans (h first List.mem_cons_self)
            rw [ih.mpr fun log hmem => h log (List.mem_cons_of_mem _ hmem)]
            rfl

/-- A log that is let through, of a token with no allowance for a black hole, sends
none of it there. -/
theorem sentTo_eq_zero {req : DeliveryRequest} {hole token : String} {log : TxLog}
    (hhole : hole ∈ BLACKHOLES) (hzero : ¬ sameAddr hole ZERO)
    (hnone : ∀ a ∈ req.allowLeaks, sameAddr a.dst hole → ¬ sameAddr a.asset token)
    (h : leakOf req log = .ok none) : sentTo hole token log = 0 := by
  unfold sentTo
  split
  · rfl
  next src dst htransfer =>
  split
  next hsent =>
      obtain ⟨hdst, htoken, hsrc⟩ := hsent
      simp only [leakOf, htransfer] at h
      have hburn : ¬ sameAddr dst ZERO = true := by
        rw [sameAddr_iff] at hdst hzero ⊢
        rwa [hdst]
      have hany : BLACKHOLES.any (sameAddr · dst) = true :=
        List.any_eq_true.mpr ⟨hole, hhole, by rw [sameAddr_iff] at hdst ⊢; exact hdst.symm⟩
      rw [if_neg hburn, if_neg (not_not_intro hany), if_neg hsrc] at h
      cases hamount : log.amount with
      | error e =>
          rw [hamount] at h
          cases h
      | ok amount =>
          rw [hamount] at h
          simp only [bind, Except.bind, pure, Except.pure] at h
          split at h
          next hz => simp [Except.toOption, hz]
          next =>
            split at h
            next hallows =>
                obtain ⟨a, ha, hmatch⟩ := List.any_eq_true.mp hallows
                simp only [Bool.and_eq_true, sameAddr_iff, decide_eq_true_eq] at hmatch
                rw [sameAddr_iff] at hdst htoken
                exact absurd (sameAddr_iff.mpr (hmatch.1.2.trans htoken))
                  (hnone a ha (sameAddr_iff.mpr (hmatch.1.1.trans hdst)))
            next => cases h
  next => rfl

/-- A transfer within an allowance is let through, whatever others there are. -/
theorem leakOf_allowed {req : DeliveryRequest} {log : TxLog} {src dst : String} {amount : Int}
    (htransfer : log.transfer = some (src, dst)) (hamount : log.amount = .ok amount)
    (hallows : allows req.allowLeaks dst log.address amount = true) :
    leakOf req log = .ok none := by
  simp only [leakOf, htransfer, hamount, hallows, bind, Except.bind, pure, Except.pure]
  split
  · rfl
  · split
    · rfl
    · split
      · rfl
      · split <;> rfl

theorem Accepts.leaksBounded {req : DeliveryRequest} {result : List CallOut}
    {words : List Reading} (h : Accepts req result words)
    (hallow : AllowancesHold req result) : LeaksBounded req result where
  tokens := by
    intro hole hhole hzero token
    by_cases hnamed : ∃ a ∈ req.allowLeaks, sameAddr a.dst hole ∧ sameAddr a.asset token
    · obtain ⟨a, ha, hdst, hasset⟩ := hnamed
      have hlow := sameAddr_iff.mp hdst
      have hany : BLACKHOLES.any (sameAddr · a.dst) = true :=
        List.any_eq_true.mpr ⟨hole, hhole, sameAddr_iff.mpr hlow.symm⟩
      have hburn : ¬ sameAddr a.dst ZERO = true := by
        rw [sameAddr_iff] at hzero ⊢
        rwa [hlow]
      have hle := hallow a ha hany hburn
      rwa [totalSent_congr hdst hasset, allowance_congr hdst hasset] at hle
    · have hnone : ∀ a ∈ req.allowLeaks, sameAddr a.dst hole → ¬ sameAddr a.asset token :=
        fun a ha hdst hasset => hnamed ⟨a, ha, hdst, hasset⟩
      have hsum : totalSent req result hole token = 0 := by
        apply List.sum_eq_zero
        intro x hx
        obtain ⟨log, hlog, rfl⟩ := List.mem_map.mp hx
        exact sentTo_eq_zero hhole hzero hnone (tokenLeaks_eq_nil.mp h.tokens log hlog)
      rw [hsum]
      exact allowance_nonneg req hole token
  ether := by
    intro ws hws hole hhole
    cases hws.symm.trans h.reads
    exact h.holes hole hhole
  kept := by
    intro ws hws r hr
    cases hws.symm.trans h.reads
    exact h.kept r hr

section Sample

def DEAD : String := "0x000000000000000000000000000000000000dead"

/-- Six tokens sent to the dead address. -/
def lost : TxLog where
  address := "0x70ce"
  topics := some [TRANSFER_TOPIC,
    "0x00000000000000000000000000000000000000000000000000000000000a11ce",
    "0x000000000000000000000000000000000000000000000000000000000000dead"]
  data := some ("0x" ++ padStart (hexText 6))

/-- Up to ten tokens may be locked there. -/
def locking : DeliveryRequest :=
  { purchase with expect := [], allowLeaks := [⟨DEAD, "0x70ce", 10⟩] }

/-- The transaction sends six, twice. -/
def lossy (n i : Nat) : CallOut :=
  if i = n / 2 then { returned 0 with logs := some [lost, lost] } else returned 0

theorem sameAddr_self (a : String) : sameAddr a a = true := sameAddr_iff.mpr rfl

theorem dead_ne_zero : sameAddr DEAD ZERO = false := by
  simp [sameAddr, DEAD, ZERO, ← String.toList_inj, toLower_eq_map, String.toList_map]

theorem lost_transfer :
    lost.transfer = some ("0x00000000000000000000000000000000000a11ce", DEAD) := by
  have htopic : TRANSFER_TOPIC.toLower = TRANSFER_TOPIC := by
    simp [TRANSFER_TOPIC, ← String.toList_inj, toLower_eq_map, String.toList_map]
  simp [TxLog.transfer, lost, htopic, DEAD, List.rtake]

theorem lost_src : sameAddr "0x00000000000000000000000000000000000a11ce" ZERO = false := by
  simp [sameAddr, ZERO, ← String.toList_inj, toLower_eq_map, String.toList_map]

theorem lost_amount : lost.amount = .ok 6 := by
  simp only [TxLog.amount, lost, ← String.toList_inj, toList_word]
  decide +kernel

theorem dead_mem : DEAD ∈ BLACKHOLES := by simp [BLACKHOLES, DEAD]

theorem leakOf_lost : leakOf locking lost = .ok none := by
  have hallows : allows locking.allowLeaks DEAD "0x70ce" 6 = true := by
    simp [allows, locking, sameAddr_self]
  exact leakOf_allowed lost_transfer lost_amount hallows

end Sample

end Leaks

end Delivery

end Ordo
