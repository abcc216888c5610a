import Mathlib.Algebra.Order.BigOperators.Group.List
import Ordo.Framing
import Ordo.Hex

/-!
# What the sequencer's feed carries

A message of the feed starts with its kind: four is one signed transaction, three a batch
of sub-messages, each behind its length in eight bytes.  `decodeL2Msg` splits it into raw
transactions with a loop over offsets into the message, which anybody may have written.

* `decodeL2Msg_batch` — the loop reads the frames of the batch, and no read is out of range;
* `decodeL2Msg_encode` — of a batch that is written so it returns the transactions, and of
  the front of it, cut off anywhere, the first of them.
-/

namespace Ordo

namespace FeedRelay

open Framing (frames Full)
open Hex (word_cons)

def L2_KIND_BATCH : UInt8 := 3

def L2_KIND_SIGNED_TX : UInt8 := 4

/-- The bytes from one offset to another, as far as there are any. -/
def subarray (bytes : Bytes) (start stop : Nat) : Bytes := (bytes.drop start).take (stop - start)

/-- Eight bytes at an offset; out of range the read throws. -/
def getBigUint64 (bytes : Bytes) (off : Nat) : Option Nat :=
  if off + 8 ≤ bytes.length then some (word (subarray bytes off (off + 8))) else none

/-- The double nearest to a whole number, of two the even one. -/
def number (n : Nat) : Nat :=
  if n < 2 ^ 53 then n
  else
    let unit := 2 ^ (Nat.log2 n - 52)
    if unit < 2 * (n % unit) ∨ unit = 2 * (n % unit) ∧ n / unit % 2 = 1 then
      (n / unit + 1) * unit
    else n / unit * unit

/-- The transaction of a sub-message that has one. -/
def signedTx (sub : Bytes) : List Bytes :=
  if 1 < sub.length ∧ sub.head? = some L2_KIND_SIGNED_TX then [sub.drop 1] else []

/-- The loop over the body of a batch from an offset on. -/
def batchFrom (body : Bytes) (off : Nat) : Option (List Bytes) :=
  if _hroom : off + 8 ≤ body.length then
    match getBigUint64 body off with
    | none => none
    | some n =>
        if number n = 0 ∨ body.length < off + 8 + number n then some []
        else
          (batchFrom body (off + 8 + number n)).map
            (signedTx (subarray body (off + 8) (off + 8 + number n)) ++ ·)
  else some []
termination_by body.length - off

/-- Splits a message into raw signed transactions; unknown kinds are skipped. -/
def decodeL2Msg (l2Msg : Bytes) : Option (List Bytes) :=
  match l2Msg with
  | [] => some []
  | [_] => some []
  | kind :: body =>
      if kind = L2_KIND_SIGNED_TX then some [body]
      else if kind = L2_KIND_BATCH then batchFrom body 0
      else some []

/-! ### How a batch is written -/

/-- A length in eight bytes, the highest one first. -/
def lengthBytes (n : Nat) : Bytes := (List.range 8).map fun i => UInt8.ofNat (n / 256 ^ (7 - i))

def encodeBatch (subs : List Bytes) : Bytes :=
  L2_KIND_BATCH :: subs.flatMap fun sub => lengthBytes sub.length ++ sub

/-- What a sub-message of the kind of a signed transaction has after its kind. -/
def bodyOf : Bytes → Option Bytes
  | [] => none
  | kind :: body => if kind = L2_KIND_SIGNED_TX then some body else none

/-! ### The loop reads the frames -/

/-- How long the next sub-message is. -/
def size (header : Bytes) : Nat := number (word header)

/-- The transactions of a batch. -/
def batch (body : Bytes) : List Bytes := (frames 8 size body).flatMap signedTx

theorem batchFrom_eq (body : Bytes) (off : Nat) :
    batchFrom body off = some (batch (body.drop off)) := by
  fun_induction batchFrom body off with
  | case1 off hroom hread =>
      rw [getBigUint64, if_pos hroom] at hread
      cases hread
  | case2 off hroom n hread hstop =>
      rw [getBigUint64, if_pos hroom] at hread
      cases hread
      have hnot : ¬ Full 8 size (body.drop off) := by
        rintro ⟨-, hsome, hfits⟩
        simp only [size, subarray, List.length_drop, Nat.add_sub_cancel_left] at hsome hfits hstop
        omega
      rw [batch, Framing.frames_of_not_full hnot]
      rfl
  | case3 off hroom n hread hgo ih =>
      rw [getBigUint64, if_pos hroom] at hread
      cases hread
      rw [not_or] at hgo
      have hheader : (body.drop off).take 8 = subarray body off (off + 8) := by
        rw [subarray, Nat.add_sub_cancel_left]
      have hfull : Full 8 size (body.drop off) := by
        rw [Full, size, hheader, List.length_drop, List.length_drop, List.length_drop]
        omega
      rw [ih, batch, batch, Framing.frames_of_full hfull, size, hheader, List.drop_drop,
        List.drop_drop, List.flatMap_cons, Option.map_some, subarray, Nat.add_sub_cancel_left]
  | case4 off hshort =>
      have hnot : ¬ Full 8 size (body.drop off) := by
        apply Framing.not_full_of_short
        rw [List.length_drop]
        omega
      rw [batch, Framing.frames_of_not_full hnot]
      rfl

theorem batch_prefix {body body' : Bytes} (h : body <+: body') : batch body <+: batch body' := by
  have hframes : frames 8 size body <+: frames 8 size body' := Framing.frames_prefix h
  obtain ⟨more, hmore⟩ := hframes
  rw [batch, batch, ← hmore, List.flatMap_append]
  exact List.prefix_append _ _

/-- **A batch, whatever its bytes are.** -/
theorem decodeL2Msg_batch (body : Bytes) :
    decodeL2Msg (L2_KIND_BATCH :: body) = some (batch body) := by
  match body with
  | [] =>
      rw [batch, Framing.frames_of_not_full (Framing.not_full_of_short (by decide))]
      rfl
  | b :: body =>
      rw [decodeL2Msg]
      · rw [if_neg (by decide), if_pos rfl, batchFrom_eq, List.drop_zero]
      · exact List.cons_ne_nil b body

/-- No message makes the decoder throw. -/
theorem decodeL2Msg_isSome (l2Msg : Bytes) : ∃ txs, decodeL2Msg l2Msg = some txs := by
  unfold decodeL2Msg
  split
  next => exact ⟨_, rfl⟩
  next => exact ⟨_, rfl⟩
  next kind body _ =>
    split
    · exact ⟨_, rfl⟩
    split
    · exact ⟨_, batchFrom_eq body 0⟩
    · exact ⟨_, rfl⟩

/-- **A batch that is cut off.** -/
theorem decodeL2Msg_take (body : Bytes) (n : Nat) :
    ∃ txs, decodeL2Msg ((L2_KIND_BATCH :: body).take n) = some txs ∧ txs <+: batch body := by
  cases n with
  | zero => exact ⟨[], rfl, List.nil_prefix⟩
  | succ n =>
      rw [List.take_succ_cons, decodeL2Msg_batch]
      exact ⟨_, rfl, batch_prefix (List.take_prefix n body)⟩

/-! ### What is written is read -/

theorem word_digits (k n : Nat) :
    word ((List.range k).map fun i => UInt8.ofNat (n / 256 ^ (k - 1 - i))) = n % 256 ^ k := by
  induction k with
  | zero => rw [pow_zero, Nat.mod_one]; rfl
  | succ k ih =>
      have hrest : (List.range k).map ((fun i => UInt8.ofNat (n / 256 ^ (k + 1 - 1 - i))) ∘
          Nat.succ) = (List.range k).map fun i => UInt8.ofNat (n / 256 ^ (k - 1 - i)) := by
        refine List.map_congr_left fun i _ => ?_
        rw [Function.comp_apply, Nat.add_sub_cancel, Nat.sub_sub, Nat.add_comm 1 i]
      have hfirst : (UInt8.ofNat (n / 256 ^ (k + 1 - 1 - 0))).toNat = n / 256 ^ k % 256 :=
        UInt8.toNat_ofNat'
      rw [List.range_succ_eq_map, List.map_cons, List.map_map, hrest, word_cons, List.length_map,
        List.length_range, hfirst, ih, pow_succ, Nat.mod_mul, Nat.add_comm]

theorem size_lengthBytes {n : Nat} (h : n < 2 ^ 53) : size (lengthBytes n) = n := by
  have hword : word (lengthBytes n) = n % 256 ^ 8 := word_digits 8 n
  have hmod : n % 256 ^ 8 = n := Nat.mod_eq_of_lt (by omega)
  rw [size, hword, hmod, number, if_pos h]

theorem length_lengthBytes (n : Nat) : (lengthBytes n).length = 8 := by
  rw [lengthBytes, List.length_map, List.length_range]

/-- The transactions are the bodies that are not empty. -/
theorem flatMap_signedTx (subs : List Bytes) :
    subs.flatMap signedTx = (subs.filterMap bodyOf).filter (· ≠ []) := by
  induction subs with
  | nil => rfl
  | cons sub subs ih =>
      rw [List.flatMap_cons, ih]
      match sub with
      | [] => rfl
      | [kind] => by_cases hkind : kind = L2_KIND_SIGNED_TX <;> simp [signedTx, bodyOf, hkind]
      | kind :: b :: body =>
          by_cases hkind : kind = L2_KIND_SIGNED_TX <;> simp [signedTx, bodyOf, hkind]

section Encode

variable {subs : List Bytes}

theorem length_le_encodeBatch {sub : Bytes} (h : sub ∈ subs) :
    sub.length ≤ (encodeBatch subs).length := by
  have hwhole : (lengthBytes sub.length ++ sub).length ≤
      (subs.flatMap fun sub => lengthBytes sub.length ++ sub).length := by
    rw [List.length_flatMap]
    exact List.single_le_sum (fun _ _ => Nat.zero_le _) _
      (List.mem_map_of_mem (f := fun sub : Bytes => (lengthBytes sub.length ++ sub).length) h)
  rw [List.length_append] at hwhole
  rw [encodeBatch, List.length_cons]
  exact (Nat.le_add_left _ _).trans (hwhole.trans (Nat.le_succ _))

theorem batch_encode (hsubs : ∀ sub ∈ subs, sub ≠ []) (hfits : (encodeBatch subs).length < 2 ^ 53) :
    batch (subs.flatMap fun sub => lengthBytes sub.length ++ sub) =
      (subs.filterMap bodyOf).filter (· ≠ []) := by
  have hframes : frames 8 size (subs.flatMap fun sub => lengthBytes sub.length ++ sub) = subs :=
    Framing.frames_flatMap
      (fun sub hsub => ⟨length_lengthBytes _,
        size_lengthBytes ((length_le_encodeBatch hsub).trans_lt hfits)⟩)
      hsubs (by decide)
  rw [batch, hframes, flatMap_signedTx]

end Encode

/-- **What is written is read.**  Of a batch that fits an array the decoder returns the
bodies of its signed transactions that are not empty, in order.  Of the front of it, cut off
anywhere, it returns the first of them; it does so of any batch, whatever its lengths say,
and no message makes it throw. -/
theorem decodeL2Msg_encode {subs : List Bytes} (hsubs : ∀ sub ∈ subs, sub ≠ [])
    (hfits : (encodeBatch subs).length < 2 ^ 53) :
    decodeL2Msg (encodeBatch subs) = some ((subs.filterMap bodyOf).filter (· ≠ [])) ∧
      (∀ n, ∃ txs, decodeL2Msg ((encodeBatch subs).take n) = some txs ∧
        txs <+: (subs.filterMap bodyOf).filter (· ≠ [])) ∧
      (∀ (body : Bytes) (n : Nat), ∃ txs all,
        decodeL2Msg ((L2_KIND_BATCH :: body).take n) = some txs ∧
        decodeL2Msg (L2_KIND_BATCH :: body) = some all ∧ txs <+: all) ∧
      ∀ l2Msg, ∃ txs, decodeL2Msg l2Msg = some txs := by
  have hbatch := batch_encode hsubs hfits
  refine ⟨?_, fun n => ?_, fun body n => ?_, decodeL2Msg_isSome⟩
  · rw [encodeBatch, decodeL2Msg_batch, hbatch]
  · rw [← hbatch]
    exact decodeL2Msg_take _ n
  · obtain ⟨txs, htxs, hprefix⟩ := decodeL2Msg_take body n
    exact ⟨txs, batch body, htxs, decodeL2Msg_batch body, hprefix⟩

/-- Two transactions around a heartbeat. -/
theorem decodeL2Msg_encode_sample :
    decodeL2Msg (encodeBatch [[4, 0xaa], [6], [4, 0x02, 0xf8]]) =
      some [[0xaa], [0x02, 0xf8]] :=
  (decodeL2Msg_encode (by decide) (by decide)).1

/-- A sub-message that is no more than the kind of a signed transaction is not returned. -/
theorem kind_alone_is_skipped :
    ¬ ∀ subs : List Bytes, (∀ sub ∈ subs, sub ≠ []) → (encodeBatch subs).length < 2 ^ 53 →
      decodeL2Msg (encodeBatch subs) = some (subs.filterMap bodyOf) := by
  intro hclaim
  have hsubs : ∀ sub ∈ [[L2_KIND_SIGNED_TX]], sub ≠ [] := by decide
  have hfits : (encodeBatch [[L2_KIND_SIGNED_TX]]).length < 2 ^ 53 := by decide
  have hreads := hclaim _ hsubs hfits
  rw [encodeBatch, decodeL2Msg_batch, batch_encode hsubs hfits] at hreads
  exact absurd hreads (by decide)

end FeedRelay

end Ordo
