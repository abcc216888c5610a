import Mathlib.Algebra.GroupWithZero.Nat
import Mathlib.Algebra.Ring.Int.Defs
import Mathlib.Data.Fintype.Basic
import Mathlib.Logic.Function.Basic
import Mathlib.Tactic.Common

/-!
# Machine words

Amounts are natural numbers; what makes them 256-bit words is that arithmetic
on them is checked, as Solidity's has been since 0.8: an operation whose result
does not fit has no value and the program around it reverts.  Casts are not
checked and truncate.  Addresses and hashes are the finite types they are, so
that totals over all of them make sense.
-/

namespace Ordo

/-- A 160-bit account address. -/
abbrev Address := Fin (2 ^ 160)

/-- A 256-bit word used as a name: a hash or an id. -/
abbrev Bytes32 := Fin (2 ^ 256)

instance neZero_addresses : NeZero (2 ^ 160 : Nat) := ⟨by decide⟩

instance neZero_hashes : NeZero (2 ^ 256 : Nat) := ⟨by decide⟩

instance lawfulBEq_address : LawfulBEq Address := inferInstance

instance lawfulBEq_row : LawfulBEq (Address × Nat) := inferInstance

/-- A `bytes` value. -/
abbrev Bytes := List UInt8

/-- Checked `uint256` addition. -/
def addU (a b : Nat) : Option Nat := if a + b < 2 ^ 256 then some (a + b) else none

/-- Checked `uint256` subtraction. -/
def subU (a b : Nat) : Option Nat := if b ≤ a then some (a - b) else none

/-- Checked `uint256` multiplication. -/
def mulU (a b : Nat) : Option Nat := if a * b < 2 ^ 256 then some (a * b) else none

/-- Division, which reverts on zero. -/
def divU (a b : Nat) : Option Nat := if b = 0 then none else some (a / b)

/-- Checked `uint64` addition. -/
def addU64 (a b : Nat) : Option Nat := if a + b < 2 ^ 64 then some (a + b) else none

/-- The unchecked cast `uint64(n)`. -/
def toU64 (n : Nat) : Nat := n % 2 ^ 64

/-- The unchecked cast `int256(n)` of a word. -/
def toI256 (n : Nat) : Int := if n < 2 ^ 255 then n else n - 2 ^ 256

/-- Checked `int256` subtraction. -/
def subI (a b : Int) : Option Int :=
  if -2 ^ 255 ≤ a - b ∧ a - b < 2 ^ 255 then some (a - b) else none

@[simp] theorem addU_eq_some {a b c : Nat} :
    addU a b = some c ↔ a + b < 2 ^ 256 ∧ c = a + b := by
  unfold addU
  split <;> grind

@[simp] theorem subU_eq_some {a b c : Nat} :
    subU a b = some c ↔ b ≤ a ∧ c = a - b := by
  unfold subU
  split <;> grind

@[simp] theorem mulU_eq_some {a b c : Nat} :
    mulU a b = some c ↔ a * b < 2 ^ 256 ∧ c = a * b := by
  unfold mulU
  split <;> grind

@[simp] theorem divU_eq_some {a b c : Nat} :
    divU a b = some c ↔ b ≠ 0 ∧ c = a / b := by
  unfold divU
  split <;> grind

@[simp] theorem addU64_eq_some {a b c : Nat} :
    addU64 a b = some c ↔ a + b < 2 ^ 64 ∧ c = a + b := by
  unfold addU64
  split <;> grind

/-- Small words keep their value as signed ones. -/
theorem toI256_of_lt {n : Nat} (h : n < 2 ^ 255) : toI256 n = n := if_pos h

/-- The difference of two small words fits. -/
theorem subI_toI256 {a b : Nat} (ha : a < 2 ^ 255) (hb : b < 2 ^ 255) :
    subI (toI256 a) (toI256 b) = some ((a : Int) - b) := by
  rw [toI256_of_lt ha, toI256_of_lt hb, subI, if_pos]
  omega

/-- Holdings after `v` moves from `src` to `dst`. -/
def moved (f : Address → Nat) (src dst : Address) (v : Nat) : Address → Nat :=
  let g := Function.update f src (f src - v)
  Function.update g dst (g dst + v)

/-- What a move does to every holder, itself paid included. -/
theorem moved_apply {f : Address → Nat} {src : Address} {v : Nat} (dst : Address)
    (hv : v ≤ f src) (a : Address) :
    (moved f src dst v a : Int) =
      f a - (if a = src then v else 0) + (if a = dst then v else 0) := by
  unfold moved
  by_cases hd : a = dst
  · subst hd
    by_cases hs : a = src
    · subst hs
      simp
      omega
    · simp [hs]
  · by_cases hs : a = src
    · subst hs
      simp [hd]
      omega
    · simp [hd, hs]

/-- Big-endian bytes as a number. -/
def word (bs : Bytes) : Nat := bs.foldl (fun n b => n * 256 + b.toNat) 0

/-- `address(bytes20(..))` of the bytes of an address. -/
def addressOf (bs : Bytes) : Address := Fin.ofNat _ (word bs)

/-- What does not revert has come to its end. -/
theorem bind_ok {ε α β : Type} {x : Except ε α} {f : α → Except ε β} {b : β} :
    (x >>= f) = .ok b ↔ ∃ a, x = .ok a ∧ f a = .ok b := by
  cases x with
  | ok a => simp [bind, Except.bind]
  | error e => simp [bind, Except.bind]

/-- A number as big-endian bytes. -/
def packed : Nat → Nat → Bytes
  | 0, _ => []
  | k + 1, n => packed k (n / 256) ++ [UInt8.ofNat n]

section Packed

variable {k n : Nat}

theorem length_packed : (packed k n).length = k := by
  induction k generalizing n with
  | zero => rfl
  | succ k ih =>
      unfold packed
      rw [List.length_append, ih]
      rfl

theorem word_packed : word (packed k n) = n % 256 ^ k := by
  induction k generalizing n with
  | zero => exact (Nat.mod_one n).symm
  | succ k ih =>
      have hlast : (UInt8.ofNat n).toNat = n % 256 := by
        rw [UInt8.toNat_ofNat']
      have hfront : word (packed k (n / 256)) = n / 256 % 256 ^ k := ih
      unfold packed word
      rw [List.foldl_append]
      change word (packed k (n / 256)) * 256 + (UInt8.ofNat n).toNat = _
      rw [hfront, hlast, Nat.pow_succ', Nat.mod_mul]
      omega

theorem addressOf_packed (a : Address) : addressOf (packed 20 a) = a := by
  have hlt : (a : Nat) < 256 ^ 20 := a.isLt
  unfold addressOf
  rw [word_packed, Nat.mod_eq_of_lt hlt]
  exact Fin.ofNat_val_eq_self a

end Packed

/-- A word as 32 big-endian bytes. -/
def wordBytes (n : Nat) : Bytes :=
  (List.range 32).map fun i => UInt8.ofNat (n / 256 ^ (31 - i))

/-- `abi.encode` of values that take a word each. -/
def abiEncode (words : List Nat) : Bytes := words.flatMap wordBytes

/-- The EIP-712 digest `keccak256(0x1901 ++ domain ++ structHash)`. -/
def typedDigest (keccak : Bytes → Bytes32) (domain structHash : Bytes32) : Bytes32 :=
  keccak ([0x19, 0x01] ++ wordBytes domain ++ wordBytes structHash)

/-- The largest `s` of an ECDSA signature that is not malleable (EIP-2). -/
def maxS : Nat := 0x7FFFFFFFFFFFFFFFFFFFFFFFFFFFFFFF5D576E7357A4501DDFE92F46681B20A0

/-- The account an ECDSA signature in `r ++ s ++ v` form belongs to, given what
the `ecrecover` precompile answers: none for a signature of another length, a
high `s`, another `v`, or one that recovers to the zero address. -/
def ecdsaSigner (ecrecover : Bytes32 → Nat → Nat → Nat → Address) (digest : Bytes32)
    (sig : Bytes) : Option Address :=
  let r := word (sig.take 32)
  let s := word ((sig.drop 32).take 32)
  let v := word ((sig.drop 64).take 1)
  if sig.length = 65 ∧ s ≤ maxS ∧ (v = 27 ∨ v = 28) then
    let signer := ecrecover digest v r s
    if signer = 0 then none else some signer
  else none

/-- Checks, one for each entry of a list, pass when each of them does. -/
theorem forM_eq_ok {α ε : Type*} {check : α → Except ε Unit} {xs : List α} :
    xs.forM check = .ok () ↔ ∀ x ∈ xs, check x = .ok () := by
  induction xs with
  | nil => simp [pure, Except.pure]
  | cons x xs ih =>
      cases h : check x with
      | error e => simp [h, bind, Except.bind]
      | ok u => simpa [h, bind, Except.bind] using ih

end Ordo
