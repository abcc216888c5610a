import Mathlib.Algebra.Order.Floor.Semiring
import Mathlib.Algebra.Ring.Parity
import Mathlib.Data.Int.ModEq
import Mathlib.Data.Nat.Bitwise
import Mathlib.Data.Nat.Factorization.Basic
import Mathlib.Tactic.IntervalCases
import Mathlib.Tactic.Linarith
import Mathlib.Tactic.Ring

/-!
# Multiply and divide in full precision

`mulDiv a b d` is the floor of `a * b / d` although the product may take two
words.  The product's high word comes from the product modulo the word size less
one; then the remainder is subtracted, powers of two are taken out of the divisor
and shifted in from above, and what is left of the divisor is inverted modulo the
word size by Newton's iteration.  `mulDiv_eq` says that this is the floor, and
that it reverts exactly when the floor does not fit.
-/

namespace Ordo.FullMath

/-- The number of words. -/
def wordSize : Nat := 2 ^ 256

/-- Subtraction of words, which wraps. -/
def subW (x y : Nat) : Nat := (x + wordSize - y) % wordSize

/-- The remainder of a product of two words; nothing is left modulo zero. -/
def mulmod (a b n : Nat) : Nat := if n = 0 then 0 else a * b % n

/-- The high word of a product. -/
def highWord (a b : Nat) : Nat :=
  let prod0 := a * b % wordSize
  let mm := mulmod a b (wordSize - 1)
  subW (subW mm prod0) (if mm < prod0 then 1 else 0)

/-- A Newton step: it doubles the bits in which `inv` inverts `d`. -/
def newton (d inv : Nat) : Nat := inv * subW 2 (d * inv % wordSize) % wordSize

/-- The inverse of an odd word, from a seed that is right in four bits. -/
def inverse (d : Nat) : Nat :=
  newton d (newton d (newton d (newton d (newton d (newton d ((3 * d % wordSize) ^^^ 2))))))

/-- The quotient of a product of two words that divides exactly after its
remainder is subtracted. -/
def longDivision (prod1 prod0 remainder denominator : Nat) : Nat :=
  let prod1 := subW prod1 (if prod0 < remainder then 1 else 0)
  let prod0 := subW prod0 remainder
  let twos := subW 0 denominator &&& denominator
  let denominator := denominator / twos
  let prod0 := prod0 / twos
  let twos := (subW 0 twos / twos + 1) % wordSize
  let prod0 := prod0 ||| (prod1 * twos % wordSize)
  prod0 * inverse denominator % wordSize

def mulDiv (a b denominator : Nat) : Option Nat :=
  let prod0 := a * b % wordSize
  let prod1 := highWord a b
  if ¬ prod1 < denominator then none
  else if prod1 = 0 then some (prod0 / denominator)
  else some (longDivision prod1 prod0 (mulmod a b denominator) denominator)

def mulDivRoundingUp (a b denominator : Nat) : Option Nat :=
  (mulDiv a b denominator).bind fun result =>
    if mulmod a b denominator ≠ 0 then
      if 0 < (result + 1) % wordSize then some (result + 1) else none
    else some result

/-- The ceiling of a quotient of words; a division by zero gives zero. -/
def divRoundingUp (x y : Nat) : Nat := (x / y + (if 0 < x % y then 1 else 0)) % wordSize

/-! ### The high word -/

theorem highWord_eq {a b : Nat} (ha : a < wordSize) (hb : b < wordSize) :
    highWord a b = a * b / wordSize := by
  have hsplit := Nat.div_add_mod (a * b) wordSize
  have hlow : a * b % wordSize < wordSize := Nat.mod_lt _ (by decide)
  have hprod : a * b ≤ (wordSize - 1) * (wordSize - 1) :=
    Nat.mul_le_mul (Nat.le_sub_one_of_lt ha) (Nat.le_sub_one_of_lt hb)
  have hhigh : a * b / wordSize < wordSize - 1 :=
    Nat.div_lt_of_lt_mul (hprod.trans_lt (by decide))
  have hmod : a * b % (wordSize - 1) =
      (a * b / wordSize + a * b % wordSize) % (wordSize - 1) := by
    have hsum : a * b = (wordSize - 1) * (a * b / wordSize) +
        (a * b / wordSize + a * b % wordSize) := by
      unfold wordSize at hsplit ⊢
      omega
    conv_lhs => rw [hsum]
    exact Nat.mul_add_mod _ _ _
  simp only [highWord, mulmod, if_neg (show wordSize - 1 ≠ 0 by decide), hmod]
  generalize a * b / wordSize = high at *
  generalize a * b % wordSize = low at *
  unfold subW wordSize at *
  split <;> omega

/-! ### The inverse -/

/-- The seed is right in four bits. -/
theorem seed_inverts {d : Nat} (hodd : d % 2 = 1) :
    (16 : Int) ∣ d * (((3 * d % wordSize) ^^^ 2 : Nat) : Int) - 1 := by
  have hseed : ((3 * d % wordSize) ^^^ 2) % 16 = (3 * (d % 16) % 16) ^^^ 2 := by
    have hxor : ((3 * d % wordSize) ^^^ 2) % 2 ^ 4 = (3 * d % wordSize % 2 ^ 4) ^^^ (2 % 2 ^ 4) :=
      Nat.xor_mod_two_pow
    have hmod : 3 * d % wordSize % 2 ^ 4 = 3 * (d % 16) % 16 := by
      rw [Nat.mod_mod_of_dvd _ (by decide), Nat.mul_mod]
      omega
    rw [hmod] at hxor
    exact hxor
  have hdigit : d % 16 < 16 := Nat.mod_lt _ (by decide)
  have hprod : d * ((3 * d % wordSize) ^^^ 2) % 16 = 1 := by
    rw [Nat.mul_mod, hseed]
    have hodd16 : d % 16 % 2 = 1 := by omega
    generalize d % 16 = r at *
    interval_cases r <;> omega
  refine Int.ModEq.dvd (Int.ModEq.symm ?_)
  have hcast := congrArg (Nat.cast : Nat → Int) hprod
  push_cast at hcast
  exact hcast

/-- Wrapping subtraction is subtraction up to words. -/
theorem subW_modEq {x y : Nat} (hy : y ≤ wordSize) :
    ((subW x y : Nat) : Int) ≡ x - y [ZMOD wordSize] := by
  have hwrap : (x : Int) + wordSize - y ≡ x - y [ZMOD wordSize] :=
    (Int.modEq_iff_dvd.mpr ⟨-1, by ring⟩)
  have hcast : ((x + wordSize - y : Nat) : Int) = x + wordSize - y := by omega
  rw [subW, Int.natCast_mod, hcast]
  exact (Int.mod_modEq _ _).trans hwrap

/-- A step doubles the bits: the error is squared. -/
theorem newton_inverts {d inv k : Nat} (hk : 2 * k ≤ 256)
    (h : (2 ^ k : Int) ∣ d * inv - 1) : (2 ^ (2 * k) : Int) ∣ d * newton d inv - 1 := by
  have hlow := Nat.mod_lt (d * inv) (show 0 < wordSize by decide)
  have hprod : ((d * inv % wordSize : Nat) : Int) ≡ d * inv [ZMOD wordSize] := by
    rw [Int.natCast_mod, Nat.cast_mul]
    exact Int.mod_modEq _ _
  have hfactor : ((subW 2 (d * inv % wordSize) : Nat) : Int) ≡ 2 - d * inv [ZMOD wordSize] :=
    (subW_modEq hlow.le).trans (Int.ModEq.rfl.sub hprod)
  have hnewton : ((newton d inv : Nat) : Int) ≡ inv * (2 - d * inv) [ZMOD wordSize] := by
    rw [newton, Int.natCast_mod, Nat.cast_mul]
    exact (Int.mod_modEq _ _).trans (hfactor.mul_left _)
  have hsquare : (d : Int) * newton d inv - 1 ≡ -(d * inv - 1) ^ 2 [ZMOD wordSize] := by
    have heq : -((d : Int) * inv - 1) ^ 2 = d * (inv * (2 - d * inv)) - 1 := by ring
    rw [heq]
    exact (hnewton.mul_left _).sub Int.ModEq.rfl
  have hword : (2 ^ (2 * k) : Int) ∣ wordSize := by
    refine ⟨2 ^ (256 - 2 * k), ?_⟩
    rw [← pow_add, show 2 * k + (256 - 2 * k) = 256 by omega]
    rfl
  have herror : (2 ^ (2 * k) : Int) ∣ -(d * inv - 1) ^ 2 := by
    rw [Nat.mul_comm 2 k, pow_mul]
    exact Int.dvd_neg.mpr (pow_dvd_pow_of_dvd h 2)
  have hmod : ((d : Int) * newton d inv - 1) % 2 ^ (2 * k) =
      -(d * inv - 1) ^ 2 % 2 ^ (2 * k) := hsquare.of_dvd hword
  exact Int.dvd_of_emod_eq_zero (hmod.trans (Int.emod_eq_zero_of_dvd herror))

/-- Six steps invert an odd word. -/
theorem inverse_inverts {d : Nat} (hodd : d % 2 = 1) :
    (wordSize : Int) ∣ d * inverse d - 1 := by
  have h4 := seed_inverts hodd
  have h8 := newton_inverts (k := 4) (by decide) h4
  have h16 := newton_inverts (k := 8) (by decide) h8
  have h32 := newton_inverts (k := 16) (by decide) h16
  have h64 := newton_inverts (k := 32) (by decide) h32
  have h128 := newton_inverts (k := 64) (by decide) h64
  exact newton_inverts (k := 128) (by decide) h128

/-! ### Powers of two -/

/-- A word and its negative have their lowest bit in common. -/
theorem lowest_bit {d k : Nat} (hodd : d % 2 = 1) (hk : k ≤ 256) (hlt : 2 ^ k * d < wordSize) :
    subW 0 (2 ^ k * d) &&& (2 ^ k * d) = 2 ^ k := by
  have hword : wordSize = 2 ^ k * 2 ^ (256 - k) := by
    rw [← pow_add, show k + (256 - k) = 256 by omega]
    rfl
  have hlt' : d < 2 ^ (256 - k) := by
    rw [hword] at hlt
    exact Nat.lt_of_mul_lt_mul_left hlt
  have hpos : 0 < 2 ^ k * d := Nat.mul_pos (Nat.two_pow_pos k) (by omega)
  have hneg : subW 0 (2 ^ k * d) = 2 ^ k * (2 ^ (256 - k) - d) := by
    rw [subW, Nat.zero_add, Nat.mod_eq_of_lt (Nat.sub_lt (by decide) hpos), Nat.mul_sub, ← hword]
  have hone : (2 ^ (256 - k) - d) &&& d = 1 := by
    obtain ⟨e, rfl⟩ : ∃ e, d = 2 * e + 1 := ⟨d / 2, by omega⟩
    refine Nat.eq_of_testBit_eq fun i => ?_
    rw [Nat.testBit_and, Nat.testBit_two_pow_sub_succ (by omega)]
    cases i with
    | zero =>
        have hbits : 0 < 256 - k := by
          by_contra hzero
          rw [Nat.eq_zero_of_not_pos hzero] at hlt'
          omega
        simp [hbits]
    | succ i =>
        simp [Nat.testBit_succ, Nat.mul_add_div]
  have hmul : ∀ x y, 2 ^ k * x &&& 2 ^ k * y = 2 ^ k * (x &&& y) := by
    intro x y
    have hshift := Nat.shiftLeft_and_distrib (i := k) (a := x) (b := y)
    simpa [Nat.shiftLeft_eq, Nat.mul_comm] using hshift.symm
  rw [hneg, hmul, hone, Nat.mul_one]

/-- What is left of a multiple of a power of two when its low word loses it and
the high word is shifted in. -/
theorem shifted_in {n k : Nat} (hk : k < 256) (hdvd : 2 ^ k ∣ n) :
    n % wordSize / 2 ^ k |||
        (n / wordSize * ((subW 0 (2 ^ k) / 2 ^ k + 1) % wordSize) % wordSize) =
      n / 2 ^ k % wordSize := by
  have hword : wordSize = 2 ^ k * 2 ^ (256 - k) := by
    rw [← pow_add, show k + (256 - k) = 256 by omega]
    rfl
  have hpow := Nat.two_pow_pos k
  have hrest := Nat.two_pow_pos (256 - k)
  -- the complement of the power is the other factor of the word size
  have hshift : subW 0 (2 ^ k) / 2 ^ k + 1 = 2 ^ (256 - k) := by
    have hlt : 2 ^ k < wordSize := Nat.pow_lt_pow_right (by decide) hk
    rw [subW, Nat.zero_add, Nat.mod_eq_of_lt (Nat.sub_lt (by decide) hpow), hword,
      ← Nat.mul_sub_one, Nat.mul_div_cancel_left _ hpow]
    omega
  obtain ⟨m, rfl⟩ := hdvd
  have hhigh : 2 ^ k * m / wordSize = m / 2 ^ (256 - k) := by
    rw [hword, Nat.mul_div_mul_left _ _ hpow]
  have hlow : 2 ^ k * m % wordSize / 2 ^ k = m % 2 ^ (256 - k) := by
    rw [hword, Nat.mul_mod_mul_left, Nat.mul_div_cancel_left _ hpow]
  have hupper : m / 2 ^ (256 - k) * (2 ^ (256 - k) % wordSize) % wordSize =
      2 ^ (256 - k) * (m / 2 ^ (256 - k) % 2 ^ k) := by
    rw [Nat.mul_mod_mod, Nat.mul_comm, hword, Nat.mul_comm (2 ^ k), Nat.mul_mod_mul_left]
  rw [hshift, hhigh, hlow, hupper, Nat.mul_div_cancel_left _ hpow, Nat.lor_comm,
    ← Nat.two_pow_add_eq_or_of_lt (Nat.mod_lt _ hrest)]
  -- both are the digits of `m` below the word size
  rw [hword, Nat.mul_comm (2 ^ k), Nat.mod_mul]
  omega

/-- The remainder is subtracted from both words. -/
theorem borrowed {n r : Nat} (hr : r < wordSize) (hle : r ≤ n) (hhigh : n / wordSize < wordSize) :
    subW (n / wordSize) (if n % wordSize < r then 1 else 0) = (n - r) / wordSize ∧
      subW (n % wordSize) r = (n - r) % wordSize := by
  unfold subW wordSize at *
  split <;> omega

/-- **Exact division**: with the remainder subtracted, what is left is the
divisor's odd part times the quotient, times a power of two. -/
theorem longDivision_eq {n denominator : Nat} (hlt : denominator < wordSize)
    (hpos : 0 < denominator) (hhigh : n / wordSize < wordSize)
    (hfits : n / denominator < wordSize) :
    longDivision (n / wordSize) (n % wordSize) (n % denominator) denominator =
      n / denominator := by
  obtain ⟨k, d, hodd, hdenominator⟩ := Nat.exists_eq_two_pow_mul_odd hpos.ne'
  have hodd : d % 2 = 1 := Nat.odd_iff.mp hodd
  have hpow := Nat.two_pow_pos k
  have hk : k < 256 := by
    have hle : 2 ^ k ≤ denominator := by
      rw [hdenominator]
      exact Nat.le_mul_of_pos_right _ (by omega)
    exact (Nat.pow_lt_pow_iff_right (by decide)).mp (hle.trans_lt hlt)
  have hr := Nat.mod_lt n hpos
  obtain ⟨hprod1, hprod0⟩ := borrowed (hr.trans hlt) (Nat.mod_le n denominator) hhigh
  have hexact : n - n % denominator = 2 ^ k * (d * (n / denominator)) := by
    have hdiv := Nat.div_add_mod n denominator
    rw [← Nat.mul_assoc, ← hdenominator]
    omega
  have htwos : subW 0 denominator &&& denominator = 2 ^ k := by
    rw [hdenominator] at hlt ⊢
    exact lowest_bit hodd hk.le hlt
  have hodd_part : denominator / 2 ^ k = d := by
    rw [hdenominator, Nat.mul_div_cancel_left _ hpow]
  have hword : (n - n % denominator) % wordSize / 2 ^ k |||
      ((n - n % denominator) / wordSize * ((subW 0 (2 ^ k) / 2 ^ k + 1) % wordSize) % wordSize) =
      d * (n / denominator) % wordSize := by
    rw [shifted_in hk ⟨_, hexact⟩, hexact, Nat.mul_div_cancel_left _ hpow]
  simp only [longDivision, hprod1, hprod0, htwos, hodd_part, hword]
  -- the inverse of the odd part takes it away
  have hinverse := inverse_inverts hodd
  have hmod : ((d * (n / denominator) % wordSize * inverse d : Nat) : Int) ≡
      (n / denominator : Nat) [ZMOD wordSize] := by
    rw [Nat.cast_mul, Int.natCast_mod, Nat.cast_mul]
    have hone : (d : Int) * inverse d ≡ 1 [ZMOD wordSize] := by
      exact (Int.modEq_iff_dvd.mpr hinverse).symm
    calc (d : Int) * (n / denominator : Nat) % wordSize * inverse d
        ≡ d * (n / denominator : Nat) * inverse d [ZMOD wordSize] :=
          (Int.mod_modEq _ _).mul_right _
      _ = (n / denominator : Nat) * (d * inverse d) := by ring
      _ ≡ (n / denominator : Nat) * 1 [ZMOD wordSize] := hone.mul_left _
      _ = (n / denominator : Nat) := mul_one _
  have hnat := (Int.natCast_modEq_iff.mp hmod)
  rw [Nat.ModEq, Nat.mod_eq_of_lt hfits] at hnat
  exact hnat

/-- **The floor of the quotient**, when it fits. -/
theorem mulDiv_eq {a b denominator : Nat} (ha : a < wordSize) (hb : b < wordSize)
    (hlt : denominator < wordSize) :
    mulDiv a b denominator =
      if denominator = 0 ∨ wordSize ≤ a * b / denominator then none
      else some (a * b / denominator) := by
  have hhigh := highWord_eq ha hb
  have hsmall : a * b / wordSize < wordSize := by
    refine Nat.div_lt_of_lt_mul ?_
    exact Nat.mul_lt_mul'' ha hb
  unfold mulDiv
  rw [hhigh]
  by_cases hzero : denominator = 0
  · simp [hzero]
  have hpos := Nat.pos_of_ne_zero hzero
  have hfits : a * b / wordSize < denominator ↔ a * b / denominator < wordSize := by
    rw [Nat.div_lt_iff_lt_mul (by decide), Nat.div_lt_iff_lt_mul hpos, Nat.mul_comm denominator]
  by_cases hover : wordSize ≤ a * b / denominator
  · have hnot : ¬ a * b / wordSize < denominator := fun h => by
      have hlt := hfits.mp h
      omega
    simp [hover, hnot]
  · have hlt' : a * b / denominator < wordSize := by omega
    have hthrough := hfits.mpr hlt'
    have hok : ¬ (denominator = 0 ∨ wordSize ≤ a * b / denominator) := by
      intro h
      rcases h with h | h
      · exact hzero h
      · exact hover h
    rw [if_neg (not_not.mpr hthrough), if_neg hok]
    by_cases hshort : a * b / wordSize = 0
    · have hprod : a * b % wordSize = a * b :=
        Nat.mod_eq_of_lt ((Nat.div_eq_zero_iff_lt (by decide)).mp hshort)
      rw [if_pos hshort, hprod]
    · rw [if_neg hshort, mulmod, if_neg hzero, longDivision_eq hlt hpos hsmall hlt']

theorem mulDiv_eq_some {a b denominator result : Nat} (ha : a < wordSize) (hb : b < wordSize)
    (hlt : denominator < wordSize) :
    mulDiv a b denominator = some result ↔
      denominator ≠ 0 ∧ a * b / denominator < wordSize ∧ result = a * b / denominator := by
  rw [mulDiv_eq ha hb hlt]
  split
  · rename_i h
    constructor
    · intro hnone
      cases hnone
    · intro ⟨hne, hfits, _⟩
      rcases h with h | h
      · exact (hne h).elim
      · exact (Nat.not_lt.mpr h hfits).elim
  · rename_i h
    have hparts := not_or.mp h
    rw [Option.some.injEq]
    constructor
    · intro hresult
      exact ⟨hparts.1, Nat.not_le.mp hparts.2, hresult.symm⟩
    · intro ⟨_, _, hresult⟩
      exact hresult.symm

/-- A quotient rounded up is the floor, and one if something is left. -/
theorem ceil_eq (n : Nat) {d : Nat} (hd : 0 < d) :
    (n + d - 1) / d = n / d + (if 0 < n % d then 1 else 0) := by
  have hdiv := Nat.div_add_mod n d
  have hmod := Nat.mod_lt n hd
  split
  · rename_i hrest
    have hsum : n + d - 1 = d * (n / d + 1) + (n % d - 1) := by
      rw [Nat.mul_add]
      omega
    have hless : n % d - 1 < d := by omega
    rw [hsum, Nat.mul_add_div hd, Nat.div_eq_of_lt hless, Nat.add_zero]
  · rename_i hnone
    have hsum : n + d - 1 = d * (n / d) + (d - 1) := by omega
    have hless : d - 1 < d := by omega
    rw [hsum, Nat.mul_add_div hd, Nat.div_eq_of_lt hless]

/-- Rounding up lands at most where any bound of the exact quotient does. -/
theorem ceil_le {n d m : Nat} (hd : 0 < d) : (n + d - 1) / d ≤ m ↔ n ≤ m * d := by
  rw [Nat.div_le_iff_le_mul_add_pred hd, Nat.mul_comm m]
  omega

/-- **Rounding up twice is rounding up once.** -/
theorem ceil_ceil {n d e : Nat} (hd : 0 < d) (he : 0 < e) :
    ((n + d - 1) / d + e - 1) / e = (n + d * e - 1) / (d * e) := by
  have hde := Nat.mul_pos hd he
  refine le_antisymm ((ceil_le he).mpr ((ceil_le hd).mpr ?_)) ((ceil_le hde).mpr ?_)
  · have hbound := (ceil_le hde).mp (le_refl ((n + d * e - 1) / (d * e)))
    rwa [Nat.mul_assoc, Nat.mul_comm e]
  · have hbound := (ceil_le hd).mp (le_refl ((n + d - 1) / d))
    have houter := (ceil_le he).mp (le_refl (((n + d - 1) / d + e - 1) / e))
    calc n ≤ (n + d - 1) / d * d := hbound
      _ ≤ ((n + d - 1) / d + e - 1) / e * e * d := Nat.mul_le_mul_right d houter
      _ = ((n + d - 1) / d + e - 1) / e * (d * e) := by ring

theorem divRoundingUp_eq {x y : Nat} (hx : x < wordSize) (hy : 0 < y) :
    divRoundingUp x y = (x + y - 1) / y := by
  rw [divRoundingUp, ceil_eq x hy]
  refine Nat.mod_eq_of_lt ?_
  have hdiv := Nat.div_le_self x y
  have hsplit := Nat.div_add_mod x y
  split
  · -- something is left, so the quotient is less than the number
    have hle : x / y ≤ y * (x / y) := Nat.le_mul_of_pos_left _ hy
    omega
  · omega

theorem mulDivRoundingUp_eq_some {a b denominator result : Nat} (ha : a < wordSize)
    (hb : b < wordSize) (hlt : denominator < wordSize)
    (h : mulDivRoundingUp a b denominator = some result) :
    0 < denominator ∧ result < wordSize ∧
      result = (a * b + denominator - 1) / denominator := by
  obtain ⟨floor, hfloor, h⟩ := Option.bind_eq_some_iff.mp h
  obtain ⟨hne, hfits, hvalue⟩ := (mulDiv_eq_some ha hb hlt).mp hfloor
  have hpos := Nat.pos_of_ne_zero hne
  have hmulmod : mulmod a b denominator = a * b % denominator := if_neg hne
  rw [hmulmod] at h
  rw [ceil_eq _ hpos, ← hvalue]
  rw [← hvalue] at hfits
  by_cases hrest : a * b % denominator = 0
  · rw [if_neg (not_not.mpr hrest)] at h
    have hexact : ¬ 0 < a * b % denominator := fun hmore => hmore.ne' hrest
    rw [if_neg hexact]
    cases h
    exact ⟨hpos, hfits, rfl⟩
  · rw [if_pos hrest] at h
    obtain ⟨hroom, hresult⟩ := Option.ite_none_right_eq_some.mp h
    cases hresult
    have hless : floor + 1 ≠ wordSize := by
      intro hfull
      rw [hfull, Nat.mod_self] at hroom
      exact Nat.lt_irrefl 0 hroom
    rw [if_pos (Nat.pos_of_ne_zero hrest)]
    exact ⟨hpos, Nat.lt_of_le_of_ne hfits hless, rfl⟩

end Ordo.FullMath
