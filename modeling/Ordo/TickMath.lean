import Mathlib.Algebra.Order.Group.Int
import Mathlib.Tactic.Common
import Mathlib.Tactic.Linarith
import Ordo.FullMath

/-!
# Prices at ticks

A tick's square root price is `1.0001 ^ (tick / 2)`, computed from the bits of
the tick: each bit multiplies by a constant and drops 128 bits.  With so many
roundings it is not obvious that the result grows with the tick.  It does:
between two neighbouring ticks a run of low bits is exchanged for the next bit,
and each constant is at most what the constants below it leave together
(`Carries`), which is a comparison of twenty numbers.
-/

namespace Ordo.TickMath

def MIN_TICK : Int := -887272

def MAX_TICK : Int := 887272

/-- `1.0001 ^ (-2 ^ (i - 1))` for the bits after the first, in 128 fraction bits. -/
def ratios : List Nat :=
  [0xfff97272373d413259a46990580e213a, 0xfff2e50f5f656932ef12357cf3c7fdcc,
    0xffe5caca7e10e4e61c3624eaa0941cd0, 0xffcb9843d60f6159c9db58835c926644,
    0xff973b41fa98c081472e6896dfb254c0, 0xff2ea16466c96a3843ec78b326b52861,
    0xfe5dee046a99a2a811c461f1969c3053, 0xfcbe86c7900a88aedcffc83b479aa3a4,
    0xf987a7253ac413176f2b074cf7815e54, 0xf3392b0822b70005940c7a398e4b70f3,
    0xe7159475a2c29b7443b29c7fa6e889d9, 0xd097f3bdfd2022b8845ad8f792aa5825,
    0xa9f746462d870fdf8a65dc1f90e061e5, 0x70d869a156d2a1b890bb3df62baf32f7,
    0x31be135f97d08fd981231505542fcfa6, 0x9aa508b5b7a84e1c677de54f3e99bc9,
    0x5d6af8dedb81196699c329225ee604, 0x2216e584f5fa1ea926041bedfe98,
    0x48a170391f7dc42444e8fa2]

/-- Multiply by the constants of the bits that are set, lowest bit first. -/
def scale : List Nat → Nat → Nat → Nat
  | [], _, price => price
  | ratio :: rest, bits, price =>
      scale rest (bits / 2) (if bits % 2 = 1 then price * ratio / 2 ^ 128 else price)

/-- The price of a negative tick, in 128 fraction bits. -/
def priceBelow (absTick : Nat) : Nat :=
  scale ratios (absTick / 2)
    (if absTick % 2 = 1 then 0xfffcb933bd6fad37aa2d162d1a594001 else 2 ^ 128)

/-- The price of a tick, in 128 fraction bits. -/
def priceAt (tick : Int) : Nat :=
  if 0 < tick then (2 ^ 256 - 1) / priceBelow tick.natAbs else priceBelow tick.natAbs

/-- The square root price, in 96 fraction bits, rounded up. -/
def getSqrtPriceAtTick (tick : Int) : Option Nat :=
  if MAX_TICK < tick.natAbs then none
  else some ((priceAt tick + (2 ^ 32 - 1)) / 2 ^ 32)

/-! ### The price grows with the tick -/

theorem scale_mono {rest : List Nat} {bits p q : Nat} (h : p ≤ q) :
    scale rest bits p ≤ scale rest bits q := by
  induction rest generalizing bits p q with
  | nil => exact h
  | cons ratio rest ih =>
      refine ih ?_
      split
      · exact Nat.div_le_div_right (Nat.mul_le_mul_right ratio h)
      · exact h

/-- Each bit's constant takes away at least what all bits below it do: `low` is
what the bits below leave of `one`. -/
def Carries (one : Nat) : List Nat → Nat → Prop
  | [], _ => True
  | ratio :: rest, low =>
      one * ratio / 2 ^ 128 ≤ low ∧ Carries one rest (low * ratio / 2 ^ 128)

instance decidableCarries (one : Nat) :
    (rest : List Nat) → (low : Nat) → Decidable (Carries one rest low)
  | [], _ => .isTrue trivial
  | ratio :: rest, low =>
      @instDecidableAnd (one * ratio / 2 ^ 128 ≤ low) (Carries one rest (low * ratio / 2 ^ 128))
        _ (decidableCarries one rest (low * ratio / 2 ^ 128))

/-- Counting up by one, bits below being all set before and clear after. -/
theorem scale_succ {one : Nat} {rest : List Nat} {low bits : Nat} (h : Carries one rest low)
    (hbits : bits + 1 < 2 ^ rest.length) :
    scale rest (bits + 1) one ≤ scale rest bits low := by
  induction rest generalizing low bits with
  | nil => simp at hbits
  | cons ratio rest ih =>
      obtain ⟨hcarry, hrest⟩ := h
      rw [List.length_cons, pow_succ] at hbits
      rcases Nat.mod_two_eq_zero_or_one bits with heven | hodd
      · -- the bit is clear before and set after
        have hhalf : (bits + 1) / 2 = bits / 2 := by omega
        have hset : (bits + 1) % 2 = 1 := by omega
        rw [scale, scale, hhalf, if_pos hset, if_neg (by omega)]
        exact scale_mono hcarry
      · -- the bit is carried
        have hhalf : (bits + 1) / 2 = bits / 2 + 1 := by omega
        have hclear : ¬ (bits + 1) % 2 = 1 := by omega
        rw [scale, scale, hhalf, if_pos hodd, if_neg hclear]
        exact ih hrest (by omega)

theorem carries_ratios : Carries (2 ^ 128) ratios 0xfffcb933bd6fad37aa2d162d1a594001 := by
  decide +kernel

theorem priceBelow_succ {n : Nat} (hn : n + 1 < 2 ^ 20) :
    priceBelow (n + 1) ≤ priceBelow n := by
  rcases Nat.mod_two_eq_zero_or_one n with heven | hodd
  · have hhalf : (n + 1) / 2 = n / 2 := by omega
    have hset : (n + 1) % 2 = 1 := by omega
    rw [priceBelow, priceBelow, hhalf, if_pos hset, if_neg (by omega)]
    exact scale_mono (by decide)
  · have hhalf : (n + 1) / 2 = n / 2 + 1 := by omega
    have hclear : ¬ (n + 1) % 2 = 1 := by omega
    have hlength : ratios.length = 19 := rfl
    rw [priceBelow, priceBelow, hhalf, if_pos hodd, if_neg hclear]
    exact scale_succ carries_ratios (by rw [hlength]; omega)

theorem priceBelow_antitone {m n : Nat} (h : m ≤ n) (hn : n < 2 ^ 20) :
    priceBelow n ≤ priceBelow m := by
  induction n, h using Nat.le_induction with
  | base => exact le_refl _
  | succ n hmn ih => exact (priceBelow_succ hn).trans (ih (by omega))

theorem priceBelow_zero : priceBelow 0 = 2 ^ 128 := by decide +kernel

/-- The lowest price leaves room for all divisions by a price. -/
theorem priceBelow_pos {n : Nat} (h : n ≤ 887272) : 2 ^ 63 ≤ priceBelow n := by
  have hlast : 2 ^ 63 ≤ priceBelow 887272 := by decide +kernel
  exact hlast.trans (priceBelow_antitone h (by decide))

/-- **Prices grow with the tick.** -/
theorem priceAt_mono {t u : Int} (h : t ≤ u) (ht : t.natAbs ≤ 887272) (hu : u.natAbs ≤ 887272) :
    priceAt t ≤ priceAt u := by
  have htpos := priceBelow_pos ht
  have hupos := priceBelow_pos hu
  have hu0 : 0 < priceBelow u.natAbs := lt_of_lt_of_le (by decide) hupos
  unfold priceAt
  rcases lt_or_ge 0 t with hpos | hneg
  · rw [if_pos hpos, if_pos (hpos.trans_le h)]
    exact Nat.div_le_div_left (priceBelow_antitone (by omega) (by omega)) hu0
  · rw [if_neg (by omega)]
    rcases lt_or_ge 0 u with hpos' | hneg'
    · -- one is between the two
      rw [if_pos hpos']
      have hle : priceBelow t.natAbs ≤ 2 ^ 128 :=
        priceBelow_zero ▸ priceBelow_antitone (Nat.zero_le _) (by omega)
      have hone : priceBelow u.natAbs ≤ 2 ^ 128 - 1 := by
        have hfirst : priceBelow 1 ≤ 2 ^ 128 - 1 := by decide +kernel
        exact (priceBelow_antitone (by omega) (by omega)).trans hfirst
      refine hle.trans ((Nat.le_div_iff_mul_le hu0).mpr ?_)
      calc 2 ^ 128 * priceBelow u.natAbs ≤ 2 ^ 128 * (2 ^ 128 - 1) := Nat.mul_le_mul_left _ hone
        _ ≤ 2 ^ 256 - 1 := by decide
    · rw [if_neg (by omega)]
      exact priceBelow_antitone (by omega) (by omega)

theorem getSqrtPriceAtTick_eq_some {tick : Int} {price : Nat} :
    getSqrtPriceAtTick tick = some price ↔
      tick.natAbs ≤ 887272 ∧ price = (priceAt tick + (2 ^ 32 - 1)) / 2 ^ 32 := by
  unfold getSqrtPriceAtTick MAX_TICK
  split
  · rename_i hout
    constructor
    · intro hnone
      cases hnone
    · intro hin
      omega
  · rename_i hin
    rw [Option.some.injEq]
    constructor
    · intro heq
      exact ⟨by omega, heq.symm⟩
    · intro heq
      exact heq.2.symm

theorem sqrtPrice_mono {t u : Int} {p q : Nat} (h : t ≤ u)
    (hp : getSqrtPriceAtTick t = some p) (hq : getSqrtPriceAtTick u = some q) : p ≤ q := by
  obtain ⟨ht, rfl⟩ := getSqrtPriceAtTick_eq_some.mp hp
  obtain ⟨hu, rfl⟩ := getSqrtPriceAtTick_eq_some.mp hq
  exact Nat.div_le_div_right (Nat.add_le_add_right (priceAt_mono h ht hu) _)

/-- The range of square root prices fits in 160 bits, away from zero. -/
theorem sqrtPrice_bounds {tick : Int} {price : Nat}
    (h : getSqrtPriceAtTick tick = some price) : 4295128739 ≤ price ∧
      price ≤ 1461446703485210103287273052203988822378723970342 := by
  obtain ⟨htick, -⟩ := getSqrtPriceAtTick_eq_some.mp h
  have hmin : getSqrtPriceAtTick (-887272) = some 4295128739 := by decide +kernel
  have hmax : getSqrtPriceAtTick 887272 =
      some 1461446703485210103287273052203988822378723970342 := by decide +kernel
  exact ⟨sqrtPrice_mono (by omega) hmin h, sqrtPrice_mono (by omega) h hmax⟩

end Ordo.TickMath
