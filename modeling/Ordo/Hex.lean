import Mathlib.Data.Nat.Digits.Defs
import Mathlib.Tactic.IntervalCases
import Mathlib.Tactic.Ring
import Ordo.BigIntText
import Ordo.Words

/-!
# Hexadecimal texts

A text of hexadecimal digits, in either case, stands for a number, and two by two
for the bytes of that number.  Three facts are proved:

* `value_numeral` — a number written out, with zeros in front or without, is read
  back as that number, and it fits the width it was bounded for;
* `word_bytesOf` — reading the bytes and then the number gives the number;
* `bytesOf_digitsOf` — bytes written two digits each are read back.
-/

namespace Ordo

/-- A text, by characters. -/
abbrev Text := List Char

instance lawfulBEq_text : LawfulBEq Text := inferInstance

namespace Hex

open BigIntText

/-- Every character is a digit. -/
def IsHex (t : Text) : Prop := ∀ c ∈ t, (hexDigit? c).isSome

instance (t : Text) : Decidable (IsHex t) := List.decidableBAll (fun c => (hexDigit? c).isSome) t

/-- The value of a digit. -/
def digit (c : Char) : Nat := (hexDigit? c).getD 0

/-- The number that digits stand for. -/
def value (t : Text) : Nat := t.foldl (fun n c => 16 * n + digit c) 0

/-- The bytes that digits stand for, two each. -/
def bytesOf : Text → Bytes
  | a :: b :: t => UInt8.ofNat (16 * digit a + digit b) :: bytesOf t
  | _ => []

/-- Zeros in front, up to a width. -/
def padStart (width : Nat) (t : Text) : Text := List.replicate (width - t.length) '0' ++ t

/-- A number in lower-case digits, the shortest. -/
def numeral (n : Nat) : Text := Nat.toDigits 16 n

/-- Bytes as two digits each. -/
def digitsOf (bs : Bytes) : Text := bs.flatMap fun b => padStart 2 (numeral b.toNat)

section Digits

theorem digit_lt (c : Char) : digit c < 16 := by
  unfold digit hexDigit?
  simp only [Bool.and_eq_true, decide_eq_true_eq]
  split
  · simp
    omega
  · split
    · simp
      omega
    · split
      · simp
        omega
      · simp

@[simp] theorem isHex_nil : IsHex [] := by simp [IsHex]

@[simp] theorem isHex_cons {c : Char} {t : Text} :
    IsHex (c :: t) ↔ (hexDigit? c).isSome ∧ IsHex t := by simp [IsHex]

@[simp] theorem isHex_append {a b : Text} : IsHex (a ++ b) ↔ IsHex a ∧ IsHex b := by
  simp only [IsHex, List.mem_append]
  constructor
  · intro h
    exact ⟨fun c hc => h c (Or.inl hc), fun c hc => h c (Or.inr hc)⟩
  · rintro ⟨ha, hb⟩ c (hc | hc)
    · exact ha c hc
    · exact hb c hc

theorem IsHex.take {t : Text} (h : IsHex t) (n : Nat) : IsHex (t.take n) :=
  fun c hc => h c (List.mem_of_mem_take hc)

theorem IsHex.drop {t : Text} (h : IsHex t) (n : Nat) : IsHex (t.drop n) :=
  fun c hc => h c (List.mem_of_mem_drop hc)

/-- A digit of a text, by its value. -/
theorem hexDigit_eq {c : Char} (h : (hexDigit? c).isSome) : hexDigit? c = some (digit c) := by
  obtain ⟨d, hd⟩ := Option.isSome_iff_exists.mp h
  simp [digit, hd]

@[simp] theorem value_nil : value [] = 0 := rfl

private theorem foldl_value (t : Text) (n : Nat) :
    t.foldl (fun n c => 16 * n + digit c) n = 16 ^ t.length * n + value t := by
  induction t generalizing n with
  | nil => simp
  | cons c t ih =>
      have hn := ih (16 * n + digit c)
      have h0 := ih (16 * 0 + digit c)
      simp only [value, List.foldl_cons, List.length_cons] at hn h0 ⊢
      rw [hn, h0, pow_succ]
      ring

theorem value_append (a b : Text) : value (a ++ b) = 16 ^ b.length * value a + value b := by
  rw [value, List.foldl_append, foldl_value]
  rfl

@[simp] theorem value_singleton (c : Char) : value [c] = digit c := by simp [value]

theorem value_cons (c : Char) (t : Text) :
    value (c :: t) = 16 ^ t.length * digit c + value t := by
  have h := value_append [c] t
  rwa [value_singleton] at h

theorem value_lt (t : Text) : value t < 16 ^ t.length := by
  induction t with
  | nil => simp
  | cons c t ih =>
      have hc := digit_lt c
      have hmul : 16 ^ t.length * digit c ≤ 16 ^ t.length * 15 :=
        Nat.mul_le_mul_left _ (by omega)
      rw [value_cons, List.length_cons, pow_succ]
      omega

/-- The strict reader agrees on texts of digits. -/
theorem digits_eq {t : Text} (h : IsHex t) (ht : t ≠ []) : digits 16 t = .ok (value t) :=
  digits_eq_foldl ht fun c hc => by simp [digit?, hexDigit_eq (h c hc), digit_lt c]

end Digits

section Numerals

theorem digit_digitChar {d : Nat} (h : d < 16) : digit d.digitChar = d := by
  interval_cases d <;> rfl

theorem hexDigit_digitChar {d : Nat} (h : d < 16) : (hexDigit? d.digitChar).isSome := by
  interval_cases d <;> rfl

theorem isHex_numeral (n : Nat) : IsHex (numeral n) := by
  induction n using Nat.strong_induction_on with
  | _ n ih =>
      rcases Nat.lt_or_ge n 16 with hn | hn
      · rw [numeral, Nat.toDigits_of_lt_base hn, isHex_cons]
        exact ⟨hexDigit_digitChar hn, isHex_nil⟩
      · rw [numeral, Nat.toDigits_of_base_le (by decide) hn, isHex_append, isHex_cons]
        exact ⟨ih _ (by omega), hexDigit_digitChar (Nat.mod_lt _ (by decide)), isHex_nil⟩

@[simp] theorem value_numeral (n : Nat) : value (numeral n) = n := by
  induction n using Nat.strong_induction_on with
  | _ n ih =>
      rcases Nat.lt_or_ge n 16 with hn | hn
      · rw [numeral, Nat.toDigits_of_lt_base hn, value_singleton, digit_digitChar hn]
      · have hsmall := ih (n / 16) (by omega)
        rw [numeral] at hsmall
        rw [numeral, Nat.toDigits_of_base_le (by decide) hn, value_append, hsmall, value_singleton,
          digit_digitChar (Nat.mod_lt _ (by decide)), List.length_singleton]
        omega

theorem length_numeral_le {n w : Nat} (hw : 0 < w) (h : n < 16 ^ w) : (numeral n).length ≤ w :=
  Nat.toDigits_length 16 n w hw h

theorem isHex_padStart {w : Nat} {t : Text} (h : IsHex t) : IsHex (padStart w t) := by
  rw [padStart, isHex_append]
  refine ⟨fun c hc => ?_, h⟩
  rw [List.eq_of_mem_replicate hc]
  rfl

@[simp] theorem value_padStart (w : Nat) (t : Text) : value (padStart w t) = value t := by
  have hzero : ∀ k, value (List.replicate k '0') = 0 := by
    intro k
    induction k with
    | zero => rfl
    | succ k ih =>
        rw [List.replicate_succ, value_cons, ih]
        simp [digit, hexDigit?]
  simp [padStart, value_append, hzero]

theorem length_padStart {w : Nat} {t : Text} (h : t.length ≤ w) : (padStart w t).length = w := by
  simp [padStart]
  omega

end Numerals

section Pairs

theorem length_bytesOf (t : Text) : (bytesOf t).length = t.length / 2 := by
  fun_induction bytesOf t with
  | case1 a b t ih =>
      simp only [List.length_cons, ih]
      omega
  | case2 t hshort =>
      match t with
      | [] => rfl
      | [_] => simp
      | a :: b :: t => exact (hshort a b t rfl).elim

/-- The number that bytes stand for, from the first byte down. -/
theorem word_cons (b : UInt8) (bs : Bytes) :
    word (b :: bs) = 256 ^ bs.length * b.toNat + word bs := by
  have hfold : ∀ (bs : Bytes) (n : Nat),
      bs.foldl (fun n b => n * 256 + b.toNat) n = 256 ^ bs.length * n + word bs := by
    intro bs
    induction bs with
    | nil => simp [word]
    | cons b bs ih =>
        intro n
        have hn := ih (n * 256 + b.toNat)
        have h0 := ih (0 * 256 + b.toNat)
        simp only [word, List.foldl_cons, List.length_cons] at hn h0 ⊢
        rw [hn, h0, pow_succ]
        ring
  rw [word, List.foldl_cons, hfold]
  simp

/-- Digits read as bytes are the number that they are. -/
theorem word_bytesOf {t : Text} (h : Even t.length) : word (bytesOf t) = value t := by
  fun_induction bytesOf t with
  | case1 a b t ih =>
      have ha := digit_lt a
      have hb := digit_lt b
      have ht : Even t.length := by
        simp only [List.length_cons] at h
        grind
      have hbyte : (UInt8.ofNat (16 * digit a + digit b)).toNat = 16 * digit a + digit b := by
        rw [UInt8.toNat_ofNat']
        omega
      have hpow : 256 ^ (t.length / 2) = 16 ^ t.length := by
        rw [show (256 : Nat) = 16 ^ 2 by rfl, ← pow_mul, Nat.two_mul_div_two_of_even ht]
      rw [word_cons, ih ht, hbyte, length_bytesOf, hpow, value_cons, value_cons, List.length_cons,
        pow_succ]
      ring
  | case2 t hshort =>
      match t with
      | [] => rfl
      | [_] => simp at h
      | a :: b :: t => exact (hshort a b t rfl).elim

private theorem padStart_byte (b : UInt8) : ∃ c d, padStart 2 (numeral b.toNat) = [c, d] ∧
    (hexDigit? c).isSome ∧ (hexDigit? d).isSome ∧ 16 * digit c + digit d = b.toNat := by
  have hb : b.toNat < 16 ^ 2 := b.toNat_lt
  have hlen := length_padStart (length_numeral_le (by decide) hb)
  have hhex := isHex_padStart (w := 2) (isHex_numeral b.toNat)
  have hval := value_padStart 2 (numeral b.toNat)
  obtain ⟨c, d, hcd⟩ := List.length_eq_two.mp hlen
  rw [hcd] at hhex hval
  rw [value_cons, value_singleton, value_numeral] at hval
  simp only [isHex_cons, isHex_nil, and_true] at hhex
  exact ⟨c, d, hcd, hhex.1, hhex.2, by simpa using hval⟩

theorem isHex_digitsOf (bs : Bytes) : IsHex (digitsOf bs) := by
  induction bs with
  | nil => simp [digitsOf]
  | cons b bs ih =>
      rw [digitsOf, List.flatMap_cons, isHex_append]
      exact ⟨isHex_padStart (isHex_numeral _), ih⟩

@[simp] theorem length_digitsOf (bs : Bytes) : (digitsOf bs).length = 2 * bs.length := by
  induction bs with
  | nil => rfl
  | cons b bs ih =>
      obtain ⟨c, d, hcd, -⟩ := padStart_byte b
      rw [digitsOf, List.flatMap_cons, hcd, List.length_append, ← digitsOf, ih]
      simp
      omega

/-- Bytes written out are read back. -/
@[simp] theorem bytesOf_digitsOf (bs : Bytes) : bytesOf (digitsOf bs) = bs := by
  induction bs with
  | nil => rfl
  | cons b bs ih =>
      obtain ⟨c, d, hcd, -, -, hval⟩ := padStart_byte b
      rw [digitsOf, List.flatMap_cons, hcd, ← digitsOf]
      simp only [List.cons_append, List.nil_append, bytesOf, hval, ih, UInt8.ofNat_toNat]

end Pairs

end Hex

end Ordo
