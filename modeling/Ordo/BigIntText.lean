import Mathlib.Algebra.GroupWithZero.Nat
import Mathlib.Algebra.Ring.Int.Defs
import Mathlib.Data.List.DropRight
import Mathlib.Tactic.Common

/-!
# Texts read as integers

What `BigInt` makes of a text: a decimal numeral with a sign, or one in base 16, 8
or 2 after its prefix, with white space around it.  Any other text throws; an empty
one is zero.
-/

namespace Ordo

/-- What a function that does not return stops with. -/
inductive Thrown where
  | syntaxError
  | rejected (message : String)
  deriving DecidableEq

namespace BigIntText

/-- White space and line ends, by code point. -/
def isSpace (c : Char) : Bool :=
  let n := c.toNat
  (9 ≤ n && n ≤ 13) || n == 0x20 || n == 0xa0 || n == 0x1680 || (0x2000 ≤ n && n ≤ 0x200a) ||
    n == 0x2028 || n == 0x2029 || n == 0x202f || n == 0x205f || n == 0x3000 || n == 0xfeff

def trim (text : List Char) : List Char := (text.dropWhile isSpace).rdropWhile isSpace

/-- The value of `0`–`9`, `a`–`f` and `A`–`F`, by code point. -/
def hexDigit? (c : Char) : Option Nat :=
  let n := c.toNat
  if 0x30 ≤ n && n ≤ 0x39 then some (n - 0x30)
  else if 0x61 ≤ n && n ≤ 0x66 then some (n - 0x57)
  else if 0x41 ≤ n && n ≤ 0x46 then some (n - 0x37)
  else none

/-- A digit of a base up to sixteen. -/
def digit? (base : Nat) (c : Char) : Option Nat := (hexDigit? c).filter (· < base)

def digits (base : Nat) (text : List Char) : Except Thrown Nat :=
  if text = [] then .error .syntaxError
  else
    text.foldlM
      (fun n c =>
        match digit? base c with
        | some d => .ok (base * n + d)
        | none => .error .syntaxError)
      0

/-- A text of digits only. -/
theorem digits_eq_foldl {base : Nat} {text : List Char} {value : Char → Nat} (hne : text ≠ [])
    (hdigit : ∀ c ∈ text, digit? base c = some (value c)) :
    digits base text = .ok (text.foldl (fun n c => base * n + value c) 0) := by
  rw [digits, if_neg hne]
  clear hne
  generalize 0 = n
  induction text generalizing n with
  | nil => rfl
  | cons c text ih =>
      rw [List.foldlM_cons, hdigit c List.mem_cons_self]
      exact ih (fun d hd => hdigit d (List.mem_cons_of_mem _ hd)) _

end BigIntText

open BigIntText in
/-- `BigInt(text)`. -/
def bigInt (text : List Char) : Except Thrown Int :=
  match trim text with
  | [] => .ok 0
  | '0' :: 'x' :: ds => (digits 16 ds).map Int.ofNat
  | '0' :: 'X' :: ds => (digits 16 ds).map Int.ofNat
  | '0' :: 'o' :: ds => (digits 8 ds).map Int.ofNat
  | '0' :: 'O' :: ds => (digits 8 ds).map Int.ofNat
  | '0' :: 'b' :: ds => (digits 2 ds).map Int.ofNat
  | '0' :: 'B' :: ds => (digits 2 ds).map Int.ofNat
  | '-' :: ds => (digits 10 ds).map fun n => -Int.ofNat n
  | '+' :: ds => (digits 10 ds).map Int.ofNat
  | ds => (digits 10 ds).map Int.ofNat

example : bigInt " -12\n".toList = .ok (-12) := by decide +kernel

example : bigInt "0x2G".toList = .error .syntaxError := by decide +kernel

section Letters

theorem char_toLower_toLower (c : Char) : c.toLower.toLower = c.toLower := by
  unfold Char.toLower
  split
  next h =>
    have hup := h.1
    refine dif_neg fun hupper => ?_
    have hle := hupper.2
    have hle' := h.2
    simp only [ge_iff_le, UInt32.le_iff_toNat_le, UInt32.toNat_add, UInt32.toNat_sub]
      at hup hle hle'
    have hA : 'A'.val.toNat = 65 := rfl
    have hZ : 'Z'.val.toNat = 90 := rfl
    have ha : 'a'.val.toNat = 97 := rfl
    omega
  next h => rfl

theorem toLower_eq_map (s : String) : s.toLower = s.map Char.toLower := rfl

/-- A text in small letters stays as it is. -/
theorem toLower_toLower (s : String) : s.toLower.toLower = s.toLower := by
  rw [toLower_eq_map, toLower_eq_map, String.map_map]
  congr 1
  funext c
  exact char_toLower_toLower c

end Letters

end Ordo
