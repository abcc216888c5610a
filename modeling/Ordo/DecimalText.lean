import Ordo.BigIntText

/-!
# Integers in decimal

`n.toString()` of an integer, which `BigInt` reads back (`bigInt_decimal`), and what it makes
of a text of digits.
-/

namespace Ordo

namespace DecimalText

open BigIntText

abbrev Text := List Char

/-- `n.toString()` -/
def decimal (n : Int) : Text :=
  if n < 0 then '-' :: Nat.toDigits 10 n.natAbs else Nat.toDigits 10 n.natAbs

theorem code_of_isDigit {c : Char} (hc : c.isDigit = true) : 48 ≤ c.toNat ∧ c.toNat ≤ 57 := by
  rw [Char.isDigit_iff_toNat] at hc
  exact hc

theorem digit_of_isDigit {c : Char} (hc : c.isDigit = true) :
    digit? 10 c = some (c.toNat - 48) := by
  obtain ⟨hlow, hhigh⟩ := code_of_isDigit hc
  have hhex : hexDigit? c = some (c.toNat - 48) := by
    have hin : (0x30 ≤ c.toNat && c.toNat ≤ 0x39) = true := by simp [hlow, hhigh]
    rw [hexDigit?]
    exact if_pos hin
  have hsmall : decide (c.toNat - 48 < 10) = true := decide_eq_true (by omega)
  rw [digit?, hhex, Option.filter_some, if_pos hsmall]

theorem digits_decimal {cs : Text} (hcs : ∀ c ∈ cs, c.isDigit = true) (hne : cs ≠ []) :
    digits 10 cs = .ok (Nat.ofDigitChars 10 cs 0) :=
  digits_eq_foldl hne fun c hc => digit_of_isDigit (hcs c hc)

theorem space_of_isDigit {c : Char} (hc : c.isDigit = true) : isSpace c = false := by
  obtain ⟨hlow, hhigh⟩ := code_of_isDigit hc
  unfold isSpace
  simp
  omega

/-- Nothing is trimmed off a text that has no white space at its ends. -/
theorem trim_of_ends {text : Text} (hhead : ∀ c ∈ text.head?, isSpace c = false)
    (hlast : ∀ c ∈ text.getLast?, isSpace c = false) : trim text = text := by
  have hdrop : text.dropWhile isSpace = text := by
    cases text with
    | nil => rfl
    | cons c cs =>
        exact List.dropWhile_cons_of_neg (by rw [hhead c rfl]; exact Bool.false_ne_true)
  rw [trim, hdrop, List.rdropWhile_eq_self_iff]
  intro hne
  rw [hlast _ (List.getLast_mem_getLast? hne)]
  exact Bool.false_ne_true

theorem trim_append_space {text : Text} {c d : Char} (hhead : text.head? = some c)
    (hc : isSpace c = false) (hd : isSpace d = true) : trim (text ++ [d]) = trim text := by
  obtain ⟨cs, rfl⟩ : ∃ cs, text = c :: cs := by
    cases text with
    | nil => cases hhead
    | cons c' cs => exact ⟨cs, by rw [Option.some.inj hhead]⟩
  have hkeep : ¬ isSpace c = true := by
    rw [hc]
    exact Bool.false_ne_true
  rw [trim, trim, List.cons_append, List.dropWhile_cons_of_neg hkeep,
    List.dropWhile_cons_of_neg hkeep, ← List.cons_append, List.rdropWhile_concat_pos _ _ _ hd]

theorem bigInt_of_digits {cs : Text} (hcs : ∀ c ∈ cs, c.isDigit = true) (hne : cs ≠ []) :
    bigInt cs = .ok (Nat.ofDigitChars 10 cs 0) := by
  have htrim : trim cs = cs :=
    trim_of_ends (fun c hc => space_of_isDigit (hcs c (List.mem_of_mem_head? hc)))
      (fun c hc => space_of_isDigit (hcs c (List.mem_of_getLast? hc)))
  have hletter : ∀ {c d : Char} {ds : Text}, cs = c :: d :: ds → d.isDigit = true :=
    fun h => hcs _ (by rw [h]; exact List.mem_cons_of_mem _ List.mem_cons_self)
  have hsign : ∀ {c : Char} {ds : Text}, cs = c :: ds → c.isDigit = true :=
    fun h => hcs _ (by rw [h]; exact List.mem_cons_self)
  unfold bigInt
  rw [htrim]
  split
  · exact absurd rfl hne
  iterate 6 exact absurd (hletter rfl) (by decide)
  iterate 2 exact absurd (hsign rfl) (by decide)
  rw [digits_decimal hcs hne]
  rfl

theorem bigInt_decimal (n : Int) : bigInt (decimal n) = .ok n := by
  have hdigits : ∀ c ∈ Nat.toDigits 10 n.natAbs, c.isDigit = true := fun c hc =>
    Nat.isDigit_of_mem_toDigits (by decide) (by decide) hc
  unfold decimal
  split
  next hneg =>
    have htrim : trim ('-' :: Nat.toDigits 10 n.natAbs) = '-' :: Nat.toDigits 10 n.natAbs := by
      refine trim_of_ends (fun c hc => ?_) fun c hc => ?_
      · obtain rfl := Option.some.inj hc
        decide
      · rw [List.getLast?_cons, List.getLast?_eq_some_getLast Nat.toDigits_ne_nil] at hc
        obtain rfl := Option.some.inj hc
        exact space_of_isDigit (hdigits _ (List.getLast_mem _))
    rw [bigInt, htrim]
    change (digits 10 (Nat.toDigits 10 n.natAbs)).map (fun n => -Int.ofNat n) = _
    rw [digits_decimal hdigits Nat.toDigits_ne_nil, Nat.ofDigitChars_ten_toDigits]
    have hvalue : -((n.natAbs : Nat) : Int) = n := by omega
    exact congrArg Except.ok hvalue
  next hpos =>
    rw [bigInt_of_digits hdigits Nat.toDigits_ne_nil, Nat.ofDigitChars_ten_toDigits]
    exact congrArg Except.ok (by omega)

end DecimalText

end Ordo
