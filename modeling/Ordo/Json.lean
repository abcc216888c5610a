import Mathlib.Data.List.TakeWhile
import Mathlib.Tactic.Common

/-!
# JSON values and their texts

A JSON value, what a field of it is, and the text it is written as.  A number is kept
as the text that is printed for it, so that nothing depends on how it is represented.

`stringify_injective` is the main fact: two values with the same text are the same
value.  It is proved for texts that go on after the value, with a comma or a bracket,
because that is how values stand inside others.
-/

/-- The characters numbers are printed with. -/
def isNumeralChar (c : Char) : Bool := c.isDigit || c = '-' || c = '+' || c = '.' || c = 'e'

/-- A number, as it is printed. -/
structure Numeral where
  text : List Char
  nonempty : text ≠ []
  chars : ∀ c ∈ text, isNumeralChar c
  deriving DecidableEq

/-- A natural number, in decimal. -/
def Numeral.ofNat (n : Nat) : Numeral where
  text := Nat.toDigits 10 n
  nonempty := Nat.toDigits_ne_nil
  chars := by
    intro c hc
    simp [isNumeralChar, Nat.isDigit_of_mem_toDigits (by decide) (by decide) hc]

inductive Json where
  | null
  | bool (b : Bool)
  | num (n : Numeral)
  | str (s : String)
  | arr (elements : List Json)
  | obj (fields : List (String × Json))

namespace Json

def isNull : Json → Bool
  | .null => true
  | _ => false

/-- `v.name`, where a value that is no object has no fields. -/
def field? (name : String) : Json → Option Json
  | .obj fields => fields.lookup name
  | _ => none

/-- `v == null`, where a missing value is `undefined`. -/
def isNullish : Option Json → Bool
  | none => true
  | some v => v.isNull

@[simp] theorem isNullish_some (v : Json) : isNullish (some v) = v.isNull := rfl

/-- Whether a value counts as true. -/
def isTruthy : Json → Bool
  | .null => false
  | .bool b => b
  | .num n => n.text ≠ ['0']
  | .str s => s ≠ ""
  | .arr _ => true
  | .obj _ => true

mutual

/-- An element of an array that is turned into a text: `null` leaves nothing. -/
def coercedElement : Json → String
  | .null => ""
  | .bool true => "true"
  | .bool false => "false"
  | .num n => String.ofList n.text
  | .str s => s
  | .arr [] => ""
  | .arr (v :: vs) => coercedElement v ++ coercedRest vs
  | .obj _ => "[object Object]"

def coercedRest : List Json → String
  | [] => ""
  | v :: vs => "," ++ coercedElement v ++ coercedRest vs

end

/-- `String(v)`. -/
def coerced (v : Json) : String := if v.isNull then "null" else coercedElement v

/-! ### Texts -/

/-- A character inside quotes. -/
def escape (c : Char) : List Char :=
  if c = '"' then ['\\', '"']
  else if c = '\\' then ['\\', '\\']
  else if c = '\x08' then ['\\', 'b']
  else if c = '\x0c' then ['\\', 'f']
  else if c = '\n' then ['\\', 'n']
  else if c = '\r' then ['\\', 'r']
  else if c = '\t' then ['\\', 't']
  else if c.toNat < 32 then
    ['\\', 'u', '0', '0', Nat.digitChar (c.toNat / 16), Nat.digitChar (c.toNat % 16)]
  else [c]

/-- What stands between the quotes, and the quote that closes. -/
def quoted : List Char → List Char
  | [] => ['"']
  | c :: cs => escape c ++ quoted cs

def quote (s : String) : List Char := '"' :: quoted s.toList

mutual

/-- `JSON.stringify(v)`. -/
def stringify : Json → List Char
  | .null => ['n', 'u', 'l', 'l']
  | .bool true => ['t', 'r', 'u', 'e']
  | .bool false => ['f', 'a', 'l', 's', 'e']
  | .num n => n.text
  | .str s => quote s
  | .arr [] => ['[', ']']
  | .arr (v :: vs) => '[' :: (stringify v ++ elementsText vs)
  | .obj [] => ['{', '}']
  | .obj ((k, v) :: fs) => '{' :: (quote k ++ ':' :: (stringify v ++ fieldsText fs))

def elementsText : List Json → List Char
  | [] => [']']
  | v :: vs => ',' :: (stringify v ++ elementsText vs)

def fieldsText : List (String × Json) → List Char
  | [] => ['}']
  | (k, v) :: fs => ',' :: (quote k ++ ':' :: (stringify v ++ fieldsText fs))

end

/-! ### What a text stands for -/

/-- Two splits of a text where a class of characters ends are the same split. -/
theorem append_inj_of_class {p : Char → Bool} {a b r s : List Char} (ha : ∀ c ∈ a, p c)
    (hb : ∀ c ∈ b, p c) (hr : ∀ c ∈ r.head?, ¬ p c) (hs : ∀ c ∈ s.head?, ¬ p c)
    (h : a ++ r = b ++ s) : a = b ∧ r = s := by
  have hstop : ∀ t : List Char, (∀ c ∈ t.head?, ¬ p c) → t.takeWhile p = [] := by
    intro t ht
    cases t with
    | nil => rfl
    | cons c t => exact List.takeWhile_cons_of_neg (ht c rfl)
  have hab : a = b := by
    have htake := congrArg (List.takeWhile p) h
    rw [List.takeWhile_append_of_pos ha, List.takeWhile_append_of_pos hb, hstop r hr,
      hstop s hs, List.append_nil, List.append_nil] at htake
    exact htake
  subst hab
  exact ⟨rfl, List.append_cancel_left h⟩

def digitValue (c : Char) : Nat := if c.isDigit then c.toNat - 48 else c.toNat - 87

theorem digitValue_digitChar : ∀ d < 16, digitValue (Nat.digitChar d) = d := by decide

/-- Reads one character back. -/
def unescape : List Char → Option (Char × List Char)
  | '\\' :: 'u' :: '0' :: '0' :: a :: b :: r =>
      some (Char.ofNat (16 * digitValue a + digitValue b), r)
  | '\\' :: 'b' :: r => some ('\x08', r)
  | '\\' :: 'f' :: r => some ('\x0c', r)
  | '\\' :: 'n' :: r => some ('\n', r)
  | '\\' :: 'r' :: r => some ('\r', r)
  | '\\' :: 't' :: r => some ('\t', r)
  | '\\' :: c :: r => some (c, r)
  | c :: r => some (c, r)
  | [] => none

theorem unescape_escape (c : Char) (r : List Char) : unescape (escape c ++ r) = some (c, r) := by
  unfold escape
  split_ifs with h1 h2 h3 h4 h5 h6 h7 h8
  · rw [h1]; rfl
  · rw [h2]; rfl
  · rw [h3]; rfl
  · rw [h4]; rfl
  · rw [h5]; rfl
  · rw [h6]; rfl
  · rw [h7]; rfl
  · have hc : Char.ofNat (16 * digitValue (Nat.digitChar (c.toNat / 16)) +
        digitValue (Nat.digitChar (c.toNat % 16))) = c := by
      rw [digitValue_digitChar _ (by omega), digitValue_digitChar _ (by omega),
        Nat.div_add_mod]
      exact Char.ofNat_toNat c
    simp only [List.cons_append, List.nil_append, unescape, hc]
  · simp only [List.cons_append, List.nil_append]
    rw [unescape.eq_def]
    split <;> simp_all

theorem escape_inj {c d : Char} {r s : List Char} (h : escape c ++ r = escape d ++ s) :
    c = d ∧ r = s := by
  have hread := congrArg unescape h
  rw [unescape_escape, unescape_escape] at hread
  exact Prod.mk.inj (Option.some.inj hread)

/-- No character is written with a quote in front. -/
theorem escape_ne_quote (c : Char) (r s : List Char) : escape c ++ r ≠ '"' :: s := by
  unfold escape
  split_ifs <;> simp_all

theorem quoted_inj : ∀ {a b r s : List Char}, quoted a ++ r = quoted b ++ s → a = b ∧ r = s
  | [], [], r, s, h => ⟨rfl, (List.cons.inj h).2⟩
  | [], d :: ds, r, s, h => by
      rw [quoted, quoted, List.append_assoc] at h
      exact absurd h.symm (escape_ne_quote d _ _)
  | c :: cs, [], r, s, h => by
      rw [quoted, quoted, List.append_assoc] at h
      exact absurd h (escape_ne_quote c _ _)
  | c :: cs, d :: ds, r, s, h => by
      rw [quoted, quoted, List.append_assoc, List.append_assoc] at h
      obtain ⟨hc, htail⟩ := escape_inj h
      obtain ⟨hcs, hr⟩ := quoted_inj htail
      exact ⟨by rw [hc, hcs], hr⟩

theorem quote_inj {a b : String} {r s : List Char} (h : quote a ++ r = quote b ++ s) :
    a = b ∧ r = s := by
  obtain ⟨hab, hr⟩ := quoted_inj (List.cons.inj h).2
  exact ⟨String.toList_inj.mp hab, hr⟩

/-- A text that no number goes on into. -/
def Ends (r : List Char) : Prop := ∀ c ∈ r.head?, ¬ isNumeralChar c

theorem ends_nil : Ends [] := by
  intro c hc
  cases hc

theorem ends_cons {c : Char} (r : List Char) (h : isNumeralChar c = false) : Ends (c :: r) := by
  intro d hd
  cases hd
  rw [h]
  exact Bool.false_ne_true

theorem ends_elementsText (vs : List Json) (r : List Char) : Ends (elementsText vs ++ r) := by
  cases vs with
  | nil => exact ends_cons _ rfl
  | cons v vs => exact ends_cons _ rfl

theorem ends_fieldsText (fs : List (String × Json)) (r : List Char) :
    Ends (fieldsText fs ++ r) := by
  cases fs with
  | nil => exact ends_cons _ rfl
  | cons f fs => exact ends_cons _ rfl

/-- The first character tells what kind of value a text is of. -/
def Kind : Json → Char → Prop
  | .null, c => c = 'n'
  | .bool true, c => c = 't'
  | .bool false, c => c = 'f'
  | .num _, c => isNumeralChar c
  | .str _, c => c = '"'
  | .arr _, c => c = '['
  | .obj _, c => c = '{'

theorem exists_kind (v : Json) : ∃ c t, stringify v = c :: t ∧ Kind v c := by
  cases v with
  | null => exact ⟨_, _, rfl, rfl⟩
  | bool b => cases b <;> exact ⟨_, _, rfl, rfl⟩
  | num n =>
      obtain ⟨c, t, hct⟩ := List.exists_cons_of_ne_nil n.nonempty
      have hmem : c ∈ n.text := by
        rw [hct]
        exact List.mem_cons_self
      exact ⟨c, t, hct, n.chars c hmem⟩
  | str s => exact ⟨_, _, rfl, rfl⟩
  | arr vs => cases vs <;> exact ⟨_, _, rfl, rfl⟩
  | obj fs => cases fs <;> exact ⟨_, _, rfl, rfl⟩

/-- No value is written with a closing bracket in front. -/
theorem stringify_ne_close (v : Json) (r s : List Char) : stringify v ++ r ≠ ']' :: s := by
  obtain ⟨c, t, hct, hkind⟩ := exists_kind v
  intro h
  rw [hct] at h
  obtain ⟨rfl, -⟩ := List.cons.inj h
  cases v with
  | bool b => cases b <;> cases hkind
  | num n => cases hkind
  | _ => cases hkind

/-- Texts that begin alike are of values of one kind. -/
theorem exists_common_kind {v w : Json} {r s : List Char}
    (h : stringify v ++ r = stringify w ++ s) : ∃ c, Kind v c ∧ Kind w c := by
  obtain ⟨c, t, hct, hv⟩ := exists_kind v
  obtain ⟨d, u, hdu, hw⟩ := exists_kind w
  rw [hct, hdu] at h
  obtain ⟨rfl, -⟩ := List.cons.inj h
  exact ⟨c, hv, hw⟩

mutual

theorem stringify_append_inj : ∀ {v w : Json} {r s : List Char}, Ends r → Ends s →
    stringify v ++ r = stringify w ++ s → v = w ∧ r = s
  | .null, w, r, s, hr, hs, h => by
      obtain ⟨c, rfl, hw⟩ := exists_common_kind h
      match w, hw with
      | .null, _ => exact ⟨rfl, List.append_cancel_left h⟩
  | .bool true, w, r, s, hr, hs, h => by
      obtain ⟨c, rfl, hw⟩ := exists_common_kind h
      match w, hw with
      | .bool true, _ => exact ⟨rfl, List.append_cancel_left h⟩
  | .bool false, w, r, s, hr, hs, h => by
      obtain ⟨c, rfl, hw⟩ := exists_common_kind h
      match w, hw with
      | .bool false, _ => exact ⟨rfl, List.append_cancel_left h⟩
  | .num n, w, r, s, hr, hs, h => by
      obtain ⟨c, hn, hw⟩ := exists_common_kind h
      match w, hw with
      | .num m, _ =>
          obtain ⟨htext, hrest⟩ := append_inj_of_class n.chars m.chars hr hs h
          cases n
          cases m
          cases htext
          exact ⟨rfl, hrest⟩
      | .null, hw => subst hw; cases hn
      | .bool true, hw => subst hw; cases hn
      | .bool false, hw => subst hw; cases hn
      | .str _, hw => subst hw; cases hn
      | .arr _, hw => subst hw; cases hn
      | .obj _, hw => subst hw; cases hn
  | .str a, w, r, s, hr, hs, h => by
      obtain ⟨c, rfl, hw⟩ := exists_common_kind h
      match w, hw with
      | .str b, _ =>
          obtain ⟨hab, hrest⟩ := quote_inj h
          exact ⟨by rw [hab], hrest⟩
  | .arr vs, w, r, s, hr, hs, h => by
      obtain ⟨c, rfl, hw⟩ := exists_common_kind h
      match vs, w, hw with
      | [], .arr [], _ => exact ⟨rfl, List.append_cancel_left h⟩
      | [], .arr (x :: xs), _ =>
          simp only [stringify, List.cons_append, List.append_assoc] at h
          have htail := (List.cons.inj h).2
          exact absurd htail.symm (stringify_ne_close x _ _)
      | v :: vs, .arr [], _ =>
          simp only [stringify, List.cons_append, List.append_assoc] at h
          have htail := (List.cons.inj h).2
          exact absurd htail (stringify_ne_close v _ _)
      | v :: vs, .arr (x :: xs), _ =>
          simp only [stringify, List.cons_append, List.append_assoc] at h
          have htail := (List.cons.inj h).2
          obtain ⟨hv, hmore⟩ :=
            stringify_append_inj (ends_elementsText vs r) (ends_elementsText xs s) htail
          obtain ⟨hvs, hrest⟩ := elementsText_append_inj hr hs hmore
          exact ⟨by rw [hv, hvs], hrest⟩
  | .obj fs, w, r, s, hr, hs, h => by
      obtain ⟨c, rfl, hw⟩ := exists_common_kind h
      match fs, w, hw with
      | [], .obj [], _ => exact ⟨rfl, List.append_cancel_left h⟩
      | [], .obj ((l, x) :: gs), _ => cases (List.cons.inj h).2
      | (k, v) :: fs, .obj [], _ => cases (List.cons.inj h).2
      | (k, v) :: fs, .obj ((l, x) :: gs), _ =>
          simp only [stringify, List.cons_append, List.append_assoc] at h
          have htail := (List.cons.inj h).2
          obtain ⟨hk, hcolon⟩ := quote_inj htail
          have hvalue := (List.cons.inj hcolon).2
          obtain ⟨hv, hmore⟩ :=
            stringify_append_inj (ends_fieldsText fs r) (ends_fieldsText gs s) hvalue
          obtain ⟨hfs, hrest⟩ := fieldsText_append_inj hr hs hmore
          exact ⟨by rw [hk, hv, hfs], hrest⟩

theorem elementsText_append_inj : ∀ {vs ws : List Json} {r s : List Char}, Ends r → Ends s →
    elementsText vs ++ r = elementsText ws ++ s → vs = ws ∧ r = s
  | [], [], r, s, _, _, h => ⟨rfl, List.append_cancel_left h⟩
  | [], x :: xs, r, s, _, _, h => by cases (List.cons.inj h).1
  | v :: vs, [], r, s, _, _, h => by cases (List.cons.inj h).1
  | v :: vs, x :: xs, r, s, hr, hs, h => by
      simp only [elementsText, List.cons_append, List.append_assoc] at h
      have htail := (List.cons.inj h).2
      obtain ⟨hv, hmore⟩ :=
        stringify_append_inj (ends_elementsText vs r) (ends_elementsText xs s) htail
      obtain ⟨hvs, hrest⟩ := elementsText_append_inj hr hs hmore
      exact ⟨by rw [hv, hvs], hrest⟩

theorem fieldsText_append_inj : ∀ {fs gs : List (String × Json)} {r s : List Char}, Ends r →
    Ends s → fieldsText fs ++ r = fieldsText gs ++ s → fs = gs ∧ r = s
  | [], [], r, s, _, _, h => ⟨rfl, List.append_cancel_left h⟩
  | [], (l, x) :: gs, r, s, _, _, h => by cases (List.cons.inj h).1
  | (k, v) :: fs, [], r, s, _, _, h => by cases (List.cons.inj h).1
  | (k, v) :: fs, (l, x) :: gs, r, s, hr, hs, h => by
      simp only [fieldsText, List.cons_append, List.append_assoc] at h
      have htail := (List.cons.inj h).2
      obtain ⟨hk, hcolon⟩ := quote_inj htail
      have hvalue := (List.cons.inj hcolon).2
      obtain ⟨hv, hmore⟩ :=
        stringify_append_inj (ends_fieldsText fs r) (ends_fieldsText gs s) hvalue
      obtain ⟨hfs, hrest⟩ := fieldsText_append_inj hr hs hmore
      exact ⟨by rw [hk, hv, hfs], hrest⟩

end

/-- **A text is of one value.** -/
theorem stringify_injective : Function.Injective stringify := by
  intro v w h
  have happ : stringify v ++ [] = stringify w ++ [] := by rw [h]
  exact (stringify_append_inj ends_nil ends_nil happ).1

instance : DecidableEq Json := fun _ _ => decidable_of_iff _ stringify_injective.eq_iff

end Json
