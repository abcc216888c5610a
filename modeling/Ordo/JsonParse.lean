import Ordo.BigIntText
import Ordo.Json

/-!
# Reading JSON

`JSON.parse` as a machine: a character changes what is being read and what is open around
it, and a text is read character by character.  A number is kept as it is written.

* `parse_stringify` — what was written for a value is read as that value;
* `read_moves` — what a character can do, which depends only on what is innermost;
* `unfinished_of_cut` — the text of an object that is cut short leaves something open;
* `Unfinished.append_beginning` — and so does whatever begins like an object behind it, if
  the first name in it begins with a letter.
-/

namespace Json

/-! ### Reading a text -/

/-- Where a number stands in its text. -/
inductive NumberPart where
  | minus
  | zero
  | whole
  | point
  | fraction
  | mark
  | sign
  | power
  deriving DecidableEq

namespace NumberPart

def start (c : Char) : Option NumberPart :=
  if c = '-' then some minus
  else if c = '0' then some zero
  else if c.isDigit then some whole
  else none

def next : NumberPart → Char → Option NumberPart
  | minus, c => if c = '0' then some zero else if c.isDigit then some whole else none
  | zero, c => if c = '.' then some point else if c = 'e' || c = 'E' then some mark else none
  | whole, c =>
      if c.isDigit then some whole
      else if c = '.' then some point
      else if c = 'e' || c = 'E' then some mark
      else none
  | point, c => if c.isDigit then some fraction else none
  | fraction, c =>
      if c.isDigit then some fraction else if c = 'e' || c = 'E' then some mark else none
  | mark, c => if c = '+' || c = '-' then some sign else if c.isDigit then some power else none
  | sign, c => if c.isDigit then some power else none
  | power, c => if c.isDigit then some power else none

/-- A number may end here. -/
def complete : NumberPart → Bool
  | zero => true
  | whole => true
  | fraction => true
  | power => true
  | _ => false

end NumberPart

/-- A number as it is written, with a small `e`. -/
def numeral? (text : List Char) : Option Numeral :=
  let small := text.map fun c => if c = 'E' then 'e' else c
  if h : small ≠ [] ∧ small.all isNumeralChar = true then
    some ⟨small, h.1, List.all_eq_true.mp h.2⟩
  else none

/-- What is open around the place that is read. -/
inductive Frame where
  | elements (vs : List Json)
  | fields (fs : List (String × Json))
  | field (fs : List (String × Json)) (key : String)
  deriving DecidableEq

/-- What is being read. -/
inductive Mode where
  | value
  /-- Behind `[`. -/
  | element
  /-- Behind `{`. -/
  | field
  | name
  | colon (key : String)
  | word (text : List Char)
  | number (text : List Char) (part : NumberPart)
  | string (key : Bool) (text : List Char)
  | escaped (key : Bool) (text : List Char)
  | unicode (key : Bool) (text : List Char) (code left : Nat)
  | after (v : Json)
  deriving DecidableEq

/-- A field that is named again takes the place of the first. -/
def put (fs : List (String × Json)) (key : String) (v : Json) : List (String × Json) :=
  if key ∈ fs.map Prod.fst then fs.map fun f => if f.1 = key then (key, v) else f
  else fs ++ [(key, v)]

def isBlank (c : Char) : Bool := c = ' ' || c = '\n' || c = '\r' || c = '\t'

/-- A word that is written out is a value. -/
def word? : List Char → Option Mode
  | ['t', 'r', 'u', 'e'] => some (.after (.bool true))
  | ['f', 'a', 'l', 's', 'e'] => some (.after (.bool false))
  | ['n', 'u', 'l', 'l'] => some (.after .null)
  | text =>
      if text.isPrefixOf ['t', 'r', 'u', 'e'] || text.isPrefixOf ['f', 'a', 'l', 's', 'e'] ||
        text.isPrefixOf ['n', 'u', 'l', 'l'] then some (.word text)
      else none

/-- The first character of a value. -/
def begin (K : List Frame) (c : Char) : Option (Mode × List Frame) :=
  if c = '{' then some (.field, .fields [] :: K)
  else if c = '[' then some (.element, .elements [] :: K)
  else if c = '"' then some (.string false [], K)
  else
    match word? [c] with
    | some m => some (m, K)
    | none => (NumberPart.start c).map fun part => (.number [c] part, K)

/-- A character behind a value. -/
def follow (v : Json) (K : List Frame) (c : Char) : Option (Mode × List Frame) :=
  if isBlank c then some (.after v, K)
  else
    match K with
    | .elements vs :: K =>
        if c = ',' then some (.value, .elements (vs ++ [v]) :: K)
        else if c = ']' then some (.after (.arr (vs ++ [v])), K)
        else none
    | .field fs key :: K =>
        if c = ',' then some (.name, .fields (put fs key v) :: K)
        else if c = '}' then some (.after (.obj (put fs key v)), K)
        else none
    | _ => none

/-- What stands for a character behind a backslash. -/
def named (c : Char) : Option Char :=
  if c = '"' || c = '\\' || c = '/' then some c
  else if c = 'b' then some '\x08'
  else if c = 'f' then some '\x0c'
  else if c = 'n' then some '\n'
  else if c = 'r' then some '\r'
  else if c = 't' then some '\t'
  else none

/-- Half of a surrogate pair is no character, and is replaced. -/
def ofCode (code : Nat) : Char := if code.isValidChar then Char.ofNat code else '\ufffd'

def read : Mode → List Frame → Char → Option (Mode × List Frame)
  | .value, K, c => if isBlank c then some (.value, K) else begin K c
  | .element, K, c =>
      if isBlank c then some (.element, K)
      else if c = ']' then
        match K with
        | .elements vs :: K => some (.after (.arr vs), K)
        | _ => none
      else begin K c
  | .field, K, c =>
      if isBlank c then some (.field, K)
      else if c = '}' then
        match K with
        | .fields fs :: K => some (.after (.obj fs), K)
        | _ => none
      else if c = '"' then some (.string true [], K)
      else none
  | .name, K, c =>
      if isBlank c then some (.name, K)
      else if c = '"' then some (.string true [], K)
      else none
  | .colon key, K, c =>
      if isBlank c then some (.colon key, K)
      else if c = ':' then
        match K with
        | .fields fs :: K => some (.value, .field fs key :: K)
        | _ => none
      else none
  | .word text, K, c => (word? (text ++ [c])).map fun m => (m, K)
  | .number text part, K, c =>
      match part.next c with
      | some part => some (.number (text ++ [c]) part, K)
      | none => if part.complete then (numeral? text).bind fun n => follow (.num n) K c else none
  | .string key text, K, c =>
      if c = '"' then
        some (if key then .colon (String.ofList text) else .after (.str (String.ofList text)), K)
      else if c = '\\' then some (.escaped key text, K)
      else if c.toNat < 32 then none
      else some (.string key (text ++ [c]), K)
  | .escaped key text, K, c =>
      if c = 'u' then some (.unicode key text 0 4, K)
      else (named c).map fun d => (.string key (text ++ [d]), K)
  | .unicode key text code left, K, c =>
      (Ordo.BigIntText.hexDigit? c).map fun d =>
        if left = 1 then (.string key (text ++ [ofCode (16 * code + d)]), K)
        else (.unicode key text (16 * code + d) (left - 1), K)
  | .after v, K, c => follow v K c

/-- Reads on through a text. -/
def run : List Char → Mode × List Frame → Option (Mode × List Frame)
  | [], s => some s
  | c :: cs, s => (read s.1 s.2 c).bind (run cs)

/-- The value at the end of the text. -/
def ended : Mode × List Frame → Option Json
  | (.after v, []) => some v
  | (.number text part, []) => if part.complete then (numeral? text).map .num else none
  | _ => none

/-- `JSON.parse(text)` -/
def parse (text : List Char) : Option Json := (run text (.value, [])).bind ended


variable {m m' : Mode} {K K' S : List Frame} {s s' : Mode × List Frame} {c : Char}
  {text rest : List Char} {v : Json}

theorem run_append (text rest : List Char) (s : Mode × List Frame) :
    run (text ++ rest) s = (run text s).bind (run rest) := by
  induction text generalizing s with
  | nil => rfl
  | cons c text ih =>
      rw [List.cons_append, run, run]
      cases read s.1 s.2 c with
      | none => rfl
      | some s' => exact ih s'

/-! ### What a character does to what is open -/

/-- Reading `c` looks at `f` on top of what is open, and leaves `g` there. -/
structure Moves (m : Mode) (c : Char) (m' : Mode) (f g : List Frame) : Prop where
  anywhere : ∀ S, read m (f ++ S) c = some (m', g ++ S)
  closes : g = [] → f = [] ∨ (c = ']' ∨ c = '}') ∧ ∃ v, m' = .after v

theorem Moves.keep (h : ∀ S, read m S c = some (m', S)) : Moves m c m' [] [] where
  anywhere := h
  closes _ := .inl rfl

theorem Moves.change {f g : List Frame} (h : ∀ S, read m (f ++ S) c = some (m', g ++ S))
    (hg : g ≠ []) : Moves m c m' f g where
  anywhere := h
  closes hnil := absurd hnil hg

theorem Moves.close {f : List Frame} (h : ∀ S, read m (f ++ S) c = some (.after v, S))
    (hc : c = ']' ∨ c = '}') : Moves m c (.after v) f [] where
  anywhere := h
  closes _ := .inr ⟨hc, v, rfl⟩

theorem begin_moves (h : begin K c = some (m', K')) :
    ∃ g, K' = g ++ K ∧ ∀ S, begin S c = some (m', g ++ S) := by
  unfold begin at h ⊢
  split_ifs at h ⊢
  · cases h
    exact ⟨[.fields []], rfl, fun S => rfl⟩
  · cases h
    exact ⟨[.elements []], rfl, fun S => rfl⟩
  · cases h
    exact ⟨[], rfl, fun S => rfl⟩
  · cases hword : word? [c] with
    | some m₁ =>
        rw [hword] at h
        cases h
        exact ⟨[], rfl, fun S => rfl⟩
    | none =>
        rw [hword] at h
        obtain ⟨part, hpart, hsame⟩ := Option.map_eq_some_iff.mp h
        cases hsame
        exact ⟨[], rfl, fun S => by simp only [hpart, Option.map_some, List.nil_append]⟩

theorem Moves.of_begin (hread : ∀ S, read m S c = begin S c) {g : List Frame}
    (h : ∀ S, begin S c = some (m', g ++ S)) : Moves m c m' [] g where
  anywhere S := by rw [List.nil_append, hread, h]
  closes _ := .inl rfl

theorem follow_moves (hread : ∀ S, read m S c = follow v S c)
    (h : follow v K c = some (m', K')) :
    ∃ f g S, K = f ++ S ∧ K' = g ++ S ∧ Moves m c m' f g := by
  by_cases hblank : isBlank c = true
  · simp only [follow, if_pos hblank] at h
    cases h
    exact ⟨[], [], K, rfl, rfl, .keep fun S => (hread S).trans (if_pos hblank)⟩
  match K with
  | .elements vs :: K =>
      simp only [follow, if_neg hblank] at h
      split_ifs at h with hcomma hclose
      · cases h
        refine ⟨[.elements vs], [.elements (vs ++ [v])], K, rfl, rfl, .change (fun S => ?_) ?_⟩
        · rw [hread, List.singleton_append, follow, if_neg hblank]
          exact if_pos hcomma
        · simp
      · cases h
        refine ⟨[.elements vs], [], _, rfl, rfl, .close (fun S => ?_) (.inl hclose)⟩
        rw [hread, List.singleton_append, follow, if_neg hblank]
        exact (if_neg hcomma).trans (if_pos hclose)
  | .field fs key :: K =>
      simp only [follow, if_neg hblank] at h
      split_ifs at h with hcomma hclose
      · cases h
        refine ⟨[.field fs key], [.fields (put fs key v)], K, rfl, rfl,
          .change (fun S => ?_) ?_⟩
        · rw [hread, List.singleton_append, follow, if_neg hblank]
          exact if_pos hcomma
        · simp
      · cases h
        refine ⟨[.field fs key], [], _, rfl, rfl, .close (fun S => ?_) (.inr hclose)⟩
        rw [hread, List.singleton_append, follow, if_neg hblank]
        exact (if_neg hcomma).trans (if_pos hclose)
  | [] => simp [follow, hblank] at h
  | .fields fs :: K => simp [follow, hblank] at h

/-- What a character can do, wherever it is read. -/
theorem read_moves (h : read m K c = some (m', K')) :
    ∃ f g S, K = f ++ S ∧ K' = g ++ S ∧ Moves m c m' f g := by
  cases m with
  | value =>
      simp only [read] at h
      split_ifs at h with hblank
      · cases h
        exact ⟨[], [], K, rfl, rfl, .keep fun S => if_pos hblank⟩
      · obtain ⟨g, rfl, hg⟩ := begin_moves h
        exact ⟨[], g, K, rfl, rfl, .of_begin (fun _ => by exact if_neg hblank) hg⟩
  | element =>
      simp only [read] at h
      split_ifs at h with hblank hclose
      · cases h
        exact ⟨[], [], K, rfl, rfl, .keep fun S => if_pos hblank⟩
      · match K, h with
        | .elements vs :: K, h =>
            cases h
            exact ⟨[.elements vs], [], _, rfl, rfl,
              .close (fun S => (if_neg hblank).trans (if_pos hclose)) (.inl hclose)⟩
      · obtain ⟨g, rfl, hg⟩ := begin_moves h
        exact ⟨[], g, K, rfl, rfl,
          .of_begin (fun _ => by exact (if_neg hblank).trans (if_neg hclose)) hg⟩
  | field =>
      simp only [read] at h
      split_ifs at h with hblank hclose hquote
      · cases h
        exact ⟨[], [], K, rfl, rfl, .keep fun S => if_pos hblank⟩
      · match K, h with
        | .fields fs :: K, h =>
            cases h
            exact ⟨[.fields fs], [], _, rfl, rfl,
              .close (fun S => (if_neg hblank).trans (if_pos hclose)) (.inr hclose)⟩
      · cases h
        exact ⟨[], [], K, rfl, rfl,
          .keep fun S => (if_neg hblank).trans ((if_neg hclose).trans (if_pos hquote))⟩
  | name =>
      simp only [read] at h
      split_ifs at h with hblank hquote
      · cases h
        exact ⟨[], [], K, rfl, rfl, .keep fun S => if_pos hblank⟩
      · cases h
        exact ⟨[], [], K, rfl, rfl, .keep fun S => (if_neg hblank).trans (if_pos hquote)⟩
  | colon key =>
      simp only [read] at h
      split_ifs at h with hblank hcolon
      · cases h
        exact ⟨[], [], K, rfl, rfl, .keep fun S => if_pos hblank⟩
      · match K, h with
        | .fields fs :: K, h =>
            cases h
            exact ⟨[.fields fs], [.field fs key], K, rfl, rfl,
              .change (fun S => (if_neg hblank).trans (if_pos hcolon)) (by simp)⟩
  | word text =>
      simp only [read] at h
      obtain ⟨m₁, hword, hsame⟩ := Option.map_eq_some_iff.mp h
      cases hsame
      exact ⟨[], [], K, rfl, rfl, .keep fun S => by simp only [read, hword, Option.map_some]⟩
  | number text part =>
      simp only [read] at h
      cases hnext : part.next c with
      | some part' =>
          rw [hnext] at h
          cases h
          exact ⟨[], [], K, rfl, rfl, .keep fun S => by rw [read, hnext]⟩
      | none =>
          rw [hnext] at h
          simp only at h
          split_ifs at h with hend
          obtain ⟨n, hn, hfollow⟩ := Option.bind_eq_some_iff.mp h
          refine follow_moves (fun S => ?_) hfollow
          rw [read, hnext]
          simp only [if_pos hend, hn, Option.bind_some]
  | string key text =>
      simp only [read] at h
      split_ifs at h with hquote hslash hcontrol <;> cases h <;>
        exact ⟨[], [], K, rfl, rfl, .keep fun S => by simp [read, *]⟩
  | escaped key text =>
      simp only [read] at h
      split_ifs at h with hcode
      · cases h
        exact ⟨[], [], K, rfl, rfl, .keep fun S => if_pos hcode⟩
      · obtain ⟨d, hd, hsame⟩ := Option.map_eq_some_iff.mp h
        cases hsame
        exact ⟨[], [], K, rfl, rfl, .keep fun S => by rw [read, if_neg hcode, hd]; rfl⟩
  | unicode key text code left =>
      simp only [read] at h
      obtain ⟨d, hd, hsame⟩ := Option.map_eq_some_iff.mp h
      split_ifs at hsame with hlast <;> cases hsame <;>
        exact ⟨[], [], K, rfl, rfl, .keep fun S => by simp [read, hd, hlast]⟩
  | after v => exact follow_moves (fun S => rfl) h

/-- What is open further out takes no part. -/
theorem read_frame (h : read m K c = some (m', K')) :
    read m (K ++ S) c = some (m', K' ++ S) := by
  obtain ⟨f, g, L, rfl, rfl, hmoves⟩ := read_moves h
  rw [List.append_assoc, List.append_assoc]
  exact hmoves.anywhere (L ++ S)

theorem run_frame (h : run text (m, K) = some (m', K')) :
    run text (m, K ++ S) = some (m', K' ++ S) := by
  induction text generalizing m K with
  | nil =>
      cases h
      rfl
  | cons c text ih =>
      obtain ⟨⟨m₁, K₁⟩, hread, hrun⟩ := Option.bind_eq_some_iff.mp h
      rw [run, read_frame hread]
      exact ih hrun

/-- Nothing else than a closing bracket closes what is open. -/
theorem read_open (h : read s.1 s.2 c = some s') (hopen : s.2 ≠ []) (hsquare : c ≠ ']')
    (hcurly : c ≠ '}') : s'.2 ≠ [] := by
  obtain ⟨f, g, L, hs, hs', hmoves⟩ := @read_moves s.1 s'.1 s.2 s'.2 c h
  intro hnil
  obtain ⟨rfl, rfl⟩ := List.append_eq_nil_iff.mp (hs'.symm.trans hnil)
  rcases hmoves.closes rfl with rfl | ⟨hsquare' | hcurly', -⟩
  · exact hopen hs
  · exact hsquare hsquare'
  · exact hcurly hcurly'

/-- Outside of everything, a value has been read. -/
def Settled (s : Mode × List Frame) : Prop := s.2 = [] → ∃ v, s.1 = .after v

theorem read_settled (hs : Settled s) (h : read s.1 s.2 c = some s') : Settled s' := by
  obtain ⟨f, g, L, hK, hK', hmoves⟩ := @read_moves s.1 s'.1 s.2 s'.2 c h
  intro hnil
  obtain ⟨rfl, rfl⟩ := List.append_eq_nil_iff.mp (hK'.symm.trans hnil)
  rcases hmoves.closes rfl with rfl | ⟨-, hafter⟩
  · obtain ⟨v, hv⟩ := hs hK
    have hstep := hmoves.anywhere []
    rw [hv] at hstep
    simp only [read, follow, List.append_nil] at hstep
    split_ifs at hstep
    exact ⟨v, (Prod.mk.inj (Option.some.inj hstep)).1.symm⟩
  · exact hafter

/-! ### What is written is read back -/

/-- The number is written as numbers are in a text. -/
def Written (n : Numeral) : Bool :=
  match n.text with
  | [] => false
  | c :: cs => ((NumberPart.start c).bind fun part => cs.foldlM NumberPart.next part).any
      NumberPart.complete

mutual

/-- A value whose numbers are numbers and whose fields have different names. -/
def Printed : Json → Prop
  | .null => True
  | .bool _ => True
  | .num n => Written n = true
  | .str _ => True
  | .arr vs => PrintedAll vs
  | .obj fs => (fs.map Prod.fst).Nodup ∧ PrintedFields fs

def PrintedAll : List Json → Prop
  | [] => True
  | v :: vs => Printed v ∧ PrintedAll vs

def PrintedFields : List (String × Json) → Prop
  | [] => True
  | (_, v) :: fs => Printed v ∧ PrintedFields fs

end

theorem printedAll_map {α : Type} {write : α → Json} (h : ∀ a, Printed (write a))
    (as : List α) : PrintedAll (as.map write) := by
  induction as with
  | nil => trivial
  | cons a as ih => exact ⟨h a, ih⟩

theorem numeral?_text (n : Numeral) : numeral? n.text = some n := by
  have hsmall : (n.text.map fun c => if c = 'E' then 'e' else c) = n.text := by
    conv_rhs => rw [← List.map_id n.text]
    refine List.map_congr_left fun c hc => if_neg ?_
    rintro rfl
    exact absurd (n.chars _ hc) (by decide)
  simp only [numeral?, hsmall]
  exact dif_pos ⟨n.nonempty, List.all_eq_true.mpr n.chars⟩

theorem ofCode_toNat (c : Char) : ofCode c.toNat = c := by
  have hvalid : c.toNat.isValidChar := c.valid
  rw [ofCode, if_pos hvalid]
  exact Char.ofNat_toNat c

theorem hexDigit_digitChar : ∀ d < 16, Ordo.BigIntText.hexDigit? (Nat.digitChar d) = some d := by
  decide

theorem run_escape (key : Bool) (text : List Char) (c : Char) (rest : List Char) :
    run (escape c ++ rest) (.string key text, K) = run rest (.string key (text ++ [c]), K) := by
  unfold escape
  split_ifs with h1 h2 h3 h4 h5 h6 h7 h8
  · rw [h1]; rfl
  · rw [h2]; rfl
  · rw [h3]; rfl
  · rw [h4]; rfl
  · rw [h5]; rfl
  · rw [h6]; rfl
  · rw [h7]; rfl
  · have hhigh := hexDigit_digitChar (c.toNat / 16) (by omega)
    have hlow := hexDigit_digitChar (c.toNat % 16) (by omega)
    have hzero : Ordo.BigIntText.hexDigit? '0' = some 0 := by decide
    simp [run, read, hhigh, hlow, hzero, Nat.div_add_mod, ofCode_toNat]
  · simp [run, read, h1, h2, h8]

theorem run_quoted (key : Bool) (text cs rest : List Char) :
    run (quoted cs ++ rest) (.string key text, K) =
      run ('"' :: rest) (.string key (text ++ cs), K) := by
  induction cs generalizing text with
  | nil => rw [List.append_nil]; rfl
  | cons c cs ih =>
      rw [quoted, List.append_assoc, run_escape, ih, List.append_assoc]
      rfl

/-- A name, up to the value behind it. -/
theorem run_name (k : String) (fs : List (String × Json)) (rest : List Char) :
    run (quoted k.toList ++ ':' :: rest) (.string true [], .fields fs :: K) =
      run rest (.value, .field fs k :: K) := by
  rw [run_quoted, List.nil_append, run]
  simp only [read, if_pos, String.ofList_toList, Option.bind_some]
  rfl

/-- What a value is followed by inside others. -/
def Delimited (rest : List Char) : Prop :=
  ∃ c r, rest = c :: r ∧ (c = ',' ∨ c = ']' ∨ c = '}')

theorem delimited_elementsText (vs : List Json) (rest : List Char) :
    Delimited (elementsText vs ++ rest) := by
  cases vs with
  | nil => exact ⟨_, _, rfl, .inr (.inl rfl)⟩
  | cons v vs => exact ⟨_, _, rfl, .inl rfl⟩

theorem delimited_fieldsText (fs : List (String × Json)) (rest : List Char) :
    Delimited (fieldsText fs ++ rest) := by
  cases fs with
  | nil => exact ⟨_, _, rfl, .inr (.inr rfl)⟩
  | cons f fs => exact ⟨_, _, rfl, .inl rfl⟩

theorem run_number {part last : NumberPart} {cs : List Char} (text rest : List Char)
    (h : cs.foldlM NumberPart.next part = some last) :
    run (cs ++ rest) (.number text part, K) = run rest (.number (text ++ cs) last, K) := by
  induction cs generalizing text part with
  | nil =>
      cases h
      rw [List.append_nil]
      rfl
  | cons c cs ih =>
      obtain ⟨part', hnext, hmore⟩ := Option.bind_eq_some_iff.mp h
      rw [List.cons_append, run]
      simp only [read, hnext, Option.bind_some]
      rw [ih (text ++ [c]) hmore, List.append_assoc]
      rfl

/-- A character that is in no word. -/
theorem word?_eq_none (hc : c ∉ ['t', 'r', 'u', 'e', 'f', 'a', 'l', 's', 'n'])
    (text : List Char) : word? (text ++ [c]) = none := by
  have hnot : ∀ w : List Char, (∀ d ∈ w, d ∈ ['t', 'r', 'u', 'e', 'f', 'a', 'l', 's', 'n']) →
      ¬ text ++ [c] <+: w := fun w hw hstarts =>
    hc (hw c (hstarts.subset (List.mem_append_right _ List.mem_cons_self)))
  have htrue := hnot ['t', 'r', 'u', 'e'] (by simp)
  have hfalse := hnot ['f', 'a', 'l', 's', 'e'] (by simp)
  have hnull := hnot ['n', 'u', 'l', 'l'] (by simp)
  unfold word?
  split
  · next h => exact absurd (h ▸ List.prefix_rfl) htrue
  · next h => exact absurd (h ▸ List.prefix_rfl) hfalse
  · next h => exact absurd (h ▸ List.prefix_rfl) hnull
  · refine if_neg ?_
    simp only [Bool.or_eq_true, List.isPrefixOf_iff_prefix, not_or]
    exact ⟨⟨htrue, hfalse⟩, hnull⟩

theorem begin_number {part : NumberPart} (h : NumberPart.start c = some part) :
    read .value K c = some (.number [c] part, K) := by
  have hc : c = '-' ∨ c.isDigit = true := by
    unfold NumberPart.start at h
    split_ifs at h with hminus hzero hdigit
    · exact .inl hminus
    · rw [hzero]
      exact .inr (by decide)
    · exact .inr hdigit
  have hother : ∀ d, d ≠ '-' → d.isDigit = false → c ≠ d := by
    rintro d hminus hdigit rfl
    rcases hc with hc | hc
    · exact hminus hc
    · rw [hdigit] at hc
      cases hc
  have hword : word? [c] = none := by
    refine (word?_eq_none (c := c) ?_ [])
    simp [hother]
  rw [read, if_neg, begin, if_neg (hother _ (by decide) (by decide)),
    if_neg (hother _ (by decide) (by decide)), if_neg (hother _ (by decide) (by decide)), hword, h]
  · rfl
  · simp [isBlank, hother]

/-- A number is read to its end, where it is not known yet to end. -/
theorem run_written {n : Numeral} (hn : Written n = true) (K : List Frame) (rest : List Char) :
    ∃ last, NumberPart.complete last = true ∧
      run (n.text ++ rest) (.value, K) = run rest (.number n.text last, K) := by
  unfold Written at hn
  obtain ⟨c, cs, htext⟩ := List.exists_cons_of_ne_nil n.nonempty
  rw [htext] at hn
  obtain ⟨last, hlast, hcomplete⟩ := (Option.any_eq_true _ _).mp hn
  obtain ⟨part, hstart, hmore⟩ := Option.bind_eq_some_iff.mp hlast
  refine ⟨last, hcomplete, ?_⟩
  rw [htext, List.cons_append, run]
  simp only [begin_number hstart, Option.bind_some]
  exact run_number [c] rest hmore

theorem run_numeral {n : Numeral} (hn : Written n = true) (hrest : Delimited rest) :
    run (n.text ++ rest) (.value, K) = run rest (.after (.num n), K) := by
  obtain ⟨last, hcomplete, hrun⟩ := run_written hn K rest
  obtain ⟨d, r, rfl, hd⟩ := hrest
  have hstop : last.next d = none := by
    rcases hd with rfl | rfl | rfl <;> cases last <;> decide
  rw [hrun, run, run]
  simp only [read, hstop, if_pos hcomplete, numeral?_text, Option.bind_some]

/-- Behind `[` a value begins as it does elsewhere. -/
theorem run_element (v : Json) (K : List Frame) (rest : List Char) :
    run (stringify v ++ rest) (.element, K) = run (stringify v ++ rest) (.value, K) := by
  obtain ⟨c, text, htext, hkind⟩ := exists_kind v
  have hc : isBlank c = false ∧ c ≠ ']' := by
    cases v with
    | num n =>
        have hnumeral : isNumeralChar c = true := hkind
        constructor
        · by_contra hblank
          simp only [isBlank, Bool.not_eq_false, Bool.or_eq_true, decide_eq_true_eq] at hblank
          rcases hblank with ((rfl | rfl) | rfl) | rfl <;> exact absurd hnumeral (by decide)
        · rintro rfl
          exact absurd hnumeral (by decide)
    | bool b =>
        cases b <;> rw [show c = _ from hkind] <;> decide
    | _ =>
        rw [show c = _ from hkind]
        decide
  rw [htext, List.cons_append, run, run]
  simp only [read, hc.1, Bool.false_eq_true, if_false, if_neg hc.2]

theorem put_of_notMem {fs : List (String × Json)} {k : String} (v : Json)
    (h : k ∉ fs.map Prod.fst) : put fs k v = fs ++ [(k, v)] := if_neg h

/-- The name of a field is not that of one before it. -/
theorem put_of_nodup {gs fs : List (String × Json)} {k : String} {v : Json}
    (h : ((gs ++ (k, v) :: fs).map Prod.fst).Nodup) : put gs k v = gs ++ [(k, v)] := by
  refine put_of_notMem v fun hmem => ?_
  rw [List.map_append, List.map_cons] at h
  exact (List.nodup_append.mp h).2.2 k hmem k List.mem_cons_self rfl

mutual

theorem run_stringify : ∀ {v : Json} {K : List Frame} {rest : List Char}, Printed v →
    ((∃ n, v = .num n) → Delimited rest) →
    run (stringify v ++ rest) (.value, K) = run rest (.after v, K)
  | .null, K, rest, hv, hrest => rfl
  | .bool true, K, rest, hv, hrest => rfl
  | .bool false, K, rest, hv, hrest => rfl
  | .num n, K, rest, hv, hrest => run_numeral hv (hrest ⟨n, rfl⟩)
  | .str s, K, rest, hv, hrest => by
      rw [stringify, quote, List.cons_append, run]
      refine (run_quoted false [] s.toList rest).trans ?_
      rw [List.nil_append, run]
      simp only [read, if_pos, String.ofList_toList, Option.bind_some]
      rfl
  | .arr [], K, rest, hv, hrest => rfl
  | .arr (v :: vs), K, rest, hv, hrest => by
      rw [stringify, List.cons_append, List.append_assoc, run]
      refine (run_element v _ _).trans ?_
      rw [run_stringify hv.1 fun _ => delimited_elementsText vs rest]
      exact @run_elementsText vs [] v K rest hv.2
  | .obj [], K, rest, hv, hrest => rfl
  | .obj ((k, v) :: fs), K, rest, hv, hrest => by
      rw [stringify, List.cons_append, List.append_assoc, List.cons_append, List.append_assoc]
      refine (run_name k [] _).trans ?_
      rw [run_stringify hv.2.1 fun _ => delimited_fieldsText fs rest]
      exact @run_fieldsText fs [] k v K rest hv.1 hv.2.2

theorem run_elementsText : ∀ {vs us : List Json} {v : Json} {K : List Frame} {rest : List Char},
    PrintedAll vs → run (elementsText vs ++ rest) (.after v, .elements us :: K) =
      run rest (.after (.arr (us ++ v :: vs)), K)
  | [], us, v, K, rest, hvs => rfl
  | w :: vs, us, v, K, rest, hvs => by
      rw [elementsText, List.cons_append, List.append_assoc, run]
      refine (run_stringify hvs.1 fun _ => delimited_elementsText vs rest).trans ?_
      rw [run_elementsText hvs.2, List.append_assoc]
      rfl

theorem run_fieldsText : ∀ {fs gs : List (String × Json)} {k : String} {v : Json}
    {K : List Frame} {rest : List Char}, ((gs ++ (k, v) :: fs).map Prod.fst).Nodup →
    PrintedFields fs → run (fieldsText fs ++ rest) (.after v, .field gs k :: K) =
      run rest (.after (.obj (gs ++ (k, v) :: fs)), K)
  | [], gs, k, v, K, rest, hnames, hfs => by
      rw [← put_of_nodup hnames]
      rfl
  | (l, w) :: fs, gs, k, v, K, rest, hnames, hfs => by
      have hput : read (.after v) (.field gs k :: K) ',' =
          some (.name, .fields (gs ++ [(k, v)]) :: K) := by
        rw [← put_of_nodup hnames]
        rfl
      rw [fieldsText, List.cons_append, List.append_assoc, List.cons_append, List.append_assoc,
        run, hput]
      refine (run_name l _ _).trans ?_
      rw [run_stringify hfs.1 fun _ => delimited_fieldsText fs rest]
      have hnames' : (((gs ++ [(k, v)]) ++ (l, w) :: fs).map Prod.fst).Nodup := by
        rwa [List.append_assoc]
      rw [run_fieldsText hnames' hfs.2, List.append_assoc]
      rfl

end

/-- A value that ends by itself is read to its end. -/
theorem run_whole (hv : Printed v) (hnum : ¬ ∃ n, v = .num n) (K : List Frame) :
    run (stringify v) (.value, K) = some (.after v, K) := by
  have hrun := @run_stringify v K [] hv fun h => absurd h hnum
  rwa [List.append_nil] at hrun

theorem obj_ne_num (fs : List (String × Json)) : ¬ ∃ n, Json.obj fs = .num n := by
  rintro ⟨n, h⟩
  cases h

/-- **A text is read as the value it was written for.** -/
theorem parse_stringify (hv : Printed v) : parse (stringify v) = some v := by
  by_cases hnum : ∃ n, v = .num n
  · obtain ⟨n, rfl⟩ := hnum
    obtain ⟨last, hcomplete, hrun⟩ := run_written hv [] []
    rw [List.append_nil] at hrun
    rw [parse, stringify, hrun]
    simp only [run, Option.bind_some, ended, if_pos hcomplete, numeral?_text, Option.map_some]
  · rw [parse, run_whole hv hnum]
    rfl

example : parse "[1,]".toList = none := rfl

/-! ### Texts that are cut short -/

/-- Something is still open where the text ends, if it can be read at all. -/
def Unfinished (text : List Char) : Prop := ∀ s, run text (.value, []) = some s → s.2 ≠ []

theorem Unfinished.parse_eq_none (h : Unfinished text) : parse text = none := by
  unfold parse
  cases hrun : run text (.value, []) with
  | none => rfl
  | some s =>
      obtain ⟨m, K⟩ := s
      match K, h _ hrun with
      | f :: K, _ => cases m <;> rfl

theorem run_settled (hs : Settled s) (h : run text s = some s') : Settled s' := by
  induction text generalizing s with
  | nil =>
      cases h
      exact hs
  | cons c text ih =>
      obtain ⟨s₁, hread, hrun⟩ := Option.bind_eq_some_iff.mp h
      exact ih (read_settled hs hread) hrun

/-- Behind a whole value only blanks are read. -/
theorem run_after (h : run text (.after v, []) = some s) : ∀ c ∈ text, isBlank c := by
  induction text with
  | nil => exact fun c hc => absurd hc List.not_mem_nil
  | cons c text ih =>
      obtain ⟨s₁, hread, hrun⟩ := Option.bind_eq_some_iff.mp h
      simp only [read, follow] at hread
      split_ifs at hread with hblank
      cases hread
      intro d hd
      rcases List.mem_cons.mp hd with rfl | hd
      · exact hblank
      · exact ih hrun d hd

theorem getLast?_fieldsText (fs : List (String × Json)) : (fieldsText fs).getLast? = some '}' := by
  induction fs with
  | nil => rfl
  | cons f fs ih => simp [fieldsText, List.getLast?_append, List.getLast?_cons, ih]

theorem getLast?_object (fs : List (String × Json)) :
    (stringify (.obj fs)).getLast? = some '}' := by
  cases fs with
  | nil => rfl
  | cons f fs =>
      simp [stringify, List.getLast?_append, List.getLast?_cons, getLast?_fieldsText]

/-- A part of an object's text leaves the object open. -/
theorem unfinished_of_cut {fs : List (String × Json)} (hv : Printed (.obj fs))
    (htext : stringify (.obj fs) = text ++ rest) (hne : text ≠ []) (hrest : rest ≠ []) :
    Unfinished text := by
  intro s hrun hnil
  obtain ⟨c, text, rfl⟩ := List.exists_cons_of_ne_nil hne
  have hbrace : c = '{' := by
    cases fs <;> rw [stringify, List.cons_append] at htext <;> exact (List.cons.inj htext).1.symm
  subst hbrace
  have hsettled : Settled s :=
    run_settled (s := (.field, [.fields []])) (fun h => by cases h) hrun
  obtain ⟨v, hafter⟩ := hsettled hnil
  obtain ⟨m, K⟩ := s
  cases hnil
  cases hafter
  have hwhole := run_whole hv (obj_ne_num fs) []
  rw [htext, run_append, hrun] at hwhole
  have hblank := run_after hwhole '}' ?_
  · exact absurd hblank (by decide)
  · have hlast := getLast?_object fs
    rw [htext, List.getLast?_append_of_ne_nil _ hrest] at hlast
    exact List.mem_of_getLast? hlast

/-- An object's text that is cut short is not read. -/
theorem parse_take {fs : List (String × Json)} (hv : Printed (.obj fs)) {k : Nat}
    (hcut : k < (stringify (.obj fs)).length) : parse ((stringify (.obj fs)).take k) = none := by
  cases k with
  | zero => rfl
  | succ k =>
      have hne : (stringify (.obj fs)).take (k + 1) ≠ [] := by
        rw [ne_eq, List.take_eq_nil_iff]
        rintro (hzero | hempty)
        · cases hzero
        · rw [hempty] at hcut
          cases hcut
      have hrest : (stringify (.obj fs)).drop (k + 1) ≠ [] := by
        rw [ne_eq, List.drop_eq_nil_iff]
        omega
      have hunfinished : Unfinished ((stringify (.obj fs)).take (k + 1)) :=
        unfinished_of_cut hv (List.take_append_drop (k + 1) _).symm hne hrest
      exact hunfinished.parse_eq_none

/-- A character that closes nothing leaves open what is. -/
theorem Unfinished.concat (h : Unfinished text) {c : Char} (hsquare : c ≠ ']')
    (hcurly : c ≠ '}') : Unfinished (text ++ [c]) := by
  intro s' hrun
  rw [run_append] at hrun
  obtain ⟨s, hs, hlast⟩ := Option.bind_eq_some_iff.mp hrun
  obtain ⟨s₁, hread, hsame⟩ := Option.bind_eq_some_iff.mp hlast
  cases hsame
  exact read_open hread (h s hs) hsquare hcurly

/-- A brace opens an object, or is a character of a string. -/
theorem read_brace (h : read m K '{' = some s) :
    s = (.field, .fields [] :: K) ∨ ∃ key text, s = (.string key text, K) := by
  have hfollow : ∀ v, follow v K '{' = none := by
    intro v
    match K with
    | [] => rfl
    | .elements vs :: K => rfl
    | .fields fs :: K => rfl
    | .field fs key :: K => rfl
  cases m with
  | value => exact .inl (Option.some.inj h).symm
  | element => exact .inl (Option.some.inj h).symm
  | field => cases h
  | name => cases h
  | colon key => cases h
  | word text => rw [read, word?_eq_none (by decide)] at h; cases h
  | number text part =>
      have hnext : part.next '{' = none := by cases part <;> rfl
      simp only [read, hnext, hfollow] at h
      split_ifs at h
      simp at h
  | string key text => exact .inr ⟨key, text ++ ['{'], (Option.some.inj h).symm⟩
  | escaped key text => cases h
  | unicode key text code left => cases h
  | after v => exact absurd h (by simp [read, hfollow])

/-- An object's text is read on into, whatever is open around it. -/
theorem run_object_beginning {fs : List (String × Json)} (hv : Printed (.obj fs))
    (htext : stringify (.obj fs) = '{' :: (text ++ rest)) :
    ∃ s, run text (.field, .fields [] :: K) = some s ∧ ∃ f, s.2 = f ++ K := by
  have hwhole := run_whole hv (obj_ne_num fs) []
  rw [htext] at hwhole
  have hrun : run (text ++ rest) (.field, [.fields []]) = some (.after (.obj fs), []) := hwhole
  rw [run_append] at hrun
  obtain ⟨⟨m, f⟩, hbegun, -⟩ := Option.bind_eq_some_iff.mp hrun
  exact ⟨(m, f ++ K), run_frame hbegun, f, rfl⟩

theorem ne_of_isAlpha (hc : c.isAlpha = true) (d : Char) (hd : d.isAlpha = false) : c ≠ d := by
  rintro rfl
  rw [hc] at hd
  cases hd

theorem escape_of_isAlpha (hc : c.isAlpha = true) : escape c = [c] := by
  have hother := ne_of_isAlpha hc
  have hlarge : ¬ c.toNat < 32 := by
    change (decide (c.val ≥ 'A'.val ∧ c.val ≤ 'Z'.val) ||
      (c.val ≥ 'a'.val && c.val ≤ 'z'.val)) = true at hc
    simp only [Bool.or_eq_true, Bool.and_eq_true, decide_eq_true_eq, ge_iff_le,
      UInt32.le_iff_toNat_le] at hc
    change ¬ c.val.toNat < 32
    have hA : 'A'.val.toNat = 65 := rfl
    have ha : 'a'.val.toNat = 97 := rfl
    omega
  simp [escape, hother, hlarge]

/-- A letter behind a string that ends. -/
theorem read_letter (hc : c.isAlpha = true) (key : Bool) (string : List Char) :
    (read (.string key string) K '"').bind (fun s => read s.1 s.2 c) = none := by
  have hother := ne_of_isAlpha hc
  have hblank : isBlank c = false := by
    simp [isBlank, hother]
  cases key with
  | true => simp [read, hblank, hother]
  | false =>
      simp only [read, if_true, Option.bind_some, follow, hblank, Bool.false_eq_true, if_false]
      match K with
      | [] => rfl
      | .elements vs :: K => simp [hother]
      | .fields fs :: K => rfl
      | .field fs k :: K => simp [hother]

/-- What the beginning of an object's text leaves behind something open: it opens the object
there, or runs on in a string, which its first quote closes where no name can follow. -/
theorem Unfinished.append_beginning (h : Unfinished text) {k : String} {v : Json}
    {fs : List (String × Json)} (hv : Printed (.obj ((k, v) :: fs))) {c : Char}
    (hk : k.toList.head? = some c) (hc : c.isAlpha = true) {begun rest : List Char}
    (htext : stringify (.obj ((k, v) :: fs)) = begun ++ rest) : Unfinished (text ++ begun) := by
  intro s' hrun
  rw [run_append] at hrun
  obtain ⟨⟨m, K⟩, hs, hmore⟩ := Option.bind_eq_some_iff.mp hrun
  have hopen : K ≠ [] := h _ hs
  cases begun with
  | nil =>
      cases hmore
      exact hopen
  | cons b begun =>
      obtain rfl : b = '{' := by
        rw [stringify, List.cons_append] at htext
        exact (List.cons.inj htext).1.symm
      obtain ⟨s₁, hread, hrest⟩ := Option.bind_eq_some_iff.mp hmore
      rcases read_brace hread with rfl | ⟨key, string, rfl⟩
      · obtain ⟨s, hbegun, f, hf⟩ := run_object_beginning (K := K) hv htext
        obtain rfl := Option.some.inj (hrest.symm.trans hbegun)
        rw [hf]
        exact fun hnil => hopen (List.append_eq_nil_iff.mp hnil).2
      · obtain ⟨cs, hcs⟩ : ∃ cs, k.toList = c :: cs := List.head?_eq_some_iff.mp hk
        rw [stringify, quote, hcs, quoted, escape_of_isAlpha hc] at htext
        have hquote := (List.cons.inj htext).2
        rcases begun with _ | ⟨q, _ | ⟨d, begun⟩⟩
        · cases hrest
          exact hopen
        · obtain ⟨rfl, -⟩ := List.cons.inj hquote
          obtain ⟨s₂, hclose, hsame⟩ := Option.bind_eq_some_iff.mp hrest
          cases hsame
          exact read_open (s := (.string key string, K)) hclose hopen (by decide) (by decide)
        · obtain ⟨rfl, hletter⟩ := List.cons.inj hquote
          obtain ⟨rfl, -⟩ := List.cons.inj hletter
          obtain ⟨s₂, hclose, hmore⟩ := Option.bind_eq_some_iff.mp hrest
          obtain ⟨s₃, hread, -⟩ := Option.bind_eq_some_iff.mp hmore
          have hnone := read_letter (K := K) hc key string
          rw [hclose, Option.bind_some, hread] at hnone
          cases hnone

/-! ### Lines -/

theorem newline_notMem_escape (c : Char) : '\n' ∉ escape c := by
  unfold escape
  split_ifs with h1 h2 h3 h4 h5 h6 h7 h8
  · decide
  · decide
  · decide
  · decide
  · decide
  · decide
  · decide
  · have hdigit : ∀ d < 16, '\n' ≠ Nat.digitChar d := by decide
    have hhigh := hdigit (c.toNat / 16) (by omega)
    have hlow := hdigit (c.toNat % 16) (by omega)
    simp [hhigh, hlow]
  · simpa using Ne.symm h5

theorem newline_notMem_quoted (cs : List Char) : '\n' ∉ quoted cs := by
  induction cs with
  | nil => decide
  | cons c cs ih =>
      rw [quoted, List.mem_append]
      exact not_or.mpr ⟨newline_notMem_escape c, ih⟩

theorem newline_notMem_quote (s : String) : '\n' ∉ quote s := by
  rw [quote, List.mem_cons]
  exact not_or.mpr ⟨by decide, newline_notMem_quoted s.toList⟩

mutual

/-- **A text is one line.** -/
theorem newline_notMem_stringify : ∀ v : Json, '\n' ∉ stringify v
  | .null => by decide
  | .bool true => by decide
  | .bool false => by decide
  | .num n => fun h => absurd (n.chars _ h) (by decide)
  | .str s => newline_notMem_quote s
  | .arr [] => by decide
  | .arr (v :: vs) => by
      have hv := newline_notMem_stringify v
      have hvs := newline_notMem_elementsText vs
      simp [stringify, hv, hvs]
  | .obj [] => by decide
  | .obj ((k, v) :: fs) => by
      have hk := newline_notMem_quote k
      have hv := newline_notMem_stringify v
      have hfs := newline_notMem_fieldsText fs
      simp [stringify, hk, hv, hfs]

theorem newline_notMem_elementsText : ∀ vs : List Json, '\n' ∉ elementsText vs
  | [] => by decide
  | v :: vs => by
      have hv := newline_notMem_stringify v
      have hvs := newline_notMem_elementsText vs
      simp [elementsText, hv, hvs]

theorem newline_notMem_fieldsText : ∀ fs : List (String × Json), '\n' ∉ fieldsText fs
  | [] => by decide
  | (k, v) :: fs => by
      have hk := newline_notMem_quote k
      have hv := newline_notMem_stringify v
      have hfs := newline_notMem_fieldsText fs
      simp [fieldsText, hk, hv, hfs]

end

theorem foldlM_digits {cs : List Char} (hcs : ∀ c ∈ cs, c.isDigit = true) :
    cs.foldlM NumberPart.next .whole = some .whole := by
  induction cs with
  | nil => rfl
  | cons c cs ih =>
      have hc := hcs c List.mem_cons_self
      rw [List.foldlM_cons, NumberPart.next, if_pos hc]
      exact ih fun d hd => hcs d (List.mem_cons_of_mem _ hd)

/-- The decimal digits of a number begin with a zero only if it is zero. -/
theorem head_toDigits {n : Nat} (hn : 0 < n) : (Nat.toDigits 10 n).head? ≠ some '0' := by
  induction n using Nat.strongRecOn with
  | ind n ih =>
      by_cases hsmall : n < 10
      · rw [Nat.toDigits_of_lt_base hsmall]
        simp only [List.head?_cons, ne_eq, Option.some.injEq, Nat.digitChar_eq_zero]
        omega
      · rw [Nat.toDigits_of_base_le (by omega) (by omega),
          List.head?_append_of_ne_nil _ Nat.toDigits_ne_nil]
        exact ih (n / 10) (by omega) (by omega)

theorem written_ofNat (n : Nat) : Written (.ofNat n) = true := by
  rcases Nat.eq_zero_or_pos n with rfl | hn
  · decide
  obtain ⟨c, cs, htext⟩ := List.exists_cons_of_ne_nil (Nat.toDigits_ne_nil (n := n) (b := 10))
  have hdigits : ∀ d ∈ c :: cs, d.isDigit = true := fun d hd =>
    Nat.isDigit_of_mem_toDigits (by decide) (by decide) (htext ▸ hd)
  have hhead := head_toDigits hn
  rw [htext] at hhead
  have hzero : c ≠ '0' := fun h => hhead (by rw [h]; rfl)
  have hc := hdigits c List.mem_cons_self
  have hminus : c ≠ '-' := by
    rintro rfl
    exact absurd hc (by decide)
  have hrest := foldlM_digits fun d hd => hdigits d (List.mem_cons_of_mem _ hd)
  simp only [Written, Numeral.ofNat, htext, NumberPart.start, if_neg hminus, if_neg hzero,
    if_pos hc, Option.bind_some, hrest]
  rfl

end Json
