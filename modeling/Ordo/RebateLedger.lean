import Mathlib.Algebra.Order.Group.Int
import Ordo.DecimalText
import Ordo.JsonParse

/-!
# The rebate ledger

Auction proceeds are split, and what an app is owed is credited in memory and appended to a
file as a line.  When the auction starts it replays the file, line by line.  The replay has
one handler around all lines, for a file that is not there yet; so a line that cannot be read
ends it.

`replay_exact_iff` says for which files the replayed balances are those of the lines that can
be read: for those in which the lines behind the first bad one add up to nothing.
`replay_recorded` says that what is replayed from whole lines is what was in memory.
-/

namespace Ordo

namespace RebateLedger

open Json DecimalText

/-- What each account is owed; an account that is not in the map is owed nothing. -/
abbrev Owed := String → Int

/-- `REBATE_SPLIT`, in thousandths. -/
structure Split where
  user : Int
  app : Int

structure LedgerEntry where
  opportunityId : String
  time : Nat
  totalWei : Int
  userWei : Int
  appWei : Int
  protocolWei : Int
  appRebateAddress : Option String
  searcher : String

/-- The entry as an object; an address that is `undefined` is left out. -/
def LedgerEntry.json (e : LedgerEntry) : Json :=
  .obj ([("opportunityId", .str e.opportunityId), ("at", .num (.ofNat e.time)),
    ("totalWei", .str (String.ofList (decimal e.totalWei))),
    ("splits", .obj [("userWei", .str (String.ofList (decimal e.userWei))),
      ("appWei", .str (String.ofList (decimal e.appWei))),
      ("protocolWei", .str (String.ofList (decimal e.protocolWei)))])] ++
    (e.appRebateAddress.map fun app => ("appRebateAddress", .str app)).toList ++
    [("searcher", .str e.searcher)])

def LedgerEntry.text (e : LedgerEntry) : Text := stringify e.json

/-- `JSON.stringify(entry) + "\n"` -/
def LedgerEntry.line (e : LedgerEntry) : Text := e.text ++ ['\n']

/- `toLowerCase` is the method of strings, and `bigIntOfNumber` is what `BigInt` makes of a
number, unless that throws. -/
variable (toLowerCase : String → String) (bigIntOfNumber : Numeral → Option Int)

/-- `BigInt(v)`, unless it throws. -/
def bigIntOf : Option Json → Option Int
  | none => none
  | some .null => none
  | some (.bool b) => some (if b then 1 else 0)
  | some (.num n) => bigIntOfNumber n
  | some (.str s) => (bigInt s.toList).toOption
  | some v => (bigInt (coerced v).toList).toOption

/-- The method, which only strings have. -/
def lowered : Json → Option String
  | .str s => some (toLowerCase s)
  | _ => none

def credit (owed : Owed) (c : String × Int) : Owed :=
  Function.update owed c.1 (owed c.1 + c.2)

/-- What a line credits, unless reading it throws. -/
def read (line : Text) : Option (Option (String × Int)) := do
  let e ← parse line
  if e.isNull then none
  else
    match e.field? "appRebateAddress" with
    | some address =>
        if address.isTruthy then
          let splits ← e.field? "splits"
          let wei ← bigIntOf bigIntOfNumber (splits.field? "appWei")
          let a ← lowered toLowerCase address
          return some (a, wei)
        else return none
    | none => return none

/-- The loop over the lines.  What is thrown ends it. -/
def replayLines (owed : Owed) : List Text → Owed
  | [] => owed
  | line :: lines =>
      if line = [] then replayLines owed lines
      else
        match read toLowerCase bigIntOfNumber line with
        | none => owed
        | some c => replayLines (c.elim owed (credit owed)) lines

/-- `readFileSync(this.file, "utf8").trim().split("\n")` -/
def linesOf (file : Text) : List Text := (BigIntText.trim file).splitOn '\n'

def replay (file : Text) : Owed :=
  replayLines toLowerCase bigIntOfNumber (fun _ => 0) (linesOf file)

/-- The entry of an auction's result.  An app with an empty address is not credited. -/
def entryOf (split : Split) (opportunityId searcher : String) (time : Nat) (total : Int)
    (appRebateAddress : Option String) : LedgerEntry where
  opportunityId := opportunityId
  time := time
  totalWei := total
  userWei := (total * split.user).tdiv 1000
  appWei := (total * split.app).tdiv 1000
  protocolWei := total - (total * split.user).tdiv 1000 - (total * split.app).tdiv 1000
  appRebateAddress := appRebateAddress
  searcher := searcher

/-- What `record` credits. -/
def LedgerEntry.credited (e : LedgerEntry) : Option (String × Int) :=
  match e.appRebateAddress with
  | some app => if app ≠ "" then some (toLowerCase app, e.appWei) else none
  | none => none

/-- `record`: the entry is credited and appended. -/
def record (s : Owed × Text) (e : LedgerEntry) : Owed × Text :=
  ((e.credited toLowerCase).elim s.1 (credit s.1), s.2 ++ e.line)

/-! ### What the lines add up to -/

/-- What a line credits; an empty one is skipped. -/
def creditedBy (line : Text) : Option (Option (String × Int)) :=
  if line = [] then none else read toLowerCase bigIntOfNumber line

/-- What the lines credit that can be read. -/
def wellFormed (lines : List Text) : List (Option (String × Int)) :=
  lines.filterMap (creditedBy toLowerCase bigIntOfNumber)

/-- What is credited to an account. -/
def total (credits : List (Option (String × Int))) (account : String) : Int :=
  (credits.map fun c => c.elim 0 fun c => if c.1 = account then c.2 else 0).sum

/-- Whether the line does not end the replay. -/
def Passes (line : Text) : Bool := line = [] || (read toLowerCase bigIntOfNumber line).isSome

/-- The lines from the first one that cannot be read. -/
def behindBad (lines : List Text) : List Text :=
  lines.dropWhile (Passes toLowerCase bigIntOfNumber)

section Replay

variable {toLowerCase bigIntOfNumber}

@[simp] theorem total_nil (account : String) : total [] account = 0 := rfl

theorem total_append (cs ds : List (Option (String × Int))) (account : String) :
    total (cs ++ ds) account = total cs account + total ds account := by
  rw [total, List.map_append, List.sum_append]
  rfl

theorem credit_apply (owed : Owed) (c : String × Int) (account : String) :
    credit owed c account = owed account + if c.1 = account then c.2 else 0 := by
  unfold credit
  by_cases h : c.1 = account
  · rw [if_pos h, ← h, Function.update_self]
  · rw [if_neg h, Function.update_of_ne (Ne.symm h), Int.add_zero]

/-- **The replay** credits the lines in front of the first bad one. -/
theorem replayLines_apply (owed : Owed) (lines : List Text) (account : String) :
    replayLines toLowerCase bigIntOfNumber owed lines account =
      owed account + total (wellFormed toLowerCase bigIntOfNumber
        (lines.takeWhile (Passes toLowerCase bigIntOfNumber))) account := by
  induction lines generalizing owed with
  | nil => simp [replayLines, wellFormed]
  | cons line lines ih =>
      by_cases hempty : line = []
      · have hpass : Passes toLowerCase bigIntOfNumber line = true := by simp [Passes, hempty]
        have hnone : creditedBy toLowerCase bigIntOfNumber line = none := if_pos hempty
        rw [replayLines, if_pos hempty, ih, List.takeWhile_cons_of_pos hpass, wellFormed,
          wellFormed, List.filterMap_cons_none hnone]
      · cases hread : read toLowerCase bigIntOfNumber line with
        | none =>
            have hstop : ¬ Passes toLowerCase bigIntOfNumber line = true := by
              simp [Passes, hempty, hread]
            rw [List.takeWhile_cons_of_neg hstop]
            simp [replayLines, hempty, hread, wellFormed]
        | some c =>
            have hpass : Passes toLowerCase bigIntOfNumber line = true := by
              simp [Passes, hread]
            have hline : creditedBy toLowerCase bigIntOfNumber line = some c :=
              (if_neg hempty).trans hread
            have hnext : replayLines toLowerCase bigIntOfNumber owed (line :: lines) =
                replayLines toLowerCase bigIntOfNumber (c.elim owed (credit owed)) lines := by
              rw [replayLines, if_neg hempty, hread]
            rw [hnext, ih, List.takeWhile_cons_of_pos hpass, wellFormed, wellFormed,
              List.filterMap_cons_some hline]
            cases c with
            | none => simp [total]
            | some c =>
                simp only [Option.elim_some, credit_apply, total, List.map_cons, List.sum_cons]
                omega

end Replay

/-- **The replayed balances** are those of the lines that can be read, for exactly the files
in which the lines that can be read behind the first bad one add up to nothing. -/
theorem replay_exact_iff (file : Text) :
    (∀ account, replay toLowerCase bigIntOfNumber file account =
      total (wellFormed toLowerCase bigIntOfNumber (linesOf file)) account) ↔
    ∀ account, total (wellFormed toLowerCase bigIntOfNumber
      (behindBad toLowerCase bigIntOfNumber (linesOf file))) account = 0 := by
  refine forall_congr' fun account => ?_
  have hsplit : wellFormed toLowerCase bigIntOfNumber (linesOf file) =
      wellFormed toLowerCase bigIntOfNumber
          ((linesOf file).takeWhile (Passes toLowerCase bigIntOfNumber)) ++
        wellFormed toLowerCase bigIntOfNumber
          (behindBad toLowerCase bigIntOfNumber (linesOf file)) := by
    rw [wellFormed, wellFormed, wellFormed, ← List.filterMap_append, behindBad,
      List.takeWhile_append_dropWhile]
  rw [replay, replayLines_apply, hsplit, total_append]
  omega

/-- What a crash leaves of a line, and behind it the lines of two auctions. -/
def tornFile : Text :=
  ['{', '"'] ++ (entryOf ⟨900, 50⟩ "o2" "0xs" 2 100 (some "0xa")).line ++
    (entryOf ⟨900, 50⟩ "o3" "0xs" 3 1000 (some "0xa")).line

/-- The line behind the torn one can be read, and is not credited. -/
theorem credit_is_dropped : ¬ ∀ (toLowerCase : String → String)
    (bigIntOfNumber : Numeral → Option Int) (file : Text) (account : String),
    replay toLowerCase bigIntOfNumber file account =
      total (wellFormed toLowerCase bigIntOfNumber (linesOf file)) account := by
  intro h
  have hfile := h id (fun _ => none) tornFile "0xa"
  have hreplayed : replay id (fun _ => none) tornFile "0xa" = 0 := by decide +kernel
  have htotal : total (wellFormed id (fun _ => none) (linesOf tornFile)) "0xa" = 50 := by
    decide +kernel
  rw [hreplayed, htotal] at hfile
  cases hfile

/-! ### Whole lines -/

section Recorded

variable {toLowerCase bigIntOfNumber} {e : LedgerEntry}

theorem printed_entry (e : LedgerEntry) : Printed e.json := by
  have hsplits : ["userWei", "appWei", "protocolWei"].Nodup := by decide
  have hsplitsPrinted : Printed (.obj [("userWei", .str (String.ofList (decimal e.userWei))),
      ("appWei", .str (String.ofList (decimal e.appWei))),
      ("protocolWei", .str (String.ofList (decimal e.protocolWei)))]) :=
    ⟨hsplits, trivial, trivial, trivial, trivial⟩
  unfold LedgerEntry.json
  cases e.appRebateAddress with
  | none =>
      have hnames : ["opportunityId", "at", "totalWei", "splits", "searcher"].Nodup := by decide
      exact ⟨hnames, trivial, written_ofNat _, trivial, hsplitsPrinted, trivial, trivial⟩
  | some app =>
      have hnames : ["opportunityId", "at", "totalWei", "splits", "appRebateAddress",
        "searcher"].Nodup := by decide
      exact ⟨hnames, trivial, written_ofNat _, trivial, hsplitsPrinted, trivial, trivial, trivial⟩

theorem parse_text (e : LedgerEntry) : parse e.text = some e.json :=
  parse_stringify (printed_entry e)

theorem newline_notMem_text (e : LedgerEntry) : '\n' ∉ e.text :=
  newline_notMem_stringify e.json

/-- **A recorded line** credits what `record` credits. -/
theorem read_text (e : LedgerEntry) :
    read toLowerCase bigIntOfNumber e.text = some (e.credited toLowerCase) := by
  have hwei : bigIntOf bigIntOfNumber
      (some (.str (String.ofList (decimal e.appWei)))) = some e.appWei := by
    rw [bigIntOf, String.toList_ofList, bigInt_decimal]
    rfl
  rw [read, parse_text, LedgerEntry.credited, LedgerEntry.json]
  cases e.appRebateAddress with
  | none => simp [isNull, field?, List.lookup_cons]
  | some app =>
      by_cases hempty : app = ""
      · simp [isNull, isTruthy, field?, List.lookup_cons, hempty]
      · simp [isNull, isTruthy, field?, List.lookup_cons, hempty, hwei, lowered]

theorem text_ne_nil (e : LedgerEntry) : e.text ≠ [] := List.cons_ne_nil _ _

theorem splitOn_lines (es : List LedgerEntry) (e : LedgerEntry) :
    (es.flatMap LedgerEntry.line ++ e.text).splitOn '\n' = (es ++ [e]).map LedgerEntry.text := by
  induction es with
  | nil => exact List.splitOn_eq_singleton (newline_notMem_text e)
  | cons first es ih =>
      rw [List.flatMap_cons, LedgerEntry.line, List.append_assoc, List.append_assoc,
        List.singleton_append, List.splitOn_append_cons_self_of_not_mem (newline_notMem_text first),
        ih]
      rfl

/-- The last line end is trimmed off. -/
theorem linesOf_recorded (es : List LedgerEntry) (e : LedgerEntry) :
    linesOf ((es ++ [e]).flatMap LedgerEntry.line) = (es ++ [e]).map LedgerEntry.text := by
  have hfile : (es ++ [e]).flatMap LedgerEntry.line =
      es.flatMap LedgerEntry.line ++ e.text ++ ['\n'] := by
    rw [List.flatMap_append, List.flatMap_singleton, LedgerEntry.line, List.append_assoc]
  have hbrace : BigIntText.isSpace '{' = false := by decide
  have hlast : (es.flatMap LedgerEntry.line ++ e.text).getLast? = some '}' := by
    rw [List.getLast?_append_of_ne_nil _ (text_ne_nil e)]
    exact getLast?_object _
  have hhead : (es.flatMap LedgerEntry.line ++ e.text).head? = some '{' := by
    cases es <;> rfl
  have hkept : BigIntText.trim (es.flatMap LedgerEntry.line ++ e.text) =
      es.flatMap LedgerEntry.line ++ e.text := by
    refine trim_of_ends (fun c hc => ?_) fun c hc => ?_
    · rw [hhead] at hc
      obtain rfl := Option.some.inj hc
      exact hbrace
    · rw [hlast] at hc
      obtain rfl := Option.some.inj hc
      decide
  rw [linesOf, hfile, trim_append_space hhead hbrace (by decide), hkept, splitOn_lines]

theorem replayLines_recorded (owed : Owed) (file : Text) (es : List LedgerEntry) :
    replayLines toLowerCase bigIntOfNumber owed (es.map LedgerEntry.text) =
      (es.foldl (record toLowerCase) (owed, file)).1 := by
  induction es generalizing owed file with
  | nil => rfl
  | cons e es ih =>
      rw [List.map_cons, replayLines, if_neg (text_ne_nil e), read_text]
      exact ih _ _

theorem file_recorded (s : Owed × Text) (es : List LedgerEntry) :
    (es.foldl (record toLowerCase) s).2 = s.2 ++ es.flatMap LedgerEntry.line := by
  induction es generalizing s with
  | nil => exact (List.append_nil _).symm
  | cons e es ih =>
      rw [List.foldl_cons, ih, List.flatMap_cons, ← List.append_assoc]
      rfl

/-- **What was in memory** is what a replay of the file gives. -/
theorem replay_recorded (es : List LedgerEntry) :
    replay toLowerCase bigIntOfNumber (es.foldl (record toLowerCase) (fun _ => 0, [])).2 =
      (es.foldl (record toLowerCase) (fun _ => 0, [])).1 := by
  rw [file_recorded, List.nil_append]
  rcases List.eq_nil_or_concat es with rfl | ⟨es, e, rfl⟩
  · rfl
  · rw [List.concat_eq_append, replay, linesOf_recorded, replayLines_recorded]

end Recorded

end RebateLedger

end Ordo
