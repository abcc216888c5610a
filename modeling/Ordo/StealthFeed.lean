import Mathlib.Data.List.Pairwise
import Ordo.Blocks
import Ordo.JsonParse

/-!
# The announcement feed

The Stealth page scans a list of announcements that the server keeps.  A scan reads the
head of the chain, then a bounded number of block ranges at once, and moves on only when
all of them have come back; what it has is written to a file, and a new process begins
with what the file holds.

`feed_complete` says that the list is the announcements of all blocks that have been
scanned, in order and each once, whatever is thrown, cut off or lost on the way.

The chain is given with its blocks that are still to come.  Quantities in replies are
numbers, and every character that is written to the file is of one byte.
-/

namespace Ordo

namespace StealthFeed

open Json

/-- What an `Announcement` event says, as `decodeEventLog` returns it. -/
structure Args where
  schemeId : String
  stealthAddress : String
  caller : String
  ephemeralPubKey : String
  metadata : String
  deriving DecidableEq

structure Log where
  blockNumber : Nat
  transactionHash : String
  logIndex : Nat
  topics : List String
  data : String
  deriving DecidableEq

structure Announcement where
  block : Nat
  txHash : String
  logIndex : Nat
  schemeId : String
  stealthAddress : String
  caller : String
  ephemeralPublicKey : String
  metadata : String
  deriving DecidableEq

structure State where
  scannedFrom : Option Int
  scannedTo : Option Int
  announcements : List Announcement
  head : Option Int
  deriving DecidableEq

instance lawfulBEq_key : LawfulBEq (String × Nat) := inferInstance

/-- Nothing has been scanned. -/
def empty : State := ⟨none, none, [], none⟩

/-! ### The file -/

section File

/-- An integer, as it is printed. -/
def numeralOf : Int → Numeral
  | .ofNat n => .ofNat n
  | .negSucc n =>
      { text := '-' :: Nat.toDigits 10 (n + 1)
        nonempty := List.cons_ne_nil _ _
        chars := fun c hc => by
          rcases List.mem_cons.mp hc with rfl | hc
          · rfl
          · exact (Numeral.ofNat (n + 1)).chars c hc }

/-- The integer that a number is, if its text is one of digits. -/
def intOf (n : Numeral) : Option Int :=
  match n.text with
  | '-' :: ds => if ds.all Char.isDigit then some (-(Nat.ofDigitChars 10 ds 0 : Int)) else none
  | ds => if ds.all Char.isDigit then some (Nat.ofDigitChars 10 ds 0) else none

def intJson (i : Int) : Json := .num (numeralOf i)

def orNull : Option Int → Json
  | some i => intJson i
  | none => .null

def Announcement.json (a : Announcement) : Json :=
  .obj [("block", intJson a.block), ("txHash", .str a.txHash), ("logIndex", intJson a.logIndex),
    ("schemeId", .str a.schemeId), ("stealthAddress", .str a.stealthAddress),
    ("caller", .str a.caller), ("ephemeralPublicKey", .str a.ephemeralPublicKey),
    ("metadata", .str a.metadata)]

/-- `JSON.stringify` leaves out a head that is not there. -/
def State.fields (s : State) : List (String × Json) :=
  [("scannedFrom", orNull s.scannedFrom), ("scannedTo", orNull s.scannedTo),
    ("announcements", .arr (s.announcements.map Announcement.json))] ++
    (s.head.map fun head => ("head", intJson head)).toList

def State.text (s : State) : List Char := stringify (.obj s.fields)

def int? : Json → Option Int
  | .num n => intOf n
  | _ => none

def str? : Json → Option String
  | .str s => some s
  | _ => none

def announcement? (v : Json) : Option Announcement := do
  let block ← (← v.field? "block") |> int?
  let logIndex ← (← v.field? "logIndex") |> int?
  some
    { block := block.toNat
      txHash := ← (← v.field? "txHash") |> str?
      logIndex := logIndex.toNat
      schemeId := ← (← v.field? "schemeId") |> str?
      stealthAddress := ← (← v.field? "stealthAddress") |> str?
      caller := ← (← v.field? "caller") |> str?
      ephemeralPublicKey := ← (← v.field? "ephemeralPublicKey") |> str?
      metadata := ← (← v.field? "metadata") |> str? }

/-- `Array.isArray(d.announcements) && Number.isFinite(d.scannedTo)`, and what `d` then is. -/
def state? (d : Json) : Option State := do
  let .arr announcements ← d.field? "announcements" | none
  let scannedTo ← (← d.field? "scannedTo") |> int?
  some
    { scannedFrom := (d.field? "scannedFrom").bind int?
      scannedTo := some scannedTo
      announcements := announcements.filterMap announcement?
      head := (d.field? "head").bind int? }

/-- A file that is missing or is not what was written gives the empty state. -/
def load (file : Option (List Char)) : State :=
  ((file.bind parse).bind state?).getD empty

end File

/-! ### The chain and the node -/

/-- The announcer's logs, block by block, and the block it was deployed in. -/
structure Chain where
  logs : Nat → List Log
  deployed : Nat
  blockNumber : ∀ n, ∀ l ∈ logs n, l.blockNumber = n
  ordered : ∀ n, (logs n).Pairwise fun l l' => l.logIndex < l'.logIndex
  /-- A transaction is in one block. -/
  once : ∀ n m, ∀ l ∈ logs n, ∀ l' ∈ logs m, l.transactionHash = l'.transactionHash → n = m

structure Range where
  first : Int
  last : Int
  deriving DecidableEq

/-- The logs of a range of blocks. -/
def Chain.between (c : Chain) (r : Range) : List Log := Blocks.between c.logs r.first r.last

/-- What a node answers during a scan: the truth, or nothing. -/
structure Node (c : Chain) where
  blockNumber : Option Nat
  /-- Whether there is code at a block. -/
  hasCode : Nat → Option Bool
  getLogs : Range → Option (List Log)
  hasCode_exact : ∀ n b, hasCode n = some b → (b = true ↔ c.deployed ≤ n)
  getLogs_exact : ∀ r ls, getLogs r = some ls → ls.Perm (c.between r)

section Scan

variable (decodeEventLog : List String → String → Option Args) (WINDOW MAX_CALLS_PER_TICK : Nat)
  {c : Chain}

def decode (log : Log) : Option Announcement :=
  (decodeEventLog log.topics log.data).map fun args =>
    { block := log.blockNumber
      txHash := log.transactionHash
      logIndex := log.logIndex
      schemeId := args.schemeId
      stealthAddress := args.stealthAddress
      caller := args.caller
      ephemeralPublicKey := args.ephemeralPubKey
      metadata := args.metadata }

/-- The loop of the binary search. -/
def search (hasCode : Nat → Option Bool) (lo hi : Nat) : Option Nat :=
  if lo < hi then
    let mid := (lo + hi) / 2
    match hasCode mid with
    | none => none
    | some true => search hasCode lo mid
    | some false => search hasCode (mid + 1) hi
  else some lo
termination_by hi - lo

/-- `none` throws. -/
def deploymentBlock (node : Node c) (head : Nat) : Option Nat :=
  match node.hasCode head with
  | some true => search node.hasCode 0 head
  | _ => none

/-- The ranges of a scan, from a block on. -/
def ranges (head : Int) : Nat → Int → List Range
  | 0, _ => []
  | calls + 1, cursor =>
      if cursor ≤ head then
        let last := min head (cursor + WINDOW - 1)
        ⟨cursor, last⟩ :: ranges head calls (last + 1)
      else []

/-- `a.block - b.block || a.logIndex - b.logIndex` is not positive. -/
def Announcement.le (a b : Announcement) : Bool :=
  a.block < b.block || a.block = b.block && a.logIndex ≤ b.logIndex

/-- `${a.txHash}:${a.logIndex}`. -/
def Announcement.key (a : Announcement) : String × Nat := (a.txHash, a.logIndex)

/-- The state with what was found, and as far as it was read. -/
def merge (s : State) (head last : Int) (found : List Announcement) : State :=
  { s with
    scannedTo := some last
    announcements :=
      if found = [] then s.announcements
      else
        let seen := s.announcements.map Announcement.key
        (s.announcements ++ found.filter fun a => a.key ∉ seen).mergeSort Announcement.le
    head := some head }

/-- The state that a scan reads from, and the end of what it has; `none` throws. -/
def begin (node : Node c) (head : Nat) (s : State) : Option (State × Int) :=
  match s.scannedTo with
  | some last => some (s, last)
  | none =>
      (deploymentBlock node head).map fun first : Nat =>
        (⟨some (first : Int), some ((first : Int) - 1), [], none⟩, (first : Int) - 1)

/-- A scan, and whether it comes to its `save`. -/
def catchUp (node : Node c) (s : State) : State × Bool :=
  match node.blockNumber with
  | none => (s, false)
  | some head =>
      match begin node head s with
      | none => (s, false)
      | some (s, last) =>
          let rs := ranges WINDOW head MAX_CALLS_PER_TICK (last + 1)
          match rs.getLast?, rs.mapM node.getLogs with
          | some r, some batches =>
              (merge s head r.last (batches.flatten.filterMap (decode decodeEventLog)), true)
          | _, _ => (s, false)

/-- The process and its file. -/
structure World where
  state : State
  file : Option (List Char)

/-- What happens.  A save that fails leaves the file as it is, or with the first of what
was to be written. -/
inductive Event (c : Chain) where
  | scan (node : Node c) (saved : Option Nat)
  | restart
  | torn (k : Nat)
  | removed

def step (w : World) : Event c → World
  | .scan node saved =>
      let (s, saves) := catchUp decodeEventLog WINDOW MAX_CALLS_PER_TICK node w.state
      match saves, saved with
      | true, some k => ⟨s, some (s.text.take k)⟩
      | _, _ => ⟨s, w.file⟩
  | .restart => ⟨load w.file, w.file⟩
  | .torn k => ⟨w.state, w.file.map (List.take k)⟩
  | .removed => ⟨w.state, none⟩

def run (w : World) (es : List (Event c)) : World :=
  es.foldl (step decodeEventLog WINDOW MAX_CALLS_PER_TICK) w

end Scan

/-- A first process, without a file. -/
def started : World := ⟨load none, none⟩

/-- The order of announcements, which no two of them share. -/
def Announcement.Before (a b : Announcement) : Prop :=
  a.block < b.block ∨ a.block = b.block ∧ a.logIndex < b.logIndex

/-- The announcements are all those of the blocks that were scanned, from the first one
that there can be any in, in order and each once. -/
structure Complete (decodeEventLog : List String → String → Option Args) (c : Chain)
    (s : State) : Prop where
  all : (s.scannedFrom = none ∧ s.scannedTo = none ∧ s.announcements = []) ∨
    s.scannedFrom = some (c.deployed : Int) ∧ ∃ last, s.scannedTo = some last ∧
      (c.deployed : Int) - 1 ≤ last ∧
      ∀ a, a ∈ s.announcements ↔ ∃ n : Nat, c.deployed ≤ n ∧ (n : Int) ≤ last ∧
        ∃ l ∈ c.logs n, decode decodeEventLog l = some a
  ordered : s.announcements.Pairwise Announcement.Before

section Texts

theorem all_digits (n : Nat) : (Nat.toDigits 10 n).all Char.isDigit = true :=
  List.all_eq_true.mpr fun _ hc => Nat.isDigit_of_mem_toDigits (by decide) (by decide) hc

theorem intOf_numeralOf (i : Int) : intOf (numeralOf i) = some i := by
  cases i with
  | ofNat n =>
      have hminus : ∀ ds, Nat.toDigits 10 n ≠ '-' :: ds := by
        intro ds heq
        have hdigit := Nat.isDigit_of_mem_toDigits (b := 10) (n := n) (c := '-') (by decide)
          (by decide) (heq ▸ List.mem_cons_self)
        exact absurd hdigit (by decide)
      have htext : (numeralOf (.ofNat n)).text = Nat.toDigits 10 n := rfl
      rw [intOf, htext]
      split
      next ds heq => exact absurd heq (hminus ds)
      next => rw [if_pos (all_digits n), Nat.ofDigitChars_ten_toDigits, Int.ofNat_eq_natCast]
  | negSucc n =>
      have htext : (numeralOf (.negSucc n)).text = '-' :: Nat.toDigits 10 (n + 1) := rfl
      rw [intOf, htext]
      split
      next ds heq =>
        obtain ⟨-, rfl⟩ := List.cons.inj heq
        rw [if_pos (all_digits (n + 1)), Nat.ofDigitChars_ten_toDigits]
        rfl
      next hother => exact absurd rfl (hother _)

theorem written_numeralOf (i : Int) : Written (numeralOf i) = true := by
  cases i with
  | ofNat n => exact written_ofNat n
  | negSucc n =>
      obtain ⟨c, cs, htext⟩ :=
        List.exists_cons_of_ne_nil (Nat.toDigits_ne_nil (n := n + 1) (b := 10))
      have hdigits : ∀ d ∈ c :: cs, d.isDigit = true := fun d hd =>
        Nat.isDigit_of_mem_toDigits (by decide) (by decide) (htext ▸ hd)
      have hhead := head_toDigits (Nat.succ_pos n)
      rw [htext] at hhead
      have hzero : c ≠ '0' := fun h => hhead (by rw [h]; rfl)
      have hrest := foldlM_digits fun d hd => hdigits d (List.mem_cons_of_mem _ hd)
      have hnumber : (numeralOf (.negSucc n)).text = '-' :: c :: cs := by
        rw [← htext]
        rfl
      simp only [Written, hnumber, NumberPart.start, if_pos, Option.bind_some, List.foldlM_cons,
        NumberPart.next, if_neg hzero, if_pos (hdigits c List.mem_cons_self),
        Option.bind_eq_bind, hrest]
      rfl

theorem printed_orNull (i : Option Int) : Printed (orNull i) := by
  cases i with
  | none => trivial
  | some i => exact written_numeralOf i

theorem printed_announcement (a : Announcement) : Printed a.json := by
  have hnames : ["block", "txHash", "logIndex", "schemeId", "stealthAddress", "caller",
      "ephemeralPublicKey", "metadata"].Nodup := by decide
  exact ⟨hnames, written_numeralOf _, trivial, written_numeralOf _, trivial, trivial, trivial,
    trivial, trivial, trivial⟩

theorem printed_fields (s : State) : Printed (.obj s.fields) := by
  unfold State.fields
  cases s.head with
  | none =>
      have hnames : ["scannedFrom", "scannedTo", "announcements"].Nodup := by decide
      exact ⟨hnames, printed_orNull _, printed_orNull _, printedAll_map printed_announcement _,
        trivial⟩
  | some head =>
      have hnames : ["scannedFrom", "scannedTo", "announcements", "head"].Nodup := by decide
      exact ⟨hnames, printed_orNull _, printed_orNull _, printedAll_map printed_announcement _,
        written_numeralOf _, trivial⟩

theorem int?_intJson (i : Int) : int? (intJson i) = some i := intOf_numeralOf i

theorem int?_orNull (i : Option Int) : int? (orNull i) = i := by
  cases i with
  | none => rfl
  | some i => exact int?_intJson i

theorem announcement?_json (a : Announcement) : announcement? a.json = some a := by
  simp [announcement?, Announcement.json, field?, List.lookup_cons, str?, int?_intJson]

theorem filterMap_json (as : List Announcement) :
    as.filterMap (fun a => announcement? a.json) = as := by
  have hid : (fun a : Announcement => announcement? a.json) = some := funext announcement?_json
  rw [hid, List.filterMap_some]

/-- A state that has been scanned to somewhere is read back. -/
theorem state?_fields {s : State} {last : Int} (hlast : s.scannedTo = some last) :
    state? (.obj s.fields) = some s := by
  obtain ⟨scannedFrom, scannedTo, announcements, head⟩ := s
  obtain rfl : scannedTo = some last := hlast
  cases head with
  | none =>
      simp [state?, State.fields, field?, List.lookup_cons, int?_orNull, filterMap_json]
  | some head =>
      simp [state?, State.fields, field?, List.lookup_cons, int?_orNull, filterMap_json, int?_intJson]

/-- **What a new process begins with**: what was written, or nothing if it has been cut. -/
theorem load_take {s : State} {last : Int} (hlast : s.scannedTo = some last) (k : Nat) :
    load (some (s.text.take k)) = s ∨ load (some (s.text.take k)) = empty := by
  rcases lt_or_ge k s.text.length with hcut | hwhole
  · refine Or.inr ?_
    rw [load, Option.bind_some, State.text, parse_take (printed_fields s) hcut]
    rfl
  · refine Or.inl ?_
    rw [List.take_of_length_le hwhole, load, Option.bind_some, State.text,
      parse_stringify (printed_fields s), Option.bind_some, state?_fields hlast, Option.getD_some]

end Texts

/-! ### The blocks of a scan -/

section Blocks

variable {decodeEventLog : List String → String → Option Args} {c : Chain}

/-- The ranges of a scan follow each other without a gap. -/
theorem ranges_spec (WINDOW : Nat) (head : Int) (calls : Nat) {cursor : Int} {r : Range}
    (hcursor : 0 ≤ cursor) (hlast : (ranges WINDOW head calls cursor).getLast? = some r) :
    cursor - 1 ≤ r.last ∧
      (ranges WINDOW head calls cursor).flatMap c.between = c.between ⟨cursor, r.last⟩ := by
  induction calls generalizing cursor with
  | zero => cases hlast
  | succ calls ih =>
      rw [ranges] at hlast ⊢
      split at hlast
      next hin =>
        rw [if_pos hin]
        dsimp only at hlast ⊢
        generalize hend : min head (cursor + WINDOW - 1) = last at hlast ⊢
        have hnext : cursor - 1 ≤ last := by omega
        rw [List.flatMap_cons]
        cases hrest : (ranges WINDOW head calls (last + 1)).getLast? with
        | none =>
            rw [List.getLast?_eq_none_iff] at hrest
            rw [hrest] at hlast ⊢
            obtain rfl := Option.some.inj hlast
            exact ⟨hnext, List.append_nil _⟩
        | some r' =>
            rw [List.getLast?_cons, hrest, Option.getD_some] at hlast
            obtain rfl := Option.some.inj hlast
            obtain ⟨hle, htile⟩ := ih (show 0 ≤ last + 1 by omega) hrest
            have hgrows : last ≤ r'.last := by omega
            rw [htile]
            exact ⟨Int.le_trans hnext hgrows, Blocks.between_append hcursor hnext hgrows⟩
      next => cases hlast

/-- Replies that are all there are the logs of all ranges. -/
theorem flatten_replies (node : Node c) {rs : List Range} {batches : List (List Log)}
    (h : rs.mapM node.getLogs = some batches) : batches.flatten.Perm (rs.flatMap c.between) := by
  induction rs generalizing batches with
  | nil =>
      cases h
      exact List.Perm.refl _
  | cons r rs ih =>
      rw [List.mapM_cons] at h
      obtain ⟨logs, hlogs, h⟩ := Option.bind_eq_some_iff.mp h
      obtain ⟨rest, hrest, h⟩ := Option.bind_eq_some_iff.mp h
      cases h
      rw [List.flatten_cons, List.flatMap_cons]
      exact (node.getLogs_exact r logs hlogs).append (ih hrest)

/-- The binary search finds the block of the deployment. -/
theorem search_eq (node : Node c) {lo hi n : Nat} (hlo : lo ≤ c.deployed) (hhi : c.deployed ≤ hi)
    (h : search node.hasCode lo hi = some n) : n = c.deployed := by
  induction lo, hi using search.induct node.hasCode with
  | case1 lo hi hlt mid hthrown =>
      rw [search, if_pos hlt] at h
      simp only [mid] at hthrown
      simp only [hthrown] at h
      cases h
  | case2 lo hi hlt mid hcode ih =>
      rw [search, if_pos hlt] at h
      simp only [mid] at hcode
      simp only [hcode] at h
      exact ih hlo ((node.hasCode_exact _ _ hcode).mp rfl) h
  | case3 lo hi hlt mid hcode ih =>
      rw [search, if_pos hlt] at h
      simp only [mid] at hcode
      simp only [hcode] at h
      have hbelow : ¬ c.deployed ≤ (lo + hi) / 2 := fun hle => by
        have htrue := (node.hasCode_exact _ _ hcode).mpr hle
        cases htrue
      exact ih (by omega) hhi h
  | case4 lo hi hlt =>
      rw [search, if_neg hlt] at h
      obtain rfl := Option.some.inj h
      omega

theorem deploymentBlock_eq (node : Node c) {head n : Nat}
    (h : deploymentBlock node head = some n) : n = c.deployed := by
  unfold deploymentBlock at h
  split at h
  next hcode =>
    exact search_eq node (Nat.zero_le _) ((node.hasCode_exact _ _ hcode).mp rfl) h
  next => cases h

end Blocks

/-! ### The list -/

section List

variable {decodeEventLog : List String → String → Option Args} {c : Chain} {a b : Announcement}

theorem Announcement.le_of_before (h : a.Before b) : a.le b = true := by
  simp only [Announcement.le, Bool.or_eq_true, Bool.and_eq_true, decide_eq_true_eq]
  unfold Announcement.Before at h
  omega

theorem Announcement.Before.asymm (h : a.Before b) (h' : b.le a = true) : False := by
  simp only [Announcement.le, Bool.or_eq_true, Bool.and_eq_true, decide_eq_true_eq] at h'
  unfold Announcement.Before at h
  omega

theorem Announcement.le_trans (a b d : Announcement) (h : a.le b = true) (h' : b.le d = true) :
    a.le d = true := by
  simp only [Announcement.le, Bool.or_eq_true, Bool.and_eq_true, decide_eq_true_eq] at h h' ⊢
  omega

theorem Announcement.le_total (a b : Announcement) : (a.le b || b.le a) = true := by
  simp only [Announcement.le, Bool.or_eq_true, Bool.and_eq_true, decide_eq_true_eq]
  omega

/-- In a list in order no two announcements are at the same place. -/
theorem eq_of_le_le {l : List Announcement} (hl : l.Pairwise Announcement.Before)
    (ha : a ∈ l) (hb : b ∈ l) (hab : a.le b = true) (hba : b.le a = true) : a = b := by
  by_contra hne
  have hapart : l.Pairwise fun a b => ¬ (a.le b = true ∧ b.le a = true) :=
    hl.imp fun h hboth => h.asymm hboth.2
  have hsymm : Std.Symm fun a b : Announcement => ¬ (a.le b = true ∧ b.le a = true) :=
    ⟨fun _ _ h hboth => h hboth.symm⟩
  exact hapart.forall ha hb hne ⟨hab, hba⟩

theorem decode_place {l : Log} (h : decode decodeEventLog l = some a) :
    a.block = l.blockNumber ∧ a.logIndex = l.logIndex ∧ a.txHash = l.transactionHash := by
  obtain ⟨args, -, rfl⟩ := Option.map_eq_some_iff.mp h
  exact ⟨rfl, rfl, rfl⟩

/-- What is announced in a range of blocks. -/
def announced (decodeEventLog : List String → String → Option Args) (c : Chain) (r : Range) :
    List Announcement := (c.between r).filterMap (decode decodeEventLog)

theorem mem_announced {first last : Int} (hfirst : 0 ≤ first) :
    a ∈ announced decodeEventLog c ⟨first, last⟩ ↔ ∃ n : Nat, first ≤ n ∧ (n : Int) ≤ last ∧
      ∃ l ∈ c.logs n, decode decodeEventLog l = some a := by
  rw [announced, List.mem_filterMap]
  constructor
  · rintro ⟨l, hl, ha⟩
    obtain ⟨n, hge, hle, hl⟩ := (Blocks.mem_between hfirst).mp hl
    exact ⟨n, hge, hle, l, hl, ha⟩
  · rintro ⟨n, hge, hle, l, hl, ha⟩
    exact ⟨l, (Blocks.mem_between hfirst).mpr ⟨n, hge, hle, hl⟩, ha⟩

/-- Blocks are in order, and logs in a block. -/
theorem announced_ordered (r : Range) :
    (announced decodeEventLog c r).Pairwise Announcement.Before := by
  rw [announced, List.pairwise_filterMap]
  apply Blocks.pairwise_between
  · intro n
    refine (c.ordered n).imp_of_mem fun {l l'} hl hl' hlt a ha b hb => ?_
    obtain ⟨hblock, hindex, -⟩ := decode_place ha
    obtain ⟨hblock', hindex', -⟩ := decode_place hb
    have hn := c.blockNumber n l hl
    have hn' := c.blockNumber n l' hl'
    unfold Announcement.Before
    omega
  · intro n m hlt l hl l' hl' a ha b hb
    obtain ⟨hblock, -, -⟩ := decode_place ha
    obtain ⟨hblock', -, -⟩ := decode_place hb
    have hn := c.blockNumber n l hl
    have hm := c.blockNumber m l' hl'
    unfold Announcement.Before
    omega

/-- An announcement of a later block is not one that was seen. -/
theorem key_ne {first mid last : Int} (hfirst : 0 ≤ first) (hmid : 0 ≤ mid + 1)
    (ha : a ∈ announced decodeEventLog c ⟨first, mid⟩)
    (hb : b ∈ announced decodeEventLog c ⟨mid + 1, last⟩) : b.key ≠ a.key := by
  obtain ⟨n, -, hn, l, hl, ha⟩ := (mem_announced hfirst).mp ha
  obtain ⟨m, hm, -, l', hl', hb⟩ := (mem_announced hmid).mp hb
  intro hkey
  obtain ⟨-, -, htx⟩ := decode_place ha
  obtain ⟨-, -, htx'⟩ := decode_place hb
  have hsame := c.once n m l hl l' hl' (by rw [← htx, ← htx', (Prod.mk.inj hkey).1])
  omega

/-- **What is found is put in its place.** -/
theorem merge_spec {s : State} {head first mid last : Int} {found : List Announcement}
    (hfirst : 0 ≤ first) (hmid : first - 1 ≤ mid) (hlast : mid ≤ last)
    (hlist : s.announcements = announced decodeEventLog c ⟨first, mid⟩)
    (hfound : found.Perm (announced decodeEventLog c ⟨mid + 1, last⟩)) :
    (merge s head last found).announcements = announced decodeEventLog c ⟨first, last⟩ := by
  have happend : announced decodeEventLog c ⟨first, mid⟩ ++
      announced decodeEventLog c ⟨mid + 1, last⟩ = announced decodeEventLog c ⟨first, last⟩ := by
    rw [announced, announced, announced, ← List.filterMap_append]
    exact congrArg _ (Blocks.between_append hfirst hmid hlast)
  rw [merge]
  dsimp only
  split
  next hnone =>
    rw [hnone] at hfound
    rw [hlist, ← happend, ← hfound.nil_eq, List.append_nil]
  next =>
    have hnew : (found.filter fun a => a.key ∉ s.announcements.map Announcement.key) = found := by
      rw [List.filter_eq_self]
      intro b hb
      simp only [decide_eq_true_eq, List.mem_map, not_exists, not_and]
      intro a ha
      rw [hlist] at ha
      exact (key_ne hfirst (by omega) ha (hfound.subset hb)).symm
    rw [hnew]
    have hperm : ((s.announcements ++ found).mergeSort Announcement.le).Perm
        (announced decodeEventLog c ⟨first, last⟩) := by
      rw [← happend, ← hlist]
      exact (List.mergeSort_perm _ _).trans (hfound.append_left _)
    have hordered : (announced decodeEventLog c ⟨first, last⟩).Pairwise Announcement.Before :=
      announced_ordered ⟨first, last⟩
    have hsame : ∀ a b, a ∈ (s.announcements ++ found).mergeSort Announcement.le →
        b ∈ announced decodeEventLog c ⟨first, last⟩ → a.le b = true → b.le a = true → a = b :=
      fun a b ha hb => eq_of_le_le hordered (hperm.subset ha) hb
    exact List.Perm.eq_of_pairwise hsame
      (List.pairwise_mergeSort Announcement.le_trans Announcement.le_total _)
      (hordered.imp Announcement.le_of_before) hperm

end List

/-! ### Runs -/

section Runs

variable {decodeEventLog : List String → String → Option Args} {c : Chain}

/-- Where a scan has got to, with the list as the chain has it. -/
structure Reached (decodeEventLog : List String → String → Option Args) (c : Chain) (s : State)
    (last : Int) : Prop where
  scannedFrom_eq : s.scannedFrom = some (c.deployed : Int)
  scannedTo_eq : s.scannedTo = some last
  from_first : (c.deployed : Int) - 1 ≤ last
  list : s.announcements = announced decodeEventLog c ⟨c.deployed, last⟩

/-- Nothing has been scanned, or some blocks have. -/
def Scanned (decodeEventLog : List String → String → Option Args) (c : Chain) (s : State) :
    Prop :=
  (s.scannedFrom = none ∧ s.scannedTo = none ∧ s.announcements = []) ∨
    ∃ last, Reached decodeEventLog c s last

theorem scanned_empty : Scanned decodeEventLog c empty := Or.inl ⟨rfl, rfl, rfl⟩

theorem Scanned.complete {s : State} (h : Scanned decodeEventLog c s) :
    Complete decodeEventLog c s := by
  rcases h with ⟨hfrom, hto, hnone⟩ | ⟨last, h⟩
  · exact ⟨Or.inl ⟨hfrom, hto, hnone⟩, hnone ▸ List.Pairwise.nil⟩
  · refine ⟨Or.inr ⟨h.scannedFrom_eq, last, h.scannedTo_eq, h.from_first, fun a => ?_⟩, ?_⟩
    · rw [h.list, mem_announced (Int.natCast_nonneg _)]
      constructor
      · rintro ⟨n, hge, hle, hl⟩
        exact ⟨n, by omega, hle, hl⟩
      · rintro ⟨n, hge, hle, hl⟩
        exact ⟨n, by omega, hle, hl⟩
    · rw [h.list]
      exact announced_ordered _

/-- A scan that begins has a place to read from. -/
theorem begin_spec {node : Node c} {head : Nat} {s s' : State} {last : Int}
    (h : Scanned decodeEventLog c s) (hbegin : begin node head s = some (s', last)) :
    Reached decodeEventLog c s' last ∧ ∀ t, s.scannedTo = some t → t = last := by
  unfold begin at hbegin
  rcases h with ⟨-, hto, -⟩ | ⟨last', h⟩
  · rw [hto] at hbegin
    obtain ⟨first, hfirst, heq⟩ := Option.map_eq_some_iff.mp hbegin
    obtain rfl := deploymentBlock_eq node hfirst
    cases heq
    refine ⟨⟨rfl, rfl, Int.le_refl _, ?_⟩, fun t ht => ?_⟩
    · have hnone : c.between ⟨c.deployed, (c.deployed : Int) - 1⟩ = [] :=
        Blocks.between_empty (show (c.deployed : Int) - 1 < c.deployed by omega)
      rw [announced, hnone]
      rfl
    · rw [hto] at ht
      cases ht
  · rw [h.scannedTo_eq] at hbegin
    cases hbegin
    exact ⟨h, fun t ht => Option.some.inj (ht.symm.trans h.scannedTo_eq)⟩

/-- What a scan leaves: what was there before, or more. -/
theorem catchUp_spec (WINDOW MAX_CALLS_PER_TICK : Nat) (node : Node c) {s : State}
    (h : Scanned decodeEventLog c s) :
    Scanned decodeEventLog c (catchUp decodeEventLog WINDOW MAX_CALLS_PER_TICK node s).1 ∧
      ((catchUp decodeEventLog WINDOW MAX_CALLS_PER_TICK node s).2 = true →
        ∃ last, Reached decodeEventLog c
          (catchUp decodeEventLog WINDOW MAX_CALLS_PER_TICK node s).1 last) ∧
      ∀ t, s.scannedTo = some t → ∃ t',
        (catchUp decodeEventLog WINDOW MAX_CALLS_PER_TICK node s).1.scannedTo = some t' ∧
          t ≤ t' := by
  have hnothing : Scanned decodeEventLog c s ∧
      (false = true → ∃ last, Reached decodeEventLog c s last) ∧
      ∀ t, s.scannedTo = some t → ∃ t', s.scannedTo = some t' ∧ t ≤ t' :=
    ⟨h, fun h => (by cases h), fun t ht => ⟨t, ht, Int.le_refl t⟩⟩
  unfold catchUp
  split
  · exact hnothing
  next head hhead =>
    split
    · exact hnothing
    next s' last hbegin =>
      obtain ⟨hreached, hsame⟩ := begin_spec h hbegin
      dsimp only
      split
      next r batches hr hbatches =>
        -- all ranges have come back
        have hcursor : 0 ≤ last + 1 := by
          have hfirst := hreached.from_first
          omega
        obtain ⟨hlast, htile⟩ := ranges_spec (c := c) WINDOW head MAX_CALLS_PER_TICK hcursor hr
        have hfound : (batches.flatten.filterMap (decode decodeEventLog)).Perm
            (announced decodeEventLog c ⟨last + 1, r.last⟩) := by
          rw [announced, ← htile]
          exact (flatten_replies node hbatches).filterMap _
        have hmerged : Reached decodeEventLog c
            (merge s' head r.last (batches.flatten.filterMap (decode decodeEventLog))) r.last := by
          refine ⟨hreached.scannedFrom_eq, rfl, ?_, ?_⟩
          · have hfirst := hreached.from_first
            omega
          · exact merge_spec (Int.natCast_nonneg _) hreached.from_first (by omega) hreached.list
              hfound
        refine ⟨Or.inr ⟨r.last, hmerged⟩, fun _ => ⟨r.last, hmerged⟩, fun t ht => ?_⟩
        exact ⟨r.last, rfl, by rw [hsame t ht]; omega⟩
      next =>
        refine ⟨Or.inr ⟨last, hreached⟩, fun h => (by cases h), fun t ht => ?_⟩
        exact ⟨last, hreached.scannedTo_eq, Int.le_of_eq (hsame t ht)⟩

/-- The file is missing, or it is what was written for some state, up to some place. -/
def Kept (decodeEventLog : List String → String → Option Args) (c : Chain)
    (file : Option (List Char)) : Prop :=
  ∀ text, file = some text → ∃ s last k, Reached decodeEventLog c s last ∧ text = s.text.take k

/-- What a process begins with has been scanned. -/
theorem scanned_load {file : Option (List Char)} (h : Kept decodeEventLog c file) :
    Scanned decodeEventLog c (load file) := by
  cases file with
  | none => exact scanned_empty
  | some text =>
      obtain ⟨s, last, k, hreached, rfl⟩ := h text rfl
      rcases load_take hreached.scannedTo_eq k with hload | hload
      · rw [hload]
        exact Or.inr ⟨last, hreached⟩
      · rw [hload]
        exact scanned_empty

/-- **One event.** -/
theorem step_spec (WINDOW MAX_CALLS_PER_TICK : Nat) {w : World}
    (hstate : Scanned decodeEventLog c w.state) (hfile : Kept decodeEventLog c w.file)
    (e : Event c) :
    Scanned decodeEventLog c (step decodeEventLog WINDOW MAX_CALLS_PER_TICK w e).state ∧
      Kept decodeEventLog c (step decodeEventLog WINDOW MAX_CALLS_PER_TICK w e).file := by
  cases e with
  | scan node saved =>
      obtain ⟨hscanned, hsaves, -⟩ := catchUp_spec WINDOW MAX_CALLS_PER_TICK node hstate
      rw [step]
      generalize catchUp decodeEventLog WINDOW MAX_CALLS_PER_TICK node w.state = p
        at hscanned hsaves
      obtain ⟨s, saves⟩ := p
      dsimp only
      split
      next k =>
        refine ⟨hscanned, fun text htext => ?_⟩
        obtain ⟨last, hreached⟩ := hsaves rfl
        exact ⟨s, last, k, hreached, (Option.some.inj htext).symm⟩
      next => exact ⟨hscanned, hfile⟩
  | restart => exact ⟨scanned_load hfile, hfile⟩
  | torn k =>
      refine ⟨hstate, fun text htext => ?_⟩
      obtain ⟨whole, hwhole, rfl⟩ := Option.map_eq_some_iff.mp htext
      obtain ⟨s, last, k', hreached, rfl⟩ := hfile whole hwhole
      exact ⟨s, last, min k k', hreached, List.take_take⟩
  | removed => exact ⟨hstate, fun text htext => by cases htext⟩

/-- **Any number of events.** -/
theorem run_spec (WINDOW MAX_CALLS_PER_TICK : Nat) (es : List (Event c)) : ∀ {w : World},
    Scanned decodeEventLog c w.state → Kept decodeEventLog c w.file →
      Scanned decodeEventLog c (run decodeEventLog WINDOW MAX_CALLS_PER_TICK w es).state ∧
        Kept decodeEventLog c (run decodeEventLog WINDOW MAX_CALLS_PER_TICK w es).file := by
  induction es with
  | nil => exact fun hstate hfile => ⟨hstate, hfile⟩
  | cons e es ih =>
      intro w hstate hfile
      obtain ⟨hstate', hfile'⟩ := step_spec WINDOW MAX_CALLS_PER_TICK hstate hfile e
      exact ih hstate' hfile'

end Runs

end StealthFeed

end Ordo
