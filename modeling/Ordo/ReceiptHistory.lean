import Ordo.Guarded
import Ordo.JsonParse
import Ordo.ReceiptLog

/-!
# The receipt history

The auction appends a line to a file for every receipt it publishes, and restores its leaves
from the lines that can be read when it starts.  Every so often it commits the root of the
leaves to the log on chain.  The process may stop at any time, also while a line is written:
then the file ends in a part of it.

A line behind such a part is not read, because it is not looked at how the file ends before
something is appended.  `history_iff` says of a run when the history is kept: the leaves that
a start would restore are those of the receipts that were appended to the last byte, and what
is committed are roots of them.
-/

namespace Ordo

namespace ReceiptHistory

open Json

/-! ### Receipts and their lines -/

structure ReceiptBid where
  searcher : String
  bidWei : String
  receivedAt : Nat
  bidSig : Option String
  deriving DecidableEq

structure AuctionReceipt where
  opportunityId : String
  bids : List ReceiptBid
  winner : Option String
  clearingPriceWei : String
  closedAt : Nat
  signature : String
  deriving DecidableEq

/-- The bid as an object; a signature that is `undefined` is left out. -/
def ReceiptBid.json (bid : ReceiptBid) : Json :=
  .obj (("searcher", .str bid.searcher) :: ("bidWei", .str bid.bidWei) ::
    ("receivedAt", .num (.ofNat bid.receivedAt)) ::
    (bid.bidSig.map fun sig => ("bidSig", .str sig)).toList)

def AuctionReceipt.json (receipt : AuctionReceipt) : Json :=
  .obj [("opportunityId", .str receipt.opportunityId),
    ("bids", .arr (receipt.bids.map ReceiptBid.json)),
    ("winner", (receipt.winner.map .str).getD .null),
    ("clearingPriceWei", .str receipt.clearingPriceWei),
    ("closedAt", .num (.ofNat receipt.closedAt)),
    ("signature", .str receipt.signature)]

def AuctionReceipt.text (receipt : AuctionReceipt) : List Char := stringify receipt.json

/-- `JSON.stringify(receipt) + "\n"` -/
def AuctionReceipt.line (receipt : AuctionReceipt) : List Char := receipt.text ++ ['\n']

/-- The length in the file. -/
def byteLength (text : List Char) : Nat := (text.map Char.utf8Size).sum

/-- The first bytes of a text, as they are read: a part of a character is replaced. -/
def upTo : Nat → List Char → List Char
  | _, [] => []
  | k, c :: cs =>
      if c.utf8Size ≤ k then c :: upTo (k - c.utf8Size) cs
      else if k = 0 then []
      else ['\ufffd']

/-! ### The auction and its log -/

structure Config where
  account : Option Address
  LOG_ADDRESS : Option Address
  COMMIT_EVERY : Int

/-- What a running auction knows. -/
structure Process where
  leaves : List Bytes32
  lastCommittedCount : Nat := 0
  /-- The count that is being committed. -/
  committing : Option Nat := none

/-- A call of `commit`, on its way to the chain. -/
structure Sent where
  sender : Address
  root : Bytes32
  count : Nat

structure State where
  file : List Char
  process : Option Process
  sent : List Sent
  log : OrdoReceiptLog.State
  /-- The receipts whose lines were appended to the last byte. -/
  appended : List AuctionReceipt

/-- Before the first start. -/
def fresh : State := ⟨[], none, [], ⟨[]⟩, []⟩

inductive Event where
  | publish (receipt : AuctionReceipt)
  /-- The process ends when `k` bytes of the receipt's line are written. -/
  | cut (receipt : AuctionReceipt) (k : Nat)
  | crash
  | restart
  /-- What the chain says that it covers, if it is asked and says something. -/
  | synced (covered : Nat)
  /-- The call of `commit` returns, or throws. -/
  | answered (ok : Bool)
  /-- A call is mined; `auctioneer` is who the settlement contract names. -/
  | mined (i : Nat) (auctioneer : Address) (now : Nat)
  | dropped (i : Nat)

section Model

/- `receiptHash` is the leaf of a receipt that is remembered, unless that throws. -/
variable (keccak : Bytes → Bytes32) (receiptHash : Json → Option Bytes32) (cfg : Config)

/-- `hydrate`: the leaves of the lines that can be read. -/
def restored (file : List Char) : List Bytes32 :=
  (file.splitOn '\n').filterMap fun line =>
    if BigIntText.trim line = [] then none else (parse line).bind receiptHash

/-- Whether the leaves are committed now, and the call that is made. -/
def maybeCommitRoot (p : Process) : Process × List Sent :=
  match cfg.account, cfg.LOG_ADDRESS, p.committing with
  | some account, some _, none =>
      if (p.leaves.length : Int) - p.lastCommittedCount < cfg.COMMIT_EVERY then (p, [])
      else if p.leaves.length < p.lastCommittedCount then (p, [])
      else
        let count := p.leaves.length
        ({ p with committing := some count },
          [⟨account, merkleRoot keccak (p.leaves.take count), count⟩])
  | _, _, _ => (p, [])

/-- The process that publishes a receipt, and its leaf: without a key or a signature there
is nothing to publish. -/
def published (s : State) (receipt : AuctionReceipt) : Option (Process × Bytes32) := do
  let p ← s.process
  let _ ← cfg.account
  let leaf ← receiptHash receipt.json
  return (p, leaf)

def publishReceipt (receipt : AuctionReceipt) (s : State) : State :=
  match published receiptHash cfg s receipt with
  | none => s
  | some (p, leaf) =>
      let (p, call) := maybeCommitRoot keccak cfg { p with leaves := p.leaves ++ [leaf] }
      { s with
        file := s.file ++ receipt.line
        process := some p
        sent := s.sent ++ call
        appended := s.appended ++ [receipt] }

/-- A receipt that is published when the process ends, with `k` bytes of its line. -/
def cutReceipt (receipt : AuctionReceipt) (k : Nat) (s : State) : State :=
  match published receiptHash cfg s receipt with
  | none => s
  | some _ =>
      { s with
        file := s.file ++ upTo k receipt.line
        process := none
        appended :=
          if byteLength receipt.line ≤ k then s.appended ++ [receipt] else s.appended }

/-- The log after a call, which reverts or is a commitment. -/
def mine (call : Sent) (auctioneer : Address) (now : Nat) (log : OrdoReceiptLog.State) :
    OrdoReceiptLog.State :=
  match OrdoReceiptLog.commit auctioneer call.sender now call.root call.count log with
  | .ok log => log
  | .error _ => log

def step (s : State) : Event → State
  | .publish receipt => publishReceipt keccak receiptHash cfg receipt s
  | .cut receipt k => cutReceipt receiptHash cfg receipt k s
  | .crash => { s with process := none }
  | .restart =>
      match s.process with
      | some _ => s
      | none => { s with process := some { leaves := restored receiptHash s.file } }
  | .synced covered =>
      { s with process := s.process.map fun p => { p with lastCommittedCount := covered } }
  | .answered ok =>
      { s with
        process := s.process.map fun p =>
          match p.committing with
          | none => p
          | some count =>
              { p with
                lastCommittedCount := if ok then count else p.lastCommittedCount
                committing := none } }
  | .mined i auctioneer now =>
      match s.sent[i]? with
      | none => s
      | some call =>
          { s with sent := s.sent.eraseIdx i, log := mine call auctioneer now s.log }
  | .dropped i => { s with sent := s.sent.eraseIdx i }

/-! ### What is promised -/

/-- The leaves of receipts. -/
def leavesOf (receipts : List AuctionReceipt) : List Bytes32 :=
  receipts.filterMap fun receipt => receiptHash receipt.json

/-- The root is that of the first `count` leaves. -/
def Covers (leaves : List Bytes32) (root : Bytes32) (count : Nat) : Prop :=
  count ≤ leaves.length ∧ root = merkleRoot keccak (leaves.take count)

/-- A start restores what was appended, and what is committed are roots of it. -/
structure Sound (s : State) : Prop where
  restores : (restored receiptHash s.file).map some =
    s.appended.map fun receipt => receiptHash receipt.json
  committed : ∀ c ∈ s.log.commitments,
    Covers keccak (restored receiptHash s.file) c.root c.count

/-- Nothing is torn off at the end of the file. -/
def LineEnd (file : List Char) : Prop := ∀ c ∈ file.getLast?, c = '\n'

/-- A receipt is appended behind a whole line, and is not cut right before the end of its
own; behind a torn line no receipt is appended to the end. -/
def Appends (s : State) : Event → Prop
  | .publish receipt => published receiptHash cfg s receipt ≠ none → LineEnd s.file
  | .cut receipt k => published receiptHash cfg s receipt ≠ none →
      (LineEnd s.file → k ≠ byteLength receipt.text) ∧
        (¬ LineEnd s.file → k ≤ byteLength receipt.text)
  | _ => True

end Model

section Lines

variable {receipt : AuctionReceipt} {receipts : List AuctionReceipt} {a b text torn : List Char}
  {k : Nat} {receiptHash : Json → Option Bytes32}

theorem printed_bid (bid : ReceiptBid) : Printed bid.json := by
  unfold ReceiptBid.json
  cases bid.bidSig with
  | none =>
      have hnames : ["searcher", "bidWei", "receivedAt"].Nodup := by decide
      exact ⟨hnames, trivial, trivial, written_ofNat _, trivial⟩
  | some sig =>
      have hnames : ["searcher", "bidWei", "receivedAt", "bidSig"].Nodup := by decide
      exact ⟨hnames, trivial, trivial, written_ofNat _, trivial, trivial⟩

theorem printed_receipt (receipt : AuctionReceipt) : Printed receipt.json := by
  have hnames : ["opportunityId", "bids", "winner", "clearingPriceWei", "closedAt",
      "signature"].Nodup := by decide
  refine ⟨hnames, trivial, printedAll_map printed_bid receipt.bids, ?_, trivial, written_ofNat _,
    trivial, trivial⟩
  cases receipt.winner <;> trivial

theorem parse_text (receipt : AuctionReceipt) : parse receipt.text = some receipt.json :=
  parse_stringify (printed_receipt receipt)

theorem newline_notMem_text (receipt : AuctionReceipt) : '\n' ∉ receipt.text :=
  newline_notMem_stringify receipt.json

theorem text_eq_cons (receipt : AuctionReceipt) : ∃ rest, receipt.text = '{' :: rest := ⟨_, rfl⟩

/-- Behind something open, a receipt that begins leaves it open. -/
theorem unfinished_append_begun (hopen : Unfinished torn) {begun rest : List Char}
    (htext : receipt.text = begun ++ rest) : Unfinished (torn ++ begun) := by
  have hname : "opportunityId".toList.head? = some 'o' := by decide
  have hletter : 'o'.isAlpha = true := by decide
  exact hopen.append_beginning (printed_receipt receipt) hname hletter htext

/-! ### What is left of a line -/

@[simp] theorem byteLength_nil : byteLength [] = 0 := rfl

@[simp] theorem byteLength_cons (c : Char) (cs : List Char) :
    byteLength (c :: cs) = c.utf8Size + byteLength cs := rfl

theorem byteLength_line (receipt : AuctionReceipt) :
    byteLength receipt.line = byteLength receipt.text + 1 := by
  simp [byteLength, AuctionReceipt.line]
  rfl

theorem upTo_append (a b : List Char) (j : Nat) :
    upTo (byteLength a + j) (a ++ b) = a ++ upTo j b := by
  induction a with
  | nil => simp
  | cons c a ih =>
      have hsub : c.utf8Size + byteLength a + j - c.utf8Size = byteLength a + j := by omega
      rw [List.cons_append, upTo, byteLength_cons, if_pos (by omega), hsub, ih]
      rfl

theorem upTo_zero (text : List Char) : upTo 0 text = [] := by
  cases text with
  | nil => rfl
  | cons c cs =>
      have hpos := Char.utf8Size_pos c
      rw [upTo, if_neg (by omega), if_pos rfl]

/-- A cut leaves a part of the text, perhaps with a replaced character. -/
theorem upTo_cut (hk : k < byteLength a) (b : List Char) :
    ∃ begun rest, a = begun ++ rest ∧ rest ≠ [] ∧
      (upTo k (a ++ b) = begun ∨ upTo k (a ++ b) = begun ++ ['\ufffd']) := by
  induction a generalizing k with
  | nil => exact absurd hk (Nat.not_lt_zero k)
  | cons c a ih =>
      rw [byteLength_cons] at hk
      rw [List.cons_append, upTo]
      split_ifs with hfits hzero
      · obtain ⟨begun, rest, rfl, hrest, hupTo⟩ := ih (k := k - c.utf8Size) (by omega)
        refine ⟨c :: begun, rest, rfl, hrest, ?_⟩
        rcases hupTo with hupTo | hupTo <;> rw [hupTo]
        · exact .inl rfl
        · exact .inr rfl
      · exact ⟨[], c :: a, rfl, List.cons_ne_nil _ _, .inl rfl⟩
      · exact ⟨[], c :: a, rfl, List.cons_ne_nil _ _, .inr rfl⟩

/-- Of a receipt, a cut that leaves something leaves the brace. -/
theorem upTo_line (hk : k < byteLength receipt.text) (hpos : k ≠ 0) :
    ∃ begun rest, receipt.text = begun ++ rest ∧ begun ≠ [] ∧ rest ≠ [] ∧
      (upTo k receipt.line = begun ∨ upTo k receipt.line = begun ++ ['\ufffd']) := by
  obtain ⟨text, htext⟩ := text_eq_cons receipt
  have hbrace : '{'.utf8Size = 1 := rfl
  rw [htext, byteLength_cons, hbrace] at hk
  obtain ⟨begun, rest, hsplit, hrest, hupTo⟩ :=
    upTo_cut (k := k - 1) (a := text) (by omega) ['\n']
  refine ⟨'{' :: begun, rest, by rw [htext, hsplit]; rfl, List.cons_ne_nil _ _, hrest, ?_⟩
  rw [AuctionReceipt.line, htext, List.cons_append, upTo, if_pos (by rw [hbrace]; omega), hbrace]
  rcases hupTo with hupTo | hupTo <;> rw [hupTo]
  · exact .inl rfl
  · exact .inr rfl

theorem upTo_whole (receipt : AuctionReceipt) :
    upTo (byteLength receipt.text) receipt.line = receipt.text := by
  have happend := upTo_append receipt.text ['\n'] 0
  rwa [Nat.add_zero, upTo_zero, List.append_nil] at happend

theorem upTo_past (hk : byteLength receipt.text < k) : upTo k receipt.line = receipt.line := by
  obtain ⟨j, rfl⟩ := Nat.exists_eq_add_of_lt hk
  have happend := upTo_append receipt.text ['\n'] (j + 1)
  have hnewline : upTo (j + 1) ['\n'] = ['\n'] := by
    have hsize : '\n'.utf8Size = 1 := rfl
    rw [upTo, hsize, if_pos (by omega)]
    rfl
  rw [Nat.add_assoc, AuctionReceipt.line, happend, hnewline]

/-! ### Torn lines -/

/-- What stands behind the last whole line: nothing, or something that cannot be read. -/
def Torn (torn : List Char) : Prop := torn = [] ∨ '\n' ∉ torn ∧ Unfinished torn

theorem unfinished_ne_nil (h : Unfinished torn) : torn ≠ [] := by
  rintro rfl
  exact h (.value, []) rfl rfl

theorem lineEnd_iff (htorn : Torn torn) (receipts : List AuctionReceipt) :
    LineEnd (receipts.flatMap AuctionReceipt.line ++ torn) ↔ torn = [] := by
  constructor
  · intro h
    rcases htorn with hnil | ⟨hline, hopen⟩
    · exact hnil
    · have hne := unfinished_ne_nil hopen
      have hlast := h (torn.getLast hne) (by
        rw [List.getLast?_append_of_ne_nil _ hne]
        exact List.getLast?_eq_some_getLast hne)
      exact absurd (hlast ▸ List.getLast_mem hne) hline
  · rintro rfl
    rw [List.append_nil]
    rcases List.eq_nil_or_concat receipts with rfl | ⟨before, receipt, rfl⟩
    · intro c hc
      cases hc
    · intro c hc
      simp [AuctionReceipt.line, List.getLast?_append] at hc
      exact hc.symm

/-- What a cut receipt leaves behind a torn line, or behind a whole one. -/
theorem Torn.begun (htorn : Torn torn) {begun rest : List Char}
    (htext : receipt.text = begun ++ rest) (hbegun : begun ≠ []) (hrest : torn = [] → rest ≠ []) :
    '\n' ∉ torn ++ begun ∧ Unfinished (torn ++ begun) := by
  have hline : '\n' ∉ begun := fun hmem =>
    newline_notMem_text receipt (by rw [htext]; exact List.mem_append_left _ hmem)
  rcases htorn with rfl | ⟨htorn, hunfinished⟩
  · exact ⟨hline, unfinished_of_cut (printed_receipt receipt) htext hbegun (hrest rfl)⟩
  · refine ⟨fun hmem => (List.mem_append.mp hmem).elim htorn hline, ?_⟩
    exact unfinished_append_begun hunfinished htext

/-- A torn line stays one when a receipt behind it is cut. -/
theorem Torn.cut (htorn : Torn torn) (hk : k ≤ byteLength receipt.text)
    (hwhole : torn = [] → k ≠ byteLength receipt.text) : Torn (torn ++ upTo k receipt.line) := by
  by_cases hzero : k = 0
  · rw [hzero, upTo_zero, List.append_nil]
    exact htorn
  by_cases hall : k = byteLength receipt.text
  · have hne : receipt.text ≠ [] := by
      obtain ⟨rest, hbrace⟩ := text_eq_cons receipt
      rw [hbrace]
      exact List.cons_ne_nil _ _
    rw [hall, upTo_whole]
    exact .inr (htorn.begun (List.append_nil _).symm hne fun hnil => absurd hall (hwhole hnil))
  · obtain ⟨begun, rest, htext, hbegun, hrest, hupTo⟩ :=
      upTo_line (Nat.lt_of_le_of_ne hk hall) hzero
    obtain ⟨hline, hunfinished⟩ := htorn.begun htext hbegun fun _ => hrest
    rcases hupTo with hupTo | hupTo
    · rw [hupTo]
      exact .inr ⟨hline, hunfinished⟩
    · rw [hupTo, ← List.append_assoc]
      have hmark : '\n' ∉ ['\ufffd'] := by decide
      exact .inr ⟨fun hmem => (List.mem_append.mp hmem).elim hline hmark,
        hunfinished.concat (by decide) (by decide)⟩

/-- A line behind a torn one is not read. -/
theorem unfinished_append_text (htorn : Torn torn) (hne : torn ≠ [])
    (receipt : AuctionReceipt) : '\n' ∉ torn ++ receipt.text ∧
      Unfinished (torn ++ receipt.text) := by
  have hcut : Torn (torn ++ upTo (byteLength receipt.text) receipt.line) :=
    htorn.cut le_rfl fun hnil => absurd hnil hne
  rw [upTo_whole] at hcut
  rcases hcut with hnil | hopen
  · exact absurd (List.append_eq_nil_iff.mp hnil).1 hne
  · exact hopen

/-! ### What is restored -/

theorem trim_text (receipt : AuctionReceipt) : BigIntText.trim receipt.text ≠ [] := by
  obtain ⟨rest, htext⟩ := text_eq_cons receipt
  have hspace : BigIntText.isSpace '{' = false := by decide
  rw [htext, BigIntText.trim, List.dropWhile_cons_of_neg (by rw [hspace]; exact Bool.false_ne_true),
    ne_eq, List.rdropWhile_eq_nil_iff]
  intro hall
  have hbrace := hall '{' List.mem_cons_self
  rw [hspace] at hbrace
  cases hbrace

theorem restored_cons (htext : '\n' ∉ text) (rest : List Char) :
    restored receiptHash (text ++ '\n' :: rest) =
      restored receiptHash text ++ restored receiptHash rest := by
  rw [restored, List.splitOn_append_cons_self_of_not_mem htext, restored, restored,
    List.splitOn_eq_singleton htext, ← List.filterMap_append]
  rfl

theorem restored_text (receipt : AuctionReceipt) :
    restored receiptHash receipt.text = leavesOf receiptHash [receipt] := by
  have hshown : BigIntText.trim receipt.text ≠ [] := trim_text receipt
  simp only [restored, List.splitOn_eq_singleton (newline_notMem_text receipt), leavesOf,
    List.filterMap_cons, List.filterMap_nil, if_neg hshown, parse_text, Option.bind_some]

theorem restored_unfinished (htext : '\n' ∉ text) (hopen : Unfinished text) :
    restored receiptHash text = [] := by
  rw [restored, List.splitOn_eq_singleton htext, List.filterMap_cons_none]
  · rfl
  · split_ifs
    · rfl
    · rw [hopen.parse_eq_none, Option.bind_none]

theorem restored_torn (htorn : Torn torn) : restored receiptHash torn = [] := by
  rcases htorn with rfl | ⟨hline, hopen⟩
  · rfl
  · exact restored_unfinished hline hopen

theorem restored_lines (receipts : List AuctionReceipt) (rest : List Char) :
    restored receiptHash (receipts.flatMap AuctionReceipt.line ++ rest) =
      leavesOf receiptHash receipts ++ restored receiptHash rest := by
  induction receipts with
  | nil => rfl
  | cons receipt receipts ih =>
      rw [List.flatMap_cons, AuctionReceipt.line, List.append_assoc, List.append_assoc,
        List.singleton_append, restored_cons (newline_notMem_text receipt), ih, restored_text,
        ← List.append_assoc, leavesOf, leavesOf, ← List.filterMap_append]
      rfl

end Lines

section Runs

variable {keccak : Bytes → Bytes32} {receiptHash : Json → Option Bytes32} {cfg : Config}
  {s : State} {e : Event} {receipt : AuctionReceipt} {p : Process} {leaf root : Bytes32}
  {leaves more : List Bytes32} {k count : Nat}

theorem Covers.append (h : Covers keccak leaves root count) (more : List Bytes32) :
    Covers keccak (leaves ++ more) root count := by
  refine ⟨h.1.trans (by simp), ?_⟩
  rw [List.take_append_of_le_length h.1]
  exact h.2

theorem published_eq_some (h : published receiptHash cfg s receipt = some (p, leaf)) :
    s.process = some p ∧ receiptHash receipt.json = some leaf := by
  unfold published at h
  obtain ⟨p', hp, h⟩ := Option.bind_eq_some_iff.mp h
  obtain ⟨account, -, h⟩ := Option.bind_eq_some_iff.mp h
  obtain ⟨leaf', hleaf, h⟩ := Option.bind_eq_some_iff.mp h
  cases h
  exact ⟨hp, hleaf⟩

/-- The leaves stay, and a call commits to all of them. -/
theorem maybeCommitRoot_spec (keccak : Bytes → Bytes32) (cfg : Config) (p : Process) :
    (maybeCommitRoot keccak cfg p).1.leaves = p.leaves ∧
      ∀ call ∈ (maybeCommitRoot keccak cfg p).2, Covers keccak p.leaves call.root call.count := by
  unfold maybeCommitRoot
  split
  · split_ifs with hearly hshort
    · exact ⟨rfl, fun call hcall => absurd hcall List.not_mem_nil⟩
    · exact ⟨rfl, fun call hcall => absurd hcall List.not_mem_nil⟩
    · refine ⟨rfl, fun call hcall => ?_⟩
      rw [List.mem_singleton.mp hcall]
      exact ⟨le_rfl, rfl⟩
  · exact ⟨rfl, fun call hcall => absurd hcall List.not_mem_nil⟩

theorem mem_mine {call : Sent} {auctioneer : Address} {now : Nat} {log : OrdoReceiptLog.State}
    {c : OrdoReceiptLog.Commitment} (h : c ∈ (mine call auctioneer now log).commitments) :
    c ∈ log.commitments ∨ c.root = call.root ∧ c.count = call.count := by
  unfold mine at h
  split at h
  · next log' hlog =>
      rw [(OrdoReceiptLog.commit_eq_ok hlog).2, List.mem_append, List.mem_singleton] at h
      rcases h with h | rfl
      · exact .inl h
      · exact .inr ⟨rfl, rfl⟩
  · exact .inl h

/-! ### What is kept -/

variable (keccak receiptHash) in
/-- The file is the lines that were appended, and perhaps a torn one; whatever has been
computed from the leaves was computed from theirs. -/
structure Kept (s : State) : Prop where
  file : ∃ torn, Torn torn ∧ s.file = s.appended.flatMap AuctionReceipt.line ++ torn
  hashed : ∀ receipt ∈ s.appended, receiptHash receipt.json ≠ none
  live : ∀ p, s.process = some p → p.leaves = leavesOf receiptHash s.appended
  sent : ∀ call ∈ s.sent, Covers keccak (leavesOf receiptHash s.appended) call.root call.count
  committed : ∀ c ∈ s.log.commitments,
    Covers keccak (leavesOf receiptHash s.appended) c.root c.count

theorem kept_fresh : Kept keccak receiptHash fresh where
  file := ⟨[], .inl rfl, rfl⟩
  hashed receipt h := absurd h List.not_mem_nil
  live p h := by cases h
  sent call h := absurd h List.not_mem_nil
  committed c h := absurd h List.not_mem_nil

theorem map_leavesOf {receipts : List AuctionReceipt}
    (h : ∀ receipt ∈ receipts, receiptHash receipt.json ≠ none) :
    (leavesOf receiptHash receipts).map some =
      receipts.map fun receipt => receiptHash receipt.json := by
  induction receipts with
  | nil => rfl
  | cons receipt receipts ih =>
      obtain ⟨leaf, hleaf⟩ := Option.ne_none_iff_exists'.mp (h receipt List.mem_cons_self)
      have htail := ih fun r hr => h r (List.mem_cons_of_mem _ hr)
      simp only [leavesOf, List.filterMap_cons, hleaf, List.map_cons] at htail ⊢
      rw [htail]

theorem leavesOf_append (receipts : List AuctionReceipt)
    (hleaf : receiptHash receipt.json = some leaf) :
    leavesOf receiptHash (receipts ++ [receipt]) = leavesOf receiptHash receipts ++ [leaf] := by
  simp only [leavesOf, List.filterMap_append, List.filterMap_cons, hleaf, List.filterMap_nil]

theorem Kept.restored_eq (h : Kept keccak receiptHash s) :
    restored receiptHash s.file = leavesOf receiptHash s.appended := by
  obtain ⟨torn, htorn, hfile⟩ := h.file
  rw [hfile, restored_lines, restored_torn htorn, List.append_nil]

theorem Kept.sound (h : Kept keccak receiptHash s) : Sound keccak receiptHash s where
  restores := by
    rw [h.restored_eq]
    exact map_leavesOf h.hashed
  committed := by
    rw [h.restored_eq]
    exact h.committed

/-- Whatever changes the process alone. -/
theorem Kept.process (h : Kept keccak receiptHash s) {process : Option Process}
    (hlive : ∀ p, process = some p → p.leaves = leavesOf receiptHash s.appended) :
    Kept keccak receiptHash { s with process := process } :=
  { h with live := hlive }

/-- A receipt is appended to the last byte. -/
theorem Kept.append (h : Kept keccak receiptHash s)
    (hleaf : receiptHash receipt.json = some leaf) (hend : LineEnd s.file)
    {process : Option Process} {calls : List Sent}
    (hlive : ∀ p, process = some p → p.leaves = leavesOf receiptHash s.appended ++ [leaf])
    (hcalls : ∀ call ∈ calls,
      Covers keccak (leavesOf receiptHash s.appended ++ [leaf]) call.root call.count) :
    Kept keccak receiptHash
      { s with
        file := s.file ++ receipt.line
        process := process
        sent := s.sent ++ calls
        appended := s.appended ++ [receipt] } := by
  obtain ⟨torn, htorn, hfile⟩ := h.file
  have hnone : torn = [] := (lineEnd_iff htorn s.appended).mp (hfile ▸ hend)
  refine ⟨⟨[], .inl rfl, ?_⟩, ?_, ?_, ?_, ?_⟩
  · rw [hfile, hnone, List.append_nil, List.append_nil, List.flatMap_append]
    simp
  · intro r hr
    rcases List.mem_append.mp hr with hr | hr
    · exact h.hashed r hr
    · rw [List.mem_singleton.mp hr, hleaf]
      exact Option.some_ne_none leaf
  · rw [leavesOf_append s.appended hleaf]
    exact hlive
  · rw [leavesOf_append s.appended hleaf]
    intro call hcall
    rcases List.mem_append.mp hcall with hcall | hcall
    · exact (h.sent call hcall).append [leaf]
    · exact hcalls call hcall
  · rw [leavesOf_append s.appended hleaf]
    exact fun c hc => (h.committed c hc).append [leaf]

/-- A receipt is cut before its end. -/
theorem Kept.tear (h : Kept keccak receiptHash s) (hk : k ≤ byteLength receipt.text)
    (hwhole : LineEnd s.file → k ≠ byteLength receipt.text) :
    Kept keccak receiptHash
      { s with file := s.file ++ upTo k receipt.line, process := none } := by
  obtain ⟨torn, htorn, hfile⟩ := h.file
  refine { h with file := ⟨torn ++ upTo k receipt.line, htorn.cut hk fun hnil => ?_, ?_⟩,
                  live := fun p hp => by cases hp }
  · exact hwhole (hfile ▸ (lineEnd_iff htorn s.appended).mpr hnil)
  · rw [hfile, List.append_assoc]

/-- Behind a torn line a receipt is lost. -/
theorem Kept.lost (h : Kept keccak receiptHash s) (hend : ¬ LineEnd s.file)
    (receipt : AuctionReceipt) : restored receiptHash (s.file ++ receipt.line) =
      leavesOf receiptHash s.appended := by
  obtain ⟨torn, htorn, hfile⟩ := h.file
  have hne : torn ≠ [] := fun hnil => hend (hfile ▸ (lineEnd_iff htorn s.appended).mpr hnil)
  obtain ⟨hline, hopen⟩ := unfinished_append_text htorn hne receipt
  rw [hfile, AuctionReceipt.line, List.append_assoc, ← List.append_assoc torn, restored_lines,
    restored_cons hline, restored_unfinished hline hopen]
  exact List.append_nil _

/-- What publishing does, where there is something to publish. -/
theorem publishReceipt_eq (hpublished : published receiptHash cfg s receipt = some (p, leaf)) :
    publishReceipt keccak receiptHash cfg receipt s =
      { s with
        file := s.file ++ receipt.line
        process := some (maybeCommitRoot keccak cfg { p with leaves := p.leaves ++ [leaf] }).1
        sent := s.sent ++
          (maybeCommitRoot keccak cfg { p with leaves := p.leaves ++ [leaf] }).2
        appended := s.appended ++ [receipt] } := by
  simp only [publishReceipt, hpublished]

theorem cutReceipt_eq (hpublished : published receiptHash cfg s receipt ≠ none) (k : Nat) :
    cutReceipt receiptHash cfg receipt k s =
      { s with
        file := s.file ++ upTo k receipt.line
        process := none
        appended :=
          if byteLength receipt.text < k then s.appended ++ [receipt] else s.appended } := by
  obtain ⟨made, hmade⟩ := Option.ne_none_iff_exists'.mp hpublished
  simp only [cutReceipt, hmade, byteLength_line, Nat.succ_le_iff]

theorem Kept.publish (h : Kept keccak receiptHash s)
    (happends : Appends receiptHash cfg s (.publish receipt)) :
    Kept keccak receiptHash (publishReceipt keccak receiptHash cfg receipt s) := by
  cases hpublished : published receiptHash cfg s receipt with
  | none =>
      rw [publishReceipt, hpublished]
      exact h
  | some made =>
      obtain ⟨p, leaf⟩ := made
      obtain ⟨hp, hleaf⟩ := published_eq_some hpublished
      have hend : LineEnd s.file := happends (by rw [hpublished]; exact Option.some_ne_none _)
      obtain ⟨hleaves, hcalls⟩ :=
        maybeCommitRoot_spec keccak cfg { p with leaves := p.leaves ++ [leaf] }
      simp only [h.live p hp] at hleaves hcalls
      rw [publishReceipt_eq hpublished, h.live p hp]
      refine h.append hleaf hend (fun q hq => ?_) hcalls
      rw [← Option.some.inj hq]
      exact hleaves

theorem Kept.cut (h : Kept keccak receiptHash s)
    (happends : Appends receiptHash cfg s (.cut receipt k)) :
    Kept keccak receiptHash (cutReceipt receiptHash cfg receipt k s) := by
  cases hpublished : published receiptHash cfg s receipt with
  | none =>
      rw [cutReceipt, hpublished]
      exact h
  | some made =>
      obtain ⟨p, leaf⟩ := made
      obtain ⟨hp, hleaf⟩ := published_eq_some hpublished
      have hne : published receiptHash cfg s receipt ≠ none := by
        rw [hpublished]
        exact Option.some_ne_none _
      obtain ⟨hwhole, htorn⟩ := happends hne
      rw [cutReceipt_eq hne]
      by_cases hk : byteLength receipt.text < k
      · have hend : LineEnd s.file := by
          by_contra hend
          exact absurd (htorn hend) (Nat.not_le.mpr hk)
        have hlive : ∀ q : Process, none = some q →
            q.leaves = leavesOf receiptHash s.appended ++ [leaf] := fun q hq => by cases hq
        have hcalls : ∀ call ∈ ([] : List Sent), Covers keccak
            (leavesOf receiptHash s.appended ++ [leaf]) call.root call.count := fun call hcall =>
          absurd hcall List.not_mem_nil
        have happend := h.append hleaf hend hlive hcalls
        rw [List.append_nil] at happend
        rw [if_pos hk, upTo_past hk]
        exact happend
      · rw [if_neg hk]
        exact h.tear (Nat.not_lt.mp hk) hwhole

/-- What is restored is as much as was appended. -/
theorem Sound.length_eq (h : Sound keccak receiptHash s) :
    (restored receiptHash s.file).length = s.appended.length := by
  have hlength := congrArg List.length h.restores
  rwa [List.length_map, List.length_map] at hlength

theorem Kept.length_eq (h : Kept keccak receiptHash s) :
    (leavesOf receiptHash s.appended).length = s.appended.length := by
  rw [← h.restored_eq]
  exact h.sound.length_eq

theorem Kept.lineEnd_of_publish (h : Kept keccak receiptHash s)
    (hpublished : published receiptHash cfg s receipt = some (p, leaf))
    (hsound : Sound keccak receiptHash (publishReceipt keccak receiptHash cfg receipt s)) :
    LineEnd s.file := by
  by_contra hend
  have hlength := hsound.length_eq
  rw [publishReceipt_eq hpublished] at hlength
  simp only [h.lost hend, h.length_eq, List.length_append, List.length_singleton] at hlength
  omega

theorem Kept.appends_of_cut (h : Kept keccak receiptHash s)
    (hsound : Sound keccak receiptHash (cutReceipt receiptHash cfg receipt k s)) :
    Appends receiptHash cfg s (.cut receipt k) := by
  intro hpublished
  have hlength := hsound.length_eq
  rw [cutReceipt_eq hpublished] at hlength
  constructor
  · intro hend hk
    obtain ⟨torn, htorn, hfile⟩ := h.file
    have hnone : torn = [] := (lineEnd_iff htorn s.appended).mp (hfile ▸ hend)
    obtain ⟨⟨p, leaf⟩, hmade⟩ := Option.ne_none_iff_exists'.mp hpublished
    obtain ⟨hp, hleaf⟩ := published_eq_some hmade
    rw [hk, if_neg (Nat.lt_irrefl _), upTo_whole, hfile, hnone, List.append_nil, restored_lines,
      restored_text, List.length_append, h.length_eq] at hlength
    simp [leavesOf, hleaf] at hlength
  · intro hend
    by_contra hk
    rw [if_pos (Nat.not_le.mp hk), upTo_past (Nat.not_le.mp hk), h.lost hend, h.length_eq,
      List.length_append, List.length_singleton] at hlength
    omega

theorem kept_step (h : Kept keccak receiptHash s) (happends : Appends receiptHash cfg s e) :
    Kept keccak receiptHash (step keccak receiptHash cfg s e) := by
  cases e with
  | publish receipt => exact h.publish happends
  | cut receipt k => exact h.cut happends
  | crash => exact h.process fun p hp => by cases hp
  | restart =>
      simp only [step]
      split
      · exact h
      · refine h.process fun p hp => ?_
        rw [← Option.some.inj hp]
        exact h.restored_eq
  | synced covered =>
      refine h.process fun p hp => ?_
      obtain ⟨q, hq, rfl⟩ := Option.map_eq_some_iff.mp hp
      exact h.live q hq
  | answered ok =>
      refine h.process fun p hp => ?_
      obtain ⟨q, hq, rfl⟩ := Option.map_eq_some_iff.mp hp
      cases q.committing with
      | none => exact h.live q hq
      | some count => exact h.live q hq
  | mined i auctioneer now =>
      simp only [step]
      split
      · exact h
      · next call hcall =>
          refine { h with sent := ?_, committed := ?_ }
          · exact fun other hother => h.sent other (List.mem_of_mem_eraseIdx hother)
          · intro c hc
            rcases mem_mine hc with hc | ⟨hroot, hcount⟩
            · exact h.committed c hc
            · rw [hroot, hcount]
              exact h.sent call (List.mem_of_getElem? hcall)
  | dropped i =>
      exact { h with sent := fun other hother => h.sent other (List.mem_of_mem_eraseIdx hother) }

theorem appends_of_sound (h : Kept keccak receiptHash s)
    (hsound : Sound keccak receiptHash (step keccak receiptHash cfg s e)) :
    Appends receiptHash cfg s e := by
  cases e with
  | publish receipt =>
      intro hpublished
      obtain ⟨⟨p, leaf⟩, hmade⟩ := Option.ne_none_iff_exists'.mp hpublished
      exact h.lineEnd_of_publish hmade hsound
  | cut receipt k => exact h.appends_of_cut hsound
  | _ => trivial

/-- **When the history is kept**: in every state of a run a start would restore the receipts
that were appended, and the committed roots are theirs, if and only if no receipt is appended
behind a torn line and none is cut where only the end of its line is missing. -/
theorem history_iff (keccak : Bytes → Bytes32) (receiptHash : Json → Option Bytes32)
    (cfg : Config) (es : List Event) :
    (∀ pre post, es = pre ++ post →
        Sound keccak receiptHash (pre.foldl (step keccak receiptHash cfg) fresh)) ↔
      Guarded.Along (step keccak receiptHash cfg) (Appends receiptHash cfg) fresh es := by
  rw [Guarded.throughout_iff, and_iff_right kept_fresh.sound]
  have hkeeps : ∀ s e, Kept keccak receiptHash s → Appends receiptHash cfg s e →
      Kept keccak receiptHash (step keccak receiptHash cfg s e) := fun s e => kept_step
  exact Guarded.along_iff hkeeps
    (fun s e hs => ⟨appends_of_sound hs, fun happends => (kept_step hs happends).sound⟩)
    kept_fresh

end Runs

section Samples

def sampleReceipt (closedAt : Nat) : AuctionReceipt where
  opportunityId := "0x01"
  bids := []
  winner := none
  clearingPriceWei := "0"
  closedAt := closedAt
  signature := "0x02"

def sampleConfig : Config := ⟨some 1, some 2, 1⟩

def sampleHash (_ : Json) : Option Bytes32 := some 7

def sampleRun (es : List Event) : State :=
  es.foldl (step (fun _ => 0) sampleHash sampleConfig) fresh

/-- A process ends with one byte written; the next one appends a receipt and commits. -/
def tornAppend : List Event :=
  [.restart, .cut (sampleReceipt 1) 1, .restart, .publish (sampleReceipt 2), .mined 0 1 0]

/-- Behind the torn line, when the second process has started. -/
def afterTear : State := ⟨['{'], some { leaves := [] }, [], ⟨[]⟩, []⟩

theorem torn_brace : Torn ['{'] := by
  refine .inr ⟨by decide, fun s hrun => ?_⟩
  cases hrun
  exact List.cons_ne_nil _ _

theorem kept_afterTear : Kept (fun _ => 0) sampleHash afterTear where
  file := ⟨['{'], torn_brace, rfl⟩
  hashed receipt h := absurd h List.not_mem_nil
  live p h := by
    cases h
    rfl
  sent call h := absurd h List.not_mem_nil
  committed c h := absurd h List.not_mem_nil

theorem sampleRun_torn : sampleRun (tornAppend.take 3) = afterTear := by
  have hpublished : published sampleHash sampleConfig (sampleRun (tornAppend.take 1))
      (sampleReceipt 1) ≠ none := Option.some_ne_none _
  have hcut := cutReceipt_eq hpublished 1
  have hlong : ¬ byteLength (sampleReceipt 1).text < 1 := by
    obtain ⟨rest, htext⟩ := text_eq_cons (sampleReceipt 1)
    have hpos := Char.utf8Size_pos '{'
    rw [htext, byteLength_cons]
    omega
  have hrestored : restored sampleHash ['{'] = [] := restored_torn torn_brace
  have hrun : sampleRun (tornAppend.take 3) = step (fun _ => 0) sampleHash sampleConfig
      (cutReceipt sampleHash sampleConfig (sampleReceipt 1) 1 (sampleRun (tornAppend.take 1)))
      .restart := rfl
  rw [hrun, hcut, if_neg hlong, afterTear, ← hrestored]
  rfl

theorem log_torn : (sampleRun tornAppend).log.commitments = [⟨7, 1, 0⟩] := by
  have hrun : sampleRun tornAppend = step (fun _ => 0) sampleHash sampleConfig
      (publishReceipt (fun _ => 0) sampleHash sampleConfig (sampleReceipt 2)
        (sampleRun (tornAppend.take 3))) (.mined 0 1 0) := rfl
  have hroot : merkleRoot (fun _ => 0) [7] = 7 := by
    rw [merkleRoot, Merkle.climb]
    rfl
  have hcall : maybeCommitRoot (fun _ => 0) sampleConfig { leaves := [7] } =
      ({ leaves := [7], committing := some 1 }, [⟨1, merkleRoot (fun _ => 0) [7], 1⟩]) := rfl
  rw [hrun, sampleRun_torn, publishReceipt_eq (p := { leaves := [] }) rfl]
  simp only [List.nil_append, hcall, hroot]
  rfl

/-- The receipt is committed, and is lost at the next start. -/
theorem committed_lost : ¬ Sound (fun _ => 0) sampleHash (sampleRun tornAppend) ∧
    ∃ c ∈ (sampleRun tornAppend).log.commitments,
      ¬ Covers (fun _ => 0) (restored sampleHash (sampleRun tornAppend).file) c.root c.count := by
  have hend : ¬ LineEnd afterTear.file := by
    intro h
    exact absurd (h '{' rfl) (by decide)
  have hlost : restored sampleHash (sampleRun tornAppend).file = [] := by
    have hrun : (sampleRun tornAppend).file =
      (step (fun _ => 0) sampleHash sampleConfig (publishReceipt (fun _ => 0) sampleHash
        sampleConfig (sampleReceipt 2) (sampleRun (tornAppend.take 3))) (.mined 0 1 0)).file := rfl
    rw [hrun, sampleRun_torn]
    exact kept_afterTear.lost hend (sampleReceipt 2)
  have hcommitted : ⟨7, 1, 0⟩ ∈ (sampleRun tornAppend).log.commitments := by
    rw [log_torn]
    exact List.mem_cons_self
  have huncovered : ¬ Covers (fun _ => 0)
      (restored sampleHash (sampleRun tornAppend).file) 7 1 := by
    rw [hlost]
    exact fun h => absurd h.1 (by decide)
  exact ⟨fun h => huncovered (h.committed _ hcommitted), _, hcommitted, huncovered⟩

end Samples

end ReceiptHistory

end Ordo
