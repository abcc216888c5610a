import Ordo.DecimalText
import Ordo.StealthFeed

/-!
# What the swap contracts have done

The Swap page counts the swaps and the reclaims of every deployment of the contract, off the
logs of the chain.  A `refresh` reads forward from where the last one stopped, a range of
blocks at a time, and writes the totals to a file when it comes to its end; a new process goes
on from what the file holds, if the file was written for the same contracts and start block.

A `refresh` waits for each of its reads, and anything may happen in between.

* `counts_ingest` — a log is counted once;
* `start_spec` — a process begins with nothing read, or with what it may go on from;
* `Sound` — one call at most is under way, and the range it waits for begins where the totals
  end;
* `each_swap_once` — at any time the totals are those of all blocks up to `scannedTo`.

The chain is given with its blocks that are still to come.
-/

namespace Ordo

namespace SwapStats

open Json DecimalText
open StealthFeed (Range intJson int? str? int?_intJson written_numeralOf)

def TOPIC_SWAPPED : String :=
  "0xd6d4f5681c246c9f42c203e287975af1601f8df8035a9251f79aab5c8f09e2f8"

def TOPIC_RECLAIMED : String :=
  "0x560bbea7cb43122b8cc54b9f82e6c3406fa24f4e84ebde882fb98f10aa38a2d4"

def TOPIC_SKIPPED : String :=
  "0xd46190201b03f028092f29310ad0fdd45f8829d8c41818bca86c48c57e095943"

structure ReclaimRow where
  tx : String
  block : Nat
  recipient : String
  profitWei : String
  toUserWei : String
  toProtocolWei : String
  deriving DecidableEq

structure SwapTotals where
  /-- The contract a swap goes through today. -/
  address : String
  /-- Every deployment the totals cover, current first. -/
  addresses : List String
  fromBlock : Nat
  scannedTo : Int
  swaps : Nat
  reclaims : Nat
  skipped : Nat
  profitWei : String
  toUserWei : String
  toProtocolWei : String
  recent : List ReclaimRow
  updatedAt : Nat
  deriving DecidableEq

structure Log where
  address : String
  topics : List String
  data : String
  blockNumber : Nat
  transactionHash : String
  deriving DecidableEq

/-- What a `Reclaimed` event says, as `decodeEventLog` returns it. -/
structure Args where
  recipient : String
  profit : Nat
  toUser : Nat
  toProtocol : Nat

/-- `n.toString()` -/
def wei (n : Nat) : String := String.ofList (decimal n)

/-! ### A log -/

section Logs

variable (decodeEventLog : List String → String → Option Args)

def row (l : Log) (args : Args) : ReclaimRow where
  tx := l.transactionHash
  block := l.blockNumber
  recipient := args.recipient
  profitWei := wei args.profit
  toUserWei := wei args.toUser
  toProtocolWei := wei args.toProtocol

/-- `(BigInt(text) + n).toString()` -/
def plus (text : String) (n : Nat) : Except Thrown String :=
  (bigInt text.toList).map fun v => String.ofList (decimal (v + n))

/-- What throws leaves the totals as they are by then. -/
def assign (t : SwapTotals) (value : Except Thrown String) (set : String → SwapTotals) :
    Except SwapTotals SwapTotals :=
  match value with
  | .ok v => .ok (set v)
  | .error _ => .error t

/-- What a `Reclaimed` log changes. -/
def reclaim (t : SwapTotals) (l : Log) (args : Args) : Except SwapTotals SwapTotals := do
  let t := { t with reclaims := t.reclaims + 1 }
  let t ← assign t (plus t.profitWei args.profit) fun v => { t with profitWei := v }
  let t ← assign t (plus t.toUserWei args.toUser) fun v => { t with toUserWei := v }
  let t ← assign t (plus t.toProtocolWei args.toProtocol) fun v => { t with toProtocolWei := v }
  .ok { t with recent := (row l args :: t.recent).take 50 }

def ingest (t : SwapTotals) (l : Log) : Except SwapTotals SwapTotals :=
  let topic := l.topics.head?
  if topic = some TOPIC_SWAPPED then .ok { t with swaps := t.swaps + 1 }
  else if topic = some TOPIC_RECLAIMED then
    match decodeEventLog l.topics l.data with
    | some args => reclaim t l args
    | none => .error t
  else if topic = some TOPIC_SKIPPED then .ok { t with skipped := t.skipped + 1 }
  else .ok t

/-! What the logs come to -/

def Log.has (topic : String) (l : Log) : Bool := l.topics.head? = some topic

/-- The reclaims among the logs. -/
def reclaimed (ls : List Log) : List (Log × Args) :=
  (ls.filter (Log.has TOPIC_RECLAIMED)).filterMap fun l =>
    (decodeEventLog l.topics l.data).map (l, ·)

/-- The totals are those of the logs, which are in the order of the chain. -/
structure Counts (t : SwapTotals) (ls : List Log) : Prop where
  swaps : t.swaps = ls.countP (Log.has TOPIC_SWAPPED)
  reclaims : t.reclaims = ls.countP (Log.has TOPIC_RECLAIMED)
  skipped : t.skipped = ls.countP (Log.has TOPIC_SKIPPED)
  /-- Each of the reclaims has been read. -/
  all : (reclaimed decodeEventLog ls).map Prod.fst = ls.filter (Log.has TOPIC_RECLAIMED)
  profitWei : t.profitWei = wei ((reclaimed decodeEventLog ls).map (·.2.profit)).sum
  toUserWei : t.toUserWei = wei ((reclaimed decodeEventLog ls).map (·.2.toUser)).sum
  toProtocolWei :
    t.toProtocolWei = wei ((reclaimed decodeEventLog ls).map (·.2.toProtocol)).sum
  /-- The last ones, newest first. -/
  recent : t.recent =
    (((reclaimed decodeEventLog ls).map fun p => row p.1 p.2).reverse).take 50

variable {decodeEventLog} {t : SwapTotals} {l : Log} {ls : List Log}

theorem plus_wei (m n : Nat) : plus (wei m) n = .ok (wei (m + n)) := by
  rw [plus, wei, String.toList_ofList, bigInt_decimal]
  rfl

theorem reclaim_eq {p u q : Nat} (hprofit : t.profitWei = wei p) (huser : t.toUserWei = wei u)
    (hprotocol : t.toProtocolWei = wei q) (args : Args) :
    reclaim t l args = .ok
      { t with
        reclaims := t.reclaims + 1
        profitWei := wei (p + args.profit)
        toUserWei := wei (u + args.toUser)
        toProtocolWei := wei (q + args.toProtocol)
        recent := (row l args :: t.recent).take 50 } := by
  rw [reclaim, hprofit, plus_wei]
  change (assign _ (plus t.toUserWei args.toUser) _ >>= _) = _
  rw [huser, plus_wei]
  change (assign _ (plus t.toProtocolWei args.toProtocol) _ >>= _) = _
  rw [hprotocol, plus_wei]
  rfl

theorem wei_zero : wei 0 = "0" := by decide +kernel

theorem topics_apart : TOPIC_SWAPPED ≠ TOPIC_RECLAIMED ∧ TOPIC_SWAPPED ≠ TOPIC_SKIPPED ∧
    TOPIC_RECLAIMED ≠ TOPIC_SKIPPED := by
  decide +kernel

theorem reclaimed_append (ls ls' : List Log) : reclaimed decodeEventLog (ls ++ ls') =
    reclaimed decodeEventLog ls ++ reclaimed decodeEventLog ls' := by
  rw [reclaimed, List.filter_append, List.filterMap_append]
  rfl

theorem reclaimed_other (h : l.has TOPIC_RECLAIMED = false) :
    reclaimed decodeEventLog [l] = [] := by
  rw [reclaimed, List.filter_singleton, h]
  rfl

theorem reclaimed_one {args : Args} (h : l.has TOPIC_RECLAIMED = true)
    (hargs : decodeEventLog l.topics l.data = some args) :
    reclaimed decodeEventLog [l] = [(l, args)] := by
  rw [reclaimed, List.filter_singleton, h]
  simp only [cond_true, List.filterMap_cons, hargs, Option.map_some, List.filterMap_nil]

/-- What stays when logs are counted. -/
structure Frame (t t' : SwapTotals) : Prop where
  addresses : t'.addresses = t.addresses
  fromBlock : t'.fromBlock = t.fromBlock
  scannedTo : t'.scannedTo = t.scannedTo

/-- A log that is no reclaim. -/
theorem Counts.snoc_other {t' : SwapTotals} (h : Counts decodeEventLog t ls)
    (hno : l.has TOPIC_RECLAIMED = false)
    (hswaps : t'.swaps = t.swaps + if l.has TOPIC_SWAPPED then 1 else 0)
    (hskipped : t'.skipped = t.skipped + if l.has TOPIC_SKIPPED then 1 else 0)
    (hsame : t' = { t with swaps := t'.swaps, skipped := t'.skipped }) :
    Counts decodeEventLog t' (ls ++ [l]) := by
  have hrest : reclaimed decodeEventLog (ls ++ [l]) = reclaimed decodeEventLog ls := by
    rw [reclaimed_append, reclaimed_other hno, List.append_nil]
  rw [hsame]
  constructor
  · rw [List.countP_append, List.countP_singleton, ← h.swaps]
    exact hswaps
  · rw [List.countP_append, List.countP_singleton, hno, ← h.reclaims]
    rfl
  · rw [List.countP_append, List.countP_singleton, ← h.skipped]
    exact hskipped
  · rw [hrest, List.filter_append, List.filter_singleton, hno, h.all]
    exact (List.append_nil _).symm
  · rw [hrest]
    exact h.profitWei
  · rw [hrest]
    exact h.toUserWei
  · rw [hrest]
    exact h.toProtocolWei
  · rw [hrest]
    exact h.recent

/-- **A log is counted once.** -/
theorem counts_ingest (h : Counts decodeEventLog t ls)
    (hl : l.has TOPIC_RECLAIMED = true → (decodeEventLog l.topics l.data).isSome) :
    ∃ t', ingest decodeEventLog t l = .ok t' ∧ Counts decodeEventLog t' (ls ++ [l]) ∧
      Frame t t' := by
  obtain ⟨hswap, hswapSkip, hskip⟩ := topics_apart
  rw [ingest]
  by_cases hswapped : l.topics.head? = some TOPIC_SWAPPED
  · rw [if_pos hswapped]
    refine ⟨_, rfl, h.snoc_other ?_ ?_ ?_ rfl, ⟨rfl, rfl, rfl⟩⟩
    · simp [Log.has, hswapped, hswap]
    · simp [Log.has, hswapped]
    · simp [Log.has, hswapped, hswapSkip]
  rw [if_neg hswapped]
  by_cases hreclaimed : l.topics.head? = some TOPIC_RECLAIMED
  · have hhas : l.has TOPIC_RECLAIMED = true := decide_eq_true hreclaimed
    obtain ⟨args, hargs⟩ := Option.isSome_iff_exists.mp (hl hhas)
    have hmore : reclaimed decodeEventLog (ls ++ [l]) =
        reclaimed decodeEventLog ls ++ [(l, args)] := by
      rw [reclaimed_append, reclaimed_one hhas hargs]
    rw [if_pos hreclaimed, hargs]
    dsimp only
    rw [reclaim_eq h.profitWei h.toUserWei h.toProtocolWei]
    refine ⟨_, rfl, ⟨?_, ?_, ?_, ?_, ?_, ?_, ?_, ?_⟩, ⟨rfl, rfl, rfl⟩⟩
    · simp [Log.has, hswapped, h.swaps]
    · simp [Log.has, hreclaimed, h.reclaims]
    · simp [Log.has, hreclaimed, hskip, h.skipped]
    · rw [hmore, List.map_append, h.all, List.filter_append, List.filter_singleton, hhas]
      rfl
    · simp [hmore]
    · simp [hmore]
    · simp [hmore]
    · -- the new row, and the first 49 of the old ones
      rw [hmore, List.map_append, List.reverse_append]
      change (row l args :: t.recent).take 50 = (row l args :: _).take 50
      rw [h.recent, List.take_succ_cons, List.take_succ_cons, List.take_take]
      rfl
  rw [if_neg hreclaimed]
  have hhas : l.has TOPIC_RECLAIMED = false := decide_eq_false hreclaimed
  have hnoswap : l.has TOPIC_SWAPPED = false := decide_eq_false hswapped
  by_cases hskipped : l.topics.head? = some TOPIC_SKIPPED
  · rw [if_pos hskipped]
    refine ⟨_, rfl, h.snoc_other hhas ?_ ?_ rfl, ⟨rfl, rfl, rfl⟩⟩
    · simp [hnoswap]
    · simp [Log.has, hskipped]
  · rw [if_neg hskipped]
    have hnoskip : l.has TOPIC_SKIPPED = false := decide_eq_false hskipped
    refine ⟨_, rfl, h.snoc_other hhas ?_ ?_ rfl, ⟨rfl, rfl, rfl⟩⟩
    · simp [hnoswap]
    · simp [hnoskip]

/-- The logs of a reply. -/
theorem counts_foldlM {ls' : List Log} (h : Counts decodeEventLog t ls)
    (hls : ∀ l ∈ ls', l.has TOPIC_RECLAIMED = true →
      (decodeEventLog l.topics l.data).isSome) :
    ∃ t', ls'.foldlM (ingest decodeEventLog) t = .ok t' ∧
      Counts decodeEventLog t' (ls ++ ls') ∧ Frame t t' := by
  induction ls' generalizing t ls with
  | nil => exact ⟨t, rfl, by rwa [List.append_nil], ⟨rfl, rfl, rfl⟩⟩
  | cons l ls' ih =>
      obtain ⟨t₁, hfirst, hcounts₁, hframe₁⟩ := counts_ingest h (hls l List.mem_cons_self)
      obtain ⟨t₂, hrest, hcounts₂, hframe₂⟩ :=
        ih hcounts₁ fun l' hl' => hls l' (List.mem_cons_of_mem _ hl')
      refine ⟨t₂, ?_, by rwa [List.append_assoc] at hcounts₂, ?_⟩
      · rw [List.foldlM_cons, hfirst]
        exact hrest
      · exact ⟨hframe₂.addresses.trans hframe₁.addresses,
          hframe₂.fromBlock.trans hframe₁.fromBlock, hframe₂.scannedTo.trans hframe₁.scannedTo⟩

end Logs

/-! ### The file -/

section File

def ReclaimRow.json (r : ReclaimRow) : Json :=
  .obj [("tx", .str r.tx), ("block", intJson r.block), ("recipient", .str r.recipient),
    ("profitWei", .str r.profitWei), ("toUserWei", .str r.toUserWei),
    ("toProtocolWei", .str r.toProtocolWei)]

def SwapTotals.fields (t : SwapTotals) : List (String × Json) :=
  [("address", .str t.address), ("addresses", .arr (t.addresses.map .str)),
    ("fromBlock", intJson t.fromBlock), ("scannedTo", intJson t.scannedTo),
    ("swaps", intJson t.swaps), ("reclaims", intJson t.reclaims),
    ("skipped", intJson t.skipped), ("profitWei", .str t.profitWei),
    ("toUserWei", .str t.toUserWei), ("toProtocolWei", .str t.toProtocolWei),
    ("recent", .arr (t.recent.map ReclaimRow.json)), ("updatedAt", intJson t.updatedAt)]

/-- `JSON.stringify(this.t)` -/
def SwapTotals.text (t : SwapTotals) : Text := stringify (.obj t.fields)

def nat? (v : Json) : Option Nat := (int? v).map Int.toNat

def row? (v : Json) : Option ReclaimRow := do
  some
    { tx := ← (← v.field? "tx") |> str?
      block := ← (← v.field? "block") |> nat?
      recipient := ← (← v.field? "recipient") |> str?
      profitWei := ← (← v.field? "profitWei") |> str?
      toUserWei := ← (← v.field? "toUserWei") |> str?
      toProtocolWei := ← (← v.field? "toProtocolWei") |> str? }

def rows? : Json → Option (List ReclaimRow)
  | .arr vs => vs.mapM row?
  | _ => none

/-- `saved.addresses ?? (saved.address ? [saved.address] : [])`; `none` throws when it is to be
in small letters. -/
def addresses? (saved : Json) : Option (List String) :=
  let old :=
    match saved.field? "address" with
    | some (.str a) => some (if a = "" then [] else [a])
    | some v => if v.isTruthy then none else some []
    | none => some []
  match saved.field? "addresses" with
  | some (.arr vs) => vs.mapM str?
  | some v => if v.isNull then old else none
  | none => old

/-- `l.sort().join(",")` -/
def joined (l : List String) : Text :=
  [','].intercalate ((l.mergeSort fun a b => a ≤ b).map String.toList)

/-- `{ ...t, ...saved }`, where what is saved is of the types it is written with. -/
def merge (t : SwapTotals) (saved : Json) : SwapTotals where
  address := ((saved.field? "address").bind str?).getD t.address
  addresses := (addresses? saved).getD t.addresses
  fromBlock := ((saved.field? "fromBlock").bind nat?).getD t.fromBlock
  scannedTo := ((saved.field? "scannedTo").bind int?).getD t.scannedTo
  swaps := ((saved.field? "swaps").bind nat?).getD t.swaps
  reclaims := ((saved.field? "reclaims").bind nat?).getD t.reclaims
  skipped := ((saved.field? "skipped").bind nat?).getD t.skipped
  profitWei := ((saved.field? "profitWei").bind str?).getD t.profitWei
  toUserWei := ((saved.field? "toUserWei").bind str?).getD t.toUserWei
  toProtocolWei := ((saved.field? "toProtocolWei").bind str?).getD t.toProtocolWei
  recent := ((saved.field? "recent").bind rows?).getD t.recent
  updatedAt := ((saved.field? "updatedAt").bind nat?).getD t.updatedAt

/-- A file that is missing or cannot be read leaves the totals as they are, and so does one
that was written for other contracts or from another block. -/
def load (t : SwapTotals) (file : Option Text) : SwapTotals :=
  match file.bind parse with
  | none => t
  | some saved =>
      match addresses? saved with
      | none => t
      | some addresses =>
          let was := joined (addresses.map String.toLower)
          let sameSet := was = joined t.addresses
          if sameSet ∧ (saved.field? "fromBlock").bind int? = some (t.fromBlock : Int) then
            { merge t saved with addresses := t.addresses, address := t.address }
          else t

theorem nat?_intJson (n : Nat) : nat? (intJson n) = some n := by
  rw [nat?, int?_intJson]
  rfl

theorem row?_json (r : ReclaimRow) : row? r.json = some r := by
  simp [row?, ReclaimRow.json, field?, List.lookup_cons, str?, nat?_intJson]

theorem mapM_json {α : Type} {write : α → Json} {read : Json → Option α}
    (h : ∀ a, read (write a) = some a) (as : List α) : (as.map write).mapM read = some as := by
  induction as with
  | nil => rfl
  | cons a as ih =>
      rw [List.map_cons, List.mapM_cons, h, ih]
      rfl

theorem addresses?_fields (t : SwapTotals) : addresses? (.obj t.fields) = some t.addresses := by
  have hstr : ∀ a, str? (.str a) = some a := fun _ => rfl
  have hread := mapM_json hstr t.addresses
  simpa [addresses?, SwapTotals.fields, field?, List.lookup_cons] using hread

theorem fromBlock_fields (t : SwapTotals) :
    (field? "fromBlock" (.obj t.fields)).bind int? = some (t.fromBlock : Int) := by
  simp [SwapTotals.fields, field?, List.lookup_cons, int?_intJson]

/-- What is saved stands over what was there. -/
theorem merge_fields (t saved : SwapTotals) : merge t (.obj saved.fields) = saved := by
  have hrows := mapM_json row?_json saved.recent
  rw [merge, addresses?_fields]
  simp [SwapTotals.fields, field?, List.lookup_cons, int?_intJson, nat?_intJson, str?, rows?, hrows]

theorem printed_row (r : ReclaimRow) : Printed r.json := by
  have hnames : ["tx", "block", "recipient", "profitWei", "toUserWei", "toProtocolWei"].Nodup :=
    by decide
  exact ⟨hnames, trivial, written_numeralOf _, trivial, trivial, trivial, trivial, trivial⟩

theorem printed_fields (t : SwapTotals) : Printed (.obj t.fields) := by
  have hnames : ["address", "addresses", "fromBlock", "scannedTo", "swaps", "reclaims",
      "skipped", "profitWei", "toUserWei", "toProtocolWei", "recent", "updatedAt"].Nodup := by
    decide
  have hstr : ∀ a, Printed (.str a) := fun _ => trivial
  exact ⟨hnames, trivial, printedAll_map hstr _, written_numeralOf _, written_numeralOf _,
    written_numeralOf _, written_numeralOf _, written_numeralOf _, trivial, trivial, trivial,
    printedAll_map printed_row _, written_numeralOf _, trivial⟩

/-- Lists of addresses with the same text hold the same addresses. -/
theorem perm_of_joined {l l' : List String} (hl : l ≠ []) (hl' : l' ≠ [])
    (hcommas : ∀ a ∈ l, ',' ∉ a.toList) (hcommas' : ∀ a ∈ l', ',' ∉ a.toList)
    (h : joined l = joined l') : l.Perm l' := by
  have hsplit : ∀ {l : List String}, l ≠ [] → (∀ a ∈ l, ',' ∉ a.toList) →
      (joined l).splitOn ',' = (l.mergeSort fun a b => a ≤ b).map String.toList := by
    intro l hl hcommas
    have hperm := List.mergeSort_perm l fun a b => decide (a ≤ b)
    refine List.splitOn_intercalate ',' (fun cs hcs => ?_) ?_
    · obtain ⟨a, ha, rfl⟩ := List.mem_map.mp hcs
      exact hcommas a (hperm.mem_iff.mp ha)
    · rw [ne_eq, List.map_eq_nil_iff]
      exact fun hnil => hl (hperm.symm.trans (hnil ▸ List.Perm.refl _)).eq_nil
  have hsorted := (hsplit hl hcommas).symm.trans (h ▸ hsplit hl' hcommas')
  have heq := (List.map_inj_right fun a b hab => String.toList_inj.mp hab).mp hsorted
  have hperm := List.mergeSort_perm l fun a b => decide (a ≤ b)
  rw [heq] at hperm
  exact hperm.symm.trans (List.mergeSort_perm l' fun a b => decide (a ≤ b))

/-- **What a new process begins with**: its own totals, or those that are whole in the file
and of the same addresses and start block. -/
theorem load_take (t saved : SwapTotals) (k : Nat)
    (hlower : saved.addresses.map String.toLower = saved.addresses) :
    load t (some (saved.text.take k)) = t ∨
      saved.text.take k = saved.text ∧ joined saved.addresses = joined t.addresses ∧
        saved.fromBlock = t.fromBlock ∧ load t (some (saved.text.take k)) =
          { saved with addresses := t.addresses, address := t.address } := by
  rcases lt_or_ge k saved.text.length with hcut | hwhole
  · refine Or.inl ?_
    rw [load, Option.bind_some, SwapTotals.text, parse_take (printed_fields saved) hcut]
  · rw [List.take_of_length_le hwhole, load, Option.bind_some, SwapTotals.text,
      parse_stringify (printed_fields saved)]
    dsimp only
    rw [addresses?_fields]
    dsimp only
    rw [hlower, fromBlock_fields, merge_fields]
    split
    next hsame =>
      obtain ⟨hset, hfrom⟩ := hsame
      exact Or.inr ⟨rfl, hset, by exact_mod_cast Option.some.inj hfrom, rfl⟩
    next => exact Or.inl rfl

end File

/-! ### The chain and the process -/

section Model

variable {decodeEventLog : List String → String → Option Args}

/-- The logs block by block, with their addresses in small letters, and which contracts are
deployments of the swap: what they emit can be decoded. -/
structure Chain (decodeEventLog : List String → String → Option Args) where
  logs : Nat → List Log
  deployment : String → Prop
  emitted : ∀ n, ∀ l ∈ logs n, deployment l.address → l.has TOPIC_RECLAIMED = true →
    (decodeEventLog l.topics l.data).isSome

/-- What `eth_getLogs` answers, if it does. -/
def Chain.between (c : Chain decodeEventLog) (addresses : List String) (r : Range) : List Log :=
  Blocks.between (fun n => (c.logs n).filter (·.address ∈ addresses)) r.first r.last

/-- What a `SwapStats` is made with. -/
structure Config (c : Chain decodeEventLog) where
  address : List String
  fromBlock : Nat
  /-- There is a file. -/
  file : Bool
  chunk : Nat
  maxChunksPerPass : Nat
  given : address ≠ []
  /-- Addresses are in hexadecimal. -/
  noComma : ∀ a ∈ address, ',' ∉ a.toLower.toList
  deployed : ∀ a ∈ address, c.deployment a.toLower

variable {c : Chain decodeEventLog}

def Config.addresses (cfg : Config c) : List String :=
  (cfg.address.map String.toLower).eraseDups

def Config.totals (cfg : Config c) : SwapTotals where
  address := cfg.addresses.headD ""
  addresses := cfg.addresses
  fromBlock := cfg.fromBlock
  scannedTo := cfg.fromBlock - 1
  swaps := 0
  reclaims := 0
  skipped := 0
  profitWei := "0"
  toUserWei := "0"
  toProtocolWei := "0"
  recent := []
  updatedAt := 0

/-- What a call of `refresh` waits for. -/
inductive Await where
  | head
  /-- The logs of a range; the head of the chain is known, and so many ranges have been asked
  for. -/
  | logs (head : Int) (passes : Nat) (r : Range)
  deriving DecidableEq

/-- A process, with its calls of `refresh` that have not returned, and its file. -/
structure World (c : Chain decodeEventLog) where
  config : Config c
  t : SwapTotals
  running : Bool
  calls : List Await
  file : Option Text

/-- The time at which a call ends, and what its `save` comes to: how much of the text is
written, or nothing, if it throws before it begins. -/
structure Ending where
  now : Nat
  written : Option Nat

/-- Anything that happens.  An answer is for one of the calls that wait. -/
inductive Event (c : Chain decodeEventLog) where
  | refresh
  /-- `eth_blockNumber`; `none` throws. -/
  | head (i : Nat) (answer : Option Int) (ending : Ending)
  /-- `eth_getLogs`, which answers with the truth or throws. -/
  | logs (i : Nat) (answered : Bool) (ending : Ending)
  | restart (config : Config c)
  /-- The file is cut short. -/
  | torn (k : Nat)
  | removed

/-- A new process. -/
def start (cfg : Config c) (file : Option Text) : World c where
  config := cfg
  t := load cfg.totals (if cfg.file then file else none)
  running := false
  calls := []
  file := file

/-- A call throws. -/
def World.fail (w : World c) (i : Nat) (t : SwapTotals) : World c :=
  { w with t, running := false, calls := w.calls.eraseIdx i }

def World.save (w : World c) (written : Option Nat) : World c :=
  match w.config.file, written with
  | true, some k => { w with file := some (w.t.text.take k) }
  | _, _ => w

/-- A call is at the head of its loop. -/
def World.loop (w : World c) (i : Nat) (t : SwapTotals) (head : Int) (passes : Nat)
    (ending : Ending) : World c :=
  if t.scannedTo < head ∧ passes < w.config.maxChunksPerPass then
    let first := t.scannedTo + 1
    let last := min (first + w.config.chunk - 1) head
    { w with t, calls := w.calls.set i (.logs head (passes + 1) ⟨first, last⟩) }
  else
    (w.fail i { t with updatedAt := ending.now }).save ending.written

def World.refresh (w : World c) : World c :=
  if w.running then w else { w with running := true, calls := w.calls ++ [.head] }

def World.onHead (w : World c) (i : Nat) (answer : Option Int) (ending : Ending) : World c :=
  match w.calls[i]?, answer with
  | some .head, some head => w.loop i w.t head 0 ending
  | some .head, none => w.fail i w.t
  | _, _ => w

def World.onLogs (w : World c) (i : Nat) (answered : Bool) (ending : Ending) : World c :=
  match w.calls[i]?, answered with
  | some (.logs head passes r), true =>
      match (c.between w.t.addresses r).foldlM (ingest decodeEventLog) w.t with
      | .ok t => w.loop i { t with scannedTo := r.last } head passes ending
      | .error t => w.fail i t
  | some (.logs _ _ _), false => w.fail i w.t
  | _, _ => w

def step (w : World c) : Event c → World c
  | .refresh => w.refresh
  | .head i answer ending => w.onHead i answer ending
  | .logs i answered ending => w.onLogs i answered ending
  | .restart cfg => start cfg w.file
  | .torn k => { w with file := w.file.map (List.take k) }
  | .removed => { w with file := none }

def run (w : World c) (es : List (Event c)) : World c := es.foldl step w

end Model

/-! ### What holds at any time -/

section Runs

variable {decodeEventLog : List String → String → Option Args} {c : Chain decodeEventLog}
  {cfg : Config c} {t : SwapTotals} {w : World c}

/-- The totals are those of all blocks from the first one on that have been read. -/
structure Tallied (c : Chain decodeEventLog) (t : SwapTotals) : Prop where
  fromBlock_le : (t.fromBlock : Int) - 1 ≤ t.scannedTo
  counts : Counts decodeEventLog t (c.between t.addresses ⟨t.fromBlock, t.scannedTo⟩)

/-- The totals are of what a process watches. -/
structure Built (cfg : Config c) (t : SwapTotals) : Prop where
  addresses_eq : t.addresses = cfg.addresses
  fromBlock_eq : t.fromBlock = cfg.fromBlock
  tallied : Tallied c t

theorem Config.mem_addresses {a : String} :
    a ∈ cfg.addresses ↔ ∃ b ∈ cfg.address, b.toLower = a := by
  rw [Config.addresses, List.mem_eraseDups, List.mem_map]

theorem Config.addresses_ne_nil (cfg : Config c) : cfg.addresses ≠ [] := by
  obtain ⟨a, rest, h⟩ := List.exists_cons_of_ne_nil cfg.given
  have hmem : a.toLower ∈ cfg.addresses :=
    Config.mem_addresses.mpr ⟨a, h ▸ List.mem_cons_self, rfl⟩
  exact List.ne_nil_of_mem hmem

theorem Config.addresses_noComma (cfg : Config c) : ∀ a ∈ cfg.addresses, ',' ∉ a.toList := by
  intro a ha
  obtain ⟨b, hb, rfl⟩ := Config.mem_addresses.mp ha
  exact cfg.noComma b hb

theorem Config.addresses_lower (cfg : Config c) :
    cfg.addresses.map String.toLower = cfg.addresses := by
  have hsame : ∀ a ∈ cfg.addresses, a.toLower = id a := by
    intro a ha
    obtain ⟨b, -, rfl⟩ := Config.mem_addresses.mp ha
    exact toLower_toLower b
  rw [List.map_congr_left hsame, List.map_id]

/-- The logs of the watched contracts can be read. -/
theorem between_decoded (cfg : Config c) (r : Range) :
    ∀ l ∈ c.between cfg.addresses r, l.has TOPIC_RECLAIMED = true →
      (decodeEventLog l.topics l.data).isSome := by
  intro l hl hhas
  rw [Chain.between, Blocks.between, List.mem_flatMap] at hl
  obtain ⟨n, -, hl⟩ := hl
  obtain ⟨hl, hwatched⟩ := List.mem_filter.mp hl
  obtain ⟨a, ha, heq⟩ := Config.mem_addresses.mp (of_decide_eq_true hwatched)
  exact c.emitted n l hl (heq ▸ cfg.deployed a ha) hhas

theorem counts_nil (cfg : Config c) : Counts decodeEventLog cfg.totals [] where
  swaps := rfl
  reclaims := rfl
  skipped := rfl
  all := rfl
  profitWei := wei_zero.symm
  toUserWei := wei_zero.symm
  toProtocolWei := wei_zero.symm
  recent := rfl

/-- Before anything has been read. -/
theorem built_totals (cfg : Config c) : Built cfg cfg.totals where
  addresses_eq := rfl
  fromBlock_eq := rfl
  tallied := by
    refine ⟨Int.le_refl _, ?_⟩
    have hnone : c.between cfg.addresses ⟨cfg.fromBlock, (cfg.fromBlock : Int) - 1⟩ = [] :=
      Blocks.between_empty (show (cfg.fromBlock : Int) - 1 < cfg.fromBlock by omega)
    change Counts decodeEventLog cfg.totals
      (c.between cfg.addresses ⟨cfg.fromBlock, (cfg.fromBlock : Int) - 1⟩)
    rw [hnone]
    exact counts_nil cfg

/-- **A range that is read.** -/
theorem built_read (h : Built cfg t) {r : Range} (hfirst : r.first = t.scannedTo + 1)
    (hlast : t.scannedTo ≤ r.last) :
    ∃ t', (c.between t.addresses r).foldlM (ingest decodeEventLog) t = .ok t' ∧
      Built cfg { t' with scannedTo := r.last } := by
  have hdecoded := between_decoded cfg r
  rw [← h.addresses_eq] at hdecoded
  obtain ⟨t', hfold, hcounts, hframe⟩ := counts_foldlM h.tallied.counts hdecoded
  have hfrom := h.tallied.fromBlock_le
  have hjoin : c.between t.addresses ⟨t.fromBlock, t.scannedTo⟩ ++ c.between t.addresses r =
      c.between t.addresses ⟨t.fromBlock, r.last⟩ := by
    obtain ⟨first, last⟩ := r
    obtain rfl : first = t.scannedTo + 1 := hfirst
    exact Blocks.between_append (Int.natCast_nonneg _) hfrom hlast
  rw [hjoin] at hcounts
  refine ⟨t', hfold, hframe.addresses.trans h.addresses_eq,
    hframe.fromBlock.trans h.fromBlock_eq, ?_, ?_⟩
  · change (t'.fromBlock : Int) - 1 ≤ r.last
    rw [hframe.fromBlock]
    omega
  · change Counts decodeEventLog { t' with scannedTo := r.last }
      (c.between t'.addresses ⟨t'.fromBlock, r.last⟩)
    rw [hframe.addresses, hframe.fromBlock]
    exact ⟨hcounts.swaps, hcounts.reclaims, hcounts.skipped, hcounts.all, hcounts.profitWei,
      hcounts.toUserWei, hcounts.toProtocolWei, hcounts.recent⟩

/-- The file is missing, or it is what was written for some totals, up to some place. -/
def Kept (c : Chain decodeEventLog) (file : Option Text) : Prop :=
  ∀ text, file = some text → ∃ (cfg : Config c) (saved : SwapTotals) (k : Nat),
    Built cfg saved ∧ text = saved.text.take k

/-- What the file holds for a process: totals of the same contracts, from the same block. -/
structure Resumed (cfg : Config c) (file : Option Text) (t saved : SwapTotals) : Prop where
  file_eq : file = some saved.text
  tallied : Tallied c saved
  addresses : ∀ a, a ∈ saved.addresses ↔ a ∈ cfg.addresses
  fromBlock : saved.fromBlock = cfg.fromBlock
  totals : t = { saved with addresses := cfg.addresses, address := cfg.addresses.headD "" }

/-- The totals of what is saved are those of the same contracts in another order. -/
theorem Resumed.built {file : Option Text} {saved : SwapTotals}
    (h : Resumed cfg file t saved) : Built cfg t := by
  rw [h.totals]
  refine ⟨rfl, h.fromBlock, h.tallied.fromBlock_le, ?_⟩
  have hsame : c.between cfg.addresses ⟨saved.fromBlock, saved.scannedTo⟩ =
      c.between saved.addresses ⟨saved.fromBlock, saved.scannedTo⟩ := by
    refine Blocks.between_congr (Int.natCast_nonneg _) fun n _ _ => ?_
    refine List.filter_congr fun l _ => ?_
    rw [decide_eq_decide]
    exact (h.addresses l.address).symm
  have hcounts := h.tallied.counts
  rw [← hsame] at hcounts
  exact ⟨hcounts.swaps, hcounts.reclaims, hcounts.skipped, hcounts.all, hcounts.profitWei,
    hcounts.toUserWei, hcounts.toProtocolWei, hcounts.recent⟩

/-- **What a process begins with**: nothing, or what it may go on from. -/
theorem start_spec {file : Option Text} (hfile : Kept c file) (cfg : Config c) :
    (start cfg file).t = cfg.totals ∨ ∃ saved, Resumed cfg file (start cfg file).t saved := by
  unfold start
  dsimp only
  split
  next =>
    cases file with
    | none => exact Or.inl rfl
    | some text =>
        obtain ⟨cfg', saved, k, hbuilt, rfl⟩ := hfile text rfl
        have hlower : saved.addresses.map String.toLower = saved.addresses := by
          rw [hbuilt.addresses_eq]
          exact cfg'.addresses_lower
        rcases load_take cfg.totals saved k hlower with hload | ⟨hwhole, hset, hfrom, hload⟩
        · exact Or.inl hload
        · refine Or.inr ⟨saved, by rw [hwhole], hbuilt.tallied, fun a => ?_, hfrom, hload⟩
          rw [hbuilt.addresses_eq] at hset ⊢
          exact (perm_of_joined cfg'.addresses_ne_nil cfg.addresses_ne_nil
            cfg'.addresses_noComma cfg.addresses_noComma hset).mem_iff
  next => exact Or.inl rfl

theorem built_start {file : Option Text} (hfile : Kept c file) (cfg : Config c) :
    Built cfg (start cfg file).t := by
  rcases start_spec hfile cfg with hnew | ⟨saved, hresumed⟩
  · rw [hnew]
    exact built_totals cfg
  · exact hresumed.built

/-- What a call waits for begins where the totals end. -/
def Await.Follows (t : SwapTotals) : Await → Prop
  | .head => True
  | .logs _ _ r => r.first = t.scannedTo + 1 ∧ t.scannedTo ≤ r.last

/-- **The invariant.**  One call at most is under way. -/
structure Sound (w : World c) : Prop where
  built : Built w.config w.t
  calls : w.calls = [] ∨ w.running = true ∧ ∃ a, w.calls = [a] ∧ a.Follows w.t
  kept : Kept c w.file

/-- An answer is for the one call. -/
theorem Sound.answered (h : Sound w) {i : Nat} {a : Await} (hi : w.calls[i]? = some a) :
    i = 0 ∧ w.running = true ∧ w.calls = [a] ∧ a.Follows w.t := by
  rcases h.calls with hnone | ⟨hrunning, b, hone, hfollows⟩
  · rw [hnone] at hi
    cases hi
  · rw [hone] at hi
    cases i with
    | zero =>
        obtain rfl := Option.some.inj hi
        exact ⟨rfl, hrunning, hone, hfollows⟩
    | succ i => cases hi

/-- A call that throws leaves totals that are right. -/
theorem Sound.fail (h : Sound w) {a : Await} (hone : w.calls = [a])
    (hbuilt : Built w.config t) : Sound (w.fail 0 t) where
  built := hbuilt
  calls := Or.inl (by rw [World.fail, hone]; rfl)
  kept := h.kept

/-- What is written is right. -/
theorem Sound.save (h : Sound w) (written : Option Nat) :
    Sound (w.save written) ∧ (w.save written).t = w.t := by
  unfold World.save
  split
  next k hfile =>
    refine ⟨⟨h.built, h.calls, fun text htext => ?_⟩, rfl⟩
    exact ⟨w.config, w.t, k, h.built, (Option.some.inj htext).symm⟩
  next => exact ⟨h, rfl⟩

/-- **The head of the loop.** -/
theorem Sound.loop (h : Sound w) {a : Await} (hone : w.calls = [a]) (hrunning : w.running = true)
    (hbuilt : Built w.config t) (head : Int) (passes : Nat) (ending : Ending) :
    Sound (w.loop 0 t head passes ending) ∧
      (w.loop 0 t head passes ending).t.scannedTo = t.scannedTo := by
  unfold World.loop
  split
  next hmore =>
    obtain ⟨hhead, -⟩ := hmore
    have hfollows : Await.Follows t (.logs head (passes + 1) ⟨t.scannedTo + 1,
        min (t.scannedTo + 1 + w.config.chunk - 1) head⟩) :=
      ⟨rfl, show t.scannedTo ≤ min (t.scannedTo + 1 + w.config.chunk - 1) head by omega⟩
    exact ⟨⟨hbuilt, Or.inr ⟨hrunning, _, by rw [hone]; rfl, hfollows⟩, h.kept⟩, rfl⟩
  next =>
    have hended : Built w.config { t with updatedAt := ending.now } :=
      ⟨hbuilt.addresses_eq, hbuilt.fromBlock_eq, hbuilt.tallied.fromBlock_le, by
        have hcounts := hbuilt.tallied.counts
        exact ⟨hcounts.swaps, hcounts.reclaims, hcounts.skipped, hcounts.all,
          hcounts.profitWei, hcounts.toUserWei, hcounts.toProtocolWei, hcounts.recent⟩⟩
    obtain ⟨hsaved, hsame⟩ := (h.fail hone hended).save ending.written
    exact ⟨hsaved, by rw [hsame]; rfl⟩

/-- A new process begins. -/
def Event.restarts : Event c → Bool
  | .restart _ => true
  | _ => false

theorem Sound.refresh (h : Sound w) :
    Sound w.refresh ∧ w.t.scannedTo ≤ w.refresh.t.scannedTo := by
  unfold World.refresh
  split
  next => exact ⟨h, Int.le_refl _⟩
  next hidle =>
    rcases h.calls with hnone | ⟨hrunning, -⟩
    · refine ⟨⟨h.built, Or.inr ⟨rfl, .head, ?_, trivial⟩, h.kept⟩, Int.le_refl _⟩
      rw [hnone]
      rfl
    · exact absurd hrunning hidle

theorem Sound.onHead (h : Sound w) (i : Nat) (answer : Option Int) (ending : Ending) :
    Sound (w.onHead i answer ending) ∧
      w.t.scannedTo ≤ (w.onHead i answer ending).t.scannedTo := by
  unfold World.onHead
  split
  next head hcall =>
    obtain ⟨rfl, hrunning, hone, -⟩ := h.answered hcall
    obtain ⟨hsound, hsame⟩ := h.loop hone hrunning h.built head 0 ending
    exact ⟨hsound, Int.le_of_eq hsame.symm⟩
  next hcall =>
    obtain ⟨rfl, -, hone, -⟩ := h.answered hcall
    exact ⟨h.fail hone h.built, Int.le_refl _⟩
  next => exact ⟨h, Int.le_refl _⟩

theorem Sound.onLogs (h : Sound w) (i : Nat) (answered : Bool) (ending : Ending) :
    Sound (w.onLogs i answered ending) ∧
      w.t.scannedTo ≤ (w.onLogs i answered ending).t.scannedTo := by
  unfold World.onLogs
  split
  next head passes r hcall =>
    -- the range that has come back is the one behind the totals, so it is counted now only
    obtain ⟨rfl, hrunning, hone, hfirst, hlast⟩ := h.answered hcall
    obtain ⟨t', hfold, hbuilt⟩ := built_read h.built hfirst hlast
    rw [hfold]
    obtain ⟨hsound, hsame⟩ := h.loop hone hrunning hbuilt head passes ending
    exact ⟨hsound, Int.le_trans hlast (Int.le_of_eq hsame.symm)⟩
  next hcall =>
    obtain ⟨rfl, -, hone, -⟩ := h.answered hcall
    exact ⟨h.fail hone h.built, Int.le_refl _⟩
  next => exact ⟨h, Int.le_refl _⟩

/-- **One event.** -/
theorem step_spec (h : Sound w) (e : Event c) :
    Sound (step w e) ∧ (e.restarts = false → w.t.scannedTo ≤ (step w e).t.scannedTo) := by
  cases e with
  | refresh => exact ⟨h.refresh.1, fun _ => h.refresh.2⟩
  | head i answer ending =>
      obtain ⟨hsound, hgrows⟩ := h.onHead i answer ending
      exact ⟨hsound, fun _ => hgrows⟩
  | logs i answered ending =>
      obtain ⟨hsound, hgrows⟩ := h.onLogs i answered ending
      exact ⟨hsound, fun _ => hgrows⟩
  | restart cfg =>
      exact ⟨⟨built_start h.kept cfg, Or.inl rfl, h.kept⟩, fun hrestarts => by cases hrestarts⟩
  | torn k =>
      refine ⟨⟨h.built, h.calls, fun text htext => ?_⟩, fun _ => Int.le_refl _⟩
      obtain ⟨whole, hwhole, rfl⟩ := Option.map_eq_some_iff.mp htext
      obtain ⟨cfg, saved, k', hbuilt, rfl⟩ := h.kept whole hwhole
      exact ⟨cfg, saved, min k k', hbuilt, List.take_take⟩
  | removed => exact ⟨⟨h.built, h.calls, fun text htext => by cases htext⟩, fun _ => Int.le_refl _⟩

/-- **Any number of events.** -/
theorem run_spec (es : List (Event c)) : ∀ {w : World c}, Sound w → Sound (run w es) ∧
    ((∀ e ∈ es, e.restarts = false) → w.t.scannedTo ≤ (run w es).t.scannedTo) := by
  induction es with
  | nil => exact fun h => ⟨h, fun _ => Int.le_refl _⟩
  | cons e es ih =>
      intro w h
      obtain ⟨hsound, hgrows⟩ := step_spec h e
      obtain ⟨hrun, hgrows'⟩ := ih hsound
      refine ⟨hrun, fun hrestarts => ?_⟩
      exact Int.le_trans (hgrows (hrestarts e List.mem_cons_self))
        (hgrows' fun e' he' => hrestarts e' (List.mem_cons_of_mem _ he'))

theorem sound_start (cfg : Config c) : Sound (start cfg none) where
  built := built_start (fun text htext => by cases htext) cfg
  calls := Or.inl rfl
  kept := fun text htext => by cases htext

end Runs

/-- **Each swap is counted once.**  After any events, the totals are those of the logs that
the watched contracts have left in the blocks from the first one up to `scannedTo`; as long
as the process lives, `scannedTo` does not step back; and a new process begins with nothing
read, or with totals that were saved for the same contracts and start block. -/
theorem each_swap_once {decodeEventLog : List String → String → Option Args}
    (c : Chain decodeEventLog) (cfg : Config c) (es : List (Event c)) :
    Built (run (start cfg none) es).config (run (start cfg none) es).t ∧
      (∀ es' : List (Event c), (∀ e ∈ es', e.restarts = false) →
        (run (start cfg none) es).t.scannedTo ≤ (run (start cfg none) (es ++ es')).t.scannedTo) ∧
      ∀ cfg' : Config c, (run (start cfg none) (es ++ [.restart cfg'])).t = cfg'.totals ∨
        ∃ saved, Resumed cfg' (run (start cfg none) es).file
          (run (start cfg none) (es ++ [.restart cfg'])).t saved := by
  obtain ⟨hsound, -⟩ := run_spec es (sound_start cfg)
  have happend : ∀ es' : List (Event c), run (start cfg none) (es ++ es') =
      run (run (start cfg none) es) es' := fun es' => List.foldl_append
  refine ⟨hsound.built, fun es' hes' => ?_, fun cfg' => ?_⟩
  · rw [happend]
    exact (run_spec es' hsound).2 hes'
  · rw [happend]
    exact start_spec hsound.kept cfg'

section Sample

def sampleChain : Chain fun _ _ => some ⟨"0xee", 1000, 900, 100⟩ where
  logs n := if n = 101 then [⟨"0xaa", [TOPIC_SWAPPED], "0x", n, "0x01"⟩] else []
  deployment _ := True
  emitted _ _ _ _ _ := rfl

def sampleConfig : Config sampleChain where
  address := ["0xAA"]
  fromBlock := 100
  file := true
  chunk := 2
  maxChunksPerPass := 2
  given := List.cons_ne_nil _ _
  noComma := by decide +kernel
  deployed _ _ := trivial

/- A call in between is turned away, and a range that could not be read is read again. -/
example :
    let ending : Ending := ⟨7, none⟩
    let t := (run (start sampleConfig none)
      [.refresh, .head 0 (some 101) ending, .refresh, .logs 0 false ending, .refresh,
        .head 0 (some 101) ending, .logs 0 true ending, .logs 0 true ending]).t
    t.scannedTo = 101 ∧ t.swaps = 1 := by
  decide +kernel

end Sample

end SwapStats

end Ordo
