import Mathlib.Data.List.Infix
import Mathlib.Logic.Relation
import Ordo.FastPath

/-!
# Answers that are kept

An answer that is kept for longer than the window of the fee methods has to be final:
the same request must have it at any later time.

A chain is a list of blocks, to which blocks are only appended, and a pool of
transactions that are seen and not yet mined.  A node answers a transaction from the
blocks first, and then from the pool without a block number.

* `Chain.isFinal_of_edge` — what the edge worker keeps is final;
* `kept_iff` — the gateway keeps what is not final, and the two disagree, exactly for a
  transaction that has no block number yet.
-/

namespace Ordo

namespace Finality

open FastPath

structure Tx where
  hash : String
  body : List (String × Json)
  receipt : List (String × Json)

structure Block where
  hash : String
  header : List (String × Json)
  txs : List Tx

/-- The blocks there are, and how far they count as safe and as finalized. -/
structure Chain where
  blocks : List Block
  pool : List Tx
  safe : Nat
  finalized : Nat

/-- A mined transaction, with where it stands. -/
structure Mined where
  tx : Tx
  index : Nat
  block : Block
  number : Nat

namespace Chain

/-! ### Answers -/

/-- What an `eth_getBlockByNumber` names. -/
inductive Tag where
  | number (n : Nat)
  | head (c : Chain → Option Nat)
  | pending

def latest (c : Chain) : Option Nat := if c.blocks = [] then none else some (c.blocks.length - 1)

/-- A number in hexadecimal, without zeros in front. -/
def parseQuantity (s : String) : Option Nat :=
  match s.toList with
  | '0' :: 'x' :: ds =>
      if ds = ['0'] ∨ ds ≠ [] ∧ ds.head? ≠ some '0' ∧ Hex.IsHex ds then some (Hex.value ds)
      else none
  | _ => none

/-- Tags are told apart by case. -/
def parseTag (s : String) : Option Tag :=
  if s = "latest" then some (.head latest)
  else if s = "pending" then some .pending
  else if s = "safe" then some (.head fun c => some c.safe)
  else if s = "finalized" then some (.head fun c => some c.finalized)
  else if s = "earliest" then some (.number 0)
  else (parseQuantity s).map .number

def txJson (m : Mined) : Json :=
  .obj (("blockHash", .str m.block.hash) :: ("blockNumber", .str (quantity m.number)) ::
    ("transactionIndex", .str (quantity m.index)) :: ("hash", .str m.tx.hash) :: m.tx.body)

def pendingTxJson (tx : Tx) : Json :=
  .obj (("blockHash", .null) :: ("blockNumber", .null) :: ("transactionIndex", .null) ::
    ("hash", .str tx.hash) :: tx.body)

def receiptJson (m : Mined) : Json :=
  .obj (("blockHash", .str m.block.hash) :: ("blockNumber", .str (quantity m.number)) ::
    ("transactionHash", .str m.tx.hash) :: m.tx.receipt)

/-- The transactions of a block, in full or by their hashes. -/
def minedIn (b : Block) (n : Nat) : List Mined := b.txs.zipIdx.map fun (tx, i) => ⟨tx, i, b, n⟩

def blockJson (full : Bool) (b : Block) (n : Nat) : Json :=
  .obj (("number", .str (quantity n)) :: ("hash", .str b.hash) ::
    ("transactions", .arr ((minedIn b n).map fun m => if full then txJson m else .str m.tx.hash)) ::
    b.header)

def pendingBlockJson (full : Bool) (c : Chain) : Json :=
  .obj [("number", .null), ("hash", .null),
    ("transactions", .arr (c.pool.map fun tx => if full then pendingTxJson tx else .str tx.hash))]

def blockAt (c : Chain) (full : Bool) (n : Nat) : Json :=
  match c.blocks[n]? with
  | some b => blockJson full b n
  | none => .null

/-- The mined transaction with a hash. -/
def locate (blocks : List Block) (hash : String) : Option Mined :=
  blocks.zipIdx.findSome? fun (b, n) => (minedIn b n).find? (·.tx.hash = hash)

def blockByHash (c : Chain) (full : Bool) (hash : String) : Json :=
  match c.blocks.zipIdx.find? (·.1.hash = hash) with
  | some (b, n) => blockJson full b n
  | none => .null

def txByHash (c : Chain) (hash : String) : Json :=
  match locate c.blocks hash with
  | some m => txJson m
  | none =>
      match c.pool.find? (·.hash = hash) with
      | some tx => pendingTxJson tx
      | none => .null

def receiptOf (c : Chain) (hash : String) : Json :=
  match locate c.blocks hash with
  | some m => receiptJson m
  | none => .null

/-- What a node that is at `c` answers; `none` is an error.  `state` answers the methods
that are never kept for long. -/
def answer (state : Chain → String → List Json → Option Json) (c : Chain) (method : String)
    (params : List Json) : Option Json :=
  if method = "eth_getBlockByNumber" then
    match params with
    | [.str s, .bool full] =>
        match parseTag s with
        | some (.number n) => some (c.blockAt full n)
        | some (.head which) => some (((which c).map (c.blockAt full)).getD .null)
        | some .pending => some (pendingBlockJson full c)
        | none => none
    | _ => none
  else if method = "eth_getBlockByHash" then
    match params with
    | [.str hash, .bool full] => some (c.blockByHash full hash)
    | _ => none
  else if method = "eth_getTransactionReceipt" then
    match params with
    | [.str hash] => some (c.receiptOf hash)
    | _ => none
  else if method = "eth_getTransactionByHash" then
    match params with
    | [.str hash] => some (c.txByHash hash)
    | _ => none
  else state c method params

/-! ### Growth -/

/-- One thing that happens to the chain. -/
inductive Step (c : Chain) : Chain → Prop where
  | seen (tx : Tx) : Step c { c with pool := c.pool ++ [tx] }
  | dropped (pool : List Tx) (h : pool.Sublist c.pool) : Step c { c with pool }
  /-- What the block mines leaves the pool. -/
  | mined (b : Block) :
      Step c { c with
        blocks := c.blocks ++ [b]
        pool := c.pool.filter fun tx => tx.hash ∉ b.txs.map (·.hash) }
  | marked (safe finalized : Nat) : Step c { c with safe, finalized }

/-- Any later growth. -/
def Grows : Chain → Chain → Prop := Relation.ReflTransGen Step

theorem Grows.prefix {c d : Chain} (h : Grows c d) : c.blocks <+: d.blocks := by
  induction h with
  | refl => exact List.prefix_refl _
  | tail _ hstep ih =>
      refine ih.trans ?_
      cases hstep with
      | mined b => exact List.prefix_append _ _
      | _ => exact List.prefix_refl _

theorem locate_of_grows {c d : Chain} (h : Grows c d) {hash : String} {m : Mined}
    (hm : locate c.blocks hash = some m) : locate d.blocks hash = some m := by
  obtain ⟨more, hmore⟩ := h.prefix
  rw [← hmore, locate, List.zipIdx_append, List.findSome?_append]
  rw [locate] at hm
  rw [hm]
  rfl

theorem blockAt_of_grows {c d : Chain} (h : Grows c d) {full : Bool} {n : Nat}
    (hnull : (c.blockAt full n).isNull = false) : d.blockAt full n = c.blockAt full n := by
  obtain ⟨more, hmore⟩ := h.prefix
  have hat : (c.blocks[n]?).isSome := by
    cases hb : c.blocks[n]? with
    | none => simp [blockAt, hb, Json.isNull] at hnull
    | some b => rfl
  obtain ⟨hlt, -⟩ := List.getElem?_eq_some_iff.mp (Option.get_mem hat)
  have hsame : d.blocks[n]? = c.blocks[n]? := by
    rw [← hmore, List.getElem?_append_left hlt]
  rw [blockAt, blockAt, hsame]

theorem blockByHash_of_grows {c d : Chain} (h : Grows c d) {full : Bool} {hash : String}
    (hnull : (c.blockByHash full hash).isNull = false) :
    d.blockByHash full hash = c.blockByHash full hash := by
  obtain ⟨more, hmore⟩ := h.prefix
  cases hfound : c.blocks.zipIdx.find? (·.1.hash = hash) with
  | none => simp [blockByHash, hfound, Json.isNull] at hnull
  | some p =>
      have hd : d.blocks.zipIdx.find? (·.1.hash = hash) = some p := by
        rw [← hmore, List.zipIdx_append, List.find?_append, hfound]
        rfl
      rw [blockByHash, blockByHash, hd, hfound]

theorem receiptOf_of_grows {c d : Chain} (h : Grows c d) {hash : String}
    (hnull : (c.receiptOf hash).isNull = false) : d.receiptOf hash = c.receiptOf hash := by
  cases hm : locate c.blocks hash with
  | none => simp [receiptOf, hm, Json.isNull] at hnull
  | some m => rw [receiptOf, receiptOf, locate_of_grows h hm, hm]

/-- Only a mined transaction has a block number, and it keeps it. -/
theorem txByHash_of_grows {c d : Chain} (h : Grows c d) {hash : String}
    (hnum : Json.isNullish ((c.txByHash hash).field? "blockNumber") = false) :
    d.txByHash hash = c.txByHash hash := by
  cases hm : locate c.blocks hash with
  | some m => rw [txByHash, txByHash, locate_of_grows h hm, hm]
  | none =>
      simp only [txByHash, hm] at hnum
      split at hnum
      · cases hnum
      · cases hnum

end Chain

/-! ### What is kept -/

/-- The same request, answered at any later time, has the same result. -/
def IsFinal (method : String) (params : List Json) (result : Json) : Prop :=
  ∀ (state : Chain → String → List Json → Option Json) (c d : Chain), Chain.Grows c d →
    Chain.answer state c method params = some result →
      Chain.answer state d method params = some result

/-- A result is reused for longer than the window of the fee methods. -/
def LongCached (ttlMs : Nat) : Prop := 1_000 < ttlMs

/-- A transaction that has been seen and has no block number. -/
def Unmined (method : String) (result : Json) : Prop :=
  method = "eth_getTransactionByHash" ∧ result.isNull = false ∧
    Json.isNullish (result.field? "blockNumber")

theorem tagOf_str (s : String) (rest : List Json) : tagOf (.str s :: rest) = s.toLower := by
  simp [tagOf, Json.coerced, Json.coercedElement, Json.isNull]

/-- The tags that move are read as themselves. -/
theorem mem_headTags {s : String} (rest : List Json)
    (h : s ∈ HEAD_TAGS) : tagOf (.str s :: rest) ∈ HEAD_TAGS := by
  rw [tagOf_str]
  simp only [HEAD_TAGS, List.mem_cons, List.not_mem_nil, or_false] at h
  rcases h with rfl | rfl | rfl | rfl
  · decide +kernel
  · decide +kernel
  · decide +kernel
  · decide +kernel

theorem Chain.parseTag_number {s : String} {tag : Tag} (h : parseTag s = some tag)
    (hs : s ∉ HEAD_TAGS) : ∃ n, tag = .number n := by
  simp only [HEAD_TAGS, List.mem_cons, List.not_mem_nil, or_false, not_or] at hs
  simp only [parseTag, if_neg hs.1, if_neg hs.2.1, if_neg hs.2.2.1, if_neg hs.2.2.2] at h
  split at h
  · exact ⟨0, (Option.some.inj h).symm⟩
  · obtain ⟨n, -, hn⟩ := Option.map_eq_some_iff.mp h
    exact ⟨n, hn.symm⟩

/-- What the edge worker keeps for long. -/
theorem of_longCached_edge {method : String} {params : List Json} {result : Json}
    (h : LongCached (Edge.cacheTtlMs method params (some result))) :
    result.isNull = false ∧
      (method = "eth_getBlockByNumber" ∧ tagOf params ∉ HEAD_TAGS ∨
        method = "eth_getBlockByHash" ∨ method = "eth_getTransactionReceipt" ∨
        method = "eth_getTransactionByHash" ∧
          Json.isNullish (result.field? "blockNumber") = false) := by
  unfold LongCached Edge.cacheTtlMs BLOCK_MS at h
  simp only [Json.isNullish_some, Edge.blockNumberOf, Option.bind_some] at h
  split_ifs at h <;> simp_all

theorem isFinal_of_edge {method : String} {params : List Json} {result : Json}
    (h : LongCached (Edge.cacheTtlMs method params (some result))) :
    IsFinal method params result := by
  intro state c d hgrows hc
  obtain ⟨hnull, hmethod⟩ := of_longCached_edge h
  rcases hmethod with ⟨rfl, htag⟩ | rfl | rfl | ⟨rfl, hnum⟩
  · -- a block by a number that is not a moving tag
    simp only [Chain.answer, if_pos] at hc ⊢
    split at hc
    · next s full =>
        have hs : s ∉ HEAD_TAGS := fun hmem => htag (mem_headTags _ hmem)
        split at hc
        · obtain rfl := Option.some.inj hc
          rw [Chain.blockAt_of_grows hgrows hnull]
        · next which htag =>
            obtain ⟨n, hn⟩ := Chain.parseTag_number htag hs
            cases hn
        · next htag =>
            obtain ⟨n, hn⟩ := Chain.parseTag_number htag hs
            cases hn
        · cases hc
    · cases hc
  · simp only [Chain.answer, reduceIte, String.reduceEq] at hc ⊢
    split at hc
    · obtain rfl := Option.some.inj hc
      rw [Chain.blockByHash_of_grows hgrows hnull]
    · cases hc
  · simp only [Chain.answer, reduceIte, String.reduceEq] at hc ⊢
    split at hc
    · obtain rfl := Option.some.inj hc
      rw [Chain.receiptOf_of_grows hgrows hnull]
    · cases hc
  · simp only [Chain.answer, reduceIte, String.reduceEq] at hc ⊢
    split at hc
    · obtain rfl := Option.some.inj hc
      rw [Chain.txByHash_of_grows hgrows hnum]
    · cases hc

/-- Away from unmined transactions the two policies are one. -/
theorem cacheTtlMs_eq_edge {method : String} {params : List Json} {result : Json}
    (h : ¬ Unmined method result) :
    cacheTtlMs method params (some result) = Edge.cacheTtlMs method params (some result) := by
  unfold Unmined at h
  unfold cacheTtlMs Edge.cacheTtlMs
  simp only [Json.isNullish_some, Edge.blockNumberOf, Option.bind_some]
  split_ifs <;> grind

theorem ttl_of_unmined {method : String} {result : Json} (h : Unmined method result)
    (params : List Json) :
    cacheTtlMs method params (some result) = 10 * 60_000 ∧
      Edge.cacheTtlMs method params (some result) = 0 := by
  obtain ⟨rfl, hnull, hnum⟩ := h
  constructor
  · simp [cacheTtlMs, FEE_METHODS, hnull]
  · simp [Edge.cacheTtlMs, FEE_METHODS, Edge.blockNumberOf, hnum]

/-- What either policy keeps for long is final, and they agree on what that is. -/
def Kept (method : String) (params : List Json) (result : Json) : Prop :=
  (LongCached (cacheTtlMs method params (some result)) → IsFinal method params result) ∧
    (LongCached (Edge.cacheTtlMs method params (some result)) → IsFinal method params result) ∧
    (LongCached (cacheTtlMs method params (some result)) ↔
      LongCached (Edge.cacheTtlMs method params (some result)))

/-- **Long-cached answers are final, but for transactions that are not mined.** -/
theorem kept_iff (method : String) (params : List Json) (result : Json) :
    Kept method params result ↔ ¬ Unmined method result := by
  constructor
  · intro hkept hunmined
    obtain ⟨hgateway, hedge⟩ := ttl_of_unmined hunmined params
    have hlong : LongCached (cacheTtlMs method params (some result)) := by
      rw [LongCached, hgateway]
      decide
    have hedgeLong := hkept.2.2.mp hlong
    rw [LongCached, hedge] at hedgeLong
    exact absurd hedgeLong (by decide)
  · intro hmined
    unfold Kept
    rw [cacheTtlMs_eq_edge hmined]
    exact ⟨isFinal_of_edge, isFinal_of_edge, Iff.rfl⟩

/-- A transaction that is asked for before it is mined. -/
def earlyTx : Tx := ⟨"0xaa", [], []⟩

def beforeMined : Chain := ⟨[], [earlyTx], 0, 0⟩

def afterMined : Chain := ⟨[⟨"0xb0", [], [earlyTx]⟩], [], 0, 0⟩

/-- The answer from before it was mined is kept for ten minutes, and is wrong by then. -/
theorem unmined_kept :
    ¬ Kept "eth_getTransactionByHash" [.str "0xaa"] (Chain.pendingTxJson earlyTx) ∧
      ¬ IsFinal "eth_getTransactionByHash" [.str "0xaa"] (Chain.pendingTxJson earlyTx) := by
  constructor
  · intro hkept
    have hlong := hkept.2.2.mp (by unfold LongCached; decide)
    exact absurd hlong (by unfold LongCached; decide)
  · intro hfinal
    have hgrows : Chain.Grows beforeMined afterMined :=
      Relation.ReflTransGen.single (Chain.Step.mined ⟨"0xb0", [], [earlyTx]⟩)
    have hanswer := hfinal (fun _ _ _ => none) _ _ hgrows rfl
    exact absurd hanswer (by decide)

end Finality

end Ordo
