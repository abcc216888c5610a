import Ordo.Hex
import Ordo.Json

/-!
# The fast path

What the gateway and the edge worker answer from memory, and for how long.  The two
policies are written down separately, the worker's under `Edge`.

A cache keeps its entries in the order in which their keys were first set, each with
the moment at which it expires.  A value that is `undefined` can be stored, and reads
as a miss.
-/

namespace Ordo

namespace FastPath

/-- Millisecond block time. -/
def BLOCK_MS : Nat := 100

def HEAD_TAGS : List String := ["latest", "pending", "safe", "finalized"]

/-- Reads that may be issued twice without changing anything. -/
def IDEMPOTENT_READS : List String :=
  ["eth_blockNumber", "eth_chainId", "net_version", "eth_gasPrice",
    "eth_maxPriorityFeePerGas", "eth_feeHistory", "eth_getBalance", "eth_getCode",
    "eth_getStorageAt", "eth_getTransactionCount", "eth_call", "eth_estimateGas",
    "eth_getLogs", "eth_getBlockByNumber", "eth_getBlockByHash", "eth_getBlockReceipts",
    "eth_getTransactionReceipt", "eth_getTransactionByHash",
    "eth_getTransactionByBlockNumberAndIndex", "eth_syncing", "web3_clientVersion"]

/-- `"0x" + n.toString(16)` -/
def quantity (n : Nat) : String := String.ofList ('0' :: 'x' :: Hex.numeral n)

/-- Answers that are constants of this deployment. -/
def staticAnswer (method : String) (chainId : Nat) : Option Json :=
  if method = "eth_chainId" then some (.str (quantity chainId))
  else if method = "net_version" then some (.str (toString chainId))
  else none

/-- `String(params[0] ?? "latest").toLowerCase()` -/
def tagOf (params : List Json) : String :=
  match params.head? with
  | some v => if v.isNull then "latest" else v.coerced.toLower
  | none => "latest"

def FEE_METHODS : List String := ["eth_gasPrice", "eth_maxPriorityFeePerGas", "eth_feeHistory"]

/-- How long a result may be reused, in ms, or 0 for "do not cache". -/
def cacheTtlMs (method : String) (params : List Json) (result : Option Json) : Nat :=
  if method = "eth_blockNumber" then BLOCK_MS
  else if method ∈ FEE_METHODS then 1_000
  else if method = "eth_getBlockByNumber" then
    -- a numbered block is immutable once it exists; the head moves every block
    if tagOf params ∈ HEAD_TAGS then BLOCK_MS
    else if Json.isNullish result then 0 else 60_000
  else if method = "eth_getBlockByHash" then
    if Json.isNullish result then 0 else 60_000
  else if method = "eth_getTransactionReceipt" ∨ method = "eth_getTransactionByHash" then
    if Json.isNullish result then 0 else 10 * 60_000
  else 0

def cacheKey (method : String) (params : List Json) : Text :=
  method.toList ++ ':' :: (Json.arr params).stringify

namespace Edge

/-- Reads that may be coalesced and cached. -/
def IDEMPOTENT_READS : List String :=
  ["eth_blockNumber", "eth_gasPrice", "eth_maxPriorityFeePerGas", "eth_feeHistory",
    "eth_getBlockByNumber", "eth_getBlockByHash", "eth_getTransactionReceipt",
    "eth_getTransactionByHash"]

/-- `result.blockNumber`, of a result that is there. -/
def blockNumberOf (result : Option Json) : Option Json := result.bind (Json.field? "blockNumber")

/-- Mirrors the gateway, with one extra guard: a transaction that is not yet mined is
not kept. -/
def cacheTtlMs (method : String) (params : List Json) (result : Option Json) : Nat :=
  if method = "eth_blockNumber" then BLOCK_MS
  else if method ∈ FEE_METHODS then 1_000
  else if method = "eth_getBlockByNumber" then
    if tagOf params ∈ HEAD_TAGS then BLOCK_MS
    else if Json.isNullish result then 0 else 60_000
  else if method = "eth_getBlockByHash" then
    if Json.isNullish result then 0 else 60_000
  else if method = "eth_getTransactionReceipt" then
    if Json.isNullish result then 0 else 10 * 60_000
  else if method = "eth_getTransactionByHash" then
    if Json.isNullish result ∨ Json.isNullish (blockNumberOf result) then 0 else 10 * 60_000
  else 0

/-- Sends and `ordo_*` methods are never answered at the edge. -/
def isPlainRead (method : Option String) : Bool :=
  match method with
  | some m => m ≠ "eth_sendRawTransaction" && !m.startsWith "ordo_"
  | none => false

end Edge

/-- The key of a request tells its parameters, once its method is known. -/
theorem cacheKey_injective (method : String) : Function.Injective (cacheKey method) := by
  intro params params' h
  have htail := List.append_cancel_left h
  have harr := Json.stringify_injective (List.cons.inj htail).2
  exact Json.arr.inj harr

/-- What stands before the first colon. -/
theorem eq_of_append_colon {name name' rest rest' : Text} (hplain : ':' ∉ name)
    (hplain' : ':' ∉ name') (h : name ++ ':' :: rest = name' ++ ':' :: rest') : name = name' := by
  have hname := congrArg (List.takeWhile (· ≠ ':')) h
  rw [List.takeWhile_append_of_pos fun c hc => by simpa using ne_of_mem_of_not_mem hc hplain,
    List.takeWhile_append_of_pos fun c hc => by simpa using ne_of_mem_of_not_mem hc hplain']
    at hname
  simpa using hname

/-- The key of a request tells its method too, if no colon is in it. -/
theorem cacheKey_inj {method method' : String} {params params' : List Json}
    (hplain : ':' ∉ method.toList) (hplain' : ':' ∉ method'.toList)
    (h : cacheKey method params = cacheKey method' params') :
    method = method' ∧ params = params' := by
  obtain rfl : method = method' :=
    String.toList_injective (eq_of_append_colon hplain hplain' h)
  exact ⟨rfl, cacheKey_injective method h⟩

end FastPath

/-! ### The cache -/

structure CacheEntry where
  value : Option Json
  expiresAt : Nat
  deriving DecidableEq

/-- Bounded, with the oldest entry first. -/
structure MicroCache where
  maxEntries : Nat := 5_000
  entries : List (Text × CacheEntry) := []
  deriving DecidableEq

namespace MicroCache

variable (c : MicroCache) (now : Nat) (key : Text)

def delete : MicroCache := { c with entries := c.entries.filter (·.1 ≠ key) }

/-- What is found under a key, and the cache with the entry dropped if it has expired. -/
def get : Option Json × MicroCache :=
  match c.entries.lookup key with
  | none => (none, c)
  | some e => if e.expiresAt ≤ now then (none, c.delete key) else (e.value, c)

/-- The place of a key that is there already is kept. -/
def put (entries : List (Text × CacheEntry)) (key : Text) (e : CacheEntry) :
    List (Text × CacheEntry) :=
  if key ∈ entries.map (·.1) then
    entries.map fun old => if old.1 = key then (key, e) else old
  else entries ++ [(key, e)]

def set (value : Option Json) (ttlMs : Nat) : MicroCache :=
  if ttlMs = 0 then c
  else
    let kept := if c.maxEntries ≤ c.entries.length then c.entries.tail else c.entries
    { c with entries := put kept key ⟨value, now + ttlMs⟩ }

/-- An unexpired value is under a key. -/
def Holds (v : Json) : Prop := ∃ e, (key, e) ∈ c.entries ∧ now < e.expiresAt ∧ e.value = some v

variable {c now key}

theorem mem_of_lookup {entries : List (Text × CacheEntry)} {e : CacheEntry}
    (h : entries.lookup key = some e) : (key, e) ∈ entries := by
  induction entries with
  | nil => cases h
  | cons old entries ih =>
      rw [List.lookup_cons] at h
      split at h
      · next heq =>
          obtain ⟨k, e'⟩ := old
          obtain rfl : key = k := by simpa using heq
          cases h
          exact List.mem_cons_self
      · exact List.mem_cons_of_mem _ (ih h)

/-- Only what has not expired is found. -/
theorem holds_of_get {v : Json} (h : (c.get now key).1 = some v) : c.Holds now key v := by
  unfold get at h
  split at h
  · cases h
  · next e he =>
      split at h
      · cases h
      · next hlive => exact ⟨e, mem_of_lookup he, Nat.lt_of_not_le hlive, h⟩

/-- Looking something up adds nothing. -/
theorem mem_of_mem_get {x : Text × CacheEntry} (h : x ∈ (c.get now key).2.entries) :
    x ∈ c.entries := by
  unfold get at h
  split at h
  · exact h
  · split at h
    · exact (List.mem_filter.mp h).1
    · exact h

theorem mem_of_mem_put {entries : List (Text × CacheEntry)} {e : CacheEntry}
    {x : Text × CacheEntry} (h : x ∈ put entries key e) : x ∈ entries ∨ x = (key, e) := by
  unfold put at h
  split at h
  · obtain ⟨old, hold, rfl⟩ := List.mem_map.mp h
    split
    · exact Or.inr rfl
    · exact Or.inl hold
  · rcases List.mem_append.mp h with hold | hnew
    · exact Or.inl hold
    · exact Or.inr (List.mem_singleton.mp hnew)

/-- What is in the cache after `set` was there before, or is what was set. -/
theorem mem_of_mem_set {value : Option Json} {ttlMs : Nat} {x : Text × CacheEntry}
    (h : x ∈ (c.set now key value ttlMs).entries) :
    x ∈ c.entries ∨ 0 < ttlMs ∧ x = (key, ⟨value, now + ttlMs⟩) := by
  unfold set at h
  split at h
  · exact Or.inl h
  · next hpos =>
      rcases mem_of_mem_put h with hold | hnew
      · split at hold
        · exact Or.inl (List.mem_of_mem_tail hold)
        · exact Or.inl hold
      · exact Or.inr ⟨Nat.pos_of_ne_zero hpos, hnew⟩

theorem eq_of_mem_put {entries : List (Text × CacheEntry)} {e : CacheEntry}
    {x : Text × CacheEntry} (h : x ∈ put entries key e) (hkey : x.1 = key) : x = (key, e) := by
  unfold put at h
  split at h
  · obtain ⟨old, -, rfl⟩ := List.mem_map.mp h
    split
    · rfl
    · next hne =>
        rw [if_neg hne] at hkey
        exact absurd hkey hne
  · next hnew =>
      rcases List.mem_append.mp h with hold | hlast
      · exact absurd (hkey ▸ List.mem_map_of_mem hold) hnew
      · exact List.mem_singleton.mp hlast

/-- After `set` a key has what was set, and nothing else. -/
theorem eq_of_mem_set {value : Option Json} {ttlMs : Nat} {x : Text × CacheEntry}
    (hpos : 0 < ttlMs) (h : x ∈ (c.set now key value ttlMs).entries) (hkey : x.1 = key) :
    x = (key, ⟨value, now + ttlMs⟩) := by
  rw [set, if_neg (Nat.pos_iff_ne_zero.mp hpos)] at h
  exact eq_of_mem_put h hkey

end MicroCache

end Ordo
