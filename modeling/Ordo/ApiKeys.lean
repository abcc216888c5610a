import Mathlib.Logic.Function.Basic
import Ordo.BigIntText

/-!
# Who is calling

A caller presents a key in a header, or none.  The operator's keys are in a map from the
start; keys minted by the portal are in the store, hashed, and once read they are put
into the same map, with the moment of the read.

* `operator_served` — the operator's keys are never re-read;
* `served_cases` — why a key that the store backs is served;
* `revocation_iff` — a key that the store no longer has goes on being served, past its
  time and with the store readable, exactly if it was ever read while it was enabled.
-/

namespace Ordo

namespace ApiKeys

inductive Mode where
  | auction
  | direct
  deriving DecidableEq

structure ApiKey where
  key : String
  label : String
  rateLimit : Int
  rebateAddress : Option String
  mode : Mode
  deriving DecidableEq

/-- A row of `api_keys`. -/
structure StoredKey where
  label : String
  rebateAddress : Option String
  mode : Mode
  rateLimit : Int
  enabled : Bool
  createdAt : Int
  deriving DecidableEq

/-- What `findApiKey` returns. -/
structure ApiKeyRow where
  label : String
  rebateAddress : Option String
  mode : Mode
  rateLimit : Int
  createdAt : Int
  deriving DecidableEq

/-- The key that a row makes of what was presented. -/
def ApiKeyRow.keyOf (row : ApiKeyRow) (presented : String) : ApiKey :=
  ⟨presented, row.label, row.rateLimit, row.rebateAddress, row.mode⟩

/-- The rows, by the hash of the key. -/
abbrev KeyTable := String → Option StoredKey

/-- Disabled keys do not resolve. -/
def findApiKey (sha256 : String → String) (table : KeyTable) (presented : String) :
    Option ApiKeyRow :=
  ((table (sha256 presented)).filter (·.enabled)).map fun row =>
    ⟨row.label, row.rebateAddress, row.mode, row.rateLimit, row.createdAt⟩

def KEY_TTL_MS : Nat := 60_000

/-- Methods that callers without a key may use. -/
def anonMethods : List String :=
  ["eth_chainId", "net_version", "web3_clientVersion", "eth_blockNumber", "eth_syncing",
    "eth_gasPrice", "eth_maxPriorityFeePerGas", "eth_feeHistory", "eth_getBalance",
    "eth_getCode", "eth_getStorageAt", "eth_getTransactionCount", "eth_call",
    "eth_estimateGas", "eth_getLogs", "eth_getBlockByNumber", "eth_getBlockByHash",
    "eth_getBlockReceipts", "eth_getTransactionReceipt", "eth_getTransactionByHash",
    "eth_getTransactionByBlockNumberAndIndex", "eth_getTransactionByBlockHashAndIndex",
    "eth_getBlockTransactionCountByNumber", "eth_getBlockTransactionCountByHash",
    "eth_getUncleCountByBlockNumber", "eth_getUncleCountByBlockHash", "eth_getProof",
    "eth_createAccessList", "eth_accounts", "eth_protocolVersion", "net_listening",
    "eth_sendRawTransaction", "ordo_sendRawTransaction", "ordo_simulate", "ordo_quoteSwap",
    "ordo_explain"]

/-- The headers that name a caller. -/
structure Headers where
  xApiKey : Option String := none
  authorization : Option String := none
  deriving DecidableEq

/-- `text.replace(/^Bearer\s+/i, "")` -/
def stripBearer (text : String) : String :=
  let chars := text.toList
  let rest := chars.drop 6
  if (chars.take 6).map Char.toLower = ['b', 'e', 'a', 'r', 'e', 'r'] ∧
      rest.head?.any BigIntText.isSpace then
    String.ofList (rest.dropWhile BigIntText.isSpace)
  else text

/-- The key that is presented; an empty one counts as none. -/
def Headers.presented (h : Headers) : Option String :=
  match h.xApiKey with
  | some key => some key
  | none => h.authorization.map stripBearer

/-- The two maps of the process. -/
structure Keys where
  apiKeys : String → Option ApiKey
  keySeenAt : String → Option Nat := fun _ => none

/-- The store as one request finds it: `none` where it is missing or a read throws. -/
abbrev Store := Option KeyTable

section Authenticate

variable (sha256 : String → String) (allowAnon : Bool)

def storeBackedKey (now : Nat) (store : Store) (s : Keys) (presented : String) :
    Option ApiKey × Keys :=
  match store with
  | none => (none, s)
  | some table =>
      match findApiKey sha256 table presented with
      | none => (none, s)
      | some row =>
          let key := row.keyOf presented
          (some key,
            ⟨Function.update s.apiKeys presented (some key),
              Function.update s.keySeenAt presented (some now)⟩)

inductive Caller where
  | key (k : ApiKey)
  | anon
  deriving DecidableEq

def anonymous (method : String) : Option Caller :=
  if allowAnon ∧ method ∈ anonMethods then some .anon else none

/-- What is in the map need not be read again. -/
def isFresh (now : Nat) (s : Keys) (presented : String) : Prop :=
  match s.keySeenAt presented with
  | none => True
  | some seen => now < seen + KEY_TTL_MS

instance (now : Nat) (s : Keys) (presented : String) : Decidable (isFresh now s presented) := by
  unfold isFresh
  split <;> infer_instance

def authenticate (now : Nat) (store : Store) (s : Keys) (h : Headers) (method : String) :
    Option Caller × Keys :=
  match h.presented with
  | none => (anonymous allowAnon method, s)
  | some header =>
      if header = "" then (anonymous allowAnon method, s)
      else if (s.apiKeys header).isSome ∧ isFresh now s header then
        ((s.apiKeys header).map .key, s)
      else
        match storeBackedKey sha256 now store s header with
        | (some key, s') => (some (.key key), s')
        | (none, s') =>
            match s'.apiKeys header with
            -- store unreachable: keep serving
            | some key => (some (.key key), s')
            | none => (anonymous allowAnon method, s')

end Authenticate

/-! ### Histories -/

/-- The process, and the store and the clock beside it. -/
structure World where
  now : Nat := 0
  table : KeyTable
  readable : Bool := true
  keys : Keys

inductive Event where
  | request (h : Headers) (method : String)
  | elapse (ms : Nat)
  /-- Keys are minted, changed, disabled or deleted. -/
  | change (table : KeyTable)
  | outage (readable : Bool)

namespace World

variable (sha256 : String → String) (allowAnon : Bool) (w : World)

def store : Store := if w.readable then some w.table else none

def answer (h : Headers) (method : String) : Option Caller × Keys :=
  authenticate sha256 allowAnon w.now w.store w.keys h method

def step : Event → World
  | .request h method => { w with keys := (w.answer sha256 allowAnon h method).2 }
  | .elapse ms => { w with now := w.now + ms }
  | .change table => { w with table }
  | .outage readable => { w with readable }

def run (es : List Event) : World := es.foldl (step sha256 allowAnon) w

/-- The store can be read, and has the key enabled. -/
def Valid (k : String) : Prop := w.readable ∧ (findApiKey sha256 w.table k).isSome

/-- The store can be read, and has no such key, or has it disabled. -/
def Revoked (k : String) : Prop := w.readable ∧ findApiKey sha256 w.table k = none

/-- The process has just started: it knows the operator's keys, and none is empty. -/
def Started : Prop := w.keys.apiKeys "" = none ∧ ∀ k, w.keys.keySeenAt k = none

/-- What the map holds for a key needs no new read. -/
def Remembered (k : String) : Prop := (w.keys.apiKeys k).isSome ∧ isFresh w.now w.keys k

/-- The store stays readable and without the key. -/
def StaysRevoked (es : List Event) (k : String) : Prop :=
  ∀ pre, pre <+: es → (w.run sha256 allowAnon pre).Revoked sha256 k

/-- A request presented the key while the store had it enabled and could be read. -/
def PresentedWhileValid (es : List Event) (k : String) : Prop :=
  k ≠ "" ∧ ∃ pre h method post, es = pre ++ .request h method :: post ∧
    h.presented = some k ∧ (w.run sha256 allowAnon pre).Valid sha256 k

end World

/-! ### What a request does -/

section Requests

variable {sha256 : String → String} {allowAnon : Bool} {w : World}

/-- A key that is remembered is served as it is. -/
theorem answer_remembered {k : String} {h : Headers} (hk : k ≠ "") (hh : h.presented = some k)
    (hrem : w.Remembered k) (method : String) :
    w.answer sha256 allowAnon h method = ((w.keys.apiKeys k).map .key, w.keys) := by
  rw [World.Remembered] at hrem
  simp only [World.answer, authenticate, hh, if_neg hk, if_pos hrem]

/-- A key that is not is read from the store, when the store has it. -/
theorem answer_valid {k : String} {h : Headers} (hk : k ≠ "") (hh : h.presented = some k)
    (hrem : ¬ w.Remembered k) (hvalid : w.Valid sha256 k) (method : String) :
    ∃ row, findApiKey sha256 w.table k = some row ∧
      w.answer sha256 allowAnon h method =
        (some (.key (row.keyOf k)),
          ⟨Function.update w.keys.apiKeys k (some (row.keyOf k)),
            Function.update w.keys.keySeenAt k (some w.now)⟩) := by
  rw [World.Remembered] at hrem
  obtain ⟨hread, hfind⟩ := hvalid
  obtain ⟨row, hrow⟩ := Option.isSome_iff_exists.mp hfind
  refine ⟨row, hrow, ?_⟩
  simp only [World.answer, authenticate, hh, if_neg hk, if_neg hrem, storeBackedKey,
    World.store, hread, if_true, hrow]

/-- Otherwise what the map holds is served, however old. -/
theorem answer_stale {k : String} {h : Headers} (hk : k ≠ "") (hh : h.presented = some k)
    (hrem : ¬ w.Remembered k) (hvalid : ¬ w.Valid sha256 k) (method : String) :
    w.answer sha256 allowAnon h method =
      (match w.keys.apiKeys k with
        | some key => some (.key key)
        | none => anonymous allowAnon method, w.keys) := by
  have hstore : storeBackedKey sha256 w.now w.store w.keys k = (none, w.keys) := by
    simp only [storeBackedKey, World.store]
    by_cases hread : w.readable = true
    · cases hfind : findApiKey sha256 w.table k with
      | none => simp only [hread, if_true, hfind]
      | some row => exact absurd ⟨hread, by rw [hfind]; rfl⟩ hvalid
    · simp only [hread, Bool.false_eq_true, if_false]
  rw [World.Remembered] at hrem
  simp only [World.answer, authenticate, hh, if_neg hk, if_neg hrem, hstore]
  cases w.keys.apiKeys k with
  | none => rfl
  | some key => rfl

/-- An anonymous caller uses one of the methods that are open to it. -/
theorem anonymous_eq_anon {method : String} (h : anonymous allowAnon method = some .anon) :
    method ∈ anonMethods := by
  unfold anonymous at h
  split at h
  · next hopen => exact hopen.2
  · cases h

theorem mem_anonMethods {h : Headers} {method : String}
    (hanon : (w.answer sha256 allowAnon h method).1 = some .anon) : method ∈ anonMethods := by
  simp only [World.answer, authenticate] at hanon
  split at hanon
  · exact anonymous_eq_anon hanon
  · split at hanon
    · exact anonymous_eq_anon hanon
    · split at hanon
      · next header _ _ _ =>
          obtain ⟨key, -, hkey⟩ := Option.map_eq_some_iff.mp hanon
          cases hkey
      · split at hanon
        · cases hanon
        · split at hanon
          · cases hanon
          · exact anonymous_eq_anon hanon

variable (sha256 allowAnon w) in
/-- An event leaves what is held for a key, or reads the key. -/
theorem step_keys (e : Event) (k : String) :
    ((w.step sha256 allowAnon e).keys.apiKeys k = w.keys.apiKeys k ∧
        (w.step sha256 allowAnon e).keys.keySeenAt k = w.keys.keySeenAt k) ∨
      (k ≠ "" ∧ ¬ w.Remembered k ∧ w.Valid sha256 k ∧
        (∃ h method, e = .request h method ∧ h.presented = some k) ∧
        ((w.step sha256 allowAnon e).keys.apiKeys k).isSome ∧
        (w.step sha256 allowAnon e).keys.keySeenAt k = some w.now) := by
  cases e with
  | elapse ms => exact Or.inl ⟨rfl, rfl⟩
  | change table => exact Or.inl ⟨rfl, rfl⟩
  | outage readable => exact Or.inl ⟨rfl, rfl⟩
  | request h method =>
      simp only [World.step]
      cases hh : h.presented with
      | none =>
          have hsame : (w.answer sha256 allowAnon h method).2 = w.keys := by
            simp only [World.answer, authenticate, hh]
          rw [hsame]
          exact Or.inl ⟨rfl, rfl⟩
      | some header =>
          by_cases hempty : header = ""
          · have hsame : (w.answer sha256 allowAnon h method).2 = w.keys := by
              simp only [World.answer, authenticate, hh, if_pos hempty]
            rw [hsame]
            exact Or.inl ⟨rfl, rfl⟩
          by_cases hrem : w.Remembered header
          · rw [answer_remembered hempty hh hrem]
            exact Or.inl ⟨rfl, rfl⟩
          by_cases hvalid : w.Valid sha256 header
          · obtain ⟨row, -, hanswer⟩ := @answer_valid _ allowAnon _ _ _ hempty hh hrem hvalid method
            rw [hanswer]
            rcases eq_or_ne k header with rfl | hne
            · refine Or.inr ⟨hempty, hrem, hvalid, ⟨h, method, rfl, hh⟩, ?_, ?_⟩
              · simp only [Function.update_self, Option.isSome_some]
              · exact Function.update_self ..
            · exact Or.inl ⟨Function.update_of_ne hne .., Function.update_of_ne hne ..⟩
          · rw [answer_stale hempty hh hrem hvalid]
            exact Or.inl ⟨rfl, rfl⟩

/-- What is in the map after an event was there before, or has just been read. -/
theorem isSome_step (e : Event) (k : String) :
    ((w.step sha256 allowAnon e).keys.apiKeys k).isSome ↔
      (w.keys.apiKeys k).isSome ∨
        k ≠ "" ∧ (∃ h method, e = .request h method ∧ h.presented = some k) ∧
          w.Valid sha256 k := by
  constructor
  · intro hafter
    rcases step_keys sha256 allowAnon w e k with
      hsame | ⟨hk, -, hvalid, hreq, -⟩
    · rw [hsame.1] at hafter
      exact Or.inl hafter
    · exact Or.inr ⟨hk, hreq, hvalid⟩
  · intro hbefore
    by_cases hin : (w.keys.apiKeys k).isSome
    · rcases step_keys sha256 allowAnon w e k with
        hsame | ⟨-, -, -, -, hafter, -⟩
      · rw [hsame.1]
        exact hin
      · exact hafter
    · obtain ⟨hk, ⟨h, method, rfl, hh⟩, hvalid⟩ := hbefore.resolve_left hin
      obtain ⟨row, -, hanswer⟩ := @answer_valid _ allowAnon w _ _ hk hh
        (fun hrem => hin hrem.1) hvalid method
      simp only [World.step, hanswer, Function.update_self, Option.isSome_some]

end Requests

/-! ### What a history leaves -/

section Histories

variable {sha256 : String → String} {allowAnon : Bool} {w : World}

theorem run_concat (es : List Event) (e : Event) :
    w.run sha256 allowAnon (es ++ [e]) =
      (w.run sha256 allowAnon es).step sha256 allowAnon e := List.foldl_concat ..

theorem run_append (es fs : List Event) :
    w.run sha256 allowAnon (es ++ fs) =
      (w.run sha256 allowAnon es).run sha256 allowAnon fs := List.foldl_append ..

variable (sha256 allowAnon w) in
theorem now_le_step (e : Event) : w.now ≤ (w.step sha256 allowAnon e).now := by
  cases e with
  | elapse ms => exact Nat.le_add_right _ _
  | _ => exact Nat.le_refl _

theorem presentedWhileValid_concat (es : List Event) (e : Event) (k : String) :
    w.PresentedWhileValid sha256 allowAnon (es ++ [e]) k ↔
      w.PresentedWhileValid sha256 allowAnon es k ∨
        k ≠ "" ∧ (∃ h method, e = .request h method ∧ h.presented = some k) ∧
          (w.run sha256 allowAnon es).Valid sha256 k := by
  constructor
  · rintro ⟨hk, pre, h, method, post, hsplit, hh, hvalid⟩
    rcases List.eq_nil_or_concat' post with rfl | ⟨post, last, rfl⟩
    · obtain ⟨rfl, hlast⟩ := List.append_inj' hsplit rfl
      exact Or.inr ⟨hk, ⟨h, method, List.head_eq_of_cons_eq hlast, hh⟩, hvalid⟩
    · have hinit : es = pre ++ .request h method :: post := by
        have hcat : es ++ [e] = (pre ++ .request h method :: post) ++ [last] := by
          rw [hsplit, List.append_assoc, List.cons_append]
        exact (List.append_inj' hcat rfl).1
      exact Or.inl ⟨hk, pre, h, method, post, hinit, hh, hvalid⟩
  · rintro (⟨hk, pre, h, method, post, rfl, hh, hvalid⟩ | ⟨hk, ⟨h, method, rfl, hh⟩, hvalid⟩)
    · exact ⟨hk, pre, h, method, post ++ [e], by simp, hh, hvalid⟩
    · exact ⟨hk, es, h, method, [], rfl, hh, hvalid⟩

/-- The map holds the store's keys that were read, and those only. -/
theorem isSome_run {k : String} (hnone : w.keys.apiKeys k = none) (es : List Event) :
    ((w.run sha256 allowAnon es).keys.apiKeys k).isSome ↔
      w.PresentedWhileValid sha256 allowAnon es k := by
  induction es using List.reverseRecOn with
  | nil =>
      constructor
      · intro h
        rw [World.run, List.foldl_nil, hnone] at h
        cases h
      · rintro ⟨-, pre, h, method, post, hsplit, -⟩
        exact absurd hsplit (by simp)
  | append_singleton es e ih => rw [run_concat, isSome_step, presentedWhileValid_concat, ih]

/-- What the store backs is dated, and not later than now. -/
theorem seen_of_isSome {k : String} (hnone : w.keys.apiKeys k = none) (es : List Event)
    (hin : ((w.run sha256 allowAnon es).keys.apiKeys k).isSome) :
    ∃ seen, (w.run sha256 allowAnon es).keys.keySeenAt k = some seen ∧
      seen ≤ (w.run sha256 allowAnon es).now := by
  induction es using List.reverseRecOn with
  | nil =>
      rw [World.run, List.foldl_nil, hnone] at hin
      cases hin
  | append_singleton es e ih =>
      rw [run_concat] at hin ⊢
      have hnow := now_le_step sha256 allowAnon (w.run sha256 allowAnon es) e
      rcases step_keys sha256 allowAnon (w.run sha256 allowAnon es) e k with
        hsame | ⟨-, -, -, -, -, hseen⟩
      · rw [hsame.1] at hin
        obtain ⟨seen, hseen, hle⟩ := ih hin
        exact ⟨seen, by rw [hsame.2, hseen], hle.trans hnow⟩
      · exact ⟨_, hseen, hnow⟩

/-- A key that stays revoked is not read. -/
theorem keys_of_staysRevoked {k : String} (es : List Event)
    (hrev : w.StaysRevoked sha256 allowAnon es k) :
    (w.run sha256 allowAnon es).keys.keySeenAt k = w.keys.keySeenAt k ∧
      (w.run sha256 allowAnon es).keys.apiKeys k = w.keys.apiKeys k := by
  induction es using List.reverseRecOn with
  | nil => exact ⟨rfl, rfl⟩
  | append_singleton es e ih =>
      have hbefore : w.StaysRevoked sha256 allowAnon es k :=
        fun pre hpre => hrev pre (hpre.trans (List.prefix_append _ _))
      obtain ⟨hseen, hkey⟩ := ih hbefore
      have hrevoked := hrev es (List.prefix_append _ _)
      rw [run_concat]
      rcases step_keys sha256 allowAnon (w.run sha256 allowAnon es) e k with
        hsame | ⟨-, -, hvalid, -⟩
      · exact ⟨hsame.2.trans hseen, hsame.1.trans hkey⟩
      · have hfind := hvalid.2
        rw [hrevoked.2] at hfind
        cases hfind

variable (sha256 allowAnon) in
/-- The operator's keys are there for good. -/
theorem operator_run {k : String} {rec : ApiKey} (hkey : w.keys.apiKeys k = some rec)
    (hseen : w.keys.keySeenAt k = none) (es : List Event) :
    (w.run sha256 allowAnon es).keys.apiKeys k = some rec ∧
      (w.run sha256 allowAnon es).keys.keySeenAt k = none := by
  induction es using List.reverseRecOn with
  | nil => exact ⟨hkey, hseen⟩
  | append_singleton es e ih =>
      obtain ⟨hkey, hseen⟩ := ih
      rw [run_concat]
      rcases step_keys sha256 allowAnon (w.run sha256 allowAnon es) e k with
        hsame | ⟨-, hrem, -⟩
      · exact ⟨hsame.1.trans hkey, hsame.2.trans hseen⟩
      · refine absurd ⟨by rw [hkey]; rfl, ?_⟩ hrem
        rw [isFresh, hseen]
        trivial

end Histories

/-! ### Revocation -/

section Revocation

variable (sha256 : String → String) (allowAnon : Bool) (w : World)

/-- A request that presents the key is taken for its holder's. -/
def Served (k : String) : Prop :=
  ∃ h method rec, h.presented = some k ∧ (w.answer sha256 allowAnon h method).1 = some (.key rec)

/-- After a history, a key that has been revoked for its time is not served, and one is
served past its time only while the store cannot be read. -/
def RevocationKept (es : List Event) (k : String) : Prop :=
  (∀ before after, es = before ++ after →
    (w.run sha256 allowAnon before).StaysRevoked sha256 allowAnon after k →
    (w.run sha256 allowAnon before).now + KEY_TTL_MS ≤ (w.run sha256 allowAnon es).now →
      ¬ Served sha256 allowAnon (w.run sha256 allowAnon es) k) ∧
  (Served sha256 allowAnon (w.run sha256 allowAnon es) k →
    (w.run sha256 allowAnon es).Remembered k ∨ (w.run sha256 allowAnon es).readable = false ∨
      (w.run sha256 allowAnon es).Valid sha256 k)

variable {sha256 allowAnon w}

theorem ne_empty_of_served {k : String} (h : Served sha256 allowAnon w k) : k ≠ "" := by
  rintro rfl
  obtain ⟨h, method, rec, hh, hkey⟩ := h
  simp only [World.answer, authenticate, hh, if_true, anonymous] at hkey
  split at hkey
  · cases hkey
  · cases hkey

/-- Why a key is served: it is remembered, or read, or old and still in the map. -/
theorem served_cases {k : String} (h : Served sha256 allowAnon w k) :
    w.Remembered k ∨ w.Valid sha256 k ∨
      ¬ w.Remembered k ∧ ¬ w.Valid sha256 k ∧ (w.keys.apiKeys k).isSome := by
  have hk := ne_empty_of_served h
  by_cases hrem : w.Remembered k
  · exact Or.inl hrem
  by_cases hvalid : w.Valid sha256 k
  · exact Or.inr (Or.inl hvalid)
  obtain ⟨h, method, rec, hh, hkey⟩ := h
  refine Or.inr (Or.inr ⟨hrem, hvalid, ?_⟩)
  rw [answer_stale hk hh hrem hvalid] at hkey
  cases hin : w.keys.apiKeys k with
  | some key => rfl
  | none =>
      simp only [hin, anonymous] at hkey
      split at hkey
      · cases hkey
      · cases hkey

variable (sha256 allowAnon) in
theorem served_of_isSome {k : String} (hk : k ≠ "") (hin : (w.keys.apiKeys k).isSome)
    (hrem : ¬ w.Remembered k) (hvalid : ¬ w.Valid sha256 k) : Served sha256 allowAnon w k := by
  obtain ⟨key, hkey⟩ := Option.isSome_iff_exists.mp hin
  refine ⟨{ xApiKey := some k }, "", key, rfl, ?_⟩
  rw [answer_stale hk rfl hrem hvalid, hkey]

/-- A store that is readable and does not have the key enabled has it revoked. -/
theorem revoked_of_not_valid {k : String} (hread : w.readable = true)
    (hvalid : ¬ w.Valid sha256 k) : w.Revoked sha256 k := by
  refine ⟨hread, ?_⟩
  cases hfind : findApiKey sha256 w.table k with
  | none => rfl
  | some row => exact absurd ⟨hread, by rw [hfind]; rfl⟩ hvalid

/-- The operator's keys are always served as they were loaded. -/
theorem answer_operator (hstart : w.Started) {k : String} {rec : ApiKey}
    (hkey : w.keys.apiKeys k = some rec) {h : Headers} (hh : h.presented = some k)
    (es : List Event) (method : String) :
    ((w.run sha256 allowAnon es).answer sha256 allowAnon h method).1 = some (.key rec) := by
  have hk : k ≠ "" := by
    rintro rfl
    rw [hstart.1] at hkey
    cases hkey
  obtain ⟨hkeep, hseen⟩ := operator_run sha256 allowAnon hkey (hstart.2 k) es
  have hrem : (w.run sha256 allowAnon es).Remembered k := by
    refine ⟨by rw [hkeep]; rfl, ?_⟩
    rw [isFresh, hseen]
    trivial
  rw [answer_remembered hk hh hrem, hkeep]
  rfl

/-- A revoked key is not valid. -/
theorem not_valid_of_revoked {k : String} (h : w.Revoked sha256 k) : ¬ w.Valid sha256 k := by
  rintro ⟨-, hfind⟩
  rw [h.2] at hfind
  cases hfind

/-- A key that has been revoked for its time is remembered no more. -/
theorem not_remembered_of_late {k : String} (hnone : w.keys.apiKeys k = none)
    {before after : List Event}
    (hrev : (w.run sha256 allowAnon before).StaysRevoked sha256 allowAnon after k)
    (hlate : (w.run sha256 allowAnon before).now + KEY_TTL_MS ≤
      ((w.run sha256 allowAnon before).run sha256 allowAnon after).now) :
    ¬ ((w.run sha256 allowAnon before).run sha256 allowAnon after).Remembered k := by
  intro hrem
  -- the last read is from before the key was revoked
  obtain ⟨hseen, hkey⟩ := keys_of_staysRevoked after hrev
  have hin : ((w.run sha256 allowAnon before).keys.apiKeys k).isSome := by
    rw [← hkey]
    exact hrem.1
  obtain ⟨seen, hat, hle⟩ := seen_of_isSome hnone before hin
  have hfresh := hrem.2
  rw [isFresh, hseen, hat] at hfresh
  dsimp only at hfresh
  omega

/-- Why a key is served, where none is served that was revoked too late. -/
theorem reason_of_served {k : String} (hserved : Served sha256 allowAnon w k)
    (hcond : ¬ (w.Revoked sha256 k ∧ ¬ isFresh w.now w.keys k ∧ (w.keys.apiKeys k).isSome)) :
    w.Remembered k ∨ w.readable = false ∨ w.Valid sha256 k := by
  rcases served_cases hserved with hrem | hvalid | ⟨hrem, hvalid, hin⟩
  · exact Or.inl hrem
  · exact Or.inr (Or.inr hvalid)
  · refine Or.inr (Or.inl ?_)
    by_contra hread
    rw [Bool.not_eq_false] at hread
    exact hcond ⟨revoked_of_not_valid hread hvalid, fun hfresh => hrem ⟨hin, hfresh⟩, hin⟩

/-- **A revoked key goes on being served exactly if it was ever read.**  The operator's
keys are always served as they were loaded. -/
theorem revocation_iff (hstart : w.Started) (es : List Event) :
    (∀ k rec, w.keys.apiKeys k = some rec → ∀ h method, h.presented = some k →
      ((w.run sha256 allowAnon es).answer sha256 allowAnon h method).1 = some (.key rec)) ∧
    ∀ k, w.keys.apiKeys k = none →
      (RevocationKept sha256 allowAnon w es k ↔
        ¬ ((w.run sha256 allowAnon es).Revoked sha256 k ∧
          ¬ isFresh (w.run sha256 allowAnon es).now (w.run sha256 allowAnon es).keys k ∧
          w.PresentedWhileValid sha256 allowAnon es k)) := by
  refine ⟨fun k rec hkey h method hh => answer_operator hstart hkey hh es method, ?_⟩
  intro k hnone
  rw [← isSome_run hnone es]
  constructor
  · rintro ⟨-, hreason⟩ ⟨hrevoked, hfresh, hin⟩
    have hk : k ≠ "" := by
      rintro rfl
      exact ((isSome_run hnone es).mp hin).1 rfl
    have hserved := served_of_isSome sha256 allowAnon hk hin (fun hrem => hfresh hrem.2)
      (not_valid_of_revoked hrevoked)
    rcases hreason hserved with hrem | hread | hvalid
    · exact hfresh hrem.2
    · rw [hrevoked.1] at hread
      cases hread
    · exact not_valid_of_revoked hrevoked hvalid
  · intro hcond
    refine ⟨?_, fun hserved => reason_of_served hserved hcond⟩
    rintro before after rfl hrev hlate hserved
    have hend := hrev after (List.prefix_refl _)
    rw [run_append] at hlate hserved hcond
    rcases reason_of_served hserved hcond with hrem | hread | hvalid
    · exact not_remembered_of_late hnone hrev hlate hrem
    · rw [hend.1] at hread
      cases hread
    · exact not_valid_of_revoked hend hvalid

/-! ### A key that is revoked too late -/

/-- A hash that is its text. -/
def plainHash (key : String) : String := key

def sampleRow : StoredKey := ⟨"partner", none, .direct, 600, true, 0⟩

def sampleTable : KeyTable := fun hash => if hash = "ordo_1" then some sampleRow else none

def sampleStart : World := { table := sampleTable, keys := { apiKeys := fun _ => none } }

/-- The key is used once, deleted, and left for its time. -/
def sampleHistory : List Event :=
  [.request { xApiKey := some "ordo_1" } "eth_call", .change fun _ => none, .elapse KEY_TTL_MS]

theorem sampleStart_started : sampleStart.Started := ⟨rfl, fun _ => rfl⟩

/-- It is still served. -/
theorem deleted_key_served :
    ¬ RevocationKept plainHash false sampleStart sampleHistory "ordo_1" := by
  rintro ⟨-, hreason⟩
  have hserved : Served plainHash false (sampleStart.run plainHash false sampleHistory) "ordo_1" :=
    ⟨{ xApiKey := some "ordo_1" }, "eth_call", ⟨"ordo_1", "partner", 600, none, .direct⟩, rfl,
      by decide⟩
  rcases hreason hserved with hrem | hread | hvalid
  · exact absurd hrem.2 (by decide)
  · cases hread
  · cases hvalid.2

theorem revocation_iff_sample :
    sampleStart.Started ∧
      (RevocationKept plainHash false sampleStart sampleHistory "ordo_2" ↔
        ¬ ((sampleStart.run plainHash false sampleHistory).Revoked plainHash "ordo_2" ∧
          ¬ isFresh (sampleStart.run plainHash false sampleHistory).now
            (sampleStart.run plainHash false sampleHistory).keys "ordo_2" ∧
          sampleStart.PresentedWhileValid plainHash false sampleHistory "ordo_2")) :=
  ⟨sampleStart_started,
    (revocation_iff sampleStart_started sampleHistory).2 "ordo_2" rfl⟩

end Revocation

end ApiKeys

end Ordo
