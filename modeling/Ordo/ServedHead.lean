import Ordo.FastPath
import Ordo.HeadWatcher

/-!
# The head that is served

The number of the head and the head itself are kept in the gateway's cache.  The watcher
writes both with every block that it reads, and so does, for its own key, each read by
HTTP that misses.  Reads take their heads and are answered at any times.

A `Stamp` is the moment at which the upstream took a head.  `neverBack_run` says when what
is written under either key, and what is served, never goes back: no missed block is
filled in, and the answers for a key come in the order in which their heads were taken.
-/

namespace Ordo

namespace ServedHead

open FastPath HeadWatcher

/-- The keys that the head is cached under. -/
inductive HeadKey where
  | blockNumber
  | latestBlock
  deriving DecidableEq

def HeadKey.method : HeadKey → String
  | .blockNumber => "eth_blockNumber"
  | .latestBlock => "eth_getBlockByNumber"

def HeadKey.params : HeadKey → List Json
  | .blockNumber => []
  | .latestBlock => [.str "latest", .bool false]

def HeadKey.text (key : HeadKey) : Text := cacheKey key.method key.params

/-- What a block is under a key. -/
def HeadKey.valueOf (key : HeadKey) (block : Block) : Json :=
  match key with
  | .blockNumber => .str (quantity block.number)
  | .latestBlock => .obj block.fields

/-- The key of a block under its own number. -/
def numberedKey (n : Nat) : Text :=
  cacheKey "eth_getBlockByNumber" [.str (quantity n), .bool false]

/-- A head, and the moment at which the upstream took it. -/
structure Stamp where
  head : Nat
  moment : Nat
  deriving DecidableEq

structure State where
  watcher : Watcher := {}
  /-- The head of the chain. -/
  chain : Nat
  now : Nat := 0
  cache : MicroCache := {}
  /-- How many heads have been taken. -/
  moment : Nat := 0
  /-- The head that was taken for the watcher's read under way. -/
  headTaken : Option Stamp := none
  /-- The coalesced reads under way, and the heads that were taken for them. -/
  loads : HeadKey → Option (Option Stamp) := fun _ => none
  /-- The heads that were written under a key. -/
  written : HeadKey → List Nat := fun _ => []
  /-- The stamp of the answer that was written last. -/
  newest : HeadKey → Option Stamp := fun _ => none
  /-- What polls were answered. -/
  served : HeadKey → List Json := fun _ => []

inductive Event where
  | grow (k : Nat)
  | elapse (ms : Nat)
  | start
  | stop
  | timer
  /-- The upstream takes the head for the watcher, or for a read by HTTP. -/
  | takeHead
  | take (key : HeadKey)
  | headFails
  | headNull
  | headArrives
  | missedFail
  | missedAre (present : Nat → Bool)
  | poll (key : HeadKey)
  | loadFails (key : HeadKey)
  | loadArrives (key : HeadKey)
  /-- Anything else that is cached. -/
  | other (key : Text) (value : Option Json) (ttlMs : Nat)

/-- One write of the watcher, or of a read by HTTP. -/
def State.write (s : State) (key : HeadKey) (block : Block) (ttlMs : Nat) : State :=
  { s with
    cache := s.cache.set s.now key.text (some (key.valueOf block)) ttlMs
    written := Function.update s.written key (s.written key ++ [block.number]) }

def State.onBlock (s : State) (block : Block) : State :=
  let s' := (s.write .blockNumber block BLOCK_MS).write .latestBlock block BLOCK_MS
  { s' with
    cache := s'.cache.set s'.now (numberedKey block.number) (some (.obj block.fields)) 60_000 }

def State.call (s : State) : Call → State
  | .onBlock block => s.onBlock block
  | _ => s

/-- The answer with this stamp is the last one that is written under the key. -/
def State.mark (s : State) (key : HeadKey) (stamp : Stamp) : State :=
  { s with newest := Function.update s.newest key (some stamp) }

def State.serve (s : State) (key : HeadKey) (value : Json) : State :=
  { s with served := Function.update s.served key (s.served key ++ [value]) }

@[simp] theorem State.write_written (s : State) (key : HeadKey) (block : Block) (ttlMs : Nat) :
    (s.write key block ttlMs).written =
      Function.update s.written key (s.written key ++ [block.number]) := rfl

@[simp] theorem State.serve_served (s : State) (key : HeadKey) (value : Json) :
    (s.serve key value).served = Function.update s.served key (s.served key ++ [value]) := rfl

section Runs

variable (maxCatchUp : Nat) (blocks : Blocks)

def handle (s : State) (i : Input) : State :=
  let r := s.watcher.step maxCatchUp i
  r.2.foldl State.call
    { s with
      watcher := r.1
      headTaken := if s.watcher.phase.isIdle then none else s.headTaken }

/-- A read by HTTP: from the cache, or with the read of the same key that is under way, or
by one of its own. -/
def poll (s : State) (key : HeadKey) : State :=
  let found := s.cache.get s.now key.text
  let s' := { s with cache := found.2 }
  match found.1 with
  | some value => s'.serve key value
  | none =>
      match s.loads key with
      | some _ => s'
      | none => { s' with loads := Function.update s.loads key (some none) }

/-- The answer of a coalesced read is remembered, and goes to everyone who waits for it. -/
def loadArrives (s : State) (key : HeadKey) (stamp : Stamp) : State :=
  let block := blocks.blockAt stamp.head
  let value := key.valueOf block
  ((({ s with loads := Function.update s.loads key none }.mark key stamp).write key block
    (cacheTtlMs key.method key.params (some value))).serve key value)

def step (s : State) : Event → State
  | .grow k => { s with chain := s.chain + k }
  | .elapse ms => { s with now := s.now + ms }
  | .start => handle maxCatchUp s .start
  | .stop => handle maxCatchUp s .stop
  | .timer => handle maxCatchUp s .timer
  | .takeHead =>
      match s.watcher.phase, s.headTaken with
      | .reading, none =>
          { s with headTaken := some ⟨s.chain, s.moment + 1⟩, moment := s.moment + 1 }
      | _, _ => s
  | .take key =>
      match s.loads key with
      | some none =>
          { s with
            loads := Function.update s.loads key (some (some ⟨s.chain, s.moment + 1⟩))
            moment := s.moment + 1 }
      | _ => s
  | .headFails => handle maxCatchUp s (.head .failed)
  | .headNull => handle maxCatchUp s (.head .null)
  | .headArrives =>
      match s.watcher.phase, s.headTaken with
      | .reading, some stamp =>
          handle maxCatchUp { s with newest := fun _ => some stamp }
            (.head (.value (blocks.blockAt stamp.head)))
      | _, _ => s
  | .missedFail => handle maxCatchUp s (.missed none)
  | .missedAre present =>
      handle maxCatchUp s
        (.missed (some fun b => if present b then some (blocks.blockAt b) else none))
  | .poll key => poll s key
  | .loadFails key => { s with loads := Function.update s.loads key none }
  | .loadArrives key =>
      match s.loads key with
      | some (some stamp) => loadArrives blocks s key stamp
      | _ => s
  | .other key value ttlMs =>
      if key = HeadKey.blockNumber.text ∨ key = HeadKey.latestBlock.text then s
      else { s with cache := s.cache.set s.now key value ttlMs }

def run (s : State) (es : List Event) : State := es.foldl (step maxCatchUp blocks) s

/-- The head never goes back, neither in the cache nor for those who poll. -/
structure NeverBack (s : State) : Prop where
  written : ∀ key, (s.written key).Pairwise (· ≤ ·)
  served : ∀ key, ∃ heads : List Nat, heads.Pairwise (· ≤ ·) ∧
    s.served key = heads.map fun n => key.valueOf (blocks.blockAt n)

/-- No answer for the key has been written that was taken later. -/
def InOrder (s : State) (key : HeadKey) (stamp : Stamp) : Prop :=
  ∀ last ∈ s.newest key, last.moment ≤ stamp.moment

/-- No missed block is filled in, and the answers come in the order in which their heads
were taken. -/
def Clean (s : State) : Event → Prop
  | .missedAre present =>
      match s.watcher.phase with
      | .filling head start => ∀ b ∈ missedOf start head.number, present b = false
      | _ => True
  | .headArrives => ∀ stamp ∈ s.headTaken, ∀ key, InOrder s key stamp
  | .loadArrives key =>
      match s.loads key with
      | some (some stamp) => InOrder s key stamp
      | _ => True
  | _ => True

def CleanRun (s : State) : List Event → Prop
  | [] => True
  | e :: es => Clean s e ∧ CleanRun (step maxCatchUp blocks s e) es

end Runs

/-! ### What is kept -/

/-- A stamp that can still be compared with others. -/
def Known (s : State) (stamp : Stamp) : Prop :=
  s.headTaken = some stamp ∨ (∃ key, s.loads key = some (some stamp)) ∨
    ∃ key, s.newest key = some stamp

structure Kept (blocks : Blocks) (s : State) : Prop where
  /-- What was taken later is no older. -/
  ordered : ∀ stamp stamp', Known s stamp → Known s stamp' → stamp.moment ≤ stamp'.moment →
    stamp.head ≤ stamp'.head
  past : ∀ stamp, Known s stamp → stamp.head ≤ s.chain ∧ stamp.moment ≤ s.moment
  sorted : ∀ key, (s.written key).Pairwise (· ≤ ·)
  bounded : ∀ key, ∀ n ∈ s.written key, ∃ stamp, s.newest key = some stamp ∧ n ≤ stamp.head
  /-- What is in the cache was written last. -/
  cached : ∀ key, ∀ x ∈ s.cache.entries, x.1 = key.text →
    ∃ n, (s.written key).getLast? = some n ∧
      x.2.value = some (key.valueOf (blocks.blockAt n))
  served : ∀ key, ∃ heads : List Nat, heads.Pairwise (· ≤ ·) ∧
    (s.served key = heads.map fun n => key.valueOf (blocks.blockAt n)) ∧
    ∀ n ∈ heads, n ∈ s.written key

section Keys

theorem text_ne {key key' : HeadKey} (hne : key ≠ key') : key.text ≠ key'.text := by
  have hdiff : HeadKey.blockNumber.text.take 5 ≠ HeadKey.latestBlock.text.take 5 := by decide
  intro heq
  cases key with
  | blockNumber =>
      cases key' with
      | blockNumber => exact hne rfl
      | latestBlock => exact hdiff (congrArg (List.take 5) heq)
  | latestBlock =>
      cases key' with
      | blockNumber => exact hdiff (congrArg (List.take 5) heq.symm)
      | latestBlock => exact hne rfl

/-- A block under its own number is not the head under either key. -/
theorem numberedKey_ne (n : Nat) (key : HeadKey) : numberedKey n ≠ key.text := by
  intro heq
  cases key with
  | blockNumber =>
      have hdiff : (numberedKey n).take 5 ≠ HeadKey.blockNumber.text.take 5 := by
        show ("eth_getBlockByNumber".toList).take 5 ≠ _
        decide
      exact hdiff (congrArg (List.take 5) heq)
  | latestBlock =>
      have hparams := cacheKey_injective "eth_getBlockByNumber" heq
      have htag : quantity n = "latest" := Json.str.inj (List.cons.inj hparams).1
      have hchar := congrArg (fun t => t.toList.head?) htag
      simp [quantity] at hchar

theorem ttl_pos (key : HeadKey) (v : Option Json) : 0 < cacheTtlMs key.method key.params v := by
  cases key with
  | blockNumber => exact (by decide : 0 < BLOCK_MS)
  | latestBlock =>
      have htag : tagOf HeadKey.latestBlock.params ∈ HEAD_TAGS := by decide +kernel
      simp only [cacheTtlMs, HeadKey.method, FEE_METHODS, htag, if_true]
      decide

end Keys

section Writes

variable {blocks : Blocks} {s : State}

/-- Nothing is written, and no stamp is new. -/
theorem Kept.weaken {s' : State} (h : Kept blocks s) (hknown : ∀ st, Known s' st → Known s st)
    (hchain : s.chain ≤ s'.chain) (hmoment : s.moment ≤ s'.moment)
    (hcache : ∀ x ∈ s'.cache.entries, x ∈ s.cache.entries) (hwritten : s'.written = s.written)
    (hnewest : s'.newest = s.newest) (hserved : s'.served = s.served) : Kept blocks s' where
  ordered st st' hst hst' := h.ordered st st' (hknown st hst) (hknown st' hst')
  past st hst :=
    ⟨(h.past st (hknown st hst)).1.trans hchain, (h.past st (hknown st hst)).2.trans hmoment⟩
  sorted := by
    rw [hwritten]
    exact h.sorted
  bounded := by
    rw [hwritten, hnewest]
    exact h.bounded
  cached key x hx hkey := by
    rw [hwritten]
    exact h.cached key x (hcache x hx) hkey
  served := by
    rw [hwritten, hserved]
    exact h.served

/-- A stamp that no later answer has overtaken becomes the newest, under some keys. -/
theorem Kept.mark (h : Kept blocks s) {newest : HeadKey → Option Stamp} {stamp : Stamp}
    (hknown : Known s stamp)
    (hnewest : ∀ key, newest key = s.newest key ∨ newest key = some stamp ∧ InOrder s key stamp) :
    Kept blocks { s with newest } := by
  have hsame : ∀ st, Known { s with newest } st → Known s st := by
    rintro st (htaken | hload | ⟨key, hkey⟩)
    · exact Or.inl htaken
    · exact Or.inr (Or.inl hload)
    · rcases hnewest key with hold | ⟨hnew, -⟩
      · exact Or.inr (Or.inr ⟨key, hold.symm.trans hkey⟩)
      · exact Option.some.inj (hnew.symm.trans hkey) ▸ hknown
  refine ⟨fun st st' hst hst' => h.ordered st st' (hsame st hst) (hsame st' hst'),
    fun st hst => h.past st (hsame st hst), h.sorted, fun key n hn => ?_, h.cached, h.served⟩
  obtain ⟨last, hlast, hle⟩ := h.bounded key n hn
  rcases hnewest key with hold | ⟨hnew, horder⟩
  · exact ⟨last, hold.trans hlast, hle⟩
  · refine ⟨stamp, hnew, hle.trans ?_⟩
    exact h.ordered last stamp (Or.inr (Or.inr ⟨key, hlast⟩)) hknown (horder last hlast)

/-- The newest answer is written. -/
theorem Kept.write (h : Kept blocks s) {key : HeadKey} {stamp : Stamp} {ttlMs : Nat}
    (hnewest : s.newest key = some stamp) (hpos : 0 < ttlMs) :
    Kept blocks (s.write key (blocks.blockAt stamp.head) ttlMs) := by
  have hnum := blocks.numbered stamp.head
  have hbound : ∀ n ∈ s.written key, n ≤ stamp.head := by
    intro n hn
    obtain ⟨st, hst, hle⟩ := h.bounded key n hn
    rw [hnewest] at hst
    exact Option.some.inj hst ▸ hle
  refine ⟨h.ordered, h.past, fun key' => ?_, fun key' n hn => ?_, fun key' x hx hkey => ?_,
    fun key' => ?_⟩
  · rcases eq_or_ne key' key with rfl | hne
    · rw [State.write_written, Function.update_self, hnum]
      refine List.pairwise_append.mpr ⟨h.sorted key', List.pairwise_singleton _ _, ?_⟩
      intro n hn m hm
      rw [List.mem_singleton.mp hm]
      exact hbound n hn
    · rw [State.write_written, Function.update_of_ne hne]
      exact h.sorted key'
  · rcases eq_or_ne key' key with rfl | hne
    · rw [State.write_written, Function.update_self, hnum] at hn
      rcases List.mem_append.mp hn with hold | hnew
      · exact ⟨stamp, hnewest, hbound n hold⟩
      · rw [List.mem_singleton.mp hnew]
        exact ⟨stamp, hnewest, Nat.le_refl _⟩
    · rw [State.write_written, Function.update_of_ne hne] at hn
      exact h.bounded key' n hn
  · rcases eq_or_ne key' key with rfl | hne
    · have hx' := MicroCache.eq_of_mem_set hpos hx hkey
      refine ⟨stamp.head, ?_, ?_⟩
      · rw [State.write_written, Function.update_self, List.getLast?_concat, hnum]
      · rw [hx']
    · rw [State.write_written, Function.update_of_ne hne]
      rcases MicroCache.mem_of_mem_set hx with hold | ⟨-, hnew⟩
      · exact h.cached key' x hold hkey
      · rw [hnew] at hkey
        exact absurd hkey.symm (text_ne hne)
  · obtain ⟨heads, hsorted, hserved, hmem⟩ := h.served key'
    refine ⟨heads, hsorted, hserved, fun n hn => ?_⟩
    rcases eq_or_ne key' key with rfl | hne
    · rw [State.write_written, Function.update_self]
      exact List.mem_append_left _ (hmem n hn)
    · rw [State.write_written, Function.update_of_ne hne]
      exact hmem n hn

/-- Something else is cached. -/
theorem Kept.other (h : Kept blocks s) {key : Text} {value : Option Json} {ttlMs : Nat}
    (hne : ∀ k : HeadKey, key ≠ k.text) :
    Kept blocks { s with cache := s.cache.set s.now key value ttlMs } := by
  refine ⟨h.ordered, h.past, h.sorted, h.bounded, fun key' x hx hkey => ?_, h.served⟩
  rcases MicroCache.mem_of_mem_set hx with hold | ⟨-, hnew⟩
  · exact h.cached key' x hold hkey
  · rw [hnew] at hkey
    exact absurd hkey (hne key')

/-- The watcher writes the newest answer under both keys. -/
theorem Kept.onBlock (h : Kept blocks s) {stamp : Stamp}
    (hnewest : ∀ key, s.newest key = some stamp) :
    Kept blocks (s.onBlock (blocks.blockAt stamp.head)) := by
  have hfirst := h.write (hnewest .blockNumber) (by decide : 0 < BLOCK_MS)
  have hsecond := hfirst.write (hnewest HeadKey.latestBlock) (by decide : 0 < BLOCK_MS)
  exact hsecond.other (numberedKey_ne _)

/-- What was written last is served. -/
theorem Kept.serve (h : Kept blocks s) {key : HeadKey} {n : Nat}
    (hlast : (s.written key).getLast? = some n) :
    Kept blocks (s.serve key (key.valueOf (blocks.blockAt n))) := by
  refine ⟨h.ordered, h.past, h.sorted, h.bounded, h.cached, fun key' => ?_⟩
  obtain ⟨heads, hsorted, hserved, hmem⟩ := h.served key'
  rcases eq_or_ne key' key with rfl | hne
  · have hmax : ∀ m ∈ s.written key', m ≤ n := by
      intro m hm
      obtain ⟨init, hinit⟩ := List.getLast?_eq_some_iff.mp hlast
      have hpair := h.sorted key'
      rw [hinit] at hm hpair
      rcases List.mem_append.mp hm with hold | hnew
      · exact (List.pairwise_append.mp hpair).2.2 m hold n (List.mem_singleton_self n)
      · exact (List.mem_singleton.mp hnew).le
    refine ⟨heads ++ [n], ?_, ?_, ?_⟩
    · refine List.pairwise_append.mpr ⟨hsorted, List.pairwise_singleton _ _, ?_⟩
      intro m hm m' hm'
      rw [List.mem_singleton.mp hm']
      exact hmax m (hmem m hm)
    · rw [State.serve_served, Function.update_self, hserved, List.map_append]
      rfl
    · intro m hm
      rcases List.mem_append.mp hm with hold | hnew
      · exact hmem m hold
      · rw [List.mem_singleton.mp hnew]
        exact List.mem_of_getLast? hlast
  · refine ⟨heads, hsorted, ?_, hmem⟩
    rw [State.serve_served, Function.update_of_ne hne]
    exact hserved

end Writes

section Steps

variable {maxCatchUp : Nat} {blocks : Blocks} {s : State}

theorem foldl_call_of_quiet {calls : List Call} (h : ∀ b, Call.onBlock b ∉ calls) (s : State) :
    calls.foldl State.call s = s := by
  induction calls generalizing s with
  | nil => rfl
  | cons c calls ih =>
      have hcall : s.call c = s := by
        cases c with
        | onBlock b => exact absurd List.mem_cons_self (h b)
        | onHead b => rfl
        | fetchLogs start n => rfl
        | onError => rfl
      rw [List.foldl_cons, hcall]
      exact ih (fun b hb => h b (List.mem_cons_of_mem _ hb)) s

/-- The watcher moves on. -/
theorem Kept.turned (h : Kept blocks s) (watcher : Watcher) (clear : Bool) :
    Kept blocks { s with watcher, headTaken := if clear then none else s.headTaken } := by
  refine h.weaken ?_ (Nat.le_refl _) (Nat.le_refl _) (fun x hx => hx) rfl rfl rfl
  rintro st (htaken | hrest)
  · left
    cases clear with
    | true => cases htaken
    | false => exact htaken
  · exact Or.inr hrest

/-- An input that brings no block changes nothing but the watcher. -/
theorem Kept.quiet (h : Kept blocks s) {i : Input}
    (hquiet : ∀ b, Call.onBlock b ∉ (s.watcher.step maxCatchUp i).2) :
    Kept blocks (handle maxCatchUp s i) := by
  rw [handle, foldl_call_of_quiet hquiet]
  exact h.turned _ _

/-- Only answers bring blocks. -/
theorem Kept.control (h : Kept blocks s) {i : Input} (hhead : ∀ b, i ≠ .head (.value b))
    (hmissed : ∀ answers, i ≠ .missed (some answers)) : Kept blocks (handle maxCatchUp s i) := by
  refine h.quiet fun b hb => ?_
  rcases onBlock_mem_step hb with heq | ⟨answers, _, _, _, heq, -⟩
  · exact hhead b heq
  · exact hmissed answers heq

/-- Missed blocks of which none is there bring nothing. -/
theorem Kept.missedAre (h : Kept blocks s) {present : Nat → Bool}
    (hclean : Clean s (.missedAre present)) :
    Kept blocks (handle maxCatchUp s
      (.missed (some fun b => if present b then some (blocks.blockAt b) else none))) := by
  refine h.quiet fun b hb => ?_
  rcases onBlock_mem_step hb with heq | ⟨answers, head, start, n, heq, hphase, hn, hthere⟩
  · cases heq
  · simp only [Clean, hphase] at hclean
    obtain rfl : (fun b => if present b then some (blocks.blockAt b) else none) = answers := by
      simpa using heq
    simp [hclean n hn] at hthere

/-- The head that the watcher has read is written under both keys. -/
theorem Kept.headArrives (h : Kept blocks s) {stamp : Stamp} (hknown : Known s stamp)
    (hclean : ∀ key, InOrder s key stamp) (hphase : s.watcher.phase = .reading) :
    Kept blocks (handle maxCatchUp { s with newest := fun _ => some stamp }
      (.head (.value (blocks.blockAt stamp.head)))) := by
  have hmarked := h.mark hknown fun key => Or.inr ⟨rfl, hclean key⟩
  obtain ⟨rest, hcalls, hrest⟩ := calls_head maxCatchUp hphase (blocks.blockAt stamp.head)
  simp only [handle, hcalls, List.foldl_cons]
  rw [foldl_call_of_quiet hrest]
  exact (hmarked.turned _ _).onBlock fun key => rfl

/-- A head is taken: it is the newest of all. -/
theorem Kept.taken (h : Kept blocks s) {headTaken : Option Stamp}
    {loads : HeadKey → Option (Option Stamp)}
    (hknown : ∀ st, Known { s with headTaken, loads } st →
      Known s st ∨ st = ⟨s.chain, s.moment + 1⟩) :
    Kept blocks { s with headTaken, loads, moment := s.moment + 1 } := by
  refine ⟨?_, ?_, h.sorted, h.bounded, h.cached, h.served⟩
  · intro st st' hst hst' hle
    rcases hknown st hst with hold | rfl
    · rcases hknown st' hst' with hold' | rfl
      · exact h.ordered st st' hold hold' hle
      · exact (h.past st hold).1
    · rcases hknown st' hst' with hold' | rfl
      · have hlt := (h.past st' hold').2
        have hle' : s.moment + 1 ≤ st'.moment := hle
        omega
      · exact Nat.le_refl _
  · intro st hst
    rcases hknown st hst with hold | rfl
    · exact ⟨(h.past st hold).1, (h.past st hold).2.trans (Nat.le_succ _)⟩
    · exact ⟨Nat.le_refl _, Nat.le_refl _⟩

theorem Kept.takeHead (h : Kept blocks s) :
    Kept blocks { s with headTaken := some ⟨s.chain, s.moment + 1⟩, moment := s.moment + 1 } := by
  refine h.taken fun st hst => ?_
  rcases hst with htaken | hrest
  · exact Or.inr (Option.some.inj htaken).symm
  · exact Or.inl (Or.inr hrest)

theorem Kept.take (h : Kept blocks s) (key : HeadKey) :
    Kept blocks { s with
      loads := Function.update s.loads key (some (some ⟨s.chain, s.moment + 1⟩))
      moment := s.moment + 1 } := by
  refine h.taken fun st hst => ?_
  rcases hst with htaken | ⟨key', hload⟩ | hnewest
  · exact Or.inl (Or.inl htaken)
  · rcases eq_or_ne key' key with rfl | hne
    · simp only [Function.update_self, Option.some.injEq] at hload
      exact Or.inr hload.symm
    · simp only [Function.update_of_ne hne] at hload
      exact Or.inl (Or.inr (Or.inl ⟨key', hload⟩))
  · exact Or.inl (Or.inr (Or.inr hnewest))

/-- A read that begins, or ends, has taken no head. -/
theorem Kept.untaken (h : Kept blocks s) (key : HeadKey) {load : Option (Option Stamp)}
    (hload : ∀ st, load ≠ some (some st)) :
    Kept blocks { s with loads := Function.update s.loads key load } := by
  refine h.weaken ?_ (Nat.le_refl _) (Nat.le_refl _) (fun x hx => hx) rfl rfl rfl
  rintro st (htaken | ⟨key', hkey⟩ | hnewest)
  · exact Or.inl htaken
  · rcases eq_or_ne key' key with rfl | hne
    · simp only [Function.update_self] at hkey
      exact absurd hkey (hload st)
    · simp only [Function.update_of_ne hne] at hkey
      exact Or.inr (Or.inl ⟨key', hkey⟩)
  · exact Or.inr (Or.inr hnewest)

theorem Kept.poll (h : Kept blocks s) (key : HeadKey) : Kept blocks (poll s key) := by
  have hlooked : Kept blocks { s with cache := (s.cache.get s.now key.text).2 } :=
    h.weaken (fun st hst => hst) (Nat.le_refl _) (Nat.le_refl _)
      (fun x hx => MicroCache.mem_of_mem_get hx) rfl rfl rfl
  simp only [ServedHead.poll]
  split
  · next value hvalue =>
      obtain ⟨e, he, -, heq⟩ := MicroCache.holds_of_get hvalue
      obtain ⟨n, hlast, hn⟩ := h.cached key _ he rfl
      obtain rfl : value = key.valueOf (blocks.blockAt n) :=
        Option.some.inj (heq.symm.trans hn)
      exact hlooked.serve hlast
  · split
    · exact hlooked
    · exact hlooked.untaken key nofun

theorem Kept.loadArrives (h : Kept blocks s) {key : HeadKey} {stamp : Stamp}
    (hload : s.loads key = some (some stamp)) (hclean : InOrder s key stamp) :
    Kept blocks (loadArrives blocks s key stamp) := by
  have hmarked : Kept blocks (s.mark key stamp) := by
    refine h.mark (Or.inr (Or.inl ⟨key, hload⟩)) fun key' => ?_
    rcases eq_or_ne key' key with rfl | hne
    · exact Or.inr ⟨Function.update_self .., hclean⟩
    · exact Or.inl (Function.update_of_ne hne ..)
  have hended : Kept blocks
      { s.mark key stamp with loads := Function.update s.loads key none } :=
    hmarked.untaken key nofun
  have hnewest : (s.mark key stamp).newest key = some stamp := Function.update_self ..
  have hwritten := hended.write hnewest
    (ttl_pos key (some (key.valueOf (blocks.blockAt stamp.head))))
  refine hwritten.serve ?_
  rw [State.write_written, Function.update_self, List.getLast?_concat, blocks.numbered]

theorem Kept.step (h : Kept blocks s) (e : Event) (hclean : Clean s e) :
    Kept blocks (step maxCatchUp blocks s e) := by
  cases e with
  | grow k =>
      exact h.weaken (fun st hst => hst) (Nat.le_add_right _ _) (Nat.le_refl _)
        (fun x hx => hx) rfl rfl rfl
  | elapse ms =>
      exact h.weaken (fun st hst => hst) (Nat.le_refl _) (Nat.le_refl _)
        (fun x hx => hx) rfl rfl rfl
  | start => exact h.control nofun nofun
  | stop => exact h.control nofun nofun
  | timer => exact h.control nofun nofun
  | takeHead =>
      simp only [ServedHead.step]
      split
      · exact h.takeHead
      · exact h
  | take key =>
      simp only [ServedHead.step]
      split
      · exact h.take key
      · exact h
  | headFails => exact h.control nofun nofun
  | headNull => exact h.control nofun nofun
  | headArrives =>
      simp only [ServedHead.step]
      split
      · next stamp hphase htaken =>
          exact h.headArrives (Or.inl htaken) (hclean stamp htaken) hphase
      · exact h
  | missedFail => exact h.control nofun nofun
  | missedAre present => exact h.missedAre hclean
  | poll key => exact h.poll key
  | loadFails key => exact h.untaken key nofun
  | loadArrives key =>
      simp only [ServedHead.step]
      split
      · next stamp hload =>
          simp only [Clean, hload] at hclean
          exact h.loadArrives hload hclean
      · exact h
  | other key value ttlMs =>
      simp only [ServedHead.step]
      split
      · exact h
      · next hne =>
          refine h.other fun k heq => hne ?_
          cases k with
          | blockNumber => exact Or.inl heq
          | latestBlock => exact Or.inr heq

end Steps

/-! ### Whole runs -/

section

variable {maxCatchUp : Nat} {blocks : Blocks}

theorem Kept.run {s : State} (h : Kept blocks s) (es : List Event)
    (hclean : CleanRun maxCatchUp blocks s es) : Kept blocks (run maxCatchUp blocks s es) := by
  induction es generalizing s with
  | nil => exact h
  | cons e es ih => exact ih (h.step e hclean.1) hclean.2

theorem kept_start (chain : Nat) : Kept blocks { chain } where
  ordered := by
    rintro st st' (htaken | ⟨key, hload⟩ | ⟨key, hnewest⟩)
    · cases htaken
    · cases hload
    · cases hnewest
  past := by
    rintro st (htaken | ⟨key, hload⟩ | ⟨key, hnewest⟩)
    · cases htaken
    · cases hload
    · cases hnewest
  sorted _ := List.Pairwise.nil
  bounded _ _ hn := absurd hn List.not_mem_nil
  cached _ _ hx := absurd hx List.not_mem_nil
  served _ := ⟨[], List.Pairwise.nil, rfl, nofun⟩

/-- **The served head never goes back where answers keep their order.**  Over any
interleaving in which no missed block is filled in, and the answers for each key come in
the order in which their heads were taken, the heads that are written under a key do not
decrease, and neither do those that are served. -/
theorem neverBack_run (maxCatchUp : Nat) (blocks : Blocks) (chain : Nat) (es : List Event)
    (hclean : CleanRun maxCatchUp blocks { chain } es) :
    NeverBack blocks (run maxCatchUp blocks { chain } es) := by
  have hkept := (kept_start chain).run es hclean
  refine ⟨hkept.sorted, fun key => ?_⟩
  obtain ⟨heads, hsorted, hserved, -⟩ := hkept.served key
  exact ⟨heads, hsorted, hserved⟩

def sampleBlocks : Blocks :=
  ⟨fun n => ⟨n, [("number", .str (quantity n))]⟩, fun _ => rfl⟩

/-- A read by HTTP, and then one of the watcher. -/
theorem neverBack_run_sample :
    NeverBack sampleBlocks (run 24 sampleBlocks { chain := 10 }
      [.poll .blockNumber, .take .blockNumber, .loadArrives .blockNumber, .grow 2, .start,
        .takeHead, .headArrives]) := by
  refine neverBack_run 24 sampleBlocks 10 _ ⟨trivial, trivial, nofun, trivial, trivial, trivial,
    ?_, trivial⟩
  intro stamp hstamp key last hlast
  obtain rfl : (⟨12, 2⟩ : Stamp) = stamp := Option.some.inj hstamp
  cases key with
  | blockNumber =>
      obtain rfl : (⟨10, 1⟩ : Stamp) = last := Option.some.inj hlast
      decide
  | latestBlock => cases hlast

/-- The blocks that are filled in are written after the head.  And a read by HTTP that is
answered late is written after a newer head of the watcher. -/
theorem went_back :
    ¬ NeverBack sampleBlocks (run 24 sampleBlocks { chain := 10 }
      [.start, .takeHead, .headArrives, .grow 3, .timer, .takeHead, .headArrives,
        .missedAre fun _ => true]) ∧
    ¬ NeverBack sampleBlocks (run 24 sampleBlocks { chain := 10 }
      [.poll .blockNumber, .take .blockNumber, .grow 2, .start, .takeHead, .headArrives,
        .loadArrives .blockNumber]) := by
  constructor
  · intro h
    exact absurd (h.written .blockNumber) (by decide)
  · intro h
    exact absurd (h.written .blockNumber) (by decide)

end

end ServedHead

end Ordo
