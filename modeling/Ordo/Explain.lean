import Ordo.Hex
import Ordo.Tallies
import Ordo.Words

/-!
# What a transaction did to its sender

`ordo_explain` reads a transaction and its receipt, and says what left the sender's wallet and
what arrived, asset by asset.  It adds up the sender's side of every `Transfer`, takes off the
value that was sent along, and reads ether out of the `Deposit` and `Withdrawal` events that
WETH emits.

A mined transaction is what its calls did: ether and tokens that moved, WETH that was made of
ether or turned back, and events.  Its balance changes and its receipt both come from that.

`truthful_iff` says exactly when the explanation is what happened to the balances.
-/

namespace Ordo

namespace Explain

/-! ### Receipts -/

/-- A log; its hexadecimal texts are what they stand for. -/
structure Log where
  address : Address
  topics : List Bytes32
  data : Bytes
  deriving DecidableEq

def TRANSFER : Bytes32 := 0xddf252ad1be2c89b69c2b068fc378daa952ba7f163c4a11628f55a4df523b3ef

def APPROVAL : Bytes32 := 0x8c5be1e5ebec7d5bd14f71427d1e84f3dd0314c0f7b2291e5b200ac8c7c3b925

def V3_SWAP : Bytes32 := 0xc42079f94a6350d7e6235f29174924f928cc2ac818eb64fed8004e115fbcca67

def V4_SWAP : Bytes32 := 0x40e9cecb9f5f1f1c5b9c97dec2917b7ee92e57ba5563708daca94dd84ad7112f

def V2_SWAP : Bytes32 := 0xd78ad95fa46c994b6551d0da85fc275fe613ce37657fb8d5e3d130840159d822

def DEPOSIT : Bytes32 := 0xe1fffcc4923d04b559f4d29a8bfc6cda04eb5b0d3c460751c2402c5c5cc9109c

def WITHDRAWAL : Bytes32 := 0x7fcf532c15f0a6db0bd6d0e038bea71d30d808c7d98cb3bf7268a95bf5081b65

def UNLIMITED : Nat := 2 ^ 255

/-- `addr`: the address in a topic. -/
def addr (topic : Bytes32) : Address := Fin.ofNat _ topic.val

def Log.topic (l : Log) (i : Nat) : Bytes32 := l.topics.getD i 0

/-- The log has an event's topic, and `n` topics at least. -/
def Log.Is (l : Log) (event : Bytes32) (n : Nat) : Prop :=
  l.topics.head? = some event ∧ n ≤ l.topics.length

instance (l : Log) (event : Bytes32) (n : Nat) : Decidable (l.Is event n) := by
  unfold Log.Is
  infer_instance

/-- `BigInt(l.data.slice(0, 66))`, which throws where there are no digits. -/
def Log.bigInt (l : Log) : Except Text Nat :=
  if l.data = [] then .error "Cannot convert 0x to a BigInt".toList
  else .ok (word (l.data.take 32))

/-- `l.data && l.data !== "0x" ? BigInt(l.data.slice(0, 66)) : 0n` -/
def Log.amount (l : Log) : Nat := if l.data = [] then 0 else word (l.data.take 32)

structure Tx where
  /-- `from` -/
  sender : Address
  /-- `to` -/
  recipient : Option Address
  value : Option Nat
  gasPrice : Option Nat

structure Receipt where
  logs : Option (List Log)
  status : Nat
  gasUsed : Option Nat
  effectiveGasPrice : Option Nat
  blockNumber : Option Nat

/-! ### The explanation -/

inductive Asset where
  | eth
  | token (address : Address)
  deriving DecidableEq

/-- The body of the loop of `netFor`. -/
def netLog (me : Address) (net : Tally Asset) (l : Log) : Except Text (Tally Asset) :=
  if l.Is TRANSFER 3 then
    let amount := l.amount
    let net := if addr (l.topic 1) = me then net.add (.token l.address) (-amount) else net
    .ok (if addr (l.topic 2) = me then net.add (.token l.address) amount else net)
  else if l.Is WITHDRAWAL 2 ∧ addr (l.topic 1) = me then do
    let amount ← l.bigInt
    return net.add .eth amount
  else if l.Is DEPOSIT 2 ∧ addr (l.topic 1) = me then do
    let amount ← l.bigInt
    return net.add .eth (-amount)
  else .ok net

/-- Net movement per asset for one address, from a receipt's logs plus the native value. -/
def netFor (who : Address) (logs : List Log) (nativeValue : Nat) : Except Text (Tally Asset) :=
  let net := if 0 < nativeValue then Tally.empty.add .eth (-nativeValue) else Tally.empty
  logs.foldlM (netLog who) net

/-- Which venues a receipt touched, named. -/
def venuesIn (logs : List Log) : List Text :=
  logs.foldl (fun seen l =>
    let add := fun venue : Text => if venue ∈ seen then seen else seen ++ [venue]
    if l.Is V4_SWAP 1 then add "Uniswap V4".toList
    else if l.Is V3_SWAP 1 then add "Uniswap V3".toList
    else if l.Is V2_SWAP 1 then add "Uniswap V2".toList
    else seen) []

structure TokenMeta where
  symbol : Text
  decimals : Nat

/-- What tokens call themselves, and how amounts are shown. -/
structure Display where
  info : Address → TokenMeta
  fmt : Int → Nat → Text
  formatUnits : Nat → Nat → Text

structure Movement where
  asset : Asset
  symbol : Text
  amount : Text
  /-- In decimal; negative left the wallet. -/
  raw : Int

structure Approval where
  token : Address
  symbol : Text
  spender : Address
  unlimited : Bool
  amount : Text

structure Explanation where
  hash : Text
  success : Bool
  block : Nat
  /-- `from` -/
  sender : Address
  /-- `to` -/
  recipient : Option Address
  youPaid : List Movement
  youReceived : List Movement
  approvals : List Approval
  venues : List Text
  gasEth : Text
  summary : Text

def addressText (a : Address) : Text := "0x".toList ++ Hex.padStart 40 (Hex.numeral a)

/-- The sentence. -/
def summarise (success : Bool) (paid got : List Movement) (approvals : List Approval)
    (venues : List Text) (recipient : Option Address) : Text :=
  let list := fun m : List Movement =>
    List.intercalate " and ".toList (m.map fun v => v.amount ++ ' ' :: v.symbol)
  let via : Text := if venues = [] then []
    else " through ".toList ++ List.intercalate " and ".toList venues
  let towards : Text := match recipient with
    | some a => " to ".toList ++ addressText a
    | none => []
  if success = false then "This transaction reverted. Nothing moved except the gas.".toList
  else if paid ≠ [] ∧ got ≠ [] then
    "Swapped ".toList ++ list paid ++ " for ".toList ++ list got ++ via ++ ".".toList
  else match approvals with
    | a :: _ =>
        if a.unlimited then
          "Granted ".toList ++ addressText a.spender ++
            " permission to spend an unlimited amount of your ".toList ++ a.symbol ++
            ". Nothing moved.".toList
        else
          "Granted ".toList ++ addressText a.spender ++ " permission to spend ".toList ++
            a.amount ++ ' ' :: a.symbol ++ ". Nothing moved.".toList
    | [] =>
        if paid ≠ [] then "Sent ".toList ++ list paid ++ towards ++ ".".toList
        else if got ≠ [] then "Received ".toList ++ list got ++ via ++ ".".toList
        else
          "Succeeded, but moved none of your assets — a contract call that changed ".toList ++
            "something other than balances.".toList

section Explained

variable (d : Display)

def metaOf : Asset → TokenMeta
  | .eth => ⟨"ETH".toList, 18⟩
  | .token a => d.info a

def movement (e : Asset × Int) : Movement :=
  let about := metaOf d e.1
  { asset := e.1, symbol := about.symbol, amount := d.fmt e.2 about.decimals, raw := e.2 }

def approval (l : Log) : Approval :=
  let about := d.info l.address
  { token := l.address
    symbol := about.symbol
    spender := addr (l.topic 2)
    unlimited := decide (UNLIMITED ≤ l.amount)
    amount := d.fmt l.amount about.decimals }

def isHash (hash : Text) : Prop :=
  hash.take 2 = "0x".toList ∧ hash.length = 66 ∧ Hex.IsHex (hash.drop 2)

instance (hash : Text) : Decidable (isHash hash) := by
  unfold isHash
  infer_instance

/-- What the chain answers for the hash is `tx` and `rc`. -/
def explain (tx : Option Tx) (rc : Option Receipt) (hash : Text) : Except Text Explanation := do
  if ¬ isHash hash then .error "ordo_explain: expected a transaction hash".toList
  else match tx, rc with
  | none, _ => .error "ordo_explain: no such transaction".toList
  | some _, none => .error "ordo_explain: not mined yet".toList
  | some tx, some rc => do
      let logs := rc.logs.getD []
      let net ← netFor tx.sender logs (tx.value.getD 0)
      let moves := (net.entries.filter fun e => e.2 ≠ 0).map (movement d)
      let paid := moves.filter fun m => m.raw < 0
      let got := moves.filter fun m => ¬ m.raw < 0
      let approvals := (logs.filter fun l =>
        l.Is APPROVAL 3 ∧ addr (l.topic 1) = tx.sender).map (approval d)
      let gasWei := rc.gasUsed.getD 0 * (rc.effectiveGasPrice.or tx.gasPrice).getD 0
      let venues := venuesIn logs
      let success := decide (rc.status = 1)
      return {
        hash, success, approvals, venues
        block := rc.blockNumber.getD 0
        sender := tx.sender
        recipient := tx.recipient
        youPaid := paid
        youReceived := got
        gasEth := d.formatUnits gasWei 18
        summary := summarise success paid got approvals venues tx.recipient }

end Explained

/-! ### Mined transactions -/

/-- WETH on this chain. -/
def WETH : Address := 0x0bd7d308f8e1639fab988df18a8011f41eacad73

/-- A log that tells of no token: it is no `Transfer` of an ERC-20 token, and none of the two
events of WETH. -/
def Aside (l : Log) : Prop :=
  (l.Is TRANSFER 3 → l.data = []) ∧
    (l.address = WETH → ¬ l.Is DEPOSIT 2 ∧ ¬ l.Is WITHDRAWAL 2)

instance (l : Log) : Decidable (Aside l) := by
  unfold Aside
  infer_instance

/-- What a call of a transaction does. -/
inductive Effect where
  /-- A call inside the transaction takes ether along. -/
  | ether (src dst : Address) (amount : Bytes32)
  /-- An ERC-20 token moves: `Transfer`. -/
  | transfer (token src dst : Address) (amount : Bytes32)
  /-- WETH is made for ether that was received: `Deposit`. -/
  | deposit (dst : Address) (amount : Bytes32)
  /-- WETH is taken back, to be paid in ether: `Withdrawal`. -/
  | withdrawal (src : Address) (amount : Bytes32)
  | event (log : { l : Log // Aside l })

/-- A transaction that was mined. -/
structure Mined where
  hash : Text
  tx : Tx
  reverted : Bool
  effects : List Effect
  gasUsed : Nat
  gasPrice : Nat
  block : Nat
  hash_ok : isHash hash

def topicOf (a : Address) : Bytes32 := Fin.castLE (by decide) a

namespace Effect

/-- `account` has `amount` if it is `who`. -/
def share (who account : Address) (amount : Nat) : Int := if account = who then amount else 0

/-- What an effect does to a balance of `who`. -/
def change (who : Address) : Effect → Asset → Int
  | .ether src dst amount, .eth => share who dst amount - share who src amount
  | .transfer token src dst amount, .token a =>
      if a = token then share who dst amount - share who src amount else 0
  | .deposit dst amount, .token a => if a = WETH then share who dst amount else 0
  | .withdrawal src amount, .token a => if a = WETH then - share who src amount else 0
  | _, _ => 0

def log : Effect → Option Log
  | .ether _ _ _ => none
  | .transfer token src dst amount =>
      some ⟨token, [TRANSFER, topicOf src, topicOf dst], packed 32 amount⟩
  | .deposit dst amount => some ⟨WETH, [DEPOSIT, topicOf dst], packed 32 amount⟩
  | .withdrawal src amount => some ⟨WETH, [WITHDRAWAL, topicOf src], packed 32 amount⟩
  | .event l => some l

end Effect

namespace Mined

variable (m : Mined)

def value : Nat := m.tx.value.getD 0

/-- The change of the sender's balance of an asset, gas apart.  A transaction that reverts moves
nothing. -/
def change (asset : Asset) : Int :=
  if m.reverted then 0
  else
    (if asset = .eth then
      (if m.tx.recipient = some m.tx.sender then 0 else - (m.value : Int)) else 0) +
    (m.effects.map fun e => e.change m.tx.sender asset).sum

def receipt : Receipt where
  logs := some (if m.reverted then [] else m.effects.filterMap Effect.log)
  status := if m.reverted then 0 else 1
  gasUsed := some m.gasUsed
  effectiveGasPrice := some m.gasPrice
  blockNumber := some m.block

end Mined

/-- The movements of an asset, together. -/
def total (ms : List Movement) (asset : Asset) : Int :=
  ((ms.filter fun m => m.asset = asset).map Movement.raw).sum

/-- The explanation of a transaction says what happened: what arrived and what left of each
asset, and of a transaction that reverted, that nothing did. -/
def Truthful (d : Display) (m : Mined) : Prop :=
  ∃ e, explain d (some m.tx) (some m.receipt) m.hash = .ok e ∧
    e.success = !m.reverted ∧
    (∀ asset, total e.youReceived asset = max (m.change asset) 0) ∧
    (∀ asset, total e.youPaid asset = min (m.change asset) 0) ∧
    (m.reverted = true → e.youPaid = [] ∧ e.youReceived = [])

/-! ### What the explanation does not see -/

/-- What a log says of WETH that it is not an event of. -/
def Log.pretends (who : Address) (l : Log) : Int :=
  if l.Is WITHDRAWAL 2 ∧ addr (l.topic 1) = who then l.amount
  else if l.Is DEPOSIT 2 ∧ addr (l.topic 1) = who then - (l.amount : Int)
  else 0

/-- Where it says that, it names an amount. -/
def Log.Readable (who : Address) (l : Log) : Prop :=
  (l.Is WITHDRAWAL 2 ∨ l.Is DEPOSIT 2) ∧ addr (l.topic 1) = who → l.data ≠ []

namespace Effect

/-- Ether that a call brings to `who`, or takes away. -/
def etherIn (who : Address) : Effect → Int
  | .ether src dst amount => share who dst amount - share who src amount
  | _ => 0

/-- WETH that is made for `who`, or taken back. -/
def wethMade (who : Address) : Effect → Int
  | .deposit dst amount => share who dst amount
  | .withdrawal src amount => - share who src amount
  | _ => 0

def pretended (who : Address) : Effect → Int
  | .event l => l.1.pretends who
  | _ => 0

/-- The part of a change that is not in what `netFor` adds up. -/
def unseen (who : Address) (e : Effect) : Asset → Int
  | .eth => e.etherIn who + e.wethMade who - e.pretended who
  | .token a => if a = WETH then e.wethMade who else 0

end Effect

/-- A transaction of which `netFor` sees all: what is made of WETH for the sender is taken back,
and so is the ether that calls bring, but for what other contracts' events pretend. -/
structure Plain (m : Mined) : Prop where
  readable : ∀ l, .event l ∈ m.effects → l.1.Readable m.tx.sender
  weth : (m.effects.map (Effect.wethMade m.tx.sender)).sum = 0
  ether : (if m.tx.recipient = some m.tx.sender then (m.value : Int) else 0) +
    (m.effects.map (Effect.etherIn m.tx.sender)).sum =
      (m.effects.map (Effect.pretended m.tx.sender)).sum

section Logs

variable {me : Address} {l : Log} (net : Tally Asset)

theorem addr_topicOf (a : Address) : addr (topicOf a) = a := by
  have hval : (topicOf a).val = a.val := rfl
  unfold addr
  rw [hval]
  exact Fin.ofNat_val_eq_self a

theorem word_amount (amount : Bytes32) : word ((packed 32 amount).take 32) = amount.val := by
  rw [List.take_of_length_le (Nat.le_of_eq length_packed), word_packed]
  exact Nat.mod_eq_of_lt amount.isLt

theorem packed_ne_nil (amount : Bytes32) : packed 32 amount ≠ [] := by
  intro h
  have hlen : (packed 32 amount).length = 32 := length_packed
  rw [h] at hlen
  cases hlen

/-- A move of a token, as its two ends see it. -/
theorem netLog_transfer (token src dst : Address) (amount : Bytes32) :
    ∃ net', netLog me net ⟨token, [TRANSFER, topicOf src, topicOf dst], packed 32 amount⟩ =
        .ok net' ∧
      ∀ asset, net'.amount asset = net.amount asset +
        if asset = .token token then Effect.share me dst amount - Effect.share me src amount
        else 0 := by
  have his : Log.Is ⟨token, [TRANSFER, topicOf src, topicOf dst], packed 32 amount⟩ TRANSFER 3 :=
    ⟨rfl, Nat.le_refl _⟩
  have hamount : Log.amount ⟨token, [TRANSFER, topicOf src, topicOf dst], packed 32 amount⟩ =
      amount.val := by
    unfold Log.amount
    rw [if_neg (packed_ne_nil amount), word_amount]
  unfold netLog
  rw [if_pos his]
  refine ⟨_, rfl, ?_⟩
  intro asset
  dsimp only
  rw [hamount]
  simp only [Log.topic, List.getD_cons_succ, List.getD_cons_zero, addr_topicOf]
  unfold Effect.share
  by_cases hdst : dst = me <;> by_cases hsrc : src = me <;>
    by_cases hasset : asset = Asset.token token <;>
    simp [hdst, hsrc, hasset, Tally.amount_add, eq_comm]

theorem bigInt_of_data (h : l.data ≠ []) : l.bigInt = .ok l.amount := by
  unfold Log.bigInt Log.amount
  rw [if_neg h, if_neg h]

/-- A log that is no `Transfer` adds what it says of WETH to ether. -/
theorem netLog_pretends (hno : ¬ l.Is TRANSFER 3) (hread : l.Readable me) :
    ∃ net', netLog me net l = .ok net' ∧
      ∀ asset, net'.amount asset =
        net.amount asset + if asset = .eth then l.pretends me else 0 := by
  unfold netLog Log.pretends
  rw [if_neg hno]
  by_cases hout : l.Is WITHDRAWAL 2 ∧ addr (l.topic 1) = me
  · rw [if_pos hout, bigInt_of_data (hread ⟨.inl hout.1, hout.2⟩)]
    refine ⟨_, rfl, fun asset => ?_⟩
    rw [if_pos hout, Tally.amount_add]
    simp only [eq_comm]
  · rw [if_neg hout]
    by_cases hin : l.Is DEPOSIT 2 ∧ addr (l.topic 1) = me
    · rw [if_pos hin, bigInt_of_data (hread ⟨.inr hin.1, hin.2⟩)]
      refine ⟨_, rfl, fun asset => ?_⟩
      rw [if_neg hout, if_pos hin, Tally.amount_add]
      simp only [eq_comm]
    · rw [if_neg hin]
      refine ⟨net, rfl, fun asset => ?_⟩
      rw [if_neg hout, if_neg hin, ite_self, Int.add_zero]

/-- A `Transfer` without an amount adds nothing. -/
theorem netLog_empty (his : l.Is TRANSFER 3) (hdata : l.data = []) :
    ∃ net', netLog me net l = .ok net' ∧ ∀ asset, net'.amount asset = net.amount asset := by
  have hamount : l.amount = 0 := if_pos hdata
  unfold netLog
  rw [if_pos his]
  refine ⟨_, rfl, fun asset => ?_⟩
  rw [hamount]
  split <;> split <;> simp [Tally.amount_add]

theorem not_is_of_head {event : Bytes32} {n k : Nat} {other : Bytes32} (h : l.Is event n)
    (hne : event ≠ other) : ¬ l.Is other k :=
  fun hother => hne (Option.some.inj (h.1.symm.trans hother.1))

/-- A log that names no amount where it should makes the explanation throw. -/
theorem netLog_unreadable (h : ¬ l.Readable me) :
    ∃ error, netLog me net l = .error error := by
  simp only [Log.Readable, Classical.not_imp, not_not] at h
  obtain ⟨⟨his, hme⟩, hdata⟩ := h
  have hthrows : l.bigInt = .error "Cannot convert 0x to a BigInt".toList := if_pos hdata
  have hno : ¬ l.Is TRANSFER 3 := by
    rcases his with his | his
    · exact not_is_of_head his (by decide)
    · exact not_is_of_head his (by decide)
  unfold netLog
  rw [if_neg hno]
  by_cases hout : l.Is WITHDRAWAL 2
  · rw [if_pos ⟨hout, hme⟩, hthrows]
    exact ⟨_, rfl⟩
  · rw [if_neg (fun h => hout h.1), if_pos ⟨his.resolve_left hout, hme⟩, hthrows]
    exact ⟨_, rfl⟩

theorem pretends_deposit (dst : Address) (amount : Bytes32) :
    Log.pretends me ⟨WETH, [DEPOSIT, topicOf dst], packed 32 amount⟩ =
      - Effect.share me dst amount := by
  have his : Log.Is ⟨WETH, [DEPOSIT, topicOf dst], packed 32 amount⟩ DEPOSIT 2 :=
    ⟨rfl, Nat.le_refl _⟩
  have hno : ¬ Log.Is ⟨WETH, [DEPOSIT, topicOf dst], packed 32 amount⟩ WITHDRAWAL 2 :=
    not_is_of_head his (by decide)
  have hamount : Log.amount ⟨WETH, [DEPOSIT, topicOf dst], packed 32 amount⟩ = amount.val := by
    unfold Log.amount
    rw [if_neg (packed_ne_nil amount), word_amount]
  have haddr : addr (Log.topic ⟨WETH, [DEPOSIT, topicOf dst], packed 32 amount⟩ 1) = dst :=
    addr_topicOf dst
  unfold Log.pretends Effect.share
  rw [if_neg (fun h => hno h.1), haddr, hamount]
  by_cases hme : dst = me
  · rw [if_pos ⟨his, hme⟩, if_pos hme]
  · rw [if_neg (fun h => hme h.2), if_neg hme]
    rfl

theorem pretends_withdrawal (src : Address) (amount : Bytes32) :
    Log.pretends me ⟨WETH, [WITHDRAWAL, topicOf src], packed 32 amount⟩ =
      Effect.share me src amount := by
  have his : Log.Is ⟨WETH, [WITHDRAWAL, topicOf src], packed 32 amount⟩ WITHDRAWAL 2 :=
    ⟨rfl, Nat.le_refl _⟩
  have hno : ¬ Log.Is ⟨WETH, [WITHDRAWAL, topicOf src], packed 32 amount⟩ DEPOSIT 2 :=
    not_is_of_head his (by decide)
  have hamount : Log.amount ⟨WETH, [WITHDRAWAL, topicOf src], packed 32 amount⟩ = amount.val := by
    unfold Log.amount
    rw [if_neg (packed_ne_nil amount), word_amount]
  have haddr : addr (Log.topic ⟨WETH, [WITHDRAWAL, topicOf src], packed 32 amount⟩ 1) = src :=
    addr_topicOf src
  unfold Log.pretends Effect.share
  rw [haddr, hamount]
  by_cases hme : src = me
  · rw [if_pos ⟨his, hme⟩, if_pos hme]
  · rw [if_neg (fun h => hme h.2), if_neg (fun h => hno h.1), if_neg hme]

theorem pretends_transfer (his : l.Is TRANSFER 3) : l.pretends me = 0 := by
  unfold Log.pretends
  rw [if_neg (fun h => not_is_of_head his (by decide) h.1),
    if_neg (fun h => not_is_of_head his (by decide) h.1)]

end Logs

section Effects

variable {me : Address} {e : Effect} {es : List Effect} (net : Tally Asset)

/-- The log of an effect can be read. -/
def Effect.Readable (who : Address) : Effect → Prop
  | .event l => l.1.Readable who
  | _ => True

/-- What a log adds, of each asset. -/
theorem netLog_effect {l : Log} (hl : e.log = some l) (hread : e.Readable me) :
    ∃ net', netLog me net l = .ok net' ∧
      ∀ asset, net'.amount asset = net.amount asset + (e.change me asset - e.unseen me asset) := by
  cases e with
  | ether src dst amount => cases hl
  | transfer token src dst amount =>
      cases hl
      obtain ⟨net', hnet, hadds⟩ := netLog_transfer net token src dst amount
      refine ⟨net', hnet, fun asset => ?_⟩
      rw [hadds]
      cases asset with
      | eth => simp [Effect.change, Effect.unseen, Effect.etherIn, Effect.wethMade,
          Effect.pretended]
      | token a => simp [Effect.change, Effect.unseen, Effect.wethMade]
  | deposit dst amount =>
      cases hl
      have hread : Log.Readable me ⟨WETH, [DEPOSIT, topicOf dst], packed 32 amount⟩ :=
        fun _ => packed_ne_nil amount
      have his : Log.Is ⟨WETH, [DEPOSIT, topicOf dst], packed 32 amount⟩ DEPOSIT 2 :=
        ⟨rfl, Nat.le_refl _⟩
      have hno : ¬ Log.Is ⟨WETH, [DEPOSIT, topicOf dst], packed 32 amount⟩ TRANSFER 3 :=
        not_is_of_head his (by decide)
      obtain ⟨net', hnet, hadds⟩ := netLog_pretends net hno hread
      refine ⟨net', hnet, fun asset => ?_⟩
      rw [hadds, pretends_deposit]
      cases asset with
      | eth => simp [Effect.change, Effect.unseen, Effect.etherIn, Effect.wethMade,
          Effect.pretended]
      | token a => simp [Effect.change, Effect.unseen, Effect.wethMade]
  | withdrawal src amount =>
      cases hl
      have hread : Log.Readable me ⟨WETH, [WITHDRAWAL, topicOf src], packed 32 amount⟩ :=
        fun _ => packed_ne_nil amount
      have his : Log.Is ⟨WETH, [WITHDRAWAL, topicOf src], packed 32 amount⟩ WITHDRAWAL 2 :=
        ⟨rfl, Nat.le_refl _⟩
      have hno : ¬ Log.Is ⟨WETH, [WITHDRAWAL, topicOf src], packed 32 amount⟩ TRANSFER 3 :=
        not_is_of_head his (by decide)
      obtain ⟨net', hnet, hadds⟩ := netLog_pretends net hno hread
      refine ⟨net', hnet, fun asset => ?_⟩
      rw [hadds, pretends_withdrawal]
      cases asset with
      | eth => simp [Effect.change, Effect.unseen, Effect.etherIn, Effect.wethMade,
          Effect.pretended]
      | token a => simp [Effect.change, Effect.unseen, Effect.wethMade]
  | event log =>
      cases hl
      have hsays : ∃ net', netLog me net log.1 = .ok net' ∧ ∀ asset, net'.amount asset =
          net.amount asset + if asset = .eth then log.1.pretends me else 0 := by
        by_cases his : log.1.Is TRANSFER 3
        · obtain ⟨net', hnet, hsame⟩ := netLog_empty net his (log.2.1 his)
          refine ⟨net', hnet, fun asset => ?_⟩
          rw [hsame, pretends_transfer his, ite_self, Int.add_zero]
        · exact netLog_pretends net his hread
      obtain ⟨net', hnet, hadds⟩ := hsays
      refine ⟨net', hnet, fun asset => ?_⟩
      rw [hadds]
      cases asset with
      | eth => simp [Effect.change, Effect.unseen, Effect.etherIn, Effect.wethMade,
          Effect.pretended]
      | token a => simp [Effect.change, Effect.unseen, Effect.wethMade]

/-- Ether that a call takes along leaves no log. -/
theorem unseen_of_no_log (me : Address) (h : e.log = none) (asset : Asset) :
    e.change me asset = e.unseen me asset := by
  cases e with
  | ether src dst amount =>
      cases asset with
      | eth => simp [Effect.change, Effect.unseen, Effect.etherIn, Effect.wethMade,
          Effect.pretended]
      | token a => simp [Effect.change, Effect.unseen, Effect.wethMade]
  | transfer token src dst amount => cases h
  | deposit dst amount => cases h
  | withdrawal src amount => cases h
  | event log => cases h

/-- The logs of a list of effects, all of which can be read. -/
theorem netLogs_effects (hread : ∀ e ∈ es, e.Readable me) :
    ∃ net', (es.filterMap Effect.log).foldlM (netLog me) net = .ok net' ∧
      ∀ asset, net'.amount asset + (es.map fun e => e.unseen me asset).sum =
        net.amount asset + (es.map fun e => e.change me asset).sum := by
  induction es generalizing net with
  | nil => exact ⟨net, rfl, fun _ => rfl⟩
  | cons e es ih =>
      obtain ⟨hfirst, hrest⟩ := List.forall_mem_cons.mp hread
      cases hl : e.log with
      | none =>
          obtain ⟨net', hnet, hadds⟩ := ih net hrest
          rw [List.filterMap_cons_none hl]
          refine ⟨net', hnet, fun asset => ?_⟩
          have hsame := unseen_of_no_log me hl asset
          have hrest := hadds asset
          rw [List.map_cons, List.sum_cons, List.map_cons, List.sum_cons]
          omega
      | some l =>
          obtain ⟨net₁, hnet₁, hadds₁⟩ := netLog_effect net hl hfirst
          obtain ⟨net', hnet, hadds⟩ := ih net₁ hrest
          rw [List.filterMap_cons_some hl, List.foldlM_cons, hnet₁]
          refine ⟨net', hnet, fun asset => ?_⟩
          have hsame := hadds₁ asset
          have hrest := hadds asset
          rw [List.map_cons, List.sum_cons, List.map_cons, List.sum_cons]
          omega

/-- One of them cannot be read. -/
theorem netLogs_unreadable (h : ∃ e ∈ es, ¬ e.Readable me) :
    ∀ net', (es.filterMap Effect.log).foldlM (netLog me) net ≠ .ok net' := by
  induction es generalizing net with
  | nil =>
      obtain ⟨e, he, -⟩ := h
      cases he
  | cons e es ih =>
      intro net' hok
      by_cases hfirst : e.Readable me
      · have hrest : ∃ e ∈ es, ¬ e.Readable me := by
          obtain ⟨e', he', hnot⟩ := h
          rcases List.mem_cons.mp he' with rfl | hmem
          · exact absurd hfirst hnot
          · exact ⟨e', hmem, hnot⟩
        cases hl : e.log with
        | none =>
            rw [List.filterMap_cons_none hl] at hok
            exact ih _ hrest net' hok
        | some l =>
            rw [List.filterMap_cons_some hl, List.foldlM_cons] at hok
            cases hnet : netLog me net l with
            | error error =>
                rw [hnet] at hok
                cases hok
            | ok net₁ =>
                rw [hnet] at hok
                exact ih _ hrest net' hok
      · cases e with
        | event log =>
            obtain ⟨error, herror⟩ := netLog_unreadable net hfirst
            have hl : (Effect.event log).log = some log.1 := rfl
            rw [List.filterMap_cons_some hl, List.foldlM_cons, herror] at hok
            cases hok
        | ether => exact absurd trivial hfirst
        | transfer => exact absurd trivial hfirst
        | deposit => exact absurd trivial hfirst
        | withdrawal => exact absurd trivial hfirst

end Effects

/-! ### What is reported -/

section Reported

variable {d : Display} {tx : Tx} {rc : Receipt} {hash : Text}

/-- The movements of a tally whose amounts pass a test. -/
def movesWhere (d : Display) (net : Tally Asset) (p : Int → Bool) : List Movement :=
  ((net.entries.filter fun e => e.2 ≠ 0).map (movement d)).filter fun m => p m.raw

theorem total_map (d : Display) (es : List (Asset × Int)) (asset : Asset) :
    total (es.map (movement d)) asset = Tally.sumAt asset es := by
  unfold total Tally.sumAt
  rw [List.filter_map, List.map_map]
  rfl

theorem total_movesWhere (net : Tally Asset) (p : Int → Bool) (asset : Asset) :
    total (movesWhere d net p) asset =
      if net.amount asset ≠ 0 ∧ p (net.amount asset) then net.amount asset else 0 := by
  have hsum := net.sum_where (p := fun v => decide (v ≠ 0) && p v) rfl asset
  unfold movesWhere
  rw [List.filter_map, total_map, List.filter_filter]
  simp only [Bool.and_eq_true, decide_eq_true_eq] at hsum
  rw [← hsum]
  congr 2
  funext e
  rw [Bool.and_comm]
  rfl

theorem total_paid (net : Tally Asset) (asset : Asset) :
    total (movesWhere d net fun v => v < 0) asset = min (net.amount asset) 0 := by
  rw [total_movesWhere]
  split
  next h =>
    have hneg := of_decide_eq_true h.2
    omega
  next h =>
    simp only [decide_eq_true_eq, not_and] at h
    omega

theorem total_received (net : Tally Asset) (asset : Asset) :
    total (movesWhere d net fun v => ¬ v < 0) asset = max (net.amount asset) 0 := by
  rw [total_movesWhere]
  split
  next h =>
    have hpos := of_decide_eq_true h.2
    omega
  next h =>
    simp only [decide_eq_true_eq, not_and] at h
    omega

theorem explain_ok {net : Tally Asset} (d : Display) (hhash : isHash hash)
    (hnet : netFor tx.sender (rc.logs.getD []) (tx.value.getD 0) = .ok net) :
    ∃ e, explain d (some tx) (some rc) hash = .ok e ∧ e.success = decide (rc.status = 1) ∧
      e.youPaid = movesWhere d net (fun v => v < 0) ∧
      e.youReceived = movesWhere d net (fun v => ¬ v < 0) := by
  unfold explain
  rw [if_neg (not_not.mpr hhash)]
  dsimp only
  rw [hnet]
  exact ⟨_, rfl, rfl, rfl, rfl⟩

theorem explain_error (hhash : isHash hash)
    (hnet : ∀ net, netFor tx.sender (rc.logs.getD []) (tx.value.getD 0) ≠ .ok net) :
    ∀ e, explain d (some tx) (some rc) hash ≠ .ok e := by
  intro e hok
  unfold explain at hok
  rw [if_neg (not_not.mpr hhash)] at hok
  dsimp only at hok
  cases h : netFor tx.sender (rc.logs.getD []) (tx.value.getD 0) with
  | error error =>
      rw [h] at hok
      cases hok
  | ok net => exact hnet net h

end Reported

section Truth

variable {d : Display} {m : Mined}

/-- What is not seen of a transaction that succeeds. -/
def Mined.unseen (m : Mined) (asset : Asset) : Int :=
  (if asset = .eth then
    (if m.tx.recipient = some m.tx.sender then (m.value : Int) else 0) else 0) +
  (m.effects.map fun e => e.unseen m.tx.sender asset).sum

theorem sum_unseen_eth (who : Address) (es : List Effect) :
    (es.map fun e => e.unseen who .eth).sum = (es.map (Effect.etherIn who)).sum +
      (es.map (Effect.wethMade who)).sum - (es.map (Effect.pretended who)).sum := by
  induction es with
  | nil => rfl
  | cons e es ih =>
      simp only [List.map_cons, List.sum_cons]
      rw [ih]
      show e.etherIn who + e.wethMade who - e.pretended who + _ = _
      omega

theorem sum_unseen_token (who a : Address) (es : List Effect) :
    (es.map fun e => e.unseen who (.token a)).sum =
      if a = WETH then (es.map (Effect.wethMade who)).sum else 0 := by
  induction es with
  | nil => simp
  | cons e es ih =>
      simp only [List.map_cons, List.sum_cons]
      rw [ih]
      show (if a = WETH then e.wethMade who else 0) + _ = _
      split
      · rfl
      · rfl

theorem plain_iff_unseen :
    Plain m ↔ (∀ e ∈ m.effects, e.Readable m.tx.sender) ∧ ∀ asset, m.unseen asset = 0 := by
  constructor
  · rintro ⟨hread, hweth, hether⟩
    refine ⟨?_, ?_⟩
    · intro e he
      cases e with
      | event l => exact hread l he
      | ether => exact trivial
      | transfer => exact trivial
      | deposit => exact trivial
      | withdrawal => exact trivial
    · intro asset
      cases asset with
      | eth =>
          unfold Mined.unseen
          rw [if_pos rfl, sum_unseen_eth]
          omega
      | token a =>
          unfold Mined.unseen
          rw [if_neg (by simp), sum_unseen_token, hweth, ite_self]
          rfl
  · rintro ⟨hread, hunseen⟩
    have hweth := hunseen (.token WETH)
    have hether := hunseen .eth
    unfold Mined.unseen at hweth hether
    rw [if_neg (by simp), sum_unseen_token, if_pos rfl, Int.zero_add] at hweth
    rw [if_pos rfl, sum_unseen_eth] at hether
    exact ⟨fun l hl => hread _ hl, hweth, by omega⟩

/-- The value that a transaction takes along, as `netFor` begins. -/
theorem amount_start (n : Nat) (asset : Asset) :
    (if 0 < n then Tally.empty.add Asset.eth (-n) else Tally.empty).amount asset =
      if asset = .eth then - (n : Int) else 0 := by
  split
  next hpos =>
    rw [Tally.amount_add, Tally.amount_empty, Int.zero_add]
    simp only [eq_comm]
  next hzero =>
    have hn : n = 0 := by omega
    rw [hn]
    simp

/-- A transaction that succeeds is told with what is seen of it. -/
theorem netFor_success (hok : m.reverted = false)
    (hread : ∀ e ∈ m.effects, e.Readable m.tx.sender) :
    ∃ net, netFor m.tx.sender (m.receipt.logs.getD []) (m.tx.value.getD 0) = .ok net ∧
      ∀ asset, net.amount asset + m.unseen asset = m.change asset := by
  obtain ⟨net, hnet, hadds⟩ := netLogs_effects
    (if 0 < m.value then Tally.empty.add .eth (-m.value) else Tally.empty) hread
  refine ⟨net, ?_, fun asset => ?_⟩
  · unfold netFor Mined.receipt
    rw [hok]
    exact hnet
  · have hsum := hadds asset
    rw [amount_start] at hsum
    have hchange : m.change asset = (if asset = .eth then
        (if m.tx.recipient = some m.tx.sender then 0 else - (m.value : Int)) else 0) +
        (m.effects.map fun e => e.change m.tx.sender asset).sum := if_neg (by rw [hok]; decide)
    rw [hchange]
    unfold Mined.unseen
    by_cases heth : asset = .eth
    · rw [if_pos heth] at hsum
      rw [if_pos heth, if_pos heth]
      split <;> omega
    · rw [if_neg heth] at hsum
      rw [if_neg heth, if_neg heth]
      omega

/-- The value of a transaction that reverts is all there is to tell of it. -/
theorem netFor_reverted (hrev : m.reverted = true) :
    ∃ net, netFor m.tx.sender (m.receipt.logs.getD []) (m.tx.value.getD 0) = .ok net ∧
      ∀ asset, net.amount asset = if asset = .eth then - (m.value : Int) else 0 := by
  refine ⟨_, ?_, amount_start m.value⟩
  unfold netFor Mined.receipt
  rw [hrev]
  rfl

theorem movesWhere_eq_nil {net : Tally Asset} {p : Int → Bool}
    (h : ∀ asset, net.amount asset = 0) : movesWhere d net p = [] := by
  have hnone : (net.entries.filter fun e => e.2 ≠ 0) = [] := by
    rw [List.filter_eq_nil_iff]
    intro e he
    rw [← net.amount_of_mem he, h]
    decide
  unfold movesWhere
  rw [hnone]
  rfl

theorem truthful_reverted (hrev : m.reverted = true) : Truthful d m ↔ m.value = 0 := by
  obtain ⟨net, hnet, hamount⟩ := netFor_reverted hrev
  obtain ⟨e, he, hstatus, hpaid, hgot⟩ := explain_ok d m.hash_ok hnet
  constructor
  · rintro ⟨e', he', -, -, htotal, -⟩
    cases he.symm.trans he'
    have heth := htotal .eth
    have hchange : m.change .eth = 0 := if_pos hrev
    rw [hpaid, total_paid, hamount, if_pos rfl, hchange] at heth
    omega
  · intro hzero
    have hnone : ∀ asset, net.amount asset = 0 := by
      intro asset
      rw [hamount, hzero]
      split <;> rfl
    have hchange : ∀ asset, m.change asset = 0 := fun _ => if_pos hrev
    refine ⟨e, he, ?_, ?_, ?_, fun _ => ?_⟩
    · rw [hstatus]
      unfold Mined.receipt
      rw [hrev]
      rfl
    · intro asset
      rw [hgot, total_received, hnone, hchange]
    · intro asset
      rw [hpaid, total_paid, hnone, hchange]
    · rw [hpaid, hgot]
      exact ⟨movesWhere_eq_nil hnone, movesWhere_eq_nil hnone⟩

theorem truthful_success (hok : m.reverted = false) :
    Truthful d m ↔ (∀ e ∈ m.effects, e.Readable m.tx.sender) ∧ ∀ asset, m.unseen asset = 0 := by
  by_cases hread : ∀ e ∈ m.effects, e.Readable m.tx.sender
  · obtain ⟨net, hnet, hamount⟩ := netFor_success hok hread
    obtain ⟨e, he, hstatus, hpaid, hgot⟩ := explain_ok d m.hash_ok hnet
    constructor
    · rintro ⟨e', he', -, hreceived, htotal, -⟩
      cases he.symm.trans he'
      refine ⟨hread, fun asset => ?_⟩
      have hin := hreceived asset
      have hout := htotal asset
      have hsum := hamount asset
      rw [hgot, total_received] at hin
      rw [hpaid, total_paid] at hout
      omega
    · rintro ⟨-, hunseen⟩
      have hsame : ∀ asset, net.amount asset = m.change asset := by
        intro asset
        have hsum := hamount asset
        rw [hunseen asset] at hsum
        omega
      refine ⟨e, he, ?_, ?_, ?_, fun hrev => ?_⟩
      · rw [hstatus]
        unfold Mined.receipt
        rw [hok]
        rfl
      · intro asset
        rw [hgot, total_received, hsame]
      · intro asset
        rw [hpaid, total_paid, hsame]
      · rw [hok] at hrev
        cases hrev
  · constructor
    · rintro ⟨e, he, -⟩
      have hbad : ∃ e ∈ m.effects, ¬ e.Readable m.tx.sender := by
        simpa only [not_forall, exists_prop] using hread
      have hthrows : ∀ net,
          netFor m.tx.sender (m.receipt.logs.getD []) (m.tx.value.getD 0) ≠ .ok net := by
        intro net
        unfold netFor Mined.receipt
        rw [hok]
        exact netLogs_unreadable _ hbad net
      exact absurd he (explain_error m.hash_ok hthrows e)
    · rintro ⟨h, -⟩
      exact absurd h hread

/-- **What is explained is what happened**, of a transaction that reverts if and only if it takes
no value along, and of any other if and only if it is plain. -/
theorem truthful_iff (d : Display) (m : Mined) :
    Truthful d m ↔ if m.reverted then m.value = 0 else Plain m := by
  cases hrev : m.reverted with
  | true =>
      rw [if_pos rfl]
      exact truthful_reverted hrev
  | false =>
      rw [if_neg (by decide), truthful_success hrev, plain_iff_unseen]

end Truth

section Sample

def plainDisplay : Display where
  info a := ⟨addressText a, 18⟩
  fmt v _ := Nat.toDigits 10 v.natAbs
  formatUnits v _ := Nat.toDigits 10 v

/-- A hash of zeros. -/
def zeroHash : Text := '0' :: 'x' :: List.replicate 64 '0'

theorem isHash_zeroHash : isHash zeroHash := by
  refine ⟨rfl, rfl, ?_⟩
  intro c hc
  rw [List.eq_of_mem_replicate (n := 64) hc]
  rfl

/-- The sender wraps ether: five leave, and five of WETH come. -/
def wrapping : Mined where
  hash := zeroHash
  tx := { sender := 7, recipient := some WETH, value := some 5, gasPrice := none }
  reverted := false
  effects := [.deposit 7 5]
  gasUsed := 0
  gasPrice := 0
  block := 0
  hash_ok := isHash_zeroHash

/-- It is told that ten of ether left, and that no WETH came. -/
theorem wrapping_not_truthful : ¬ Truthful plainDisplay wrapping := by
  intro h
  obtain ⟨-, hunseen⟩ := (truthful_success rfl).mp h
  have hweth := hunseen (.token WETH)
  revert hweth
  decide +kernel

end Sample

end Explain

end Ordo
