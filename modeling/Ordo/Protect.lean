import Ordo.Delivery
import Ordo.FastPath

/-!
# Protected sends

Before a signed transaction is sent it is read, its approval is looked at, and it is
simulated.  It is refused when it grants an unlimited allowance to an address without
code, when it would revert, and when it would pay an address that nobody controls.

What the upstream answers while one request is served is a function of the question.
Reading a raw transaction, with its sender, is the wallet library's work, and so is
wording a revert: both are parameters.  `refusal_none_iff` says when nothing is refused.
-/

namespace Ordo

structure RpcError where
  code : Int
  message : String
  data : Option Json := none
  deriving DecidableEq

namespace Protect

/-! ### Approvals -/

/-- approve(address,uint256) -/
def APPROVE : Text := "0x095ea7b3".toList

/-- increaseAllowance(address,uint256) -/
def INCREASE_ALLOWANCE : Text := "0x39509351".toList

/-- setApprovalForAll(address,bool) -/
def SET_APPROVAL_FOR_ALL : Text := "0xa22cb465".toList

def ZERO : Text := '0' :: 'x' :: List.replicate 40 '0'

/-- Past half the word the exact number stopped mattering. -/
def UNLIMITED : Nat := 2 ^ 255

inductive GrantKind where
  | approve
  | increaseAllowance
  | setApprovalForAll
  deriving DecidableEq

def GrantKind.name : GrantKind → String
  | .approve => "approve"
  | .increaseAllowance => "increaseAllowance"
  | .setApprovalForAll => "setApprovalForAll"

structure ApprovalGrant where
  kind : GrantKind
  spender : Text
  amount : Nat
  unlimited : Bool
  deriving DecidableEq

def lower (t : Text) : Text := t.map Char.toLower

def word (data : Text) (i : Nat) : Text := (data.drop (10 + i * 64)).take 64

/-- Reads an approval out of calldata: two words after the selector, and nothing more. -/
def decodeApproval (data : Option Text) : Option ApprovalGrant :=
  match data with
  | none => none
  | some data =>
      if data.length ≠ 138 then none
      else
        let selector := lower (data.take 10)
        let address := lower ((word data 0).drop 24)
        let raw := word data 1
        if ¬ Hex.IsHex address ∨ ¬ Hex.IsHex raw then none
        else
          let spender := '0' :: 'x' :: address
          let amount := Hex.value raw
          if selector = SET_APPROVAL_FOR_ALL then
            -- revoking is always safe
            if amount = 0 then none
            else some ⟨.setApprovalForAll, spender, UNLIMITED, true⟩
          else if selector = APPROVE then
            some ⟨.approve, spender, amount, UNLIMITED ≤ amount⟩
          else if selector = INCREASE_ALLOWANCE then
            some ⟨.increaseAllowance, spender, amount, UNLIMITED ≤ amount⟩
          else none

structure ApprovalVerdict where
  grant : ApprovalGrant
  reason : String
  deriving DecidableEq

/-! ### What a check works with -/

/-- What a raw transaction says, and who signed it. -/
structure Parsed where
  dst : Option String
  data : Option String
  value : Option Nat
  sender : String
  deriving DecidableEq

/-- Where the gateway's checks read from during one request. -/
structure Provider where
  /-- Reads a signed transaction and recovers its sender. -/
  parse : String → Except RpcError Parsed
  rpc : String → List Json → Except RpcError Json
  simulate : Delivery.SimParams → Delivery.Answer
  walletMessage : String → Option Json → String

/-- Checks that a caller may waive. -/
structure SafetyOptions where
  allowUnlimitedApproval : Bool := false
  deriving DecidableEq

structure SimResult where
  ok : Bool
  returnData : Option Json := none
  revertReason : Option String := none
  sender : String
  dst : Option String

section Checks

variable (g : Provider)

/-- The first parameter of a send, when there is one. -/
def parseRaw (rawTx : Option Json) : Except RpcError Parsed :=
  match rawTx with
  | some (.str raw) =>
      if raw.startsWith "0x" then g.parse raw
      else .error ⟨-32602, "expected raw signed tx hex", none⟩
  | none => .error ⟨-32602, "expected raw signed tx hex", none⟩
  | some .null => .error ⟨-32602, "expected raw signed tx hex", none⟩
  | some _ => .error ⟨-32000, "rawTx?.startsWith is not a function", none⟩

/-- Whether the address has code; a lookup that fails does not refuse. -/
def hasCodeOrUnknown (spender : Text) : Bool :=
  match g.rpc "eth_getCode" [.str (String.ofList spender), .str "latest"] with
  | .error _ => true
  | .ok code => code.isTruthy && code ≠ .str "0x"

def checkApproval (tx : Parsed) : Option ApprovalVerdict :=
  match decodeApproval (tx.data.map String.toList) with
  | none => none
  | some grant =>
      if ¬ grant.unlimited then none
      -- granting to yourself gives away nothing
      else if grant.spender = lower tx.sender.toList then none
      else if grant.spender = ZERO then
        some ⟨grant, "the spender is the zero address, which cannot hold or spend anything"⟩
      else if hasCodeOrUnknown g grant.spender then none
      else
        let who := String.ofList grant.spender
        some ⟨grant,
          if grant.kind = .setApprovalForAll then
            "it would let " ++ who ++ " — a plain wallet, not a contract — transfer every one " ++
              "of your NFTs in this collection, at any time"
          else
            "it would let " ++ who ++ " — a plain wallet, not a contract — take your entire " ++
              "balance of this token, at any time"⟩

/-- The call that is simulated.  The sender's gas limit is not forwarded. -/
def callOf (tx : Parsed) : Json :=
  .obj (("from", .str tx.sender) :: (tx.dst.toList.map fun d => ("to", .str d)) ++
    (tx.data.toList.map fun d => ("data", .str d)) ++
    (tx.value.toList.map fun v => ("value", .str (FastPath.quantity v))))

/-- `eth_call` from the recovered sender. -/
def simulateParsed (tx : Parsed) : SimResult :=
  match g.rpc "eth_call" [callOf tx, .str "latest"] with
  | .ok returnData =>
      { ok := true, returnData := some returnData, sender := tx.sender, dst := tx.dst }
  | .error e => { ok := false, revertReason := some e.message, sender := tx.sender, dst := tx.dst }

def simulateRaw (rawTx : Option Json) : Except RpcError SimResult :=
  (parseRaw g rawTx).map (simulateParsed g)

def deliveryRequest (tx : Parsed) (dst : String) : Delivery.DeliveryRequest where
  sender := tx.sender
  dst := dst
  data := tx.data.getD "0x"
  value := some (tx.value.getD 0)
  approval := none
  expect := []
  pay := []
  mustNotRetain := []
  allowLeaks := []

/-- Where the transaction's money goes; `none` when the upstream cannot tell. -/
def burnCheck (tx : Parsed) : Option Delivery.DeliveryProof :=
  match tx.dst with
  -- contract creation: nothing to misdirect
  | none => none
  | some dst =>
      match Delivery.proveDelivery (deliveryRequest tx dst) fun p => [g.simulate p] with
      | .error _ => none
      | .ok proof => if proof.unavailable then none else some proof

/-- Why a transaction is not sent. -/
inductive Refusal where
  | approval (v : ApprovalVerdict)
  | reverts (reason : String) (data : Option Json)
  | leaks (proof : Delivery.DeliveryProof)

def Refusal.isRevert : Refusal → Bool
  | .reverts _ _ => true
  | _ => false

def protectedData (fields : List (String × Json)) : Option Json :=
  some (.obj (("ordoProtected", .bool true) :: fields))

def leakJson (l : Delivery.Leak) : Json :=
  .obj [("to", .str l.dst), ("asset", .str l.asset), ("amount", .str (toString l.amount))]

/-- The refusal as the caller gets it. -/
def Refusal.error (token : Option String) : Refusal → RpcError
  | .approval v =>
      ⟨-32000, "ordo: transaction would grant an unlimited token allowance to a wallet, not " ++
          "submitted — " ++ v.reason ++ ". This is how approval drains work: nothing moves now, " ++
          "and the allowance is spent later. If you meant to do this (an address that is not " ++
          "deployed yet, for instance), resend with ordo_sendRawTransaction and " ++
          "\x7b \"allowUnlimitedApproval\": true \x7d.",
        protectedData [("check", .str "unlimitedApproval"),
          ("token", (token.map Json.str).getD .null),
          ("spender", .str (String.ofList v.grant.spender)), ("kind", .str v.grant.kind.name),
          ("spenderHasCode", .bool false)]⟩
  | .reverts reason data =>
      ⟨-32000, "ordo: transaction would revert, not submitted: " ++ reason,
        protectedData (data.toList.map fun d => ("data", d))⟩
  | .leaks proof =>
      ⟨-32000, "ordo: transaction would send funds to an address nobody controls, not " ++
          "submitted: " ++ proof.reason.getD "undefined",
        protectedData [("leaks", .arr (proof.leaks.map leakJson)),
          ("hint", .str ("a recipient in the calldata is a precompile or the zero/dead address; " ++
            "SwapRouter02 sentinels (address(1)/address(2)) are only resolved inside swap " ++
            "functions, never by unwrapWETH9/sweepToken/refundETH"))]⟩

/-- `/^0x[0-9a-fA-F]{8,}$/` -/
def isRevertData (t : Text) : Bool :=
  match t with
  | '0' :: 'x' :: ds => 8 ≤ ds.length && Hex.IsHex ds
  | _ => false

/-- The first check that the transaction does not pass. -/
def refusal (tx : Parsed) (opts : SafetyOptions) : Option Refusal :=
  match if opts.allowUnlimitedApproval then none else checkApproval g tx with
  | some verdict => some (.approval verdict)
  | none =>
      match burnCheck g tx with
      | none =>
          let sim := simulateParsed g tx
          if sim.ok then none else some (.reverts (sim.revertReason.getD "undefined") none)
      | some burn =>
          match burn.reverted with
          | some why =>
              some (.reverts (g.walletMessage why (some (.str why)))
                (if isRevertData why.toList then some (.str why) else none))
          | none => if burn.leaks = [] then none else some (.leaks burn)

/-- Every check, and no send. -/
def assertSafe (rawTx : Option Json) (opts : SafetyOptions) : Except RpcError Unit :=
  match parseRaw g rawTx with
  | .error e => .error e
  | .ok tx =>
      match refusal g tx opts with
      | some r => .error (r.error tx.dst)
      | none => .ok ()

/-! ### What is refused -/

variable {g}

theorem assertSafe_eq_ok {rawTx : Option Json} {opts : SafetyOptions} :
    assertSafe g rawTx opts = .ok () ↔
      ∃ tx, parseRaw g rawTx = .ok tx ∧ refusal g tx opts = none := by
  unfold assertSafe
  constructor
  · intro h
    split at h
    · cases h
    · next tx htx =>
        split at h
        · cases h
        · next hnone => exact ⟨tx, htx, hnone⟩
  · rintro ⟨tx, htx, hnone⟩
    rw [htx]
    dsimp only
    rw [hnone]

/-- What the delivery proof, or `eth_call` in its place, says against a transaction. -/
def Delivers (g : Provider) (tx : Parsed) : Prop :=
  match burnCheck g tx with
  | none => (simulateParsed g tx).ok = true
  | some burn => burn.reverted = none ∧ burn.leaks = []

/-- Nothing is refused when the approval is in order, or waived, and the money arrives. -/
theorem refusal_none_iff {tx : Parsed} {opts : SafetyOptions} :
    refusal g tx opts = none ↔
      (opts.allowUnlimitedApproval = true ∨ checkApproval g tx = none) ∧ Delivers g tx := by
  have happroval : (if opts.allowUnlimitedApproval then none else checkApproval g tx) = none ↔
      opts.allowUnlimitedApproval = true ∨ checkApproval g tx = none := by
    split
    · next hwaived => simp [hwaived]
    · next hwaived => simp [hwaived]
  rw [← happroval]
  unfold refusal Delivers
  cases (if opts.allowUnlimitedApproval then none else checkApproval g tx) with
  | some verdict => simp
  | none =>
      cases burnCheck g tx with
      | none => simp
      | some burn =>
          cases hrev : burn.reverted with
          | some why => simp [hrev]
          | none => simp [hrev]

end Checks

end Protect

end Ordo
