import Ordo.Protect

/-!
# Approvals, as a token reads them

A token takes the function from the first four bytes of its calldata and the arguments
from the two words after them, and it ignores whatever follows.  `decodeApproval` reads
the text of the same calldata; a call with more bytes than that it does not look at.

* `decodeApproval_calldata` — on two words and nothing more, both read the same grant;
* `approval_refused_iff` — what `assertSafe` refuses is what such a calldata grants, of an
  unlimited allowance to somebody else's address without code.
-/

namespace Ordo

namespace Approvals

open Protect Hex

/-- The text of bytes, as the wallet library writes it. -/
def hexText (bs : Bytes) : Text := '0' :: 'x' :: digitsOf bs

/-! ### The token -/

/-- The function that a selector names, of those that grant an allowance. -/
def functionOf (selector : Bytes) : Option GrantKind :=
  if selector = [0x09, 0x5e, 0xa7, 0xb3] then some .approve
  else if selector = [0x39, 0x50, 0x93, 0x51] then some .increaseAllowance
  else if selector = [0xa2, 0x2c, 0xb4, 0x65] then some .setApprovalForAll
  else none

/-- An argument: a word of 32 bytes. -/
def argument (calldata : Bytes) (i : Nat) : Bytes := (calldata.drop (4 + 32 * i)).take 32

/-- A grant, with the twenty bytes of its spender and its second argument. -/
structure TokenGrant where
  kind : GrantKind
  spender : Bytes
  amount : Nat
  deriving DecidableEq

/-- What a token executes.  Of an address's word it takes the last twenty bytes. -/
def executes (calldata : Bytes) : Option TokenGrant :=
  if calldata.length < 68 then none
  else
    (functionOf (calldata.take 4)).map fun kind =>
      ⟨kind, (argument calldata 0).drop 12, Ordo.word (argument calldata 1)⟩

/-- Half the word or more, or every token. -/
def TokenGrant.IsUnlimited (grant : TokenGrant) : Prop :=
  match grant.kind with
  | .setApprovalForAll => grant.amount ≠ 0
  | _ => UNLIMITED ≤ grant.amount

instance (grant : TokenGrant) : Decidable grant.IsUnlimited := by
  unfold TokenGrant.IsUnlimited
  split <;> infer_instance

/-- The grant in the words of `decodeApproval`, which drops a revocation. -/
def TokenGrant.approval (grant : TokenGrant) : Option ApprovalGrant :=
  match grant.kind with
  | .setApprovalForAll =>
      if grant.amount = 0 then none
      else some ⟨.setApprovalForAll, hexText grant.spender, UNLIMITED, true⟩
  | kind => some ⟨kind, hexText grant.spender, grant.amount, UNLIMITED ≤ grant.amount⟩

/-! ### Texts of bytes -/

theorem lower_byte : ∀ n < 256, lower (padStart 2 (numeral n)) = padStart 2 (numeral n) := by
  decide +kernel

theorem length_byte : ∀ n < 256, (padStart 2 (numeral n)).length = 2 := by
  decide +kernel

theorem digitsOf_cons (b : UInt8) (bs : Bytes) :
    digitsOf (b :: bs) = padStart 2 (numeral b.toNat) ++ digitsOf bs := rfl

/-- Bytes are written in lower case. -/
theorem lower_digitsOf (bs : Bytes) : lower (digitsOf bs) = digitsOf bs := by
  induction bs with
  | nil => rfl
  | cons b bs ih =>
      have hb := lower_byte b.toNat b.toNat_lt
      unfold lower at ih hb ⊢
      rw [digitsOf_cons, List.map_append, hb, ih]

theorem take_digitsOf (bs : Bytes) (k : Nat) :
    (digitsOf bs).take (2 * k) = digitsOf (bs.take k) := by
  induction bs generalizing k with
  | nil => simp [digitsOf]
  | cons b bs ih =>
      cases k with
      | zero => rfl
      | succ k =>
          have hb := length_byte b.toNat b.toNat_lt
          rw [List.take_succ_cons, digitsOf_cons, digitsOf_cons, List.take_append, hb, ← ih,
            List.take_of_length_le (by omega)]
          rfl

theorem drop_digitsOf (bs : Bytes) (k : Nat) :
    (digitsOf bs).drop (2 * k) = digitsOf (bs.drop k) := by
  induction bs generalizing k with
  | nil => simp [digitsOf]
  | cons b bs ih =>
      cases k with
      | zero => rfl
      | succ k =>
          have hb := length_byte b.toNat b.toNat_lt
          rw [List.drop_succ_cons, digitsOf_cons, List.drop_append, hb, ← ih,
            List.drop_of_length_le (by omega)]
          rfl

theorem digitsOf_inj {as bs : Bytes} : digitsOf as = digitsOf bs ↔ as = bs := by
  refine ⟨fun h => ?_, fun h => by rw [h]⟩
  rw [← bytesOf_digitsOf as, h, bytesOf_digitsOf]

theorem hexText_inj {as bs : Bytes} : hexText as = hexText bs ↔ as = bs := by
  simp [hexText, digitsOf_inj]

theorem value_digitsOf (bs : Bytes) : value (digitsOf bs) = Ordo.word bs := by
  rw [← word_bytesOf (by simp), bytesOf_digitsOf]

/-! ### The reader of approvals -/

section Reader

variable {calldata : Bytes}

theorem selector_hexText : lower ((hexText calldata).take 10) = hexText (calldata.take 4) := by
  have htake : (hexText calldata).take 10 = hexText (calldata.take 4) := by
    have h := take_digitsOf calldata 4
    simp only [hexText, List.take_succ_cons, ← h]
  rw [htake]
  have hlower := lower_digitsOf (calldata.take 4)
  simp only [hexText, lower, List.map_cons] at hlower ⊢
  rw [hlower]
  rfl

theorem word_hexText (i : Nat) :
    Protect.word (hexText calldata) i = digitsOf (argument calldata i) := by
  have hdrop : (hexText calldata).drop (10 + i * 64) = digitsOf (calldata.drop (4 + 32 * i)) := by
    rw [← drop_digitsOf, hexText, show 10 + i * 64 = 2 * (4 + 32 * i) + 1 + 1 by omega,
      List.drop_succ_cons, List.drop_succ_cons]
  rw [Protect.word, hdrop, argument]
  exact take_digitsOf _ 32

/-- **The token and the guard read the same grant** from two words and nothing more. -/
theorem decodeApproval_calldata (hlength : calldata.length = 68) :
    decodeApproval (some (hexText calldata)) = (executes calldata).bind TokenGrant.approval := by
  have htext : (hexText calldata).length = 138 := by simp [hexText, hlength]
  have haddress : (digitsOf (argument calldata 0)).drop 24 =
      digitsOf ((argument calldata 0).drop 12) := drop_digitsOf _ 12
  have hall : SET_APPROVAL_FOR_ALL = hexText [0xa2, 0x2c, 0xb4, 0x65] := by decide +kernel
  have hset : APPROVE = hexText [0x09, 0x5e, 0xa7, 0xb3] := by decide +kernel
  have hincrease : INCREASE_ALLOWANCE = hexText [0x39, 0x50, 0x93, 0x51] := by decide +kernel
  simp only [decodeApproval, htext, selector_hexText, word_hexText, haddress, lower_digitsOf,
    isHex_digitsOf, value_digitsOf, hall, hset, hincrease, hexText_inj, executes, hlength,
    functionOf]
  by_cases happrove : calldata.take 4 = [0x09, 0x5e, 0xa7, 0xb3]
  · simp [happrove, TokenGrant.approval, hexText]
  · by_cases hinc : calldata.take 4 = [0x39, 0x50, 0x93, 0x51]
    · simp [hinc, TokenGrant.approval, hexText]
    · by_cases hfor : calldata.take 4 = [0xa2, 0x2c, 0xb4, 0x65]
      · simp [hfor, TokenGrant.approval, hexText]
      · simp [happrove, hinc, hfor]

/-- Any other length is not looked at. -/
theorem decodeApproval_length (hlength : calldata.length ≠ 68) :
    decodeApproval (some (hexText calldata)) = none := by
  have htext : (hexText calldata).length ≠ 138 := by
    simp only [hexText, List.length_cons, length_digitsOf]
    omega
  simp only [decodeApproval]
  rw [if_pos htext]

end Reader

/-! ### The guard -/

/-- A transaction that carries some calldata, and what the wallet library reads of it. -/
structure SignedCall where
  calldata : Bytes
  /-- The twenty bytes of who signed it. -/
  sender : Bytes
  tx : Parsed
  data_eq : tx.data = if calldata = [] then none else some (String.ofList (hexText calldata))
  sender_eq : lower tx.sender.toList = hexText sender

/-- The lookup of an address succeeds, and there is no code. -/
def NoCode (g : Provider) (spender : Bytes) : Prop :=
  ∃ code, g.rpc "eth_getCode" [.str (String.ofList (hexText spender)), .str "latest"] = .ok code ∧
    ¬ (code.isTruthy = true ∧ code ≠ .str "0x")

def zeroAddress : Bytes := List.replicate 20 0

/-- The calldata grants an unlimited allowance to somebody else without code.  The zero
address never has any. -/
def Grants (g : Provider) (c : SignedCall) : Prop :=
  ∃ grant, executes c.calldata = some grant ∧ grant.IsUnlimited ∧ grant.spender ≠ c.sender ∧
    (grant.spender = zeroAddress ∨ NoCode g grant.spender)

/-- The transaction is refused for the allowance that it grants. -/
def RefusedForApproval (g : Provider) (raw : String) (c : SignedCall) : Prop :=
  ∃ v, assertSafe g (some (.str raw)) {} = .error ((Refusal.approval v).error c.tx.dst)

section Guard

variable {g : Provider} {raw : String} {c : SignedCall}

theorem noCode_iff {spender : Bytes} :
    NoCode g spender ↔ hasCodeOrUnknown g (hexText spender) = false := by
  unfold NoCode hasCodeOrUnknown
  cases g.rpc "eth_getCode" [.str (String.ofList (hexText spender)), .str "latest"] with
  | error e => simp
  | ok code => simp

/-- The other refusals carry other data. -/
theorem approval_of_error {r : Refusal} {v : ApprovalVerdict} {token : Option String}
    (h : r.error token = (Refusal.approval v).error token) : ∃ v', r = .approval v' := by
  cases r with
  | approval v' => exact ⟨v', rfl⟩
  | reverts reason data =>
      have hdata := congrArg RpcError.data h
      cases data with
      | none => simp [Refusal.error, protectedData] at hdata
      | some d => simp [Refusal.error, protectedData] at hdata
  | leaks proof =>
      have hdata := congrArg RpcError.data h
      simp [Refusal.error, protectedData] at hdata

theorem refusal_eq_approval {tx : Parsed} {v : ApprovalVerdict} :
    refusal g tx {} = some (.approval v) ↔ checkApproval g tx = some v := by
  unfold refusal
  rw [if_neg Bool.false_ne_true]
  cases checkApproval g tx with
  | some v' => simp
  | none =>
      cases burnCheck g tx with
      | none =>
          dsimp only
          split
          · simp
          · simp
      | some burn =>
          cases hrev : burn.reverted with
          | some why => simp [hrev]
          | none =>
              simp only [hrev]
              split
              · simp
              · simp

/-- A refusal for the approval is a verdict of `checkApproval`. -/
theorem refusedForApproval_iff (hparse : parseRaw g (some (.str raw)) = .ok c.tx) :
    RefusedForApproval g raw c ↔ (checkApproval g c.tx).isSome := by
  unfold RefusedForApproval assertSafe
  rw [hparse, Option.isSome_iff_exists]
  dsimp only
  constructor
  · rintro ⟨v, hv⟩
    cases hrefusal : refusal g c.tx {} with
    | none =>
        rw [hrefusal] at hv
        cases hv
    | some r =>
        rw [hrefusal] at hv
        obtain ⟨v', rfl⟩ := approval_of_error (Except.error.inj hv)
        exact ⟨v', refusal_eq_approval.mp hrefusal⟩
  · rintro ⟨v, hv⟩
    refine ⟨v, ?_⟩
    rw [refusal_eq_approval.mpr hv]

theorem checkApproval_none {tx : Parsed}
    (hread : decodeApproval (tx.data.map String.toList) = none) : checkApproval g tx = none := by
  rw [checkApproval, hread]

/-- A grant that is read is refused when it is unlimited, and for an address of somebody
else that has no code. -/
theorem checkApproval_isSome {tx : Parsed} {grant : ApprovalGrant}
    (hread : decodeApproval (tx.data.map String.toList) = some grant) :
    (checkApproval g tx).isSome ↔ grant.unlimited = true ∧
      grant.spender ≠ lower tx.sender.toList ∧
        (grant.spender = ZERO ∨ hasCodeOrUnknown g grant.spender = false) := by
  rw [checkApproval, hread]
  dsimp only
  split
  · next hlimited => simp [hlimited]
  · next hunlimited =>
      rw [not_not] at hunlimited
      split
      · next hself => simp [hself]
      · next hother =>
          split
          · next hzero =>
              rw [hzero] at hother
              simp [hunlimited, hother, hzero]
          · next hzero =>
              split
              · next hcode => simp [hzero, hcode]
              · next hcode => simp [hunlimited, hother, hcode]

/-- The words of `decodeApproval` say the same of the grant. -/
theorem TokenGrant.of_approval {grant : TokenGrant} {a : ApprovalGrant}
    (h : grant.approval = some a) :
    a.spender = hexText grant.spender ∧ (a.unlimited = true ↔ grant.IsUnlimited) := by
  unfold TokenGrant.approval at h
  unfold TokenGrant.IsUnlimited
  split at h
  · next hkind =>
      split at h
      · cases h
      · next hsome =>
          cases h
          exact ⟨rfl, by simp [hsome]⟩
  · next hkind =>
      cases h
      refine ⟨rfl, ?_⟩
      cases hcase : grant.kind with
      | setApprovalForAll => exact (hkind hcase).elim
      | approve => simp
      | increaseAllowance => simp

theorem TokenGrant.not_unlimited {grant : TokenGrant} (h : grant.approval = none) :
    ¬ grant.IsUnlimited := by
  unfold TokenGrant.approval at h
  split at h
  · next hkind =>
      split at h
      · next hzero => simp [TokenGrant.IsUnlimited, hkind, hzero]
      · cases h
  · cases h

theorem hexText_zero : hexText zeroAddress = ZERO := by decide +kernel

theorem read_eq (hne : c.calldata ≠ []) :
    c.tx.data.map String.toList = some (hexText c.calldata) := by
  rw [c.data_eq, if_neg hne]
  simp

/-- **What is refused for its approval** is an unlimited allowance for somebody else
without code, in a calldata of two words and nothing more. -/
theorem approval_refused_iff (hparse : parseRaw g (some (.str raw)) = .ok c.tx) :
    RefusedForApproval g raw c ↔ c.calldata.length = 68 ∧ Grants g c := by
  rw [refusedForApproval_iff hparse]
  by_cases hnil : c.calldata = []
  · have hread : decodeApproval (c.tx.data.map String.toList) = none := by
      rw [c.data_eq, if_pos hnil]
      rfl
    simp [checkApproval_none hread, hnil]
  by_cases hlength : c.calldata.length = 68
  · have hread := decodeApproval_calldata hlength
    rw [← read_eq hnil] at hread
    simp only [hlength, true_and, Grants]
    cases hexec : executes c.calldata with
    | none =>
        rw [hexec] at hread
        simp [checkApproval_none hread]
    | some grant =>
        rw [hexec, Option.bind_some] at hread
        simp only [Option.some.injEq, exists_eq_left']
        cases happroval : grant.approval with
        | none =>
            rw [happroval] at hread
            have hlimited := TokenGrant.not_unlimited happroval
            simp [checkApproval_none hread, hlimited]
        | some a =>
            rw [happroval] at hread
            obtain ⟨hspender, hunlimited⟩ := TokenGrant.of_approval happroval
            rw [checkApproval_isSome hread, hunlimited, hspender, c.sender_eq, ← hexText_zero,
              ne_eq, hexText_inj, hexText_inj, noCode_iff]
  · have hread := decodeApproval_length hlength
    rw [← read_eq hnil] at hread
    simp [checkApproval_none hread, hlength]

end Guard

/-! ### A drain, and the same with four bytes more -/

theorem lower_hexText (bs : Bytes) : lower (hexText bs) = hexText bs := by
  have h := lower_digitsOf bs
  simp only [hexText, lower, List.map_cons] at h ⊢
  rw [h]
  rfl

/-- A call of some token. -/
def callTo (calldata sender : Bytes) : SignedCall where
  calldata := calldata
  sender := sender
  tx := ⟨some "0x2222222222222222222222222222222222222222",
    if calldata = [] then none else some (String.ofList (hexText calldata)), none,
    String.ofList (hexText sender)⟩
  data_eq := rfl
  sender_eq := by simp [lower_hexText]

/-- An approval of 2 ^ 256 - 1. -/
def drainCalldata : Bytes :=
  [0x09, 0x5e, 0xa7, 0xb3] ++ List.replicate 12 0 ++ List.replicate 20 0x11 ++
    List.replicate 32 0xff

def victim : Bytes := List.replicate 20 0x33

def trailingCalldata : Bytes := drainCalldata ++ [0xde, 0xad, 0xbe, 0xef]

/-- No address has code, every call succeeds, and nothing can be simulated. -/
def openProvider (tx : Parsed) : Provider where
  parse _ := .ok tx
  rpc _ _ := .ok (.str "0x")
  simulate _ := .threw "the method eth_simulateV1 does not exist"
  walletMessage message _ := message

theorem parseRaw_open (tx : Parsed) :
    parseRaw (openProvider tx) (some (.str "0xf8")) = .ok tx := by
  have hhex : "0xf8".startsWith "0x" = true := by decide +kernel
  rw [parseRaw, if_pos hhex]
  rfl

theorem grants_of_executes {calldata : Bytes} (tx : Parsed)
    (h : executes calldata = some ⟨.approve, List.replicate 20 0x11, 2 ^ 256 - 1⟩) :
    Grants (openProvider tx) (callTo calldata victim) := by
  have hother : List.replicate 20 (0x11 : UInt8) ≠ victim := by decide
  have hunlimited : UNLIMITED ≤ 2 ^ 256 - 1 := by decide +kernel
  exact ⟨_, h, hunlimited, hother, Or.inr ⟨_, rfl, by decide⟩⟩

/-- The drain is refused. -/
theorem approval_refused_sample :
    RefusedForApproval (openProvider (callTo drainCalldata victim).tx) "0xf8"
      (callTo drainCalldata victim) :=
  (approval_refused_iff (parseRaw_open _)).mpr
    ⟨by decide, grants_of_executes _ (by decide +kernel)⟩

/-- With four bytes more the token grants the same, and the transaction is let through. -/
theorem trailing_bytes_pass :
    Grants (openProvider (callTo trailingCalldata victim).tx) (callTo trailingCalldata victim) ∧
      assertSafe (openProvider (callTo trailingCalldata victim).tx) (some (.str "0xf8")) {} =
        .ok () := by
  refine ⟨grants_of_executes _ (by decide +kernel), ?_⟩
  have hnone : decodeApproval (((callTo trailingCalldata victim).tx).data.map String.toList) =
      none := by
    rw [read_eq (by decide)]
    exact decodeApproval_length (by decide)
  refine assertSafe_eq_ok.mpr ⟨_, parseRaw_open _, refusal_none_iff.mpr
    ⟨Or.inr (checkApproval_none hnone), ?_⟩⟩
  have hburn : burnCheck (openProvider (callTo trailingCalldata victim).tx)
      (callTo trailingCalldata victim).tx = none := rfl
  rw [Delivers, hburn]
  rfl

end Approvals

end Ordo
