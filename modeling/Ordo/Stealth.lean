import Mathlib.GroupTheory.OrderOfElement
import Ordo.Hex

/-!
# Stealth payments

A recipient publishes two public keys as one text.  A payer rolls a key, hashes the
point it shares with the viewing key, and pays the address of the spending key moved by
that hash.  The recipient finds the payment by hashing the same point from the other
side, and spends it with the spending scalar moved by the same hash.

    payer       S = r · (v · G)      address of  s · G + h(S) · G
    scanner     S = v · (r · G)      address of  s · G + h(S) · G
    spender     S = v · (r · G)      key         s + h(S)  mod n

The curve is the interface of a library and the laws it documents: a group of prime
order, and encodings of its points that are read back.  The hash is any function.
-/

namespace Ordo

namespace Stealth

open BigIntText Hex

section Texts

/-- A number that is an integer, or `NaN`. -/
abbrev Number := Option Int

/-- `a === b` on numbers: `NaN` equals nothing. -/
def sameNumber (a b : Number) : Bool := a.isSome && a = b

/-- `t.slice(i, j)`. -/
def slice (t : Text) (i j : Nat) : Text := (t.take j).drop i

/-- `t.slice(-n)`. -/
def sliceLast (t : Text) (n : Nat) : Text := t.drop (t.length - n)

def toLowerCase (t : Text) : Text := t.map Char.toLower

/-- `parseInt(t, 16)`: the digits it begins with. -/
def parseInt16 (t : Text) : Number :=
  let t := t.dropWhile isSpace
  let (negative, t) : Bool × Text :=
    match t with
    | '-' :: t => (true, t)
    | '+' :: t => (false, t)
    | t => (false, t)
  let t :=
    match t with
    | '0' :: 'x' :: t => t
    | '0' :: 'X' :: t => t
    | t => t
  match t.takeWhile fun c => (hexDigit? c).isSome with
  | [] => none
  | ds => some (if negative then -(value ds : Int) else value ds)

/-- `Number("0x" + t)`. -/
def numberOf (t : Text) : Number := (bigInt ('0' :: 'x' :: t)).toOption

/-- A number stored in a byte. -/
def toUint8 : Number → UInt8
  | none => 0
  | some i => UInt8.ofNat (i % 256).toNat

def dropPrefix : Text → Text
  | '0' :: 'x' :: t => t
  | t => t

def pairs : Text → Bytes
  | a :: b :: t => toUint8 (parseInt16 [a, b]) :: pairs t
  | _ => []

def hexToBytes (h : Text) : Bytes := pairs (dropPrefix h)

def bytesToHex (b : Bytes) : Text := '0' :: 'x' :: digitsOf b

/-- `/^0x[0-9a-fA-F]{k}$/`. -/
def IsHexText (k : Nat) (t : Text) : Prop :=
  t.take 2 = ['0', 'x'] ∧ (t.drop 2).length = k ∧ IsHex (t.drop 2)

instance (k : Nat) (t : Text) : Decidable (IsHexText k t) := by
  unfold IsHexText
  infer_instance

end Texts

section Libraries

/-- What `@noble/curves` gives for the curve, with what it documents. -/
structure Noble (G : Type) [AddCommGroup G] where
  /-- `CURVE.n`. -/
  n : Nat
  BASE : G
  multiply : G → Int → Except Thrown G
  fromHex : Text → Except Thrown G
  /-- Compressed or not. -/
  toRawBytes : G → Bool → Except Thrown Bytes
  getPublicKey : Bytes → Bool → Except Thrown Bytes
  getSharedSecret : Bytes → Bytes → Bool → Except Thrown Bytes
  n_prime : n.Prime
  n_lt : n < 2 ^ 256
  nsmul_n : ∀ P : G, n • P = 0
  base_ne_zero : BASE ≠ 0
  multiply_eq : ∀ (P : G) (k : Nat), 0 < k → k < n → multiply P k = .ok (k • P)
  /-- The point at infinity has no encoding. -/
  toRawBytes_zero : ∀ compressed, ∃ e, toRawBytes 0 compressed = .error e
  toRawBytes_length : ∀ (P : G) (compressed : Bool), P ≠ 0 →
    ∃ bs, toRawBytes P compressed = .ok bs ∧ bs.length = if compressed then 33 else 65
  /-- An encoded point is read back. -/
  fromHex_digitsOf : ∀ (P : G) (compressed : Bool) (bs : Bytes),
    toRawBytes P compressed = .ok bs → fromHex (digitsOf bs) = .ok P
  /-- A private key is a scalar in 32 bytes. -/
  getPublicKey_eq : ∀ (key : Bytes) (compressed : Bool), key.length = 32 → 0 < word key →
    word key < n → getPublicKey key compressed = toRawBytes (word key • BASE) compressed
  getSharedSecret_eq : ∀ (key : Bytes) (P : G) (bs : Bytes) (compressed : Bool),
    key.length = 32 → 0 < word key → word key < n → toRawBytes P true = .ok bs →
    getSharedSecret key bs compressed = toRawBytes (word key • P) compressed

/-- What `viem` gives, with what it documents. -/
structure Viem where
  /-- The hash of the bytes that a text stands for. -/
  keccak : Text → Bytes32
  /-- The address in its checksum case. -/
  getAddress : Text → Except Thrown Text
  getAddress_ok : ∀ t, IsHexText 40 t → ∃ c, getAddress t = .ok c
  /-- Anything else is refused, and only the case of letters changes. -/
  getAddress_case : ∀ t c, getAddress t = .ok c →
    IsHexText 40 t ∧ IsHexText 40 c ∧ toLowerCase c = toLowerCase t
  getAddress_congr : ∀ t t', IsHexText 40 t → IsHexText 40 t' →
    toLowerCase t = toLowerCase t' → getAddress t = getAddress t'

/-- `toHex(n)`. -/
def toHex : Number → Except Thrown Text
  | some (.ofNat n) => .ok ('0' :: 'x' :: numeral n)
  | some (.negSucc _) => .error (.rejected "IntegerOutOfRangeError")
  | none => .error (.rejected "RangeError")

/-- `pad(hex, { size })`. -/
def pad (hex : Text) (size : Nat) : Except Thrown Text :=
  let t := dropPrefix hex
  if size * 2 < t.length then .error (.rejected "SizeExceedsPaddingSizeError")
  else .ok ('0' :: 'x' :: padStart (size * 2) t)

def concatHex (hexes : List Text) : Text := '0' :: 'x' :: hexes.flatMap dropPrefix

/-- The hash, written out. -/
def keccak256 (E : Viem) (t : Text) : Text := '0' :: 'x' :: padStart 64 (numeral (E.keccak t))

end Libraries

def NATIVE_TOKEN : Text := "0xEeeeeEeeeEeEeeEeEeEeeEEEeeeeEeeeeeeeEEeE".toList

structure StealthKeys where
  spendingPrivateKey : Text
  viewingPrivateKey : Text
  spendingPublicKey : Text
  viewingPublicKey : Text
  metaAddress : Text
  deriving DecidableEq

/-- What a meta-address is read as. -/
structure PublicKeys where
  spendingPublicKey : Text
  viewingPublicKey : Text
  deriving DecidableEq

structure StealthPayment where
  stealthAddress : Text
  ephemeralPublicKey : Text
  viewTag : Number
  ephemeralPrivateKey : Text
  deriving DecidableEq

structure Announcement where
  stealthAddress : Text
  ephemeralPublicKey : Text
  /-- Absent when the event carries none. -/
  viewTag : Option Number
  deriving DecidableEq

structure AnnouncementMetadata where
  viewTag : Number
  token : Text
  amount : Int
  deriving DecidableEq

section Scheme

variable {G : Type} [AddCommGroup G] (C : Noble G) (E : Viem)

/-- A scalar in `[1, n-1]`. -/
def toScalar (h : Text) : Except Thrown Int := do
  let v := (← bigInt h).tmod C.n
  if v = 0 then .error (.rejected "degenerate scalar") else .ok v

def scalarToHex (v : Int) : Except Thrown Text := do pad (← toHex (some v)) 32

def publicKeyToAddress (uncompressed : Bytes) : Except Thrown Text :=
  let body := if uncompressed.length = 65 then uncompressed.drop 1 else uncompressed
  E.getAddress ('0' :: 'x' :: sliceLast (keccak256 E (bytesToHex body)) 40)

def encodeMetaAddress (spendingPublicKey viewingPublicKey : Text) : Text :=
  "st:rho:0x".toList ++ spendingPublicKey.drop 2 ++ viewingPublicKey.drop 2

def fromPrivateKeys (spendingPrivateKey viewingPrivateKey : Text) :
    Except Thrown StealthKeys := do
  let spendingPublicKey := bytesToHex (← C.getPublicKey (hexToBytes spendingPrivateKey) true)
  let viewingPublicKey := bytesToHex (← C.getPublicKey (hexToBytes viewingPrivateKey) true)
  .ok
    { spendingPrivateKey, viewingPrivateKey, spendingPublicKey, viewingPublicKey,
      metaAddress := encodeMetaAddress spendingPublicKey viewingPublicKey }

def keysFromSignature (signature : Text) : Except Thrown StealthKeys := do
  if ¬ IsHexText 130 signature then .error (.rejected "expected a 65-byte signature")
  else
    let seed := keccak256 E signature
    let spending ← toScalar C (keccak256 E (concatHex [seed, "0x00".toList]))
    let viewing ← toScalar C (keccak256 E (concatHex [seed, "0x01".toList]))
    fromPrivateKeys C (← scalarToHex spending) (← scalarToHex viewing)

/-- Without `/^st:[a-z0-9]+:/i`. -/
def dropScheme (t : Text) : Text :=
  match t with
  | a :: b :: ':' :: rest =>
      if a.toLower = 's' ∧ b.toLower = 't' ∧ rest.takeWhile Char.isAlphanum ≠ [] then
        match rest.dropWhile Char.isAlphanum with
        | ':' :: body => body
        | _ => t
      else t
  | _ => t

/-- A key of a meta-address has to be a point. -/
def onCurve (key : Text) : Except Thrown Unit :=
  match C.fromHex (key.drop 2) with
  | .ok _ => .ok ()
  | .error _ => .error (.rejected "meta-address contains a key that is not on the curve")

def parseMetaAddress (metaAddress : Text) : Except Thrown PublicKeys := do
  let body := dropScheme (trim metaAddress)
  if ¬ IsHexText 132 body then .error (.rejected "not a stealth meta-address")
  else
    let spendingPublicKey := '0' :: 'x' :: slice body 2 68
    let viewingPublicKey := '0' :: 'x' :: slice body 68 134
    [spendingPublicKey, viewingPublicKey].forM (onCurve C)
    .ok { spendingPublicKey, viewingPublicKey }

/-- The hash of the shared point, by its first coordinate. -/
def sharedSecretHash (privateKey publicKey : Text) : Except Thrown Text := do
  let shared ← C.getSharedSecret (hexToBytes privateKey) (hexToBytes publicKey) true
  .ok (keccak256 E (bytesToHex (shared.drop 1)))

/-- The address of the spending key moved by a hash, which both sides derive. -/
def stealthAddressOf (spendingPublicKey hashed : Text) : Except Thrown Text := do
  let spending ← C.fromHex (spendingPublicKey.drop 2)
  let stealthPoint := spending + (← C.multiply C.BASE (← toScalar C hashed))
  publicKeyToAddress E (← C.toRawBytes stealthPoint false)

/-- `rolled` is what `randomPrivateKey` returns. -/
def generateStealthAddress (metaAddress : Text) (ephemeralPrivateKey : Option Text)
    (rolled : Bytes) : Except Thrown StealthPayment := do
  let keys ← parseMetaAddress C metaAddress
  let ephemeral := ephemeralPrivateKey.getD (bytesToHex rolled)
  let hashed ← sharedSecretHash C E ephemeral keys.viewingPublicKey
  let stealthAddress ← stealthAddressOf C E keys.spendingPublicKey hashed
  let ephemeralPublicKey := bytesToHex (← C.getPublicKey (hexToBytes ephemeral) true)
  .ok
    { stealthAddress, ephemeralPublicKey, ephemeralPrivateKey := ephemeral,
      viewTag := numberOf (slice hashed 2 4) }

def checkAnnouncement (viewingPrivateKey spendingPublicKey : Text) (a : Announcement) :
    Except Thrown (Option Text) :=
  match sharedSecretHash C E viewingPrivateKey a.ephemeralPublicKey with
  -- Not a point on the curve, so not addressed to anyone.
  | .error _ => .ok none
  | .ok hashed =>
      if a.viewTag.any fun tag => !sameNumber (numberOf (slice hashed 2 4)) tag then .ok none
      else do
        let derived ← stealthAddressOf C E spendingPublicKey hashed
        .ok (if toLowerCase derived = toLowerCase a.stealthAddress then some derived else none)

def computeStealthPrivateKey (spendingPrivateKey viewingPrivateKey ephemeralPublicKey : Text) :
    Except Thrown Text := do
  let hashed ← sharedSecretHash C E viewingPrivateKey ephemeralPublicKey
  let spending ← bigInt spendingPrivateKey
  let key := (spending + (← toScalar C hashed)).tmod C.n
  if key = 0 then .error (.rejected "degenerate stealth key") else scalarToHex key

def encodeMetadata (m : AnnouncementMetadata) : Except Thrown Text := do
  let viewTag ← pad (← toHex m.viewTag) 1
  let token ← E.getAddress m.token
  let amount ← pad (← toHex (some m.amount)) 32
  .ok (concatHex [viewTag, token, amount])

def decodeMetadata (metadata : Text) : Except Thrown (Option AnnouncementMetadata) := do
  let body := dropPrefix metadata
  if body.length < 2 then .ok none
  else
    let viewTag := parseInt16 (slice body 0 2)
    if body.length < 2 + 40 + 64 then .ok (some { viewTag, token := NATIVE_TOKEN, amount := 0 })
    else
      let token ← E.getAddress ('0' :: 'x' :: slice body 2 42)
      let amount ← bigInt ('0' :: 'x' :: slice body 42 106)
      .ok (some { viewTag, token, amount })

/-- The address that a private key spends from. -/
def addressOfKey (key : Text) : Except Thrown Text := do
  publicKeyToAddress E (← C.getPublicKey (hexToBytes key) false)

end Scheme

end Stealth

end Ordo
