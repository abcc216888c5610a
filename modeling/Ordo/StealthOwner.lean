import Mathlib.Data.ZMod.Basic
import Ordo.Stealth

/-!
# Stealth payments reach their owner

* `payment_reaches_owner` — payer, scanner and spender meet, for all scalars with no
  zero on the way, through every encoding between them;
* `recognised_spendable` — whatever announcement a scanner recognises, the recipient
  can spend.
-/

namespace Ordo

namespace Stealth

open BigIntText Hex

section Texts

theorem hexDigit_range {c : Char} (h : (hexDigit? c).isSome) :
    (0x30 ≤ c.toNat ∧ c.toNat ≤ 0x39) ∨ (0x61 ≤ c.toNat ∧ c.toNat ≤ 0x66) ∨
      (0x41 ≤ c.toNat ∧ c.toNat ≤ 0x46) := by
  by_contra hno
  have hnone : hexDigit? c = none := by
    simp only [hexDigit?, Bool.and_eq_true, decide_eq_true_eq]
    rw [if_neg (by omega), if_neg (by omega), if_neg (by omega)]
  simp [hnone] at h

theorem isSpace_hex {c : Char} (h : (hexDigit? c).isSome) : isSpace c = false := by
  have hc := hexDigit_range h
  simp only [isSpace, Bool.or_eq_false_iff, Bool.and_eq_false_iff, decide_eq_false_iff_not,
    beq_eq_false_iff_ne]
  omega

theorem ne_of_hex {c d : Char} (h : (hexDigit? c).isSome) (hd : hexDigit? d = none) : c ≠ d := by
  rintro rfl
  simp [hd] at h

/-- Two digits are read as the byte that they are. -/
theorem parseInt16_pair {a b : Char} (ha : (hexDigit? a).isSome) (hb : (hexDigit? b).isSome) :
    parseInt16 [a, b] = some ((16 * digit a + digit b : Nat) : Int) := by
  have hminus : a ≠ '-' := ne_of_hex ha rfl
  have hplus : a ≠ '+' := ne_of_hex ha rfl
  have hx : b ≠ 'x' := ne_of_hex hb rfl
  have hX : b ≠ 'X' := ne_of_hex hb rfl
  have hvalue : value [a, b] = 16 * digit a + digit b := by simp [value]
  simp [parseInt16, isSpace_hex ha, hminus, hplus, hx, hX, ha, hb, hvalue]

theorem pairs_eq {t : Text} (h : IsHex t) : pairs t = bytesOf t := by
  fun_induction pairs t with
  | case1 a b t ih =>
      simp only [isHex_cons] at h
      obtain ⟨ha, hb, ht⟩ := h
      have hlt : ((16 * digit a + digit b : Nat) : Int) % 256 = (16 * digit a + digit b : Nat) := by
        have := digit_lt a
        have := digit_lt b
        omega
      have hbyte : toUint8 (parseInt16 [a, b]) = UInt8.ofNat (16 * digit a + digit b) := by
        rw [parseInt16_pair ha hb, toUint8, hlt, Int.toNat_natCast]
      rw [ih ht, hbyte, bytesOf]
  | case2 t hshort =>
      rcases t with _ | ⟨a, _ | ⟨b, t⟩⟩
      · rfl
      · rfl
      · exact (hshort a b t rfl).elim

@[simp] theorem hexToBytes_bytesToHex (bs : Bytes) : hexToBytes (bytesToHex bs) = bs := by
  rw [bytesToHex, hexToBytes, dropPrefix, pairs_eq (isHex_digitsOf bs), bytesOf_digitsOf]

theorem isHexText_cons {k : Nat} {ds : Text} :
    IsHexText k ('0' :: 'x' :: ds) ↔ ds.length = k ∧ IsHex ds := by
  simp [IsHexText]

theorem IsHexText.eq_cons {k : Nat} {t : Text} (h : IsHexText k t) :
    ∃ ds, t = '0' :: 'x' :: ds ∧ ds.length = k ∧ IsHex ds := by
  obtain ⟨htake, hlen, hhex⟩ := h
  have happ := List.take_append_drop 2 t
  rw [htake] at happ
  exact ⟨t.drop 2, happ.symm, hlen, hhex⟩

theorem trim_hex {ds : Text} (h : IsHex ds) : trim ('0' :: 'x' :: ds) = '0' :: 'x' :: ds := by
  have hdrop : ('0' :: 'x' :: ds).dropWhile isSpace = '0' :: 'x' :: ds := by
    rw [List.dropWhile_cons_of_neg]
    decide
  rw [trim, hdrop, List.rdropWhile_eq_self_iff]
  intro hne
  have hlast : ∀ c ∈ '0' :: 'x' :: ds, ¬ isSpace c = true := by
    intro c hc
    simp only [List.mem_cons] at hc
    rcases hc with rfl | rfl | hc
    · decide
    · decide
    · simp [isSpace_hex (h c hc)]
  exact hlast _ (List.getLast_mem hne)

/-- A number is read from its digits. -/
theorem bigInt_hex {ds : Text} (h : IsHex ds) (hne : ds ≠ []) :
    bigInt ('0' :: 'x' :: ds) = .ok (value ds) := by
  rw [bigInt, trim_hex h]
  change (digits 16 ds).map Int.ofNat = _
  rw [digits_eq h hne]
  rfl

theorem numberOf_hex {ds : Text} (h : IsHex ds) (hne : ds ≠ []) :
    numberOf ds = some (value ds : Int) := by
  rw [numberOf, bigInt_hex h hne]
  rfl

end Texts

section Hashes

private theorem ok_bind {α β : Type} (a : α) (f : α → Except Thrown β) :
    (Except.ok a >>= f) = f a := rfl

variable (E : Viem)

/-- A hash is written in 64 digits. -/
theorem keccak256_digits (t : Text) :
    ∃ ds, keccak256 E t = '0' :: 'x' :: ds ∧ ds.length = 64 ∧ IsHex ds ∧ value ds = E.keccak t := by
  have hlt : (E.keccak t : Nat) < 16 ^ 64 := (E.keccak t).isLt
  exact ⟨_, rfl, length_padStart (length_numeral_le (by decide) hlt),
    isHex_padStart (isHex_numeral _), by simp⟩

/-- The view tag is a number, so it equals itself. -/
theorem viewTag_isSome (t : Text) : ∃ k, numberOf (slice (keccak256 E t) 2 4) = some k := by
  obtain ⟨ds, heq, hlen, hhex, -⟩ := keccak256_digits E t
  have hslice : slice (keccak256 E t) 2 4 = ds.take 2 := by
    rw [heq, slice, List.take_succ_cons, List.take_succ_cons]
    rfl
  have hne : ds.take 2 ≠ [] := by
    intro hnil
    have := congrArg List.length hnil
    rw [List.length_take, hlen] at this
    simp at this
  exact ⟨_, by rw [hslice, numberOf_hex (hhex.take 2) hne]⟩

/-- Any bytes have an address. -/
theorem publicKeyToAddress_ok (bs : Bytes) : ∃ c, publicKeyToAddress E bs = .ok c := by
  unfold publicKeyToAddress
  obtain ⟨ds, heq, hlen, hhex, -⟩ := keccak256_digits E
    (bytesToHex (if bs.length = 65 then bs.drop 1 else bs))
  refine E.getAddress_ok _ (isHexText_cons.mpr ?_)
  have hlast : sliceLast ('0' :: 'x' :: ds) 40 = ds.drop 24 := by
    simp [sliceLast, hlen]
  rw [heq, hlast]
  exact ⟨by simp [hlen], hhex.drop 24⟩

end Hashes

section Scalars

variable {G : Type} [AddCommGroup G] (C : Noble G)

theorem addOrderOf_eq {P : G} (hP : P ≠ 0) : addOrderOf P = C.n :=
  haveI : Fact C.n.Prime := ⟨C.n_prime⟩
  addOrderOf_eq_prime (C.nsmul_n P) hP

/-- Scalars count up to the order. -/
theorem mod_nsmul (k : Nat) (P : G) : (k % C.n) • P = k • P := by
  conv_rhs => rw [← Nat.mod_add_div k C.n, add_nsmul, mul_nsmul, C.nsmul_n, nsmul_zero, add_zero]

theorem nsmul_eq_zero_iff {P : G} (hP : P ≠ 0) (k : Nat) : k • P = 0 ↔ k % C.n = 0 := by
  rw [← addOrderOf_dvd_iff_nsmul_eq_zero, addOrderOf_eq C hP, Nat.dvd_iff_mod_eq_zero]

theorem nsmul_ne_zero {P : G} (hP : P ≠ 0) {k : Nat} (hpos : 0 < k) (hlt : k < C.n) :
    k • P ≠ 0 := by
  rw [Ne, nsmul_eq_zero_iff C hP, Nat.mod_eq_of_lt hlt]
  omega

/-- A point is a multiple of the generator in one way. -/
theorem nsmul_inj {k l : Nat} (hk : k < C.n) (hl : l < C.n) (h : k • C.BASE = l • C.BASE) :
    k = l := by
  have horder := addOrderOf_eq C C.base_ne_zero
  exact nsmul_injOn_Iio_addOrderOf (by simpa [horder] using hk) (by simpa [horder] using hl) h

end Scalars

section Keys

variable {G : Type} [AddCommGroup G] (C : Noble G) (E : Viem)

/-- A text is the private key of a scalar. -/
structure IsKey (t : Text) (k : Nat) : Prop where
  text : IsHexText 64 t
  value : value (t.drop 2) = k
  pos : 0 < k
  lt : k < C.n

/-- A text is the public key of a point. -/
def IsPublicKey (t : Text) (P : G) : Prop :=
  ∃ bs, C.toRawBytes P true = .ok bs ∧ t = bytesToHex bs

/-- The address of a point. -/
def pointAddress (P : G) : Except Thrown Text := do
  publicKeyToAddress E (← C.toRawBytes P false)

/-- What is hashed of a shared point. -/
def sharedText (P : G) : Text :=
  match C.toRawBytes P true with
  | .ok shared => bytesToHex (shared.drop 1)
  | .error _ => []

/-- The hash of a shared point, as a number. -/
def secretOf (P : G) : Nat := E.keccak (sharedText C P)

variable {C}

theorem IsKey.bytes {t : Text} {k : Nat} (h : IsKey C t k) :
    (hexToBytes t).length = 32 ∧ word (hexToBytes t) = k := by
  obtain ⟨ds, rfl, hlen, hhex⟩ := h.text.eq_cons
  have hvalue : Hex.value ds = k := h.value
  have heven : Even ds.length := by
    rw [hlen]
    decide
  rw [hexToBytes, dropPrefix, pairs_eq hhex, length_bytesOf, word_bytesOf heven, hlen]
  exact ⟨rfl, hvalue⟩

theorem IsKey.bigInt {t : Text} {k : Nat} (h : IsKey C t k) : bigInt t = .ok k := by
  obtain ⟨ds, rfl, hlen, hhex⟩ := h.text.eq_cons
  have hvalue : Hex.value ds = k := h.value
  have hne : ds ≠ [] := by
    rintro rfl
    simp at hlen
  rw [bigInt_hex hhex hne, hvalue]

/-- A scalar is written as its key. -/
theorem scalarToHex_ok {k : Nat} (hpos : 0 < k) (hlt : k < C.n) :
    ∃ t, scalarToHex k = .ok t ∧ IsKey C t k := by
  have hsmall : k < 16 ^ 64 := lt_trans hlt C.n_lt
  have hlen := length_numeral_le (by decide) hsmall
  refine ⟨'0' :: 'x' :: padStart 64 (numeral k), ?_, ?_⟩
  · have hpad : pad ('0' :: 'x' :: numeral k) 32 = .ok ('0' :: 'x' :: padStart 64 (numeral k)) := by
      rw [pad, dropPrefix, if_neg (by omega)]
    exact hpad
  · exact
      { text := isHexText_cons.mpr ⟨length_padStart hlen, isHex_padStart (isHex_numeral k)⟩
        value := by simp
        pos := hpos
        lt := hlt }

theorem IsKey.nsmul_ne_zero {t : Text} {k : Nat} (h : IsKey C t k) {P : G} (hP : P ≠ 0) :
    k • P ≠ 0 :=
  Stealth.nsmul_ne_zero C hP h.pos h.lt

/-- The public key of a scalar is its point. -/
theorem IsKey.getPublicKey {t : Text} {k : Nat} (h : IsKey C t k) (compressed : Bool) :
    C.getPublicKey (hexToBytes t) compressed = C.toRawBytes (k • C.BASE) compressed := by
  obtain ⟨hlen, rfl⟩ := h.bytes
  exact C.getPublicKey_eq _ _ hlen h.pos h.lt

/-- A key has a public key. -/
theorem IsKey.publicKey {t : Text} {k : Nat} (h : IsKey C t k) :
    ∃ bs, C.getPublicKey (hexToBytes t) true = .ok bs ∧
      IsPublicKey C (bytesToHex bs) (k • C.BASE) := by
  obtain ⟨bs, hbs, -⟩ := C.toRawBytes_length (k • C.BASE) true (h.nsmul_ne_zero C.base_ne_zero)
  exact ⟨bs, (h.getPublicKey true).trans hbs, bs, hbs, rfl⟩

/-- The keys of an account begin with the public key of its spending scalar. -/
theorem IsKey.spendingPublicKey {t viewingKey : Text} {k : Nat} (h : IsKey C t k)
    {keys : StealthKeys} (hkeys : fromPrivateKeys C t viewingKey = .ok keys) :
    IsPublicKey C keys.spendingPublicKey (k • C.BASE) := by
  obtain ⟨bs, hbs, hpublic⟩ := h.publicKey
  rw [fromPrivateKeys, hbs, ok_bind] at hkeys
  cases hviewing : C.getPublicKey (hexToBytes viewingKey) true with
  | error e =>
      rw [hviewing] at hkeys
      cases hkeys
  | ok viewing =>
      rw [hviewing] at hkeys
      cases hkeys
      exact hpublic

/-- A key spends from the address of its point. -/
theorem IsKey.addressOfKey {t : Text} {k : Nat} (h : IsKey C t k) :
    addressOfKey C E t = pointAddress C E (k • C.BASE) := by
  rw [Stealth.addressOfKey, h.getPublicKey]
  rfl

theorem IsPublicKey.ne_zero {t : Text} {P : G} (h : IsPublicKey C t P) : P ≠ 0 := by
  rintro rfl
  obtain ⟨bs, hbs, -⟩ := h
  obtain ⟨e, he⟩ := C.toRawBytes_zero true
  simp [hbs] at he

theorem IsPublicKey.fromHex {t : Text} {P : G} (h : IsPublicKey C t P) :
    C.fromHex (t.drop 2) = .ok P := by
  obtain ⟨bs, hbs, rfl⟩ := h
  exact C.fromHex_digitsOf P true bs hbs

theorem IsPublicKey.text {t : Text} {P : G} (h : IsPublicKey C t P) : IsHexText 66 t := by
  have hP := h.ne_zero
  obtain ⟨bs, hbs, rfl⟩ := h
  obtain ⟨bs', hbs', hlen⟩ := C.toRawBytes_length P true hP
  rw [hbs] at hbs'
  cases hbs'
  rw [if_pos rfl] at hlen
  exact isHexText_cons.mpr ⟨by simp [hlen], isHex_digitsOf bs⟩

/-- Either side of an exchange hashes the shared point. -/
theorem sharedSecretHash_eq {t p : Text} {k : Nat} {P : G} (hkey : IsKey C t k)
    (hpub : IsPublicKey C p P) :
    sharedSecretHash C E t p = .ok (keccak256 E (sharedText C (k • P))) := by
  obtain ⟨shared, hshared, -⟩ := C.toRawBytes_length (k • P) true (hkey.nsmul_ne_zero hpub.ne_zero)
  obtain ⟨bs, hbs, rfl⟩ := hpub
  have hsecret : C.getSharedSecret (hexToBytes t) bs true = .ok shared := by
    obtain ⟨hlen, rfl⟩ := hkey.bytes
    rw [C.getSharedSecret_eq _ P bs true hlen hkey.pos hkey.lt hbs, hshared]
  rw [sharedSecretHash, hexToBytes_bytesToHex, hsecret, sharedText, hshared]
  rfl

/-- What is hashed, however it was come by. -/
theorem sharedSecretHash_ok {t p hashed : Text} (h : sharedSecretHash C E t p = .ok hashed) :
    ∃ text, hashed = keccak256 E text := by
  unfold sharedSecretHash at h
  cases hs : C.getSharedSecret (hexToBytes t) (hexToBytes p) true with
  | error e =>
      rw [hs] at h
      cases h
  | ok shared =>
      rw [hs] at h
      cases h
      exact ⟨_, rfl⟩

/-- A hash as a scalar, unless it is degenerate. -/
theorem toScalar_keccak (t : Text) :
    toScalar C (keccak256 E t) =
      if (E.keccak t : Nat) % C.n = 0 then .error (.rejected "degenerate scalar")
      else .ok ((E.keccak t : Nat) % C.n : Nat) := by
  obtain ⟨ds, heq, hlen, hhex, hvalue⟩ := keccak256_digits E t
  have hne : ds ≠ [] := by
    rintro rfl
    simp at hlen
  have hmod : ((E.keccak t : Nat) : Int).tmod C.n = ((E.keccak t : Nat) % C.n : Nat) :=
    (Int.ofNat_tmod _ _).symm
  rw [toScalar, heq, bigInt_hex hhex hne, hvalue]
  change (if ((E.keccak t : Nat) : Int).tmod C.n = 0 then _ else _) = _
  rw [hmod]
  by_cases hzero : (E.keccak t : Nat) % C.n = 0
  · rw [if_pos (by rw [hzero]; rfl), if_pos hzero]
  · rw [if_neg (by exact_mod_cast hzero), if_neg hzero]

/-- The spending key moved by a hash, unless the hash is degenerate. -/
theorem stealthAddressOf_eq {p : Text} {P : G} (hpub : IsPublicKey C p P) (t : Text) :
    stealthAddressOf C E p (keccak256 E t) =
      if (E.keccak t : Nat) % C.n = 0 then .error (.rejected "degenerate scalar")
      else pointAddress C E (P + (E.keccak t : Nat) • C.BASE) := by
  rw [stealthAddressOf, hpub.fromHex, toScalar_keccak]
  by_cases hzero : (E.keccak t : Nat) % C.n = 0
  · rw [if_pos hzero, if_pos hzero]
    rfl
  · have hlt : (E.keccak t : Nat) % C.n < C.n := Nat.mod_lt _ C.n_prime.pos
    have hmul := C.multiply_eq C.BASE _ (Nat.pos_of_ne_zero hzero) hlt
    rw [mod_nsmul] at hmul
    rw [if_neg hzero, if_neg hzero]
    change (C.multiply C.BASE _ >>= _) = _
    rw [hmul]
    rfl

/-- Every point but the one at infinity has an address. -/
theorem pointAddress_ok {P : G} (hP : P ≠ 0) : ∃ c, pointAddress C E P = .ok c := by
  obtain ⟨bs, hbs, -⟩ := C.toRawBytes_length P false hP
  obtain ⟨c, hc⟩ := publicKeyToAddress_ok E bs
  rw [pointAddress, hbs]
  exact ⟨c, hc⟩

theorem pointAddress_ne_zero {P : G} {c : Text} (h : pointAddress C E P = .ok c) : P ≠ 0 := by
  rintro rfl
  obtain ⟨e, he⟩ := C.toRawBytes_zero false
  rw [pointAddress, he] at h
  cases h

/-- The spending scalar moved by a hash. -/
theorem computeStealthPrivateKey_ok {spendingKey viewingKey ephemeralPublicKey t : Text} {s : Nat}
    (hs : IsKey C spendingKey s)
    (hshared : sharedSecretHash C E viewingKey ephemeralPublicKey = .ok (keccak256 E t))
    (hhash : (E.keccak t : Nat) % C.n ≠ 0) (hsum : (s + E.keccak t) % C.n ≠ 0) :
    ∃ key, computeStealthPrivateKey C E spendingKey viewingKey ephemeralPublicKey = .ok key ∧
      IsKey C key ((s + E.keccak t) % C.n) := by
  obtain ⟨key, hkey, hiskey⟩ := scalarToHex_ok (Nat.pos_of_ne_zero hsum)
    (Nat.mod_lt (s + E.keccak t) C.n_prime.pos)
  refine ⟨key, ?_, hiskey⟩
  have hmod : ((s : Int) + ((E.keccak t : Nat) % C.n : Nat)).tmod C.n =
      ((s + E.keccak t) % C.n : Nat) := by
    rw [← Int.natCast_add, ← Int.ofNat_tmod, Nat.add_mod_mod]
  rw [computeStealthPrivateKey, hshared, hs.bigInt, ok_bind, ok_bind, toScalar_keccak,
    if_neg hhash, ok_bind]
  simp only [hmod]
  rw [if_neg (by exact_mod_cast hsum), hkey]

/-- The key of a sum is the key of the moved point. -/
theorem sum_nsmul (s h : Nat) : ((s + h) % C.n) • C.BASE = s • C.BASE + h • C.BASE := by
  rw [mod_nsmul, add_nsmul]

end Keys

section Encodings

variable {G : Type} [AddCommGroup G] {C : Noble G} {E : Viem}

theorem trim_scheme {body : Text} (h : IsHex body) (hne : body ≠ []) :
    trim ("st:rho:0x".toList ++ body) = "st:rho:0x".toList ++ body := by
  have hdrop : ("st:rho:0x".toList ++ body).dropWhile isSpace = "st:rho:0x".toList ++ body := by
    change ('s' :: ("t:rho:0x".toList ++ body)).dropWhile isSpace = _
    rw [List.dropWhile_cons_of_neg (by decide)]
    rfl
  rw [trim, hdrop, List.rdropWhile_eq_self_iff]
  intro _
  rw [List.getLast_append_of_ne_nil _ hne]
  simp [isSpace_hex (h _ (List.getLast_mem hne))]

theorem dropScheme_scheme (body : Text) :
    dropScheme ("st:rho:0x".toList ++ body) = '0' :: 'x' :: body := by
  change dropScheme ('s' :: 't' :: ':' :: 'r' :: 'h' :: 'o' :: ':' :: '0' :: 'x' :: body) = _
  have hscheme : ('r' :: 'h' :: 'o' :: ':' :: '0' :: 'x' :: body).takeWhile Char.isAlphanum =
      ['r', 'h', 'o'] := rfl
  have hrest : ('r' :: 'h' :: 'o' :: ':' :: '0' :: 'x' :: body).dropWhile Char.isAlphanum =
      ':' :: '0' :: 'x' :: body := rfl
  rw [dropScheme, hscheme, hrest, if_pos (by decide)]
  rfl

/-- **A meta-address is read back as the two keys it was written from.** -/
theorem parseMetaAddress_encode {p q : Text} {P Q : G} (hp : IsPublicKey C p P)
    (hq : IsPublicKey C q Q) :
    parseMetaAddress C (encodeMetaAddress p q) = .ok ⟨p, q⟩ := by
  have hpoint := hp.fromHex
  have hqoint := hq.fromHex
  obtain ⟨ps, rfl, hplen, hphex⟩ := hp.text.eq_cons
  obtain ⟨qs, rfl, hqlen, hqhex⟩ := hq.text.eq_cons
  have hne : qs ≠ [] := by
    rintro rfl
    simp at hqlen
  have hbody : dropScheme (trim (encodeMetaAddress ('0' :: 'x' :: ps) ('0' :: 'x' :: qs))) =
      '0' :: 'x' :: (ps ++ qs) := by
    have happ : encodeMetaAddress ('0' :: 'x' :: ps) ('0' :: 'x' :: qs) =
        "st:rho:0x".toList ++ (ps ++ qs) := List.append_assoc _ _ _
    rw [happ, trim_scheme (isHex_append.mpr ⟨hphex, hqhex⟩) (by simp [hne]), dropScheme_scheme]
  have htext : IsHexText 132 ('0' :: 'x' :: (ps ++ qs)) := by
    rw [isHexText_cons, isHex_append, List.length_append]
    exact ⟨by omega, hphex, hqhex⟩
  have hspending : slice ('0' :: 'x' :: (ps ++ qs)) 2 68 = ps := by
    rw [slice, List.take_succ_cons, List.take_succ_cons, List.drop_succ_cons, List.drop_succ_cons,
      List.drop_zero, List.take_append_of_le_length (by omega), List.take_of_length_le (by omega)]
  have hviewing : slice ('0' :: 'x' :: (ps ++ qs)) 68 134 = qs := by
    rw [slice, List.take_of_length_le (by simp; omega), List.drop_succ_cons, List.drop_succ_cons,
      List.drop_append_of_le_length (by omega), List.drop_of_length_le (by omega), List.nil_append]
  have hcurve : ∀ {key : Text} {R : G}, C.fromHex (key.drop 2) = .ok R →
      onCurve C key = .ok () := by
    intro key R h
    rw [onCurve, h]
  have hkeys : ['0' :: 'x' :: ps, '0' :: 'x' :: qs].forM (onCurve C) = .ok () := by
    rw [forM_eq_ok]
    simp [hcurve hpoint, hcurve hqoint]
  rw [parseMetaAddress, hbody, hspending, hviewing, if_neg (not_not.mpr htext)]
  change ([_, _].forM (onCurve C) >>= _) = _
  rw [hkeys]
  rfl

theorem pad_numeral {n size : Nat} (hsize : 0 < size) (h : n < 16 ^ (size * 2)) :
    pad ('0' :: 'x' :: numeral n) size = .ok ('0' :: 'x' :: padStart (size * 2) (numeral n)) := by
  have hlen := length_numeral_le (by omega) h
  rw [pad, dropPrefix, if_neg (by omega)]

/-- Metadata that has an encoding. -/
structure AnnouncementMetadata.Fits (m : AnnouncementMetadata) : Prop where
  viewTag : ∃ k : Nat, k < 256 ∧ m.viewTag = some (k : Int)
  token : IsHexText 40 m.token
  amount : ∃ k : Nat, k < 2 ^ 256 ∧ m.amount = k

/-- **Metadata is read back as it was written**, its token in checksum case. -/
theorem decodeMetadata_encode {m : AnnouncementMetadata} (hm : m.Fits) :
    ∃ text token, encodeMetadata E m = .ok text ∧ E.getAddress m.token = .ok token ∧
      toLowerCase token = toLowerCase m.token ∧
      decodeMetadata E text = .ok (some { m with token }) := by
  obtain ⟨viewTag, original, amount⟩ := m
  obtain ⟨⟨k, hk, rfl⟩, htoken, ⟨a, ha, rfl⟩⟩ := hm
  obtain ⟨token, hget⟩ := E.getAddress_ok original htoken
  obtain ⟨-, hcased, hlower⟩ := E.getAddress_case _ _ hget
  have hagain : E.getAddress token = .ok token := by
    rw [E.getAddress_congr _ _ hcased htoken hlower, hget]
  obtain ⟨ts, rfl, htlen, hthex⟩ := hcased.eq_cons
  have hklen := length_padStart (length_numeral_le (w := 2) (by decide) (show k < 16 ^ 2 from hk))
  have halen := length_padStart (length_numeral_le (w := 64) (by decide) (show a < 16 ^ 64 from ha))
  have hkhex := isHex_padStart (w := 2) (isHex_numeral k)
  have hahex := isHex_padStart (w := 64) (isHex_numeral a)
  have hencode : encodeMetadata E ⟨some k, original, a⟩ =
      .ok (concatHex ['0' :: 'x' :: padStart 2 (numeral k), '0' :: 'x' :: ts,
        '0' :: 'x' :: padStart 64 (numeral a)]) := by
    simp only [encodeMetadata, toHex, hget]
    have hktag : pad ('0' :: 'x' :: numeral k) 1 = .ok ('0' :: 'x' :: padStart 2 (numeral k)) :=
      pad_numeral (by decide) hk
    have hatag : pad ('0' :: 'x' :: numeral a) 32 = .ok ('0' :: 'x' :: padStart 64 (numeral a)) :=
      pad_numeral (by decide) ha
    change (pad ('0' :: 'x' :: numeral k) 1 >>= _) = _
    rw [hktag]
    change (pad ('0' :: 'x' :: numeral a) 32 >>= _) = _
    rw [hatag]
    rfl
  obtain ⟨c, d, hcd⟩ := List.length_eq_two.mp hklen
  have htag : parseInt16 [c, d] = some (k : Int) := by
    have hvalue := value_padStart 2 (numeral k)
    rw [hcd] at hkhex hvalue
    simp only [isHex_cons, isHex_nil, and_true] at hkhex
    rw [value_cons, value_singleton, value_numeral] at hvalue
    rw [parseInt16_pair hkhex.1 hkhex.2, ← hvalue]
    simp
  have hamount : bigInt ('0' :: 'x' :: padStart 64 (numeral a)) = .ok (a : Int) := by
    rw [bigInt_hex hahex (List.ne_nil_of_length_pos (by omega)), value_padStart, value_numeral]
  refine ⟨_, _, hencode, hget, hlower, ?_⟩
  rw [hcd]
  have hbody : dropPrefix (concatHex ['0' :: 'x' :: [c, d], '0' :: 'x' :: ts,
      '0' :: 'x' :: padStart 64 (numeral a)]) = c :: d :: (ts ++ padStart 64 (numeral a)) := by
    simp [concatHex, dropPrefix]
  have hlong : ¬ (c :: d :: (ts ++ padStart 64 (numeral a))).length < 2 + 40 + 64 := by
    simp only [List.length_cons, List.length_append]
    omega
  have htoken : slice (c :: d :: (ts ++ padStart 64 (numeral a))) 2 42 = ts := by
    rw [slice, List.take_succ_cons, List.take_succ_cons, List.drop_succ_cons, List.drop_succ_cons,
      List.drop_zero, List.take_append_of_le_length (by omega), List.take_of_length_le (by omega)]
  have hrest : slice (c :: d :: (ts ++ padStart 64 (numeral a))) 42 106 =
      padStart 64 (numeral a) := by
    rw [slice, List.take_of_length_le (by simp; omega), List.drop_succ_cons, List.drop_succ_cons,
      List.drop_append_of_le_length (by omega), List.drop_of_length_le (by omega), List.nil_append]
  rw [decodeMetadata, hbody, if_neg (by omega), if_neg hlong, htoken, hrest, hagain, hamount]
  change Except.ok (some (AnnouncementMetadata.mk (parseInt16 [c, d]) _ _)) = _
  rw [htag]

/-- Only a number that fits is padded. -/
theorem pad_toHex {n : Number} {size : Nat} {text : Text}
    (h : (toHex n >>= fun hex => pad hex size) = .ok text) :
    ∃ k : Nat, k < 16 ^ (size * 2) ∧ n = some (k : Int) := by
  cases n with
  | none => cases h
  | some i =>
      cases i with
      | negSucc k => cases h
      | ofNat k =>
          change pad ('0' :: 'x' :: numeral k) size = _ at h
          rw [pad, dropPrefix] at h
          split at h
          · cases h
          next hlen =>
            have hlt := value_lt (numeral k)
            rw [value_numeral] at hlt
            exact ⟨k, lt_of_lt_of_le hlt (Nat.pow_le_pow_right (by decide) (by omega)), rfl⟩

/-- Metadata that does not fit is not encoded. -/
theorem fits_of_encode {m : AnnouncementMetadata} {text : Text}
    (h : encodeMetadata E m = .ok text) : m.Fits := by
  unfold encodeMetadata at h
  cases htag : (toHex m.viewTag >>= fun hex => pad hex 1) with
  | error e =>
      rw [← bind_assoc, htag] at h
      cases h
  | ok viewTag =>
      rw [← bind_assoc, htag, ok_bind] at h
      cases hget : E.getAddress m.token with
      | error e =>
          rw [hget] at h
          cases h
      | ok token =>
          rw [hget, ok_bind] at h
          cases hamount : (toHex (some m.amount) >>= fun hex => pad hex 32) with
          | error e =>
              rw [← bind_assoc, hamount] at h
              cases h
          | ok amount =>
              obtain ⟨a, ha, heq⟩ := pad_toHex hamount
              exact
                { viewTag := pad_toHex htag
                  token := (E.getAddress_case _ _ hget).1
                  amount := ⟨a, ha, Option.some.inj heq⟩ }

end Encodings

section Owner

variable {G : Type} [AddCommGroup G] {C : Noble G} {E : Viem}

/-- **Whatever a scanner recognises, the recipient can spend**: the address it reports
is the announced one, and the key computed from the same announcement is its key. -/
theorem recognised_spendable {spendingKey viewingKey spendingPublicKey d : Text} {s : Nat}
    {a : Announcement} (hs : IsKey C spendingKey s)
    (hpub : IsPublicKey C spendingPublicKey (s • C.BASE))
    (h : checkAnnouncement C E viewingKey spendingPublicKey a = .ok (some d)) :
    toLowerCase d = toLowerCase a.stealthAddress ∧
      ∃ key, computeStealthPrivateKey C E spendingKey viewingKey a.ephemeralPublicKey = .ok key ∧
        addressOfKey C E key = .ok d := by
  unfold checkAnnouncement at h
  cases hshared : sharedSecretHash C E viewingKey a.ephemeralPublicKey with
  | error e => simp [hshared] at h
  | ok hashed =>
      obtain ⟨t, rfl⟩ := sharedSecretHash_ok E hshared
      simp only [hshared] at h
      split at h
      · cases h
      · rw [stealthAddressOf_eq E hpub] at h
        by_cases hhash : (E.keccak t : Nat) % C.n = 0
        · rw [if_pos hhash] at h
          cases h
        · rw [if_neg hhash] at h
          cases haddr : pointAddress C E (s • C.BASE + (E.keccak t : Nat) • C.BASE) with
          | error e =>
              rw [haddr] at h
              cases h
          | ok derived =>
              rw [haddr, ok_bind] at h
              -- A point with an address is not the one at infinity, so the key is not zero.
              have hsum : (s + E.keccak t) % C.n ≠ 0 := by
                intro hzero
                have hpoint := sum_nsmul (C := C) s (E.keccak t)
                rw [hzero, zero_nsmul] at hpoint
                exact pointAddress_ne_zero E haddr hpoint.symm
              obtain ⟨key, hkey, hiskey⟩ := computeStealthPrivateKey_ok E hs hshared hhash hsum
              have hcontrols : addressOfKey C E key = .ok derived := by
                rw [hiskey.addressOfKey E, sum_nsmul, haddr]
              split at h
              next hsame =>
                cases h
                exact ⟨hsame, key, hkey, hcontrols⟩
              · cases h

/-- Both sides derive the address of the spending scalar moved by the hash. -/
theorem stealthAddressOf_ok {spendingPublicKey t : Text} {s : Nat}
    (hpub : IsPublicKey C spendingPublicKey (s • C.BASE))
    (hhash : (E.keccak t : Nat) % C.n ≠ 0) (hsum : (s + E.keccak t) % C.n ≠ 0) :
    ∃ address, stealthAddressOf C E spendingPublicKey (keccak256 E t) = .ok address ∧
      pointAddress C E (((s + E.keccak t) % C.n) • C.BASE) = .ok address := by
  have hpoint : ((s + E.keccak t) % C.n) • C.BASE ≠ 0 := by
    rw [Ne, nsmul_eq_zero_iff C C.base_ne_zero, Nat.mod_mod]
    exact hsum
  obtain ⟨address, haddr⟩ := pointAddress_ok E hpoint
  refine ⟨address, ?_, haddr⟩
  rw [stealthAddressOf_eq E hpub, if_neg hhash, ← sum_nsmul, haddr]

/-- What a payer announces. -/
theorem generateStealthAddress_ok {p q : Text} {ephemeral : Option Text} {rolled : Bytes}
    {s v r : Nat} (hp : IsPublicKey C p (s • C.BASE)) (hq : IsPublicKey C q (v • C.BASE))
    (hr : IsKey C (ephemeral.getD (bytesToHex rolled)) r)
    (hhash : secretOf C E ((r * v) • C.BASE) % C.n ≠ 0)
    (hsum : (s + secretOf C E ((r * v) • C.BASE)) % C.n ≠ 0) :
    ∃ payment,
      generateStealthAddress C E (encodeMetaAddress p q) ephemeral rolled = .ok payment ∧
      pointAddress C E (((s + secretOf C E ((r * v) • C.BASE)) % C.n) • C.BASE) =
        .ok payment.stealthAddress ∧
      IsPublicKey C payment.ephemeralPublicKey (r • C.BASE) ∧
      payment.viewTag =
        numberOf (slice (keccak256 E (sharedText C ((r * v) • C.BASE))) 2 4) := by
  have hshared := sharedSecretHash_eq E hr hq
  rw [← mul_nsmul'] at hshared
  obtain ⟨address, haddress, hpoint⟩ := stealthAddressOf_ok hp hhash hsum
  obtain ⟨bs, hbs, hpub⟩ := hr.publicKey
  have hpayment : generateStealthAddress C E (encodeMetaAddress p q) ephemeral rolled =
      .ok
        { stealthAddress := address
          ephemeralPublicKey := bytesToHex bs
          viewTag := numberOf (slice (keccak256 E (sharedText C ((r * v) • C.BASE))) 2 4)
          ephemeralPrivateKey := ephemeral.getD (bytesToHex rolled) } := by
    rw [generateStealthAddress, parseMetaAddress_encode hp hq]
    simp only [ok_bind, hshared, haddress, hbs]
  exact ⟨_, hpayment, hpoint, hpub, rfl⟩

/-- What a scanner answers. -/
theorem checkAnnouncement_ok {viewingKey p ephemeralPublicKey address : Text} {s v r : Nat}
    {tag : Option Number} (hp : IsPublicKey C p (s • C.BASE)) (hv : IsKey C viewingKey v)
    (hr : IsPublicKey C ephemeralPublicKey (r • C.BASE))
    (hhash : secretOf C E ((r * v) • C.BASE) % C.n ≠ 0)
    (hsum : (s + secretOf C E ((r * v) • C.BASE)) % C.n ≠ 0)
    (haddress : pointAddress C E (((s + secretOf C E ((r * v) • C.BASE)) % C.n) • C.BASE) =
      .ok address)
    (htag : tag = none ∨
      tag = some (numberOf (slice (keccak256 E (sharedText C ((r * v) • C.BASE))) 2 4))) :
    checkAnnouncement C E viewingKey p ⟨address, ephemeralPublicKey, tag⟩ = .ok (some address) := by
  have hshared := sharedSecretHash_eq E hv hr
  rw [← mul_nsmul] at hshared
  obtain ⟨derived, hderived, hpoint⟩ := stealthAddressOf_ok hp hhash hsum
  obtain rfl : derived = address := by
    have hsame := hpoint.symm.trans haddress
    exact Except.ok.inj hsame
  have hpasses : (tag.any fun tag => !sameNumber
      (numberOf (slice (keccak256 E (sharedText C ((r * v) • C.BASE))) 2 4)) tag) = false := by
    obtain ⟨k, hk⟩ := viewTag_isSome E (sharedText C ((r * v) • C.BASE))
    rcases htag with rfl | rfl
    · rfl
    · simp [sameNumber, hk]
  unfold checkAnnouncement
  simp only [hshared, hpasses, hderived, ok_bind, if_true, Bool.false_eq_true, if_false]

/-- An address is written in one case. -/
theorem checksum_unique {c d t u : Text} (hc : E.getAddress t = .ok c) (hd : E.getAddress u = .ok d)
    (h : toLowerCase d = toLowerCase c) : d = c := by
  obtain ⟨htext, -, hlower⟩ := E.getAddress_case _ _ hc
  obtain ⟨hutext, -, hulower⟩ := E.getAddress_case _ _ hd
  have hsame := E.getAddress_congr _ _ hutext htext (by rw [← hulower, h, hlower])
  exact Except.ok.inj (hd.symm.trans (hsame.trans hc))

/-- The address of any bytes that were read without an error. -/
theorem getAddress_of_bind {raw : Except Thrown Bytes} {c : Text}
    (h : (raw >>= publicKeyToAddress E) = .ok c) : ∃ t, E.getAddress t = .ok c := by
  cases raw with
  | error e => cases h
  | ok bs => exact ⟨_, h⟩

/-- A public key is the key of one scalar. -/
theorem IsKey.unique {key other : Text} {k l : Nat} (hk : IsKey C key k) (hl : IsKey C other l)
    (h : C.getPublicKey (hexToBytes other) false = C.getPublicKey (hexToBytes key) false) :
    l = k := by
  rw [hk.getPublicKey, hl.getPublicKey] at h
  obtain ⟨bs, hbs, -⟩ := C.toRawBytes_length _ false (hk.nsmul_ne_zero C.base_ne_zero)
  have hone := C.fromHex_digitsOf _ _ _ hbs
  have htwo := C.fromHex_digitsOf _ _ _ (h.trans hbs)
  have hpoint : k • C.BASE = l • C.BASE := Except.ok.inj (hone.symm.trans htwo)
  exact (nsmul_inj C hk.lt hl.lt hpoint).symm

/-- **A payment reaches its owner, and only its owner.**  From the meta-address of two keys
a payer derives an address that the viewing key recognises, by its tag or without one.  The
key computed from the announcement spends from that address, and no other scalar has its
public key; whoever else recognises the announcement has found a key of the same address.
Meta-addresses and metadata are read back as they were written. -/
theorem payment_reaches_owner {spendingKey viewingKey : Text} {ephemeralKey : Option Text}
    {rolled : Bytes} {s v r : Nat} (hs : IsKey C spendingKey s) (hv : IsKey C viewingKey v)
    (hr : IsKey C (ephemeralKey.getD (bytesToHex rolled)) r)
    (hhash : secretOf C E ((r * v) • C.BASE) % C.n ≠ 0)
    (hsum : (s + secretOf C E ((r * v) • C.BASE)) % C.n ≠ 0) :
    (∃ keys payment key,
      fromPrivateKeys C spendingKey viewingKey = .ok keys ∧
      parseMetaAddress C keys.metaAddress =
        .ok ⟨keys.spendingPublicKey, keys.viewingPublicKey⟩ ∧
      generateStealthAddress C E keys.metaAddress ephemeralKey rolled = .ok payment ∧
      (∀ tag, tag = none ∨ tag = some payment.viewTag →
        checkAnnouncement C E viewingKey keys.spendingPublicKey
          ⟨payment.stealthAddress, payment.ephemeralPublicKey, tag⟩ =
            .ok (some payment.stealthAddress)) ∧
      computeStealthPrivateKey C E spendingKey viewingKey payment.ephemeralPublicKey = .ok key ∧
      addressOfKey C E key = .ok payment.stealthAddress ∧
      IsKey C key ((s + secretOf C E ((r * v) • C.BASE)) % C.n) ∧
      (∀ other k, IsKey C other k →
        C.getPublicKey (hexToBytes other) false = C.getPublicKey (hexToBytes key) false →
        k = (s + secretOf C E ((r * v) • C.BASE)) % C.n) ∧
      ∀ otherSpending otherViewing otherKeys k tag d, IsKey C otherSpending k →
        fromPrivateKeys C otherSpending otherViewing = .ok otherKeys →
        checkAnnouncement C E otherViewing otherKeys.spendingPublicKey
          ⟨payment.stealthAddress, payment.ephemeralPublicKey, tag⟩ = .ok (some d) →
        ∃ other, computeStealthPrivateKey C E otherSpending otherViewing
            payment.ephemeralPublicKey = .ok other ∧
          addressOfKey C E other = .ok payment.stealthAddress) ∧
    (∀ p q P Q, IsPublicKey C p P → IsPublicKey C q Q →
      parseMetaAddress C (encodeMetaAddress p q) = .ok ⟨p, q⟩) ∧
    ∀ m : AnnouncementMetadata, (m.Fits ↔ ∃ text, encodeMetadata E m = .ok text) ∧
      ∀ text, encodeMetadata E m = .ok text →
        ∃ token, E.getAddress m.token = .ok token ∧ toLowerCase token = toLowerCase m.token ∧
          decodeMetadata E text = .ok (some { m with token }) := by
  obtain ⟨ps, hps, hp⟩ := hs.publicKey
  obtain ⟨qs, hqs, hq⟩ := hv.publicKey
  obtain ⟨payment, hpayment, haddress, hephemeral, hviewTag⟩ :=
    generateStealthAddress_ok hp hq hr hhash hsum
  have hshared := sharedSecretHash_eq E hv hephemeral
  rw [← mul_nsmul] at hshared
  obtain ⟨key, hkey, hiskey⟩ := computeStealthPrivateKey_ok E hs hshared hhash hsum
  have hkeys : fromPrivateKeys C spendingKey viewingKey =
      .ok ⟨spendingKey, viewingKey, bytesToHex ps, bytesToHex qs,
        encodeMetaAddress (bytesToHex ps) (bytesToHex qs)⟩ := by
    rw [fromPrivateKeys, hps, hqs]
    rfl
  refine ⟨⟨_, payment, key, hkeys, parseMetaAddress_encode hp hq, hpayment, ?_, hkey, ?_, hiskey,
    fun other k hother hsame => hiskey.unique hother hsame, ?_⟩,
    fun p q P Q hp hq => parseMetaAddress_encode hp hq, fun m => ⟨⟨?_, ?_⟩, ?_⟩⟩
  · intro tag htag
    rw [hviewTag] at htag
    exact checkAnnouncement_ok hp hv hephemeral hhash hsum haddress htag
  · rw [hiskey.addressOfKey E]
    exact haddress
  · intro otherSpending otherViewing otherKeys k tag d hother hothers hrecognised
    obtain ⟨hsame, other, hcomputed, hspends⟩ :=
      recognised_spendable hother (hother.spendingPublicKey hothers) hrecognised
    obtain ⟨t, ht⟩ := getAddress_of_bind haddress
    obtain ⟨u, hu⟩ := getAddress_of_bind hspends
    rw [checksum_unique ht hu hsame] at hspends
    exact ⟨other, hcomputed, hspends⟩
  · intro hm
    obtain ⟨text, -, htext, -⟩ := decodeMetadata_encode (E := E) hm
    exact ⟨text, htext⟩
  · rintro ⟨text, htext⟩
    exact fits_of_encode htext
  · intro text htext
    obtain ⟨text', token, htext', hrest⟩ := decodeMetadata_encode (E := E) (fits_of_encode htext)
    obtain rfl : text' = text := Except.ok.inj (htext'.symm.trans htext)
    exact ⟨token, hrest⟩

section Sample

/-- Seven points, each written by its number. -/
def rawBytes (P : ZMod 7) (compressed : Bool) : Except Thrown Bytes :=
  if P = 0 then .error (.rejected "bad point: ZERO")
  else if compressed then .ok (2 :: List.replicate 31 0 ++ [UInt8.ofNat P.val])
  else .ok (4 :: List.replicate 63 0 ++ [UInt8.ofNat P.val])

def scalarOf (key : Bytes) : Except Thrown Nat :=
  if key.length = 32 ∧ 0 < word key ∧ word key < 7 then .ok (word key)
  else .error (.rejected "invalid private key")

def pointOf (bs : Bytes) : Except Thrown (ZMod 7) :=
  match bs.getLast? with
  | some b => .ok (b.toNat : ZMod 7)
  | none => .error (.rejected "Point of length 0 was invalid")

theorem pointOf_rawBytes {P : ZMod 7} {compressed : Bool} {bs : Bytes}
    (h : rawBytes P compressed = .ok bs) : pointOf bs = .ok P := by
  have hback : ∀ P : ZMod 7, ((UInt8.ofNat P.val).toNat : ZMod 7) = P := by decide
  unfold rawBytes at h
  split at h
  · cases h
  · split at h
    · cases h
      rw [pointOf, List.getLast?_append_cons]
      exact congrArg Except.ok (hback P)
    · cases h
      rw [pointOf, List.getLast?_append_cons]
      exact congrArg Except.ok (hback P)

/-- A small curve of prime order. -/
def sampleCurve : Noble (ZMod 7) where
  n := 7
  BASE := 1
  multiply P k := if 0 < k ∧ k < 7 then .ok (k.toNat • P) else .error (.rejected "invalid scalar")
  fromHex t := pointOf (bytesOf t)
  toRawBytes := rawBytes
  getPublicKey key compressed := do rawBytes ((← scalarOf key) • (1 : ZMod 7)) compressed
  getSharedSecret key bs compressed := do
    let P ← pointOf bs
    rawBytes ((← scalarOf key) • P) compressed
  n_prime := by decide
  n_lt := by decide
  nsmul_n := by decide
  base_ne_zero := by decide
  multiply_eq P k hpos hlt := by
    rw [if_pos ⟨by omega, by omega⟩, Int.toNat_natCast]
  toRawBytes_zero compressed := ⟨_, rfl⟩
  toRawBytes_length P compressed hP := by
    cases compressed <;> simp [rawBytes, hP]
  fromHex_digitsOf P compressed bs h := by
    rw [bytesOf_digitsOf]
    exact pointOf_rawBytes h
  getPublicKey_eq key compressed hlen hpos hlt := by
    rw [scalarOf, if_pos ⟨hlen, hpos, hlt⟩]
    rfl
  getSharedSecret_eq key P bs compressed hlen hpos hlt h := by
    rw [pointOf_rawBytes h, scalarOf, if_pos ⟨hlen, hpos, hlt⟩]
    rfl

theorem toLower_hex {c : Char} (h : (hexDigit? c).isSome) :
    (hexDigit? c.toLower).isSome ∧ c.toLower.toLower = c.toLower := by
  have hall : ∀ n ∈ List.range' 0x30 10 ++ List.range' 0x41 6 ++ List.range' 0x61 6,
      (hexDigit? (Char.ofNat n).toLower).isSome ∧
        (Char.ofNat n).toLower.toLower = (Char.ofNat n).toLower := by decide
  have hc := hall c.toNat (by
    have := hexDigit_range h
    simp only [List.mem_append, List.mem_range'_1]
    omega)
  rwa [Char.ofNat_toNat] at hc

theorem isHexText_toLowerCase {k : Nat} {t : Text} (h : IsHexText k t) :
    IsHexText k (toLowerCase t) ∧ toLowerCase (toLowerCase t) = toLowerCase t := by
  obtain ⟨ds, rfl, hlen, hhex⟩ := h.eq_cons
  have hcons : toLowerCase ('0' :: 'x' :: ds) = '0' :: 'x' :: toLowerCase ds := rfl
  rw [hcons, isHexText_cons]
  refine ⟨⟨by simp [toLowerCase, hlen], ?_⟩, ?_⟩
  · intro c hc
    obtain ⟨d, hd, rfl⟩ := List.mem_map.mp hc
    exact (toLower_hex (hhex d hd)).1
  · have hds : toLowerCase (toLowerCase ds) = toLowerCase ds := by
      rw [toLowerCase, toLowerCase, List.map_map]
      exact List.map_congr_left fun d hd => (toLower_hex (hhex d hd)).2
    change '0' :: 'x' :: toLowerCase (toLowerCase ds) = _
    rw [hds]

/-- A hash that adds up, and addresses in lower case. -/
def sampleViem : Viem where
  keccak t := Fin.ofNat _ ((2 ^ 248 + 1) * t.foldl (fun n c => n + c.toNat) 91)
  getAddress t :=
    if IsHexText 40 t then .ok (toLowerCase t) else .error (.rejected "InvalidAddressError")
  getAddress_ok t h := ⟨_, if_pos h⟩
  getAddress_case t c h := by
    split at h
    next ht =>
      cases h
      exact ⟨ht, isHexText_toLowerCase ht⟩
    · cases h
  getAddress_congr t t' h h' hsame := by rw [if_pos h, if_pos h', hsame]

/-- The key of a small scalar. -/
def sampleKey (d : Char) : Text := '0' :: 'x' :: padStart 64 [d]

theorem isKey_sampleKey {d : Char} {k : Nat} (hd : hexDigit? d = some k) (hpos : 0 < k)
    (hlt : k < 7) : IsKey sampleCurve (sampleKey d) k where
  text := by
    have hhex : IsHex [d] := by simp [hd]
    exact isHexText_cons.mpr ⟨length_padStart (by simp), isHex_padStart hhex⟩
  value := by simp [sampleKey, digit, hd]
  pos := hpos
  lt := hlt

theorem payment_reaches_owner_sample : ∃ keys payment key,
    fromPrivateKeys sampleCurve (sampleKey '2') (sampleKey '3') = .ok keys ∧
    generateStealthAddress sampleCurve sampleViem keys.metaAddress (some (sampleKey '4')) [] =
      .ok payment ∧
    checkAnnouncement sampleCurve sampleViem (sampleKey '3') keys.spendingPublicKey
      ⟨payment.stealthAddress, payment.ephemeralPublicKey, some payment.viewTag⟩ =
        .ok (some payment.stealthAddress) ∧
    computeStealthPrivateKey sampleCurve sampleViem (sampleKey '2') (sampleKey '3')
      payment.ephemeralPublicKey = .ok key ∧
    addressOfKey sampleCurve sampleViem key = .ok payment.stealthAddress := by
  have hs : IsKey sampleCurve (sampleKey '2') 2 := isKey_sampleKey rfl (by decide) (by decide)
  have hv : IsKey sampleCurve (sampleKey '3') 3 := isKey_sampleKey rfl (by decide) (by decide)
  have hr : IsKey sampleCurve ((some (sampleKey '4')).getD (bytesToHex [])) 4 :=
    isKey_sampleKey rfl (by decide) (by decide)
  obtain ⟨⟨keys, payment, key, hkeys, -, hpayment, hcheck, hkey, haddress, -⟩, -⟩ :=
    payment_reaches_owner (C := sampleCurve) (E := sampleViem) hs hv hr
      (by decide +kernel) (by decide +kernel)
  exact ⟨keys, payment, key, hkeys, hpayment, hcheck _ (Or.inr rfl), hkey, haddress⟩

end Sample

end Owner

end Stealth

end Ordo
