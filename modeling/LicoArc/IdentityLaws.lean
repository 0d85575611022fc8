import LicoArc.Interaction.Sequence
import LicoArc.UserAuthority
import LicoArc.EncodingLaws

/-!
# What the validators of an identity record establish

Each accessor and each shape check by what holds when it succeeds. A text of
lower-case hexadecimal digits decodes to half as many bytes, without a slice
inside a character.
-/

namespace LicoArc

namespace Identity

open Json

section Accessors

variable {object : Map} {key : String}

@[simp] theorem members_eq_ok {value : Value} {record : Map} :
    members value = .ok record ↔ value = .object record := by
  rw [members, okOr_eq_ok, Value.asObject_eq_some]

@[simp] theorem items_eq_ok {value : Value} {values : List Value} :
    items value = .ok values ↔ value = .array values := by
  rw [items, okOr_eq_ok, Value.asArray_eq_some]

@[simp] theorem text_eq_ok {t : String} :
    text object key = .ok t ↔ object.get key = some (.string t) := by
  rw [text, okOr_eq_ok, Option.bind_eq_some_iff]
  simp [Value.asStr_eq_some]

@[simp] theorem array_eq_ok {values : List Value} :
    array object key = .ok values ↔ object.get key = some (.array values) := by
  rw [array, okOr_eq_ok, Option.bind_eq_some_iff]
  simp [Value.asArray_eq_some]

theorem unsigned_eq_ok {n : Nat} :
    unsigned object key = .ok n ↔ (object.get key).bind Value.asU64 = some n ∧ n ≤ maxEpoch := by
  rw [unsigned, okOr_eq_ok, Option.filter_eq_some_iff]
  simp

theorem decodedHex_eq_ok {n : Nat} {v : FixedBytes n} :
    decodedHex n object key = .ok v ↔
      ∃ t, object.get key = some (.string t) ∧ decodeHexText t = .ok v.toList := by
  simp [decodedHex, Except.bind_eq_ok, FixedBytes.ofBytes?_eq_some]

theorem closed_eq_ok {allowed required : List String} {u : Unit} :
    closed object allowed required = .ok u ↔
      (∀ entry ∈ object, entry.1 ∈ allowed) ∧ ∀ key ∈ required, (object.get key).isSome := by
  simp [closed, Except.bind_eq_ok, Map.containsKey, Option.isSome_iff_ne_none]

theorem get_eq_none {allowed required : List String}
    (h : closed object allowed required = .ok ()) (hkey : key ∉ allowed) :
    object.get key = none := by
  rw [Map.get, List.lookup_eq_none_iff]
  intro entry hentry
  have hallowed := (closed_eq_ok.mp h).1 entry hentry
  rw [bne_iff_ne]
  rintro rfl
  exact hkey hallowed

end Accessors

section Hex

structure LowerHex (text : String) (length : Nat) : Prop where
  size : (Encoding.textBytes text).length = length
  digits : ∀ byte ∈ Encoding.textBytes text, isLowerHexDigit byte

def hexDigitByte (digit : Nat) : UInt8 :=
  UInt8.ofNat (if digit < 10 then 48 + digit else 87 + digit)

def hexPair (byte : UInt8) : Bytes :=
  [hexDigitByte (byte.toNat / 16), hexDigitByte (byte.toNat % 16)]

theorem utf8EncodeChar_digitChar {digit : Nat} (h : digit < 16) :
    String.utf8EncodeChar (Nat.digitChar digit) = [hexDigitByte digit] := by
  interval_cases digit <;> rfl

theorem isLowerHexDigit_hexDigitByte {digit : Nat} (h : digit < 16) :
    isLowerHexDigit (hexDigitByte digit) := by
  interval_cases digit <;> rfl

theorem toDigit_hexDigitByte {digit : Nat} (h : digit < 16) :
    toDigit (hexDigitByte digit) = some digit := by
  interval_cases digit <;> rfl

theorem hexDigitByte_ne_sign {digit : Nat} (h : digit < 16) : hexDigitByte digit ≠ 43 := by
  interval_cases digit <;> decide

theorem exists_hexDigitByte {byte : UInt8} (h : isLowerHexDigit byte) :
    ∃ digit < 16, hexDigitByte digit = byte := by
  simp only [isLowerHexDigit, Bool.or_eq_true, Bool.and_eq_true, decide_eq_true_eq,
    UInt8.le_iff_toNat_le] at h
  change (48 ≤ byte.toNat ∧ byte.toNat ≤ 57) ∨ (97 ≤ byte.toNat ∧ byte.toNat ≤ 102) at h
  rcases h with h | h
  · refine ⟨byte.toNat - 48, by omega, ?_⟩
    rw [hexDigitByte, if_pos (by omega), Nat.add_sub_cancel' h.1, UInt8.ofNat_toNat]
  · refine ⟨byte.toNat - 87, by omega, ?_⟩
    rw [hexDigitByte, if_neg (by omega), Nat.add_sub_cancel' (by omega), UInt8.ofNat_toNat]

theorem nibbles_lt (byte : UInt8) : byte.toNat / 16 < 16 ∧ byte.toNat % 16 < 16 := by
  have := byte.toNat_lt
  omega

theorem textBytes_hexBytes (bytes : Bytes) :
    Encoding.textBytes (hexBytes bytes) = bytes.flatMap hexPair := by
  rw [hexBytes, Encoding.textBytes_ofList, List.flatMap_assoc]
  congr
  funext byte
  simp [hexPair, utf8EncodeChar_digitChar (nibbles_lt byte).1,
    utf8EncodeChar_digitChar (nibbles_lt byte).2]

theorem hexPairs_length (bytes : Bytes) : (bytes.flatMap hexPair).length = bytes.length * 2 := by
  simp [List.length_flatMap, hexPair]

theorem lowerHex_hexBytes (bytes : Bytes) : LowerHex (hexBytes bytes) (bytes.length * 2) where
  size := by rw [textBytes_hexBytes, hexPairs_length]
  digits := by
    intro byte hbyte
    rw [textBytes_hexBytes, List.mem_flatMap] at hbyte
    obtain ⟨source, _, hbyte⟩ := hbyte
    rw [hexPair, List.mem_pair] at hbyte
    rcases hbyte with rfl | rfl
    · exact isLowerHexDigit_hexDigitByte (nibbles_lt source).1
    · exact isLowerHexDigit_hexDigitByte (nibbles_lt source).2

theorem exists_hexPairs {size : Nat} {d : Bytes} (hsize : d.length = size * 2)
    (h : ∀ byte ∈ d, isLowerHexDigit byte) :
    ∃ bytes : Bytes, bytes.length = size ∧ d = bytes.flatMap hexPair := by
  induction size generalizing d with
  | zero => exact ⟨[], rfl, List.length_eq_zero_iff.mp (by omega)⟩
  | succ size ih =>
    match d with
    | [] | [_] => simp only [List.length_nil, List.length_cons] at hsize; omega
    | a :: b :: rest =>
      simp only [List.length_cons] at hsize
      obtain ⟨bytes, hlength, hrest⟩ := ih (d := rest) (by omega) fun byte hbyte =>
        h byte (List.mem_cons_of_mem _ (List.mem_cons_of_mem _ hbyte))
      obtain ⟨high, hhigh, rfl⟩ := exists_hexDigitByte (h a List.mem_cons_self)
      obtain ⟨low, hlow, rfl⟩ := exists_hexDigitByte (h b (by simp))
      refine ⟨UInt8.ofNat (high * 16 + low) :: bytes, by rw [List.length_cons, hlength], ?_⟩
      have hnat : (UInt8.ofNat (high * 16 + low)).toNat = high * 16 + low := by
        rw [UInt8.toNat_ofNat', Nat.mod_eq_of_lt (by omega)]
      rw [List.flatMap_cons, hexPair, hnat, hrest, show (high * 16 + low) / 16 = high by omega,
        show (high * 16 + low) % 16 = low by omega]
      rfl

/-- Lower-case hexadecimal texts are those that the printer writes. -/
theorem lowerHex_iff {t : String} {size : Nat} :
    LowerHex t (size * 2) ↔ ∃ bytes : Bytes, bytes.length = size ∧ t = hexBytes bytes := by
  constructor
  · intro h
    obtain ⟨bytes, hlength, hdigits⟩ := exists_hexPairs h.size h.digits
    refine ⟨bytes, hlength, Encoding.textBytes_injective ?_⟩
    rw [hdigits, textBytes_hexBytes]
  · rintro ⟨bytes, rfl, rfl⟩
    exact lowerHex_hexBytes bytes

theorem fromStrRadix16_hexPair (byte : UInt8) : fromStrRadix16 (hexPair byte) = some byte := by
  obtain ⟨hhigh, hlow⟩ := nibbles_lt byte
  simp only [hexPair, fromStrRadix16, if_neg (hexDigitByte_ne_sign hhigh), digitsRadix16,
    List.foldlM_cons, List.foldlM_nil, toDigit_hexDigitByte hhigh, toDigit_hexDigitByte hlow,
    Option.bind_eq_bind, Option.bind_some, Nat.zero_mul, Nat.zero_add, Option.pure_def]
  rw [if_pos (by omega)]
  simp only [Option.bind_some]
  rw [if_pos (by omega), Option.bind_some, Option.map_some, Nat.div_add_mod', UInt8.ofNat_toNat]

theorem isCharBoundary_of_ascii {bytes : Bytes} (h : ∀ byte ∈ bytes, byte < 0x80) {index : Nat}
    (hindex : index ≤ bytes.length) : isCharBoundary bytes index := by
  rw [isCharBoundary]
  rcases hindex.lt_or_eq with hlt | heq
  · rw [List.getElem?_eq_getElem hlt]
    simp [h _ (List.getElem_mem hlt)]
  · rw [List.getElem?_eq_none heq.ge]
    simp [heq]

theorem hexPairs_ascii (bytes : Bytes) : ∀ byte ∈ bytes.flatMap hexPair, byte < 0x80 := by
  intro byte hbyte
  have hdigit := (lowerHex_hexBytes bytes).digits byte (by rwa [textBytes_hexBytes])
  obtain ⟨digit, hlt, rfl⟩ := exists_hexDigitByte hdigit
  interval_cases digit <;> decide

theorem mapM_decodePair (before rest : Bytes) :
    (List.range' (before.length * 2) rest.length 2).mapM
      (decodePair ((before ++ rest).flatMap hexPair)) = .ok rest := by
  induction rest generalizing before with
  | nil => rfl
  | cons byte rest ih =>
    have hpair : decodePair ((before ++ byte :: rest).flatMap hexPair) (before.length * 2) =
        .ok byte := by
      have hslice : sliceText ((before ++ byte :: rest).flatMap hexPair) (before.length * 2)
          (before.length * 2 + 2) = .ok (hexPair byte) := by
        rw [sliceText, if_pos]
        · rw [List.flatMap_append, ← hexPairs_length before, List.drop_left, List.flatMap_cons,
            Nat.add_sub_cancel_left]
          rfl
        · refine ⟨by omega, ?_, ?_⟩ <;>
            · refine isCharBoundary_of_ascii (hexPairs_ascii _) ?_
              rw [hexPairs_length, List.length_append, List.length_cons]
              omega
      rw [decodePair, hslice, Except.ok_bind, fromStrRadix16_hexPair]
      rfl
    have hrest := ih (before ++ [byte])
    rw [List.append_assoc, List.singleton_append, List.length_append, List.length_singleton,
      add_mul, one_mul] at hrest
    rw [List.length_cons, List.range'_succ, List.mapM_cons, hpair, Except.ok_bind, hrest]
    rfl

@[simp] theorem decodeHexText_hexBytes (bytes : Bytes) :
    decodeHexText (hexBytes bytes) = .ok bytes := by
  have hpairs := mapM_decodePair [] bytes
  rw [List.nil_append] at hpairs
  rw [decodeHexText]
  simp only [textBytes_hexBytes, hexPairs_length]
  rw [reject_of_not _ (by omega), Except.ok_bind, Nat.mul_div_cancel _ (by decide)]
  exact hpairs

theorem hexBytes_injective {n : Nat} {a b : FixedBytes n}
    (h : hexBytes a.toList = hexBytes b.toList) : a = b := by
  have ha := decodeHexText_hexBytes a.toList
  rw [h, decodeHexText_hexBytes] at ha
  exact FixedBytes.toList_injective (Except.ok.inj ha).symm

theorem lowerHex_iff_fixed {t : String} {size : Nat} :
    LowerHex t (size * 2) ↔ ∃ v : FixedBytes size, t = hexBytes v.toList := by
  rw [lowerHex_iff]
  constructor
  · rintro ⟨bytes, hlength, rfl⟩
    exact ⟨⟨bytes, hlength⟩, rfl⟩
  · rintro ⟨v, rfl⟩
    exact ⟨v.toList, v.toList_length, rfl⟩

end Hex

section HexMembers

variable {object : Map} {key : String}

theorem hexValue_eq_ok {value : Value} {size : Nat} {u : Unit} :
    hexValue value size = .ok u ↔ ∃ v : FixedBytes size, value = .string (hexBytes v.toList) := by
  simp only [hexValue, Except.bind_eq_ok, okOr_eq_ok, reject_eq_ok, Value.asStr_eq_some]
  constructor
  · rintro ⟨t, rfl, hdigits⟩
    rw [not_or, not_not, not_not, List.all_eq_true] at hdigits
    obtain ⟨v, rfl⟩ := lowerHex_iff_fixed.mp ⟨hdigits.1, hdigits.2⟩
    exact ⟨v, rfl⟩
  · rintro ⟨v, rfl⟩
    have hex := lowerHex_iff_fixed.mpr ⟨v, rfl⟩
    refine ⟨_, rfl, ?_⟩
    rw [not_or, not_not, not_not, List.all_eq_true]
    exact ⟨hex.size, hex.digits⟩

theorem hexStringRange_eq_ok {value : Value} {n : Nat} {u : Unit} :
    hexStringRange value (n * 2) (n * 2) = .ok u ↔
      ∃ v : FixedBytes n, value = .string (hexBytes v.toList) := by
  rw [← hexValue_eq_ok (u := u), hexValue, hexStringRange]
  simp only [Except.bind_eq_ok, reject_eq_ok]
  refine exists_congr fun t => and_congr_right fun _ => not_congr (or_congr_left ?_)
  rw [← le_antisymm_iff, eq_comm]

theorem hexField_eq_ok {size : Nat} {u : Unit} :
    hexField object key size = .ok u ↔
      ∃ v : FixedBytes size, object.get key = some (.string (hexBytes v.toList)) := by
  simp [hexField, Except.bind_eq_ok, hexValue_eq_ok]

theorem optionalHex_eq_ok {value : Option Value} {size : Nat} {u : Unit} :
    optionalHex value size = .ok u ↔
      ∀ v ∈ value, ∃ digest : FixedBytes size, v = .string (hexBytes digest.toList) := by
  cases value <;> simp [optionalHex, hexValue_eq_ok]

theorem decodedHex_of_get {n : Nat} {v : FixedBytes n}
    (h : object.get key = some (.string (hexBytes v.toList))) : decodedHex n object key = .ok v :=
  decodedHex_eq_ok.mpr ⟨_, h, decodeHexText_hexBytes _⟩

end HexMembers

section Pairs

structure AuthorityKey (purpose profile : String) (size : Nat) (key : Map) : Prop where
  closed : closed key ["keyId", "keyPurpose", "keyProfileId", "publicKey"]
    ["keyId", "keyPurpose", "keyProfileId", "publicKey"] = .ok ()
  purpose : key.get "keyPurpose" = some (.string purpose)
  profile : key.get "keyProfileId" = some (.string profile)
  keyId : ∃ id : FixedBytes 32, key.get "keyId" = some (.string (hexBytes id.toList))
  publicKey : ∃ v : FixedBytes size, key.get "publicKey" = some (.string (hexBytes v.toList))

structure Signature (profile : String) (size : Nat) (signature : Map) : Prop where
  closed : closed signature ["keyProfileId", "keyId", "signaturePurpose", "signatureValue"]
    ["keyProfileId", "keyId", "signaturePurpose", "signatureValue"] = .ok ()
  purpose : ∃ purpose ∈ signaturePurposes,
    signature.get "signaturePurpose" = some (.string purpose)
  profile : signature.get "keyProfileId" = some (.string profile)
  keyId : ∃ id : FixedBytes 32, signature.get "keyId" = some (.string (hexBytes id.toList))
  value : ∃ v : FixedBytes size,
    signature.get "signatureValue" = some (.string (hexBytes v.toList))

theorem profiles_ne : ed25519ProfileId ≠ mlDsa65ProfileId := by decide

theorem validatePublicKey_eq_ok {key : Map} {u : Unit} : validatePublicKey key = .ok u ↔
    (key.get "keyProfileId" = some (.string ed25519ProfileId) ∧
      ∃ v : FixedBytes 32, key.get "publicKey" = some (.string (hexBytes v.toList))) ∨
    (key.get "keyProfileId" = some (.string mlDsa65ProfileId) ∧
      ∃ v : FixedBytes 1952, key.get "publicKey" = some (.string (hexBytes v.toList))) := by
  simp only [validatePublicKey, Except.bind_eq_ok, okOr_eq_ok, text_eq_ok]
  constructor
  · rintro ⟨value, hvalue, profile, hprofile, h⟩
    split at h
    · rename_i heq
      obtain ⟨v, rfl⟩ := (hexStringRange_eq_ok (n := 32)).mp h
      exact .inl ⟨heq ▸ hprofile, v, hvalue⟩
    · split at h
      · rename_i heq
        obtain ⟨v, rfl⟩ := (hexStringRange_eq_ok (n := 1952)).mp h
        exact .inr ⟨heq ▸ hprofile, v, hvalue⟩
      · cases h
  · rintro (⟨hprofile, v, hvalue⟩ | ⟨hprofile, v, hvalue⟩)
    · refine ⟨_, hvalue, _, hprofile, ?_⟩
      rw [if_pos rfl]
      exact (hexStringRange_eq_ok (n := 32)).mpr ⟨v, rfl⟩
    · refine ⟨_, hvalue, _, hprofile, ?_⟩
      rw [if_neg profiles_ne.symm, if_pos rfl]
      exact (hexStringRange_eq_ok (n := 1952)).mpr ⟨v, rfl⟩

theorem validateSignature_eq_ok {signature : Map} {expected : Option String} {u : Unit} :
    validateSignature signature expected = .ok u ↔
      (Signature ed25519ProfileId 64 signature ∨ Signature mlDsa65ProfileId 3309 signature) ∧
      ∀ purpose ∈ expected, signature.get "signaturePurpose" = some (.string purpose) := by
  simp only [validateSignature, Except.bind_eq_ok, okOr_eq_ok, text_eq_ok, reject_eq_ok,
    hexField_eq_ok]
  constructor
  · rintro ⟨_, hclosed, _, hid, purpose, hpurpose, _, hallowed, value, hvalue, profile, hprofile, h⟩
    rw [not_or, not_not] at hallowed
    refine ⟨?_, fun expected' hexpected => ?_⟩
    · split at h
      · rename_i heq
        obtain ⟨v, rfl⟩ := (hexStringRange_eq_ok (n := 64)).mp h
        exact .inl ⟨hclosed, ⟨purpose, hallowed.1, hpurpose⟩, heq ▸ hprofile, hid, v, hvalue⟩
      · split at h
        · rename_i heq
          obtain ⟨v, rfl⟩ := (hexStringRange_eq_ok (n := 3309)).mp h
          exact .inr ⟨hclosed, ⟨purpose, hallowed.1, hpurpose⟩, heq ▸ hprofile, hid, v, hvalue⟩
        · cases h
    · rw [Option.mem_def] at hexpected
      subst hexpected
      have heq := hallowed.2
      simp only [Option.any_some, decide_eq_true_eq, not_not] at heq
      rw [hpurpose, heq]
  · rintro ⟨h, hexpected⟩
    have hpurposes : ∀ purpose, signature.get "signaturePurpose" = some (.string purpose) →
        ¬(expected.any fun expected => decide (purpose ≠ expected)) := by
      intro purpose hpurpose
      cases expected with
      | none => simp
      | some expected =>
        have heq := hexpected expected rfl
        rw [hpurpose] at heq
        cases heq
        simp
    rcases h with h | h
    · obtain ⟨purpose, hmem, hpurpose⟩ := h.purpose
      obtain ⟨v, hvalue⟩ := h.value
      refine ⟨(), h.closed, (), h.keyId, purpose, hpurpose, (),
        not_or.mpr ⟨not_not.mpr hmem, hpurposes purpose hpurpose⟩, _, hvalue, _, h.profile, ?_⟩
      rw [if_pos rfl]
      exact (hexStringRange_eq_ok (n := 64)).mpr ⟨v, rfl⟩
    · obtain ⟨purpose, hmem, hpurpose⟩ := h.purpose
      obtain ⟨v, hvalue⟩ := h.value
      refine ⟨(), h.closed, (), h.keyId, purpose, hpurpose, (),
        not_or.mpr ⟨not_not.mpr hmem, hpurposes purpose hpurpose⟩, _, hvalue, _, h.profile, ?_⟩
      rw [if_neg profiles_ne.symm, if_pos rfl]
      exact (hexStringRange_eq_ok (n := 3309)).mpr ⟨v, rfl⟩

def publicKeySize (index : Nat) : Nat := if index = 0 then 32 else 1952

def signatureSize (index : Nat) : Nat := if index = 0 then 64 else 3309

theorem text_unique {object : Map} {key a b : String} (ha : object.get key = some (.string a))
    (hb : object.get key = some (.string b)) : a = b := by
  rw [ha] at hb
  injection Option.some.inj hb

theorem publicKey_of_profile {key : Map} {index : Nat} {u : Unit}
    (h : validatePublicKey key = .ok u)
    (hprofile : key.get "keyProfileId" = some (.string (expectedProfile index))) :
    ∃ v : FixedBytes (publicKeySize index),
      key.get "publicKey" = some (.string (hexBytes v.toList)) := by
  rcases validatePublicKey_eq_ok.mp h with ⟨hkey, hv⟩ | ⟨hkey, hv⟩
  · cases index with
    | zero => exact hv
    | succ index => exact absurd (text_unique hkey hprofile) profiles_ne
  · cases index with
    | zero => exact absurd (text_unique hkey hprofile) profiles_ne.symm
    | succ index => exact hv

theorem validatePublicKey_of_profile {key : Map} {index : Nat}
    (hprofile : key.get "keyProfileId" = some (.string (expectedProfile index)))
    (h : ∃ v : FixedBytes (publicKeySize index),
      key.get "publicKey" = some (.string (hexBytes v.toList))) :
    validatePublicKey key = .ok () := by
  cases index with
  | zero => exact validatePublicKey_eq_ok.mpr (.inl ⟨hprofile, h⟩)
  | succ index => exact validatePublicKey_eq_ok.mpr (.inr ⟨hprofile, h⟩)

theorem validateAuthorityKey_eq_ok {purpose : String} {seen next : Finset String × Finset String}
    {entry : Value × Nat} :
    validateAuthorityKey purpose seen entry = .ok next ↔ ∃ (key : Map) (id : String),
      entry.1 = .object key ∧
      AuthorityKey purpose (expectedProfile entry.2) (publicKeySize entry.2) key ∧
      key.get "keyId" = some (.string id) ∧ expectedProfile entry.2 ∉ seen.1 ∧ id ∉ seen.2 ∧
      next = (insert (expectedProfile entry.2) seen.1, insert id seen.2) := by
  simp only [validateAuthorityKey, Except.bind_eq_ok, members_eq_ok, text_eq_ok, reject_eq_ok,
    hexField_eq_ok, Except.pure_eq, Except.ok.injEq]
  constructor
  · rintro ⟨key, hentry, _, hclosed, purpose', hpurpose, _, hsame, _, hid, _, hpublic, profile,
      hprofile, _, hexpected, id, hget, _, hnew, rfl⟩
    rw [not_not] at hsame hexpected
    subst hsame hexpected
    rw [not_or] at hnew
    exact ⟨key, id, hentry, ⟨hclosed, hpurpose, hprofile, hid,
      publicKey_of_profile hpublic hprofile⟩, hget, hnew.1, hnew.2, rfl⟩
  · rintro ⟨key, id, hentry, hkey, hget, hprofile, hid, rfl⟩
    exact ⟨key, hentry, (), hkey.closed, purpose, hkey.purpose, (), not_not.mpr rfl, (), hkey.keyId,
      (), validatePublicKey_of_profile hkey.profile hkey.publicKey, _, hkey.profile, (),
      not_not.mpr rfl, id, hget, (), not_or.mpr ⟨hprofile, hid⟩, rfl⟩

theorem validateAuthorityKeys_eq_ok {keys : List Value} {purpose : String} {u : Unit} :
    validateAuthorityKeys keys purpose = .ok u ↔
      ∃ ed ml : Map, keys = [.object ed, .object ml] ∧ AuthorityKey purpose ed25519ProfileId 32 ed ∧
        AuthorityKey purpose mlDsa65ProfileId 1952 ml ∧ ed.get "keyId" ≠ ml.get "keyId" := by
  simp only [validateAuthorityKeys, Except.bind_eq_ok, reject_eq_ok, not_not]
  constructor
  · rintro ⟨_, hlength, seen, hfold, _⟩
    obtain ⟨a, b, rfl⟩ := List.length_eq_two.mp hlength
    simp only [List.zipIdx_cons, List.zipIdx_nil, List.foldlM_cons, List.foldlM_nil,
      Except.bind_eq_ok, validateAuthorityKey_eq_ok] at hfold
    obtain ⟨_, ⟨ed, edId, rfl, hed, hedId, _, _, rfl⟩, _,
      ⟨ml, mlId, rfl, hml, hmlId, _, hfresh, rfl⟩, _⟩ := hfold
    refine ⟨ed, ml, rfl, hed, hml, fun heq => hfresh ?_⟩
    rw [hedId, hmlId] at heq
    simp only [Option.some.injEq, Value.string.injEq] at heq
    simp [heq]
  · rintro ⟨ed, ml, rfl, hed, hml, hne⟩
    obtain ⟨edId, hedId⟩ := hed.keyId
    obtain ⟨mlId, hmlId⟩ := hml.keyId
    refine ⟨(), rfl, ({mlDsa65ProfileId, ed25519ProfileId},
      {hexBytes mlId.toList, hexBytes edId.toList}), ?_, ?_⟩
    · simp only [List.zipIdx_cons, List.zipIdx_nil, List.foldlM_cons, List.foldlM_nil,
        Except.bind_eq_ok, validateAuthorityKey_eq_ok]
      refine ⟨_, ⟨ed, _, rfl, hed, hedId, by simp, by simp, rfl⟩, _,
        ⟨ml, _, rfl, hml, hmlId, ?_, ?_, rfl⟩, rfl⟩
      · simpa [expectedProfile] using profiles_ne.symm
      · rw [hedId, hmlId] at hne
        simpa [eq_comm] using hne
    · simp [Finset.pair_comm]

theorem signature_of_profile {signature : Map} {index : Nat} {u : Unit}
    (h : validateSignature signature none = .ok u)
    (hprofile : signature.get "keyProfileId" = some (.string (expectedProfile index))) :
    Signature (expectedProfile index) (signatureSize index) signature := by
  rcases (validateSignature_eq_ok.mp h).1 with h | h
  · cases index with
    | zero => exact h
    | succ index => exact absurd (text_unique h.profile hprofile) profiles_ne
  · cases index with
    | zero => exact absurd (text_unique h.profile hprofile) profiles_ne.symm
    | succ index => exact h

theorem Signature.validates {signature : Map} {index : Nat}
    (h : Signature (expectedProfile index) (signatureSize index) signature) :
    validateSignature signature none = .ok () := by
  cases index with
  | zero => exact validateSignature_eq_ok.mpr ⟨.inl h, nofun⟩
  | succ index => exact validateSignature_eq_ok.mpr ⟨.inr h, nofun⟩

theorem validateSignatureEntry_eq_ok {ids next : Finset String} {entry : Value × Nat} :
    validateSignatureEntry ids entry = .ok next ↔
      ∃ (signature : Map) (id : String), entry.1 = .object signature ∧
      Signature (expectedProfile entry.2) (signatureSize entry.2) signature ∧
      signature.get "keyId" = some (.string id) ∧ id ∉ ids ∧ next = insert id ids := by
  simp only [validateSignatureEntry, Except.bind_eq_ok, members_eq_ok, text_eq_ok, reject_eq_ok,
    Except.pure_eq, Except.ok.injEq]
  constructor
  · rintro ⟨signature, hentry, _, hvalid, profile, hprofile, id, hget, _, hnew, rfl⟩
    rw [not_or, not_not] at hnew
    obtain ⟨rfl, hnew⟩ := hnew
    exact ⟨signature, id, hentry, signature_of_profile hvalid hprofile, hget, hnew, rfl⟩
  · rintro ⟨signature, id, hentry, hvalid, hget, hnew, rfl⟩
    exact ⟨signature, hentry, (), hvalid.validates, _, hvalid.profile, id, hget, (),
      not_or.mpr ⟨not_not.mpr rfl, hnew⟩, rfl⟩

theorem validateSignatureArray_eq_ok {signatures : List Value} {u : Unit} :
    validateSignatureArray signatures = .ok u ↔
      ∃ ed ml : Map, signatures = [.object ed, .object ml] ∧ Signature ed25519ProfileId 64 ed ∧
        Signature mlDsa65ProfileId 3309 ml ∧ ed.get "keyId" ≠ ml.get "keyId" := by
  simp only [validateSignatureArray, Except.bind_eq_ok, reject_eq_ok, not_not]
  constructor
  · rintro ⟨_, hlength, ids, hfold, _⟩
    obtain ⟨a, b, rfl⟩ := List.length_eq_two.mp hlength
    simp only [List.zipIdx_cons, List.zipIdx_nil, List.foldlM_cons, List.foldlM_nil,
      Except.bind_eq_ok, validateSignatureEntry_eq_ok] at hfold
    obtain ⟨_, ⟨ed, edId, rfl, hed, hedId, _, rfl⟩, _, ⟨ml, mlId, rfl, hml, hmlId, hfresh, rfl⟩,
      _⟩ := hfold
    refine ⟨ed, ml, rfl, hed, hml, fun heq => hfresh ?_⟩
    rw [hedId, hmlId] at heq
    simp only [Option.some.injEq, Value.string.injEq] at heq
    simp [heq]
  · rintro ⟨ed, ml, rfl, hed, hml, hne⟩
    obtain ⟨edId, hedId⟩ := hed.keyId
    obtain ⟨mlId, hmlId⟩ := hml.keyId
    refine ⟨(), rfl, {hexBytes mlId.toList, hexBytes edId.toList}, ?_, rfl⟩
    simp only [List.zipIdx_cons, List.zipIdx_nil, List.foldlM_cons, List.foldlM_nil,
      Except.bind_eq_ok, validateSignatureEntry_eq_ok]
    refine ⟨_, ⟨ed, _, rfl, hed, hedId, by simp, rfl⟩, _, ⟨ml, _, rfl, hml, hmlId, ?_, rfl⟩, rfl⟩
    rw [hedId, hmlId] at hne
    simpa [eq_comm] using hne

end Pairs

end Identity

end LicoArc
