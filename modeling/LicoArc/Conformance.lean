import LicoArc.SignedInputs

/-!
# The key schedule of the conformance executor

The executor derives the keys of a handshake from the records of a case, in a
schedule of its own. It extracts from the handshake core where the endpoints
extract from the prekey transcript.
-/

namespace LicoArc

open Json
open Identity (hexBytes hexPair)

namespace Conformance

inductive Expected
  | result (value : Value)
  | error (code : String)

def invalid : Error := .terminal .invalidAuthorityInput .validation

def digit (value : UInt8) : Except Error UInt8 :=
  if 48 ≤ value ∧ value ≤ 57 then .ok (value - 48)
  else if 97 ≤ value ∧ value ≤ 102 then .ok (value - 97 + 10)
  else .error invalid

/-- The pairs of `chunks_exact(2)`. -/
def decodePairs : Bytes → Except Error Bytes
  | high :: low :: rest => do
    let high ← digit high
    let low ← digit low
    let bytes ← decodePairs rest
    return ((high <<< 4) ||| low) :: bytes
  | _ => return []

def decodeHex (text : String) : Except Error Bytes := do
  reject ((Encoding.textBytes text).length % 2 ≠ 0) invalid
  decodePairs (Encoding.textBytes text)

def hexField (value : Value) (key : String) : Except Error Bytes := do
  let text ← okOr invalid (value.asObject.bind fun object => (object.get key).bind Value.asStr)
  decodeHex text

def fixedHex (n : Nat) (value : Value) (key : String) : Except Error (FixedBytes n) := do
  let bytes ← hexField value key
  okOr invalid (FixedBytes.ofBytes? n bytes)

def expand (provider : Provider) (salt ikm domain digest : Bytes) (length : Nat) :
    Option Bytes :=
  match provider.hkdfSha256 salt ikm (domain ++ digest) length with
  | .ok output => some output.toList
  | .error _ => none

/-- What `hybrid_schedule` answers when one of its calls fails. -/
def providerFailure : String := "provider-failure"

def schedule (provider : Provider) (handshake x25519 mlKem : FixedBytes 32) :
    Except String Value := do
  let salt := provider.sha256 (domain "LICOARC-V1/HYBRID/EXTRACT-SALT" ++ handshake.toList)
  let ikm := x25519.toList ++ mlKem.toList
  let prk ← (provider.hmacSha256 salt.toList ikm).mapError fun _ => providerFailure
  let expand := expand provider salt.toList ikm
  let hybridRoot ← okOr providerFailure
    (expand (domain "LICOARC-V1/HYBRID/ROOT") handshake.toList 32)
  let confirmKey ← okOr providerFailure
    (expand (domain "LICOARC-V1/HANDSHAKE/CLIENT-CONFIRM-KEY") handshake.toList 32)
  let confirmNonce ← okOr providerFailure
    (expand (domain "LICOARC-V1/HANDSHAKE/CLIENT-CONFIRM-NONCE") handshake.toList 12)
  let acceptKey ← okOr providerFailure
    (expand (domain "LICOARC-V1/HANDSHAKE/SESSION-ACCEPT-KEY") handshake.toList 32)
  let key ← okOr providerFailure (FixedBytes.ofBytes? 32 confirmKey)
  let nonce ← okOr providerFailure (FixedBytes.ofBytes? 12 confirmNonce)
  let sealedText ← (provider.aeadSeal key nonce handshake.toList
    (domain "LICOARC-V1/HANDSHAKE/CLIENT-CONFIRM")).mapError fun _ => providerFailure
  reject (sealedText.length < 16) providerFailure
  let split := sealedText.length - 16
  return .object
    [("clientConfirmCiphertextHex", .string (hexBytes (sealedText.take split))),
      ("clientConfirmKeyHex", .string (hexBytes confirmKey)),
      ("clientConfirmNonceHex", .string (hexBytes confirmNonce)),
      ("clientConfirmTagHex", .string (hexBytes (sealedText.drop split))),
      ("extractSaltHex", .string (hexBytes salt.toList)),
      ("hybridRootHex", .string (hexBytes hybridRoot)), ("prkHex", .string (hexBytes prk.toList)),
      ("sessionAcceptKeyHex", .string (hexBytes acceptKey))]

def hybridSchedule (provider : Provider) (input : Value) : Expected :=
  match fixedHex 32 input "handshakeCoreDigestHex", fixedHex 32 input "x25519SharedSecretHex",
    fixedHex 32 input "mlKem768SharedSecretHex" with
  | .ok handshake, .ok x25519, .ok mlKem =>
    match schedule provider handshake x25519 mlKem with
    | .ok value => .result value
    | .error code => .error code
  | _, _, _ => .error "handshake-rejected"

/-! ## Cases -/

def scheduleInput (handshake x25519 mlKem : FixedBytes 32) : Value :=
  .object
    [("handshakeCoreDigestHex", .string (hexBytes handshake.toList)),
      ("mlKem768SharedSecretHex", .string (hexBytes mlKem.toList)),
      ("x25519SharedSecretHex", .string (hexBytes x25519.toList))]

theorem digit_pair (byte : UInt8) :
    ∃ high low, digit (Identity.hexDigitByte (byte.toNat / 16)) = .ok high ∧
      digit (Identity.hexDigitByte (byte.toNat % 16)) = .ok low ∧ (high <<< 4) ||| low = byte := by
  have hall : ∀ value : Fin 256,
      digit (Identity.hexDigitByte (value.val / 16)) = .ok (UInt8.ofNat (value.val / 16)) ∧
      digit (Identity.hexDigitByte (value.val % 16)) = .ok (UInt8.ofNat (value.val % 16)) ∧
      (UInt8.ofNat (value.val / 16) <<< 4) ||| UInt8.ofNat (value.val % 16) =
        UInt8.ofNat value.val := by decide +kernel
  have hbyte := hall ⟨byte.toNat, byte.toNat_lt⟩
  simp only [UInt8.ofNat_toNat] at hbyte
  exact ⟨_, _, hbyte⟩

theorem decodePairs_hexPair (bytes : Bytes) :
    decodePairs (bytes.flatMap hexPair) = .ok bytes := by
  induction bytes with
  | nil => rfl
  | cons byte bytes ih =>
    obtain ⟨high, low, hhigh, hlow, hbyte⟩ := digit_pair byte
    rw [List.flatMap_cons, hexPair]
    simp [decodePairs, hhigh, hlow, ih, hbyte]

theorem decodeHex_hexBytes (bytes : Bytes) : decodeHex (hexBytes bytes) = .ok bytes := by
  have heven : ¬(bytes.flatMap hexPair).length % 2 ≠ 0 := by
    rw [Identity.hexPairs_length]
    omega
  rw [decodeHex, Identity.textBytes_hexBytes, reject_of_not _ heven]
  exact decodePairs_hexPair bytes

theorem fixedHex_of_get {n : Nat} {object : Map} {key : String} {v : FixedBytes n}
    (h : object.get key = some (.string (hexBytes v.toList))) :
    fixedHex n (.object object) key = .ok v := by
  simp [fixedHex, hexField, Value.asObject, Value.asStr, h, decodeHex_hexBytes, okOr,
    FixedBytes.ofBytes?_toList]

theorem hybridSchedule_eq_result {provider : Provider} {handshake x25519 mlKem : FixedBytes 32}
    {value : Value} :
    hybridSchedule provider (scheduleInput handshake x25519 mlKem) = .result value ↔
      schedule provider handshake x25519 mlKem = .ok value := by
  rw [hybridSchedule, scheduleInput, fixedHex_of_get (v := handshake) rfl,
    fixedHex_of_get (v := x25519) rfl, fixedHex_of_get (v := mlKem) rfl]
  cases hresult : schedule provider handshake x25519 mlKem with
  | ok => simp [hresult]
  | error => simp [hresult]

/-! ## The two schedules -/

/-- The record of the executor shows the keys of a handshake. -/
def Agrees (value : Value) (hybrid : HybridSecrets) : Prop :=
  ∃ object : Map, value = .object object ∧
    object.get "hybridRootHex" = some (.string (hexBytes hybrid.hybridRoot.toList)) ∧
    object.get "clientConfirmKeyHex" = some (.string (hexBytes hybrid.clientConfirmKey.toList)) ∧
    object.get "clientConfirmNonceHex" =
      some (.string (hexBytes hybrid.clientConfirmNonce.toList)) ∧
    object.get "sessionAcceptKeyHex" = some (.string (hexBytes hybrid.sessionAcceptKey.toList))

/-- Extraction under different salts gives different keys. -/
def SaltSeparation (provider : Provider) : Prop :=
  ∀ {salt salt' : FixedBytes 32} {ikm info : Bytes} {key : Secret},
    provider.hkdfSha256 salt.toList ikm info 32 = .ok key →
    provider.hkdfSha256 salt'.toList ikm info 32 = .ok key → salt = salt'

section

variable {provider : Provider} {x25519 mlKem prekeyDigest core handshake : FixedBytes 32}
  {value : Value} {hybrid hybrid' : HybridSecrets}

theorem expand_eq_some {salt ikm domain : Bytes} {length : Nat} {output : Bytes} :
    expand provider salt ikm domain handshake.toList length = some output ↔
      ∃ key, LicoArc.expand provider salt ikm domain handshake length = .ok key ∧
        output = key.toList := by
  rw [expand, LicoArc.expand]
  cases provider.hkdfSha256 salt ikm (domain ++ handshake.toList) length with
  | ok key => simp [eq_comm]
  | error => simp

theorem schedule_derives (h : schedule provider handshake x25519 mlKem = .ok value) :
    ∃ keys, HybridSecrets.derive provider x25519 mlKem handshake handshake = .ok keys ∧
      Agrees value keys := by
  simp only [schedule, Except.bind_eq_ok, okOr_eq_ok, expand_eq_some, reject_eq_ok, exists_const,
    Except.pure_eq, Except.ok.injEq] at h
  obtain ⟨prk, _, _, ⟨root, hroot, rfl⟩, _, ⟨key, hkey, rfl⟩, _, ⟨nonce, hnonce, rfl⟩, _,
    ⟨accept, haccept, rfl⟩, _, _, _, _, sealedText, _, _, rfl⟩ := h
  refine ⟨⟨root, key, nonce, accept⟩, ?_, _, rfl, rfl, rfl, rfl, rfl⟩
  simp only [HybridSecrets.derive, Except.bind_eq_ok, Except.pure_eq, Except.ok.injEq]
  exact ⟨root, hroot, key, hkey, nonce, hnonce, accept, haccept, rfl⟩

theorem Agrees.unique (h : Agrees value hybrid) (h' : Agrees value hybrid') : hybrid = hybrid' := by
  obtain ⟨object, rfl, hroot, hkey, hnonce, haccept⟩ := h
  obtain ⟨_, heq, hroot', hkey', hnonce', haccept'⟩ := h'
  cases heq
  have hfield : ∀ {n : Nat} {a b : FixedBytes n} {field : Option Value},
      field = some (.string (hexBytes a.toList)) → field = some (.string (hexBytes b.toList)) →
      a = b := by
    intro n a b field ha hb
    exact Identity.hexBytes_injective (Value.string.inj (Option.some.inj (ha.symm.trans hb)))
  cases hybrid
  cases hybrid'
  simp only [HybridSecrets.mk.injEq]
  exact ⟨hfield hroot hroot', hfield hkey hkey', hfield hnonce hnonce', hfield haccept haccept'⟩

theorem derive_fixes_prekey {prekeyDigest' : FixedBytes 32}
    (h : HybridSecrets.derive provider x25519 mlKem prekeyDigest core = .ok hybrid)
    (h' : HybridSecrets.derive provider x25519 mlKem prekeyDigest' core = .ok hybrid)
    (hfree : Set.InjOn provider.sha256
      {dHybridExtractSalt ++ prekeyDigest.toList, dHybridExtractSalt ++ prekeyDigest'.toList})
    (hsalts : SaltSeparation provider) : prekeyDigest = prekeyDigest' := by
  simp only [HybridSecrets.derive, LicoArc.expand, Except.bind_eq_ok, Except.pure_eq,
    Except.ok.injEq] at h h'
  obtain ⟨root, hroot, _, _, _, _, _, _, rfl⟩ := h
  obtain ⟨root', hroot', _, _, _, _, _, _, heq⟩ := h'
  obtain rfl : root' = root := congrArg HybridSecrets.hybridRoot heq
  have hsalt := hsalts hroot hroot'
  have hinput := hfree (Set.mem_insert _ _) (Set.mem_insert_of_mem _ rfl) hsalt
  exact FixedBytes.toList_injective (List.append_cancel_left hinput)

theorem prekeyDigest_ne_core {packet : FirstPacket}
    (hprekey : prekeyTranscriptDigest provider packet = .ok prekeyDigest)
    (hcore : handshakeCore provider packet = .ok core)
    (hfree : Set.InjOn provider.sha256 ((SignedMessage.initiator packet).digested provider)) :
    prekeyDigest ≠ core := by
  intro heq
  obtain ⟨encoded, hencoded, hdigest⟩ := prekeyTranscriptDigest_eq_ok.mp hprekey
  obtain ⟨digest, hdigest', encoded', hencoded', hcore'⟩ := handshakeCore_eq_ok.mp hcore
  have hinput := hfree (.inl ⟨encoded, hencoded, rfl⟩)
    (.inr ⟨digest, hdigest', encoded', hencoded', rfl⟩) (hdigest.trans (heq.trans hcore'.symm))
  have hlabel := (domain_append_inj (by decide) (by decide) hinput).1
  exact absurd hlabel (by decide)

/-- The executor shows the keys of the endpoints exactly where the prekey transcript and the
handshake core have one digest, which is a collision of SHA-256. -/
theorem hybrid_schedule_iff {packet : FirstPacket}
    (hprekey : prekeyTranscriptDigest provider packet = .ok prekeyDigest)
    (hcore : handshakeCore provider packet = .ok core)
    (hderive : HybridSecrets.derive provider x25519 mlKem prekeyDigest core = .ok hybrid)
    (hschedule : hybridSchedule provider (scheduleInput core x25519 mlKem) = .result value)
    (hfree : Set.InjOn provider.sha256
      {dHybridExtractSalt ++ prekeyDigest.toList, dHybridExtractSalt ++ core.toList})
    (hsalts : SaltSeparation provider) :
    (Agrees value hybrid ↔ prekeyDigest = core) ∧
    (Set.InjOn provider.sha256 ((SignedMessage.initiator packet).digested provider) →
      ¬Agrees value hybrid) := by
  obtain ⟨keys, hkeys, hagrees⟩ := schedule_derives (hybridSchedule_eq_result.mp hschedule)
  have hiff : Agrees value hybrid ↔ prekeyDigest = core := by
    constructor
    · intro h
      rw [← h.unique hagrees] at hkeys
      exact derive_fixes_prekey hderive hkeys hfree hsalts
    · intro heq
      rw [heq, hkeys] at hderive
      rwa [← Except.ok.inj hderive]
  exact ⟨hiff, fun hdigests h => prekeyDigest_ne_core hprekey hcore hdigests (hiff.mp h)⟩

end

/-! ## A case -/

namespace Drift

def packet : FirstPacket := Resigned.packet 0

def digests : List Bytes :=
  [dPrekeyTranscript ++ Encoding.encodeInto (prekeyTranscriptValue packet),
    dHandshakeTranscript ++ Encoding.encodeInto (handshakeCoreValue (.replicate 32 0) packet),
    dHybridExtractSalt ++ List.replicate 32 0, dHybridExtractSalt ++ List.replicate 32 1]

def derivations : List Derivation :=
  [2, 3].flatMap fun salt => [dHybridRoot, dClientKey, dClientNonce, dAcceptKey].map fun label =>
    .hkdf (List.replicate 32 salt) (List.replicate 64 0) (label ++ List.replicate 32 1)

def provider : Provider := tableProvider digests derivations

def hybrid : HybridSecrets := ⟨.replicate 32 0, .replicate 32 1, .replicate 12 2, .replicate 32 3⟩

theorem prekey : prekeyTranscriptDigest provider packet = .ok (.replicate 32 0) := by
  decide +kernel

theorem core : handshakeCore provider packet = .ok (.replicate 32 1) := by
  decide +kernel

theorem derived :
    HybridSecrets.derive provider (.zero 32) (.zero 32) (.replicate 32 0) (.replicate 32 1) =
      .ok hybrid := by
  decide +kernel

theorem scheduled : ∃ value, hybridSchedule provider
    (scheduleInput (.replicate 32 1) (.zero 32) (.zero 32)) = .result value := by
  have hok : (schedule provider (.replicate 32 1) (.zero 32) (.zero 32)).isOk = true := by
    decide +kernel
  cases hresult : schedule provider (.replicate 32 1) (.zero 32) (.zero 32) with
  | ok value => exact ⟨value, hybridSchedule_eq_result.mpr hresult⟩
  | error code =>
    rw [hresult] at hok
    cases hok

theorem salts_apart : Set.InjOn provider.sha256
    {dHybridExtractSalt ++ (List.Vector.replicate 32 (0 : UInt8)).toList,
      dHybridExtractSalt ++ (List.Vector.replicate 32 (1 : UInt8)).toList} := by
  have hne : provider.sha256 (dHybridExtractSalt ++ (List.Vector.replicate 32 (0 : UInt8)).toList) ≠
      provider.sha256 (dHybridExtractSalt ++ (List.Vector.replicate 32 (1 : UInt8)).toList) := by
    decide +kernel
  rw [Set.injOn_pair]
  exact fun h => absurd h hne

theorem saltSeparation : SaltSeparation provider := by
  intro salt salt' ikm info key h h'
  have heq := TableProvider.position_injective (by decide) h h'
  simp only [Derivation.hkdf.injEq] at heq
  exact FixedBytes.toList_injective heq.1

theorem hybrid_schedule_iff_case : ∃ value,
    hybridSchedule provider (scheduleInput (.replicate 32 1) (.zero 32) (.zero 32)) =
      .result value ∧
    (Agrees value hybrid ↔
      List.Vector.replicate 32 (0 : UInt8) = List.Vector.replicate 32 (1 : UInt8)) := by
  obtain ⟨value, hvalue⟩ := scheduled
  exact ⟨value, hvalue,
    (hybrid_schedule_iff prekey core derived hvalue salts_apart saltSeparation).1⟩

/-- The keys of a case are not those of the endpoints. -/
theorem schedules_drift : ¬∀ provider packet x25519 mlKem prekeyDigest core hybrid value,
    prekeyTranscriptDigest provider packet = .ok prekeyDigest →
    handshakeCore provider packet = .ok core →
    HybridSecrets.derive provider x25519 mlKem prekeyDigest core = .ok hybrid →
    hybridSchedule provider (scheduleInput core x25519 mlKem) = .result value →
    Agrees value hybrid := by
  intro h
  obtain ⟨value, hvalue⟩ := scheduled
  have hagrees := h _ _ _ _ _ _ _ _ prekey core derived hvalue
  obtain ⟨keys, hderived, hagrees'⟩ := schedule_derives (hybridSchedule_eq_result.mp hvalue)
  rw [← hagrees.unique hagrees'] at hderived
  exact absurd hderived (by decide +kernel)

end Drift

end Conformance

end LicoArc
