import LicoArc.Protection

/-!
# Handshake records

Identities, prekey bundles, first packets and session accepts, their shape
checks, their encodings and the digests that bind them to each other.
-/

namespace LicoArc

/-! ## Records -/

structure RuntimeLine where
  protocolLineId : FixedBytes 32
  protectionProfileId : FixedBytes 32
  deriving DecidableEq

structure IdentitySigningHandles where
  ed25519 : SecretHandle .ed25519Signing
  mlDsa65 : SecretHandle .mlDsa65Signing
  deriving DecidableEq

structure IdentityPublic where
  stateDigest : FixedBytes 32
  ed25519KeyId : FixedBytes 32
  ed25519Public : FixedBytes 32
  mlDsa65KeyId : FixedBytes 32
  mlDsa65Public : Bytes
  deriving DecidableEq

structure PrekeyBundle where
  protocolLineId : FixedBytes 32
  protectionProfileId : FixedBytes 32
  responderIdentityStateDigest : FixedBytes 32
  ed25519KeyId : FixedBytes 32
  mlDsa65KeyId : FixedBytes 32
  pairSequence : Nat
  x25519Public : FixedBytes 32
  mlKem768Public : Bytes
  validFrom : Nat
  validUntil : Nat
  ed25519Signature : FixedBytes 64
  mlDsa65Signature : Bytes
  deriving DecidableEq

structure FirstPacket where
  protocolLineId : FixedBytes 32
  protectionProfileId : FixedBytes 32
  initiatorIdentityStateDigest : FixedBytes 32
  initiatorUserAuthorityStateDigest : FixedBytes 32
  responderIdentityStateDigest : FixedBytes 32
  responderUserAuthorityStateDigest : FixedBytes 32
  prekey : PrekeyBundle
  initiatorX25519Public : FixedBytes 32
  mlKem768Ciphertext : Bytes
  initiatorEd25519KeyId : FixedBytes 32
  initiatorMlDsa65KeyId : FixedBytes 32
  initiatorEd25519Signature : FixedBytes 64
  initiatorMlDsa65Signature : Bytes
  clientConfirmCiphertext : FixedBytes 36
  clientConfirmTag : FixedBytes 16
  deriving DecidableEq

structure SessionAccept where
  transcriptDigest : FixedBytes 32
  sessionContextDigest : FixedBytes 32
  initiatorUserAuthorityStateDigest : FixedBytes 32
  responderIdentityStateDigest : FixedBytes 32
  responderUserAuthorityStateDigest : FixedBytes 32
  pairSequence : Nat
  mac : FixedBytes 32
  deriving DecidableEq

/-! ## Shapes -/

def validateIdentityShape (identity : IdentityPublic) : Except Error Unit :=
  reject (identity.mlDsa65Public.length ≠ mlDsa65PublicKeyBytes) handshakeRejected

def validatePrekeyShape (bundle : PrekeyBundle) : Except Error Unit :=
  reject (bundle.pairSequence = 0 ∨ bundle.pairSequence > maxSafeInteger ∨
    bundle.validUntil > maxSafeInteger ∨ bundle.validFrom ≥ bundle.validUntil ∨
    bundle.validUntil - bundle.validFrom > 604800 ∨
    bundle.mlKem768Public.length ≠ mlKem768PublicKeyBytes ∨
    bundle.mlDsa65Signature.length ≠ mlDsa65SignatureBytes) handshakeRejected

def validateFirstPacketShape (packet : FirstPacket) : Except Error Unit := do
  validatePrekeyShape packet.prekey
  reject (packet.protocolLineId ≠ packet.prekey.protocolLineId ∨
    packet.protectionProfileId ≠ packet.prekey.protectionProfileId ∨
    packet.responderIdentityStateDigest ≠ packet.prekey.responderIdentityStateDigest)
    handshakeRejected
  reject (packet.mlKem768Ciphertext.length ≠ mlKem768CiphertextBytes ∨
    packet.initiatorMlDsa65Signature.length ≠ mlDsa65SignatureBytes) handshakeRejected

/-! ## Trusted identities -/

structure TrustedIdentity where
  identity : IdentityPublic
  protectionProfileId : FixedBytes 32
  deriving DecidableEq

namespace TrustedIdentity

/-- One trusted fact of an identity: the purpose, the expected value and its length. -/
def confirm {m : Type → Type} [Monad m] (trust : TrustFacts m) (stateDigest profile : FixedBytes 32)
    (purpose : String) (expected : Bytes) (length : Nat) : ExceptT Error m Unit := do
  let trusted ← ExceptT.mk (trust.identityKey stateDigest purpose profile)
  lift (reject (trusted.length ≠ length ∨ trusted ≠ expected) handshakeRejected)

def resolve {m : Type → Type} [Monad m] (line : RuntimeLine) (trust : TrustFacts m)
    (identity : IdentityPublic) : ExceptT Error m TrustedIdentity := do
  lift (validateIdentityShape identity)
  let profile := line.protectionProfileId
  let confirm := confirm trust identity.stateDigest profile
  confirm "ed25519-key-id" identity.ed25519KeyId.toList 32
  confirm "ed25519-public" identity.ed25519Public.toList 32
  confirm "ml-dsa-65-key-id" identity.mlDsa65KeyId.toList 32
  confirm "ml-dsa-65-public" identity.mlDsa65Public mlDsa65PublicKeyBytes
  return { identity, protectionProfileId := profile }

def forLine (self : TrustedIdentity) (line : RuntimeLine) : Except Error IdentityPublic := do
  reject (self.protectionProfileId ≠ line.protectionProfileId) handshakeRejected
  return self.identity

end TrustedIdentity

/-! ## Encodings -/

def bundleUnsignedEntries (bundle : PrekeyBundle) : List (Nat × CborValue) :=
  [(0, .bytes bundle.protocolLineId.toList), (1, .bytes bundle.protectionProfileId.toList),
    (2, .bytes bundle.responderIdentityStateDigest.toList), (3, .bytes bundle.ed25519KeyId.toList),
    (4, .bytes bundle.mlDsa65KeyId.toList), (5, .unsigned bundle.pairSequence),
    (6, .bytes bundle.x25519Public.toList), (7, .bytes bundle.mlKem768Public),
    (8, .unsigned bundle.validFrom), (9, .unsigned bundle.validUntil)]

def bundleUnsignedValue (bundle : PrekeyBundle) : CborValue := .map (bundleUnsignedEntries bundle)

def bundleUnsigned (bundle : PrekeyBundle) : Except Error Bytes :=
  Encoding.encode (bundleUnsignedValue bundle)

def bundleValue (bundle : PrekeyBundle) : CborValue :=
  .map <| bundleUnsignedEntries bundle ++
    [(10, .bytes bundle.ed25519Signature.toList), (11, .bytes bundle.mlDsa65Signature)]

def dPrekeyBundleSign : Bytes := domain "LICOARC-V1/PREKEY-BUNDLE/SIGN"
def dInitiatorSign : Bytes := domain "LICOARC-V1/HANDSHAKE/INITIATOR-SIGN"
def dPrekeyTranscript : Bytes := domain "LICOARC-V1/PREKEY-TRANSCRIPT/DIGEST"
def dHandshakeTranscript : Bytes := domain "LICOARC-V1/HANDSHAKE-TRANSCRIPT/DIGEST"
def dSessionContext : Bytes := domain "LICOARC-V1/SESSION/CONTEXT"

def bundleSignatureInput (bundle : PrekeyBundle) : Except Error Bytes := do
  let unsigned ← bundleUnsigned bundle
  return dPrekeyBundleSign ++ unsigned

def firstPacketValue (packet : FirstPacket) : CborValue :=
  .map
    [(0, .bytes packet.protocolLineId.toList), (1, .bytes packet.protectionProfileId.toList),
      (2, .bytes packet.initiatorIdentityStateDigest.toList),
      (3, .bytes packet.initiatorUserAuthorityStateDigest.toList),
      (4, .bytes packet.responderIdentityStateDigest.toList),
      (5, .bytes packet.responderUserAuthorityStateDigest.toList),
      (6, bundleValue packet.prekey), (7, .bytes packet.initiatorX25519Public.toList),
      (8, .bytes packet.mlKem768Ciphertext), (9, .bytes packet.initiatorEd25519KeyId.toList),
      (10, .bytes packet.initiatorMlDsa65KeyId.toList),
      (11, .bytes packet.initiatorEd25519Signature.toList),
      (12, .bytes packet.initiatorMlDsa65Signature),
      (13, .bytes packet.clientConfirmCiphertext.toList),
      (14, .bytes packet.clientConfirmTag.toList)]

def encodeFirstPacket (packet : FirstPacket) : Except Error Bytes := do
  validateFirstPacketShape packet
  let encoded ← Encoding.encode (firstPacketValue packet)
  reject (encoded.length > maxFirstPacketBytes) handshakeRejected
  return encoded

def wireBytes (map : List (Nat × CborValue)) (label length : Nat) : Except Error Bytes :=
  match Encoding.lookupEntry label map with
  | some (.bytes value) => do
    reject (value.length ≠ length) handshakeRejected
    return value
  | _ => .error handshakeRejected

def wireFixed (n : Nat) (map : List (Nat × CborValue)) (label : Nat) :
    Except Error (FixedBytes n) := do
  let bytes ← wireBytes map label n
  okOr handshakeRejected (FixedBytes.ofBytes? n bytes)

def wireUint (map : List (Nat × CborValue)) (label : Nat) : Except Error Nat :=
  match Encoding.lookupEntry label map with
  | some (.unsigned value) => .ok value
  | _ => .error handshakeRejected

def decodePrekey (p : List (Nat × CborValue)) : Except Error PrekeyBundle := do
  return { protocolLineId := ← wireFixed 32 p 0
           protectionProfileId := ← wireFixed 32 p 1
           responderIdentityStateDigest := ← wireFixed 32 p 2
           ed25519KeyId := ← wireFixed 32 p 3
           mlDsa65KeyId := ← wireFixed 32 p 4
           pairSequence := ← wireUint p 5
           x25519Public := ← wireFixed 32 p 6
           mlKem768Public := ← wireBytes p 7 1184
           validFrom := ← wireUint p 8
           validUntil := ← wireUint p 9
           ed25519Signature := ← wireFixed 64 p 10
           mlDsa65Signature := ← wireBytes p 11 3309 }

def decodeFirstPacket (bytes : Bytes) : Except Error FirstPacket := do
  reject (bytes.length > maxFirstPacketBytes) handshakeRejected
  let .map m ← Encoding.decode bytes | throw handshakeRejected
  reject (m.length ≠ 15) handshakeRejected
  let some (.map p) := Encoding.lookupEntry 6 m | throw handshakeRejected
  reject (p.length ≠ 12) handshakeRejected
  let packet : FirstPacket :=
    { protocolLineId := ← wireFixed 32 m 0
      protectionProfileId := ← wireFixed 32 m 1
      initiatorIdentityStateDigest := ← wireFixed 32 m 2
      initiatorUserAuthorityStateDigest := ← wireFixed 32 m 3
      responderIdentityStateDigest := ← wireFixed 32 m 4
      responderUserAuthorityStateDigest := ← wireFixed 32 m 5
      prekey := ← decodePrekey p
      initiatorX25519Public := ← wireFixed 32 m 7
      mlKem768Ciphertext := ← wireBytes m 8 1088
      initiatorEd25519KeyId := ← wireFixed 32 m 9
      initiatorMlDsa65KeyId := ← wireFixed 32 m 10
      initiatorEd25519Signature := ← wireFixed 64 m 11
      initiatorMlDsa65Signature := ← wireBytes m 12 3309
      clientConfirmCiphertext := ← wireFixed 36 m 13
      clientConfirmTag := ← wireFixed 16 m 14 }
  validateFirstPacketShape packet
  return packet

/-! ## Digests -/

def prekeyTranscriptDigest (provider : Provider) (packet : FirstPacket) :
    Except Error (FixedBytes 32) := do
  let encoded ← Encoding.encode <| .array
    [.bytes packet.protocolLineId.toList, .bytes packet.protectionProfileId.toList,
      .bytes packet.initiatorIdentityStateDigest.toList,
      .bytes packet.initiatorEd25519KeyId.toList, .bytes packet.initiatorMlDsa65KeyId.toList,
      bundleUnsignedValue packet.prekey]
  return provider.sha256 (dPrekeyTranscript ++ encoded)

def handshakeCore (provider : Provider) (packet : FirstPacket) : Except Error (FixedBytes 32) := do
  let prekeyDigest ← prekeyTranscriptDigest provider packet
  let encoded ← Encoding.encode <| .array
    [.bytes prekeyDigest.toList, .bytes packet.protocolLineId.toList,
      .bytes packet.protectionProfileId.toList, .bytes packet.initiatorIdentityStateDigest.toList,
      .bytes packet.initiatorUserAuthorityStateDigest.toList,
      .bytes packet.responderIdentityStateDigest.toList,
      .bytes packet.responderUserAuthorityStateDigest.toList,
      .bytes packet.initiatorEd25519KeyId.toList, .bytes packet.initiatorMlDsa65KeyId.toList,
      .bytes packet.initiatorX25519Public.toList, .bytes packet.mlKem768Ciphertext]
  return provider.sha256 (dHandshakeTranscript ++ encoded)

def firstPacketDigest (provider : Provider) (packet : FirstPacket) :
    Except Error (FixedBytes 32) := do
  let encoded ← encodeFirstPacket packet
  return provider.sha256 (dHandshakeTranscript ++ encoded)

def sessionContext (provider : Provider) (line : RuntimeLine) (transcript : FixedBytes 32)
    (packet : FirstPacket) : Except Error (FixedBytes 32) := do
  let encoded ← Encoding.encode <| .array
    [.bytes line.protocolLineId.toList, .bytes line.protectionProfileId.toList,
      .bytes transcript.toList, .bytes packet.initiatorIdentityStateDigest.toList,
      .bytes packet.initiatorUserAuthorityStateDigest.toList,
      .bytes packet.responderIdentityStateDigest.toList,
      .bytes packet.responderUserAuthorityStateDigest.toList,
      .unsigned packet.prekey.pairSequence]
  return provider.sha256 (dSessionContext ++ encoded)

def acceptUnsigned (accept : SessionAccept) : Except Error Bytes := do
  let encoded ← Encoding.encode <| .map
    [(0, .bytes accept.transcriptDigest.toList), (1, .bytes accept.sessionContextDigest.toList),
      (2, .bytes accept.initiatorUserAuthorityStateDigest.toList),
      (3, .bytes accept.responderIdentityStateDigest.toList),
      (4, .bytes accept.responderUserAuthorityStateDigest.toList),
      (5, .unsigned accept.pairSequence)]
  reject (encoded.length + 35 > maxSessionAcceptBytes) (.terminal .boundExceeded .validation)
  return encoded

/-! ## Authentication -/

def verifyDual (provider : Provider) (identity : IdentityPublic) (input : Bytes)
    (ed : FixedBytes 64) (ml : Bytes) : Except Error Unit := do
  (provider.ed25519VerifyStrict identity.ed25519Public input ed).mapError fun _ => handshakeRejected
  (provider.mlDsa65Verify identity.mlDsa65Public input ml).mapError fun _ => handshakeRejected

def verifyBundle (provider : Provider) (identity : IdentityPublic) (bundle : PrekeyBundle) :
    Except Error Unit := do
  validateIdentityShape identity
  validatePrekeyShape bundle
  reject (bundle.responderIdentityStateDigest ≠ identity.stateDigest ∨
    bundle.ed25519KeyId ≠ identity.ed25519KeyId ∨ bundle.mlDsa65KeyId ≠ identity.mlDsa65KeyId)
    handshakeRejected
  let input ← bundleSignatureInput bundle
  verifyDual provider identity input bundle.ed25519Signature bundle.mlDsa65Signature

def verifyHandshakeAuthentication (provider : Provider) (identity : IdentityPublic)
    (packet : FirstPacket) : Except Error Unit := do
  validateIdentityShape identity
  validateFirstPacketShape packet
  reject (packet.initiatorIdentityStateDigest ≠ identity.stateDigest ∨
    packet.initiatorEd25519KeyId ≠ identity.ed25519KeyId ∨
    packet.initiatorMlDsa65KeyId ≠ identity.mlDsa65KeyId) handshakeRejected
  let core ← handshakeCore provider packet
  verifyDual provider identity (dInitiatorSign ++ core.toList) packet.initiatorEd25519Signature
    packet.initiatorMlDsa65Signature

def verifyLocalSigning {m : Type → Type} [Monad m] (custody : KeyCustody m)
    (identity : IdentityPublic) (signing : IdentitySigningHandles) : ExceptT Error m Unit := do
  let ed25519 ← attempt (custody.ed25519Public signing.ed25519) fun _ => handshakeRejected
  lift (reject (ed25519 ≠ identity.ed25519Public) handshakeRejected)
  let mlDsa65 ← attempt (custody.mlDsa65Public signing.mlDsa65) fun _ => handshakeRejected
  lift (reject (mlDsa65 ≠ identity.mlDsa65Public) handshakeRejected)

end LicoArc
