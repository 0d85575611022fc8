import LicoArc.Identity
import LicoArc.Json

/-!
# Identity records

The closed records of the identity layer and their validators. A hexadecimal
text is decoded by slicing it in pairs of bytes; a slice that cuts a character
panics, so whatever reaches the decoder ends with a value, with an error or in
that panic.
-/

namespace LicoArc

/-- How a call ends when it does not return a value. -/
inductive Fault
  | failed (error : Error)
  | panicked
  deriving DecidableEq

instance : MonadLift (Except Error) (Except Fault) where
  monadLift x := x.mapError .failed

@[simp] theorem liftM_eq_ok {α : Type} {x : Except Error α} {a : α} :
    (liftM x : Except Fault α) = .ok a ↔ x = .ok a := by
  change x.mapError Fault.failed = .ok a ↔ _
  exact Except.mapError_eq_ok

@[simp] theorem liftM_ne_panicked {α : Type} (x : Except Error α) :
    (liftM x : Except Fault α) ≠ .error .panicked := by
  change x.mapError Fault.failed ≠ _
  cases x <;> simp [Except.mapError]

namespace Identity

open Json

def ed25519ProfileId : String := "176b912b9547ca9c47ace10f881457ab63fcd493ef953616f5859e76b830fd60"
def mlDsa65ProfileId : String := "427e788bb9aed076acc2fb5a94715d14e694ec5fbc846ac52c8c7e118a6b1b8f"

def validation (code : ErrorCode) : Error := .validation code

section Text

def isCharBoundary (bytes : Bytes) (index : Nat) : Bool :=
  index == 0 ||
    match bytes[index]? with
    | none => index == bytes.length
    | some byte => byte < 0x80 || byte ≥ 0xc0

/-- `&text[start..stop]`. -/
def sliceText (bytes : Bytes) (start stop : Nat) : Except Fault Bytes :=
  if start ≤ stop ∧ isCharBoundary bytes start ∧ isCharBoundary bytes stop then
    .ok ((bytes.drop start).take (stop - start))
  else .error .panicked

def toDigit (byte : UInt8) : Option Nat :=
  if 48 ≤ byte ∧ byte ≤ 57 then some (byte.toNat - 48)
  else if 65 ≤ byte ∧ byte ≤ 70 then some (byte.toNat - 55)
  else if 97 ≤ byte ∧ byte ≤ 102 then some (byte.toNat - 87)
  else none

/-- The digits of a number in base sixteen, as long as it fits a byte. -/
def digitsRadix16 (digits : Bytes) : Option Nat :=
  digits.foldlM (fun total byte => do
    let digit ← toDigit byte
    if total * 16 + digit ≤ 255 then some (total * 16 + digit) else none) 0

/-- `u8::from_str_radix(text, 16)`: upper case and one plus sign are allowed. -/
def fromStrRadix16 : Bytes → Option UInt8
  | [] => none
  | [byte] => if byte = 43 ∨ byte = 45 then none else (digitsRadix16 [byte]).map UInt8.ofNat
  | first :: rest =>
    (digitsRadix16 (if first = 43 then rest else first :: rest)).map UInt8.ofNat

def decodePair (bytes : Bytes) (index : Nat) : Except Fault UInt8 := do
  let digits ← sliceText bytes index (index + 2)
  okOr (.failed (validation .invalidRepresentation)) (fromStrRadix16 digits)

def decodeHexText (text : String) : Except Fault Bytes := do
  let bytes := Encoding.textBytes text
  reject (bytes.length % 2 ≠ 0) (.failed (validation .invalidRepresentation))
  (List.range' 0 (bytes.length / 2) 2).mapM (decodePair bytes)

def hexBytes (bytes : Bytes) : String :=
  String.ofList (bytes.flatMap fun byte =>
    [Nat.digitChar (byte.toNat / 16), Nat.digitChar (byte.toNat % 16)])

def isLowerHexDigit (byte : UInt8) : Bool :=
  (48 ≤ byte && byte ≤ 57) || (97 ≤ byte && byte ≤ 102)

end Text

section Members

def closed (object : Map) (allowed required : List String) : Except Error Unit := do
  reject (object.any fun entry => !allowed.contains entry.1) (validation .unknownField)
  reject (required.any fun key => !object.containsKey key) (validation .invalidRepresentation)

def text (object : Map) (key : String) : Except Error String :=
  okOr (validation .invalidRepresentation) ((object.get key).bind Value.asStr)

def unsigned (object : Map) (key : String) : Except Error Nat :=
  okOr (validation .invalidRepresentation)
    (((object.get key).bind Value.asU64).filter fun value => value ≤ maxEpoch)

def epoch (object : Map) (key : String) : Except Error Nat := do
  let value ← unsigned object key
  if value = 0 then throw (validation .invalidRepresentation) else return value

def array (object : Map) (key : String) : Except Error (List Value) :=
  okOr (validation .invalidRepresentation) ((object.get key).bind Value.asArray)

def members (value : Value) : Except Error Map :=
  okOr (validation .invalidRepresentation) value.asObject

def items (value : Value) : Except Error (List Value) :=
  okOr (validation .invalidRepresentation) value.asArray

def optionalArray (object : Map) (key : String) : Except Error (Option (List Value)) :=
  match object.get key with
  | none => .ok none
  | some value => return some (← items value)

def object (object : Map) (key : String) : Except Error Map :=
  okOr (validation .invalidRepresentation) ((object.get key).bind Value.asObject)

def hasDuplicates : List Value → Bool
  | [] => false
  | value :: values => values.contains value || hasDuplicates values

def rejectDuplicates (values : List Value) : Except Error Unit :=
  reject (hasDuplicates values) (validation .invalidRepresentation)

def hexStringRange (value : Value) (minimum maximum : Nat) : Except Error Unit := do
  let text ← okOr (validation .invalidRepresentation) value.asStr
  reject (¬(minimum ≤ (Encoding.textBytes text).length ∧
      (Encoding.textBytes text).length ≤ maximum) ∨
    ¬(Encoding.textBytes text).all isLowerHexDigit) (validation .invalidRepresentation)

def hexValue (value : Value) (bytes : Nat) : Except Error Unit := do
  let text ← okOr (validation .invalidRepresentation) value.asStr
  reject ((Encoding.textBytes text).length ≠ bytes * 2 ∨
    ¬(Encoding.textBytes text).all isLowerHexDigit) (validation .invalidRepresentation)

def hexField (object : Map) (key : String) (bytes : Nat) : Except Error Unit := do
  let value ← okOr (validation .invalidRepresentation) (object.get key)
  hexValue value bytes

def optionalHex (value : Option Value) (bytes : Nat) : Except Error Unit :=
  match value with
  | none => .ok ()
  | some value => hexValue value bytes

def decodedHex (n : Nat) (object : Map) (key : String) : Except Fault (FixedBytes n) := do
  let bytes ← decodeHexText (← text object key)
  okOr (.failed (validation .invalidRepresentation)) (FixedBytes.ofBytes? n bytes)

end Members

section Records

def signaturePurposes : List String := ["endpoint-continuity", "authority-genesis",
  "authority-management", "authority-recovery", "device-possession",
  "replacement-management-possession", "replacement-recovery-possession", "station-affiliation",
  "station-route-service", "witness", "gossip", "discovery", "verification", "station-descriptor"]

def validateSignature (value : Map) (expectedPurpose : Option String) : Except Error Unit := do
  closed value ["keyProfileId", "keyId", "signaturePurpose", "signatureValue"]
    ["keyProfileId", "keyId", "signaturePurpose", "signatureValue"]
  hexField value "keyId" 32
  let purpose ← text value "signaturePurpose"
  reject (purpose ∉ signaturePurposes ∨ expectedPurpose.any fun expected => purpose ≠ expected)
    (validation .unknownField)
  let signature ← okOr (validation .invalidRepresentation) (value.get "signatureValue")
  let profile ← text value "keyProfileId"
  if profile = ed25519ProfileId then hexStringRange signature 128 128
  else if profile = mlDsa65ProfileId then hexStringRange signature 6618 6618
  else throw (validation .unknownField)

def validatePublicKey (value : Map) : Except Error Unit := do
  let publicKey ← okOr (validation .invalidRepresentation) (value.get "publicKey")
  let profile ← text value "keyProfileId"
  if profile = ed25519ProfileId then hexStringRange publicKey 64 64
  else if profile = mlDsa65ProfileId then hexStringRange publicKey 3904 3904
  else throw (validation .unknownField)

def expectedProfile (index : Nat) : String :=
  if index = 0 then ed25519ProfileId else mlDsa65ProfileId

/-- One key of an authority pair, after those whose profiles and ids are given. -/
def validateAuthorityKey (purpose : String) (seen : Finset String × Finset String)
    (entry : Value × Nat) : Except Error (Finset String × Finset String) := do
  let key ← members entry.1
  closed key ["keyId", "keyPurpose", "keyProfileId", "publicKey"]
    ["keyId", "keyPurpose", "keyProfileId", "publicKey"]
  let keyPurpose ← text key "keyPurpose"
  reject (keyPurpose ≠ purpose) (validation .authorizationFailed)
  hexField key "keyId" 32
  validatePublicKey key
  let profile ← text key "keyProfileId"
  reject (profile ≠ expectedProfile entry.2) (validation .authorizationFailed)
  let keyId ← text key "keyId"
  reject (profile ∈ seen.1 ∨ keyId ∈ seen.2) (validation .conflict)
  return (insert profile seen.1, insert keyId seen.2)

def validateAuthorityKeys (values : List Value) (purpose : String) : Except Error Unit := do
  reject (values.length ≠ 2) (validation .boundExceeded)
  let (profiles, _) ← values.zipIdx.foldlM (validateAuthorityKey purpose) (∅, ∅)
  reject (profiles ≠ {ed25519ProfileId, mlDsa65ProfileId}) (validation .authorizationFailed)

def validateSignatureEntry (ids : Finset String) (entry : Value × Nat) :
    Except Error (Finset String) := do
  let signature ← members entry.1
  validateSignature signature none
  let profile ← text signature "keyProfileId"
  let keyId ← text signature "keyId"
  reject (profile ≠ expectedProfile entry.2 ∨ keyId ∈ ids) (validation .authorizationFailed)
  return insert keyId ids

def validateSignatureArray (values : List Value) : Except Error Unit := do
  reject (values.length ≠ 2) (validation .boundExceeded)
  let _ ← values.zipIdx.foldlM validateSignatureEntry ∅

def validateKeyAuthorization (value : Value) : Except Error Unit := do
  let value ← members value
  closed value ["keyId", "keyPurpose", "keyState", "keyProfileId", "publicKey", "validFromEpoch",
      "revokedAtEpoch"]
    ["keyId", "keyPurpose", "keyState", "keyProfileId", "publicKey", "validFromEpoch"]
  hexField value "keyId" 32
  validatePublicKey value
  let purpose ← text value "keyPurpose"
  reject (purpose ∉ ["identity", "handshake"]) (validation .unknownField)
  let state ← text value "keyState"
  reject (state ∉ ["active", "revoked", "recovery"]) (validation .unknownField)
  let _ ← epoch value "validFromEpoch"
  if value.containsKey "revokedAtEpoch" then
    let _ ← epoch value "revokedAtEpoch"

def validateRecoveryProof (value : Map) : Except Error Unit := do
  closed value ["recoveryDigest", "witnesses"] ["recoveryDigest", "witnesses"]
  hexField value "recoveryDigest" 32
  let witnesses ← array value "witnesses"
  reject (witnesses = [] ∨ witnesses.length > 4) (validation .boundExceeded)
  rejectDuplicates witnesses
  witnesses.forM fun witness => do
    validateSignature (← members witness) none

def validateContinuityProof (value : Map) (transition : String) (predecessor : Option Value) :
    Except Error Unit := do
  closed value ["proofKind", "predecessorStateDigest", "signature"]
    ["proofKind", "predecessorStateDigest", "signature"]
  let proofKind ← text value "proofKind"
  reject (proofKind ∉ ["genesis", "rotation", "revocation", "recovery", "migration"] ∨
      proofKind ≠ transition ∨
      value.get "predecessorStateDigest" ≠ some (predecessor.getD .null))
    (validation .invalidTransition)
  optionalHex predecessor 32
  validateSignature (← object value "signature") (some "endpoint-continuity")

def validateAuthenticatedInput (value : Value) : Except Error Unit := do
  let value ← members value
  closed value ["inputId", "inputKind", "sourceRef", "stateEpoch", "stateDigest",
      "statementDigest", "expiresAt", "signature", "authenticatedInputOnly"]
    ["inputId", "inputKind", "sourceRef", "stateEpoch", "stateDigest",
      "statementDigest", "expiresAt", "signature", "authenticatedInputOnly"]
  let kind ← text value "inputKind"
  reject (kind ∉ ["witness", "gossip", "discovery", "stationSignature", "verificationRecord"] ∨
      value.get "authenticatedInputOnly" ≠ some (.bool true))
    (validation .invalidTransition)
  hexField value "inputId" 16
  ["sourceRef", "stateDigest", "statementDigest"].forM fun field => hexField value field 32
  let _ ← epoch value "stateEpoch"
  let _ ← unsigned value "expiresAt"
  validateSignature (← object value "signature") none

def admissibleUpdate (record : Map) (transition : String) (epoch : Nat) : Bool :=
  if transition = "genesis" ∧ epoch = 1 ∧ ¬record.containsKey "previousIdentityStateDigest" then
    !(record.containsKey "revokedKeyDigests" || record.containsKey "recoveryProof")
  else if epoch ≥ 2 ∧ record.containsKey "previousIdentityStateDigest" then
    transition == "rotation" ||
    transition == "revocation" && (((record.get "revokedKeyDigests").bind Value.asArray).any
      fun values => !values.isEmpty) ||
    transition == "recovery" && record.containsKey "recoveryProof"
  else false

def validateRevokedKeys : Option (List Value) → Except Error Unit
  | none => .ok ()
  | some revoked => do
    reject (revoked.length > 4) (validation .boundExceeded)
    rejectDuplicates revoked
    revoked.forM fun value => hexValue value 32

def validateRecovery : Option Value → Except Error Unit
  | none => .ok ()
  | some recovery => do validateRecoveryProof (← members recovery)

def validateIdentityUpdate (record : Map) : Except Error Unit := do
  closed record ["recordType", "protocolLineId", "endpointIdentityRef", "identityEpoch",
      "previousIdentityStateDigest", "transition", "stateDigest", "keyAuthorizations",
      "revokedKeyDigests", "recoveryProof", "continuityProof", "endpointSignature"]
    ["protocolLineId", "endpointIdentityRef", "identityEpoch", "transition", "stateDigest",
      "keyAuthorizations", "continuityProof", "endpointSignature"]
  hexField record "protocolLineId" 32
  hexField record "endpointIdentityRef" 32
  hexField record "stateDigest" 32
  let epoch ← epoch record "identityEpoch"
  let transition ← text record "transition"
  reject (¬admissibleUpdate record transition epoch) (validation .invalidTransition)
  optionalHex (record.get "previousIdentityStateDigest") 32
  let keys ← array record "keyAuthorizations"
  reject (keys = [] ∨ keys.length > 4) (validation .boundExceeded)
  rejectDuplicates keys
  keys.forM validateKeyAuthorization
  validateRevokedKeys (← optionalArray record "revokedKeyDigests")
  validateRecovery (record.get "recoveryProof")
  validateContinuityProof (← object record "continuityProof") transition
    (record.get "previousIdentityStateDigest")
  validateSignature (← object record "endpointSignature") (some "endpoint-continuity")

def admissibleTransition (transition : String) (epoch : Nat) (predecessor : Option Value) : Bool :=
  ["genesis", "migration", "rotation", "revocation", "recovery"].contains transition &&
    (epoch == 1) == (transition == "genesis") && (epoch == 1) == predecessor.isNone

def validateAffiliation (affiliation : Value) : Except Error Unit := do
  let item ← members affiliation
  closed item ["stationDescriptorDigest", "affiliationCommitment", "affiliationNonce",
      "affiliationNotAfter", "stationAffiliationSignature"]
    ["stationDescriptorDigest", "affiliationCommitment", "affiliationNonce",
      "affiliationNotAfter", "stationAffiliationSignature"]
  hexField item "stationDescriptorDigest" 32
  hexField item "affiliationCommitment" 32
  hexField item "affiliationNonce" 32
  let _ ← unsigned item "affiliationNotAfter"
  validateSignature (← object item "stationAffiliationSignature") (some "station-affiliation")

def validateAffiliationUpdate (record : Map) : Except Error Unit := do
  closed record ["recordType", "protocolLineId", "endpointIdentityRef", "affiliationEpoch",
      "previousAffiliationUpdateDigest", "transition", "stationAffiliations", "stateDigest",
      "endpointSignature"]
    ["protocolLineId", "endpointIdentityRef", "affiliationEpoch", "transition",
      "stationAffiliations", "stateDigest", "endpointSignature"]
  hexField record "protocolLineId" 32
  hexField record "endpointIdentityRef" 32
  hexField record "stateDigest" 32
  let epoch ← epoch record "affiliationEpoch"
  let transition ← text record "transition"
  reject (¬admissibleTransition transition epoch (record.get "previousAffiliationUpdateDigest"))
    (validation .invalidTransition)
  optionalHex (record.get "previousAffiliationUpdateDigest") 32
  let affiliations ← array record "stationAffiliations"
  reject (affiliations.length > 4) (validation .boundExceeded)
  rejectDuplicates affiliations
  affiliations.forM validateAffiliation
  validateSignature (← object record "endpointSignature") (some "endpoint-continuity")

def validateRoute (route : Value) : Except Error Unit := do
  let route ← members route
  closed route ["stationDescriptorDigest", "affiliationCommitment", "transportProfileId",
      "handleClass", "deliveryHandle", "serviceUntil", "stationServiceSignature"]
    ["stationDescriptorDigest", "affiliationCommitment", "transportProfileId",
      "handleClass", "deliveryHandle", "serviceUntil", "stationServiceSignature"]
  ["stationDescriptorDigest", "affiliationCommitment", "transportProfileId",
    "deliveryHandle"].forM fun field => hexField route field 32
  let _ ← unsigned route "serviceUntil"
  let handleClass ← text route "handleClass"
  reject (handleClass ≠ "async") (validation .invalidTransition)
  validateSignature (← object route "stationServiceSignature") (some "station-route-service")

def validateRouteUpdate (record : Map) : Except Error Unit := do
  closed record ["recordType", "protocolLineId", "endpointIdentityRef", "peerEndpointIdentityRef",
      "routeEpoch", "previousRouteUpdateDigest", "transition", "affiliationStateDigest",
      "routeNotAfter", "routes", "endpointSignature"]
    ["protocolLineId", "endpointIdentityRef", "peerEndpointIdentityRef", "routeEpoch",
      "transition", "affiliationStateDigest", "routeNotAfter", "routes", "endpointSignature"]
  ["protocolLineId", "endpointIdentityRef", "peerEndpointIdentityRef",
    "affiliationStateDigest"].forM fun field => hexField record field 32
  let epoch ← epoch record "routeEpoch"
  let transition ← text record "transition"
  reject (¬admissibleTransition transition epoch (record.get "previousRouteUpdateDigest"))
    (validation .invalidTransition)
  optionalHex (record.get "previousRouteUpdateDigest") 32
  let _ ← unsigned record "routeNotAfter"
  let routes ← array record "routes"
  reject (routes = [] ∨ routes.length > 4) (validation .boundExceeded)
  rejectDuplicates routes
  routes.forM validateRoute
  validateSignature (← object record "endpointSignature") (some "endpoint-continuity")

def validateFirstContact (record : Map) : Except Error Unit := do
  closed record ["recordType", "handleClass", "deliveryHandle", "audienceDigest",
      "invitationBinding", "purpose", "singleUse", "expiresAt", "protectedInvitation",
      "peerVerificationState"]
    ["handleClass", "deliveryHandle", "audienceDigest", "invitationBinding", "purpose",
      "singleUse", "expiresAt", "protectedInvitation", "peerVerificationState"]
  let handleClass ← text record "handleClass"
  reject (handleClass ≠ "firstContact") (validation .invalidTransition)
  let purpose ← text record "purpose"
  reject (purpose ≠ "firstContact" ∨ record.get "singleUse" ≠ some (.bool true))
    (validation .invalidTransition)
  let verification ← text record "peerVerificationState"
  reject (verification ≠ "unverified") (validation .invalidTransition)
  ["deliveryHandle", "audienceDigest", "invitationBinding"].forM fun field =>
    hexField record field 32
  let _ ← unsigned record "expiresAt"
  let invitation ← object record "protectedInvitation"
  closed invitation ["inviterEndpointIdentityRef", "inviteeEndpointIdentityRef",
      "invitationBinding", "purpose", "audienceDigest", "handshakeNonce"]
    ["inviterEndpointIdentityRef", "invitationBinding", "purpose", "audienceDigest"]
  ["inviterEndpointIdentityRef", "invitationBinding", "audienceDigest"].forM fun field =>
    hexField invitation field 32
  ["inviteeEndpointIdentityRef", "handshakeNonce"].forM fun field =>
    optionalHex (invitation.get field) 32
  reject (invitation.get "invitationBinding" ≠ record.get "invitationBinding" ∨
      invitation.get "audienceDigest" ≠ record.get "audienceDigest" ∨
      invitation.get "purpose" ≠ record.get "purpose") (validation .invalidTransition)
  let purpose ← text invitation "purpose"
  reject (purpose ≠ "firstContact") (validation .invalidTransition)

def validateDiscovery (record : Map) : Except Error Unit := do
  closed record ["recordType", "inputId", "sourceKind", "sourceRef", "subjectEndpointIdentityRef",
      "chainKind", "stateEpoch", "stateDigest", "statementDigest", "observedAt", "expiresAt",
      "sourceSignature", "authenticatedInputOnly"]
    ["inputId", "sourceKind", "sourceRef", "subjectEndpointIdentityRef",
      "chainKind", "stateEpoch", "stateDigest", "statementDigest", "observedAt", "expiresAt",
      "sourceSignature", "authenticatedInputOnly"]
  let sourceKind ← text record "sourceKind"
  reject (sourceKind ∉ ["directory", "witness", "gossip", "station"]) (validation .unknownField)
  let chainKind ← text record "chainKind"
  reject (chainKind ∉ ["identity", "affiliation", "route"] ∨
    record.get "authenticatedInputOnly" ≠ some (.bool true)) (validation .invalidTransition)
  hexField record "inputId" 16
  ["sourceRef", "subjectEndpointIdentityRef", "stateDigest", "statementDigest"].forM fun field =>
    hexField record field 32
  let _ ← epoch record "stateEpoch"
  let _ ← unsigned record "observedAt"
  let _ ← unsigned record "expiresAt"
  validateSignature (← object record "sourceSignature") none

def validateTransparency (record : Map) : Except Error Unit := do
  closed record ["recordType", "subjectEndpointIdentityRef", "chainKind", "stateEpoch",
      "stateDigest", "witnessInputs", "gossipInputs", "discoveryInputs", "stationSignatureInputs",
      "verificationInputs", "authority", "endpointRetainsContinuity", "splitView"]
    ["subjectEndpointIdentityRef", "chainKind", "stateEpoch",
      "stateDigest", "witnessInputs", "gossipInputs", "discoveryInputs", "stationSignatureInputs",
      "verificationInputs", "authority", "endpointRetainsContinuity"]
  let chainKind ← text record "chainKind"
  reject (chainKind ∉ ["identity", "affiliation", "route"]) (validation .invalidTransition)
  let authority ← text record "authority"
  reject (authority ≠ "bounded-authenticated-input-only" ∨
      record.get "endpointRetainsContinuity" ≠ some (.bool true) ∨
      (record.get "splitView").any fun value => !value.isBoolean)
    (validation .invalidTransition)
  hexField record "subjectEndpointIdentityRef" 32
  hexField record "stateDigest" 32
  let _ ← epoch record "stateEpoch"
  ["witnessInputs", "gossipInputs", "discoveryInputs", "stationSignatureInputs",
    "verificationInputs"].forM fun key => do
      let inputs ← array record key
      reject (inputs.length > 8) (validation .boundExceeded)
      rejectDuplicates inputs
      inputs.forM validateAuthenticatedInput

def validateListener (listener : Value) : Except Error Unit := do
  let listener ← members listener
  closed listener ["transportProfileId", "endpointUri"] ["transportProfileId", "endpointUri"]
  hexField listener "transportProfileId" 32
  let endpoint := Encoding.textBytes (← text listener "endpointUri")
  reject (endpoint.length < 10 ∨ endpoint.length > 128 ∨
      ¬(Encoding.textBytes "https://").isPrefixOf endpoint ∨
      (63 : UInt8) ∈ endpoint ∨ (35 : UInt8) ∈ endpoint ∨ ¬endpoint.all fun byte => byte < 0x80)
    (validation .invalidRepresentation)

def validateSigningKey (key : Value) : Except Error Unit := do
  let key ← members key
  closed key ["keyProfileId", "keyId", "publicKey"] ["keyProfileId", "keyId", "publicKey"]
  hexField key "keyId" 32
  validatePublicKey key

/-- The first descriptor of a station has no predecessor, every other one does. -/
def validatePredecessor (sequence : Nat) : Option Value → Except Error Unit
  | none => reject (sequence ≠ 1) (validation .invalidTransition)
  | some previous => do
    reject (sequence < 2) (validation .invalidTransition)
    hexValue previous 32

def validateCertifications : Option (List Value) → Except Error Unit
  | none => .ok ()
  | some certifications => do
    reject (certifications = [] ∨ certifications.length > 4) (validation .boundExceeded)
    rejectDuplicates certifications
    certifications.forM fun value => hexValue value 32

def validateStationDescriptor (record : Map) : Except Error Unit := do
  closed record ["recordType", "stationId", "descriptorSequence", "previousDescriptorDigest",
      "notBefore", "notAfter", "listeners", "signingKeys", "certificationRefs", "signatures"]
    ["stationId", "descriptorSequence", "notBefore", "notAfter", "listeners", "signingKeys",
      "signatures"]
  hexField record "stationId" 32
  let sequence ← epoch record "descriptorSequence"
  validatePredecessor sequence (record.get "previousDescriptorDigest")
  let notBefore ← unsigned record "notBefore"
  let notAfter ← unsigned record "notAfter"
  reject (notBefore ≥ notAfter) (validation .invalidTransition)
  let listeners ← array record "listeners"
  reject (listeners = [] ∨ listeners.length > 4) (validation .boundExceeded)
  rejectDuplicates listeners
  listeners.forM validateListener
  let signingKeys ← array record "signingKeys"
  reject (signingKeys = [] ∨ signingKeys.length > 4) (validation .boundExceeded)
  rejectDuplicates signingKeys
  signingKeys.forM validateSigningKey
  validateCertifications (← optionalArray record "certificationRefs")
  let signatures ← array record "signatures"
  reject (signatures = [] ∨ signatures.length > 4) (validation .boundExceeded)
  rejectDuplicates signatures
  signatures.forM fun signature => do
    validateSignature (← members signature) (some "station-descriptor")

end Records

section UserAuthority

def validateDeviceStatus (item : Map) (epoch admitted : Nat) : Except Error Unit := do
  let status ← text item "deviceStatus"
  if status = "active" ∧ ¬item.containsKey "revokedAuthorityEpoch" then return ()
  else if status = "revoked" ∧ item.containsKey "revokedAuthorityEpoch" then
    let revoked ← unsigned item "revokedAuthorityEpoch"
    reject (revoked < admitted ∨ revoked > epoch) (validation .invalidTransition)
  else throw (validation .invalidTransition)

/-- One device of a roster, after a device whose reference is given. -/
def validateDevice (epoch : Nat) (priorEndpoint : Option (FixedBytes 32)) (device : Value) :
    Except Fault (Option (FixedBytes 32)) := do
  let item ← members device
  closed item ["endpointIdentityRef", "identityStateDigest", "deviceStatus",
      "admittedAuthorityEpoch", "revokedAuthorityEpoch", "possessionProof"]
    ["endpointIdentityRef", "identityStateDigest", "deviceStatus", "admittedAuthorityEpoch",
      "possessionProof"]
  let endpoint ← decodedHex 32 item "endpointIdentityRef"
  reject (priorEndpoint.any fun prior => ¬prior.toList < endpoint.toList)
    (.failed (validation .conflict))
  hexField item "identityStateDigest" 32
  let admitted ← unsigned item "admittedAuthorityEpoch"
  reject (admitted > epoch) (.failed (validation .invalidTransition))
  validateDeviceStatus item epoch admitted
  validateSignatureArray (← array item "possessionProof")
  return some endpoint

def validateProofSignatures (proof : Map) (field : String) : Except Error Unit :=
  match proof.get field with
  | none => .ok ()
  | some signatures => do validateSignatureArray (← items signatures)

def validateReplacementProof (record : Map) : Except Error Unit :=
  match record.get "possessionProof" with
  | none => .ok ()
  | some proof => do
    let proof ← members proof
    closed proof ["managementSignatures", "recoverySignatures"] []
    reject (proof = []) (validation .invalidRepresentation)
    ["managementSignatures", "recoverySignatures"].forM (validateProofSignatures proof)

/-- What `validate_user_authority_record` checks before its device loop. -/
def validateAuthorityHead (record : Map) : Except Error (Nat × List Value) := do
  closed record ["recordType", "protocolLineId", "userIdentityRef", "authorityEpoch",
      "previousUserAuthorityStateDigest", "authorityTransitionKind", "managementSigningKeys",
      "recoverySigningKeys", "authorizedDevices", "possessionProof", "authoritySignatures"]
    ["protocolLineId", "userIdentityRef", "authorityEpoch", "authorityTransitionKind",
      "managementSigningKeys", "recoverySigningKeys", "authorizedDevices", "authoritySignatures"]
  hexField record "protocolLineId" 32
  hexField record "userIdentityRef" 32
  let epoch ← unsigned record "authorityEpoch"
  let transition ← text record "authorityTransitionKind"
  reject ((epoch == 0) != (transition == "genesis") ∨
      (epoch == 0) == record.containsKey "previousUserAuthorityStateDigest")
    (validation .invalidTransition)
  optionalHex (record.get "previousUserAuthorityStateDigest") 32
  validateAuthorityKeys (← array record "managementSigningKeys") "management"
  validateAuthorityKeys (← array record "recoverySigningKeys") "recovery"
  let devices ← array record "authorizedDevices"
  reject (devices = [] ∨ devices.length > 16) (validation .boundExceeded)
  return (epoch, devices)

def validateUserAuthorityRecord (record : Map) : Except Fault Unit := do
  let (epoch, devices) ← validateAuthorityHead record
  let _ ← devices.foldlM (validateDevice epoch) none
  validateReplacementProof record
  validateSignatureArray (← array record "authoritySignatures")

end UserAuthority

section Definition

mutual

def validateJsonBounds (value : Value) (depth inputBudget : Nat) : Except Error Nat := do
  reject (depth > 16) (validation .boundExceeded)
  match value with
  | .string value =>
    let size := (Encoding.textBytes value).length
    reject (inputBudget + size > 65536) (validation .boundExceeded)
    reject (size > 8192) (validation .boundExceeded)
    return inputBudget + size
  | .object entries =>
    let size := (entries.map fun entry => (Encoding.textBytes entry.1).length).sum
    reject (inputBudget + size > 65536) (validation .boundExceeded)
    reject (entries.length > 64 ∨
        entries.any fun entry => (Encoding.textBytes entry.1).length > 4096)
      (validation .boundExceeded)
    validateEntryBounds entries (depth + 1) (inputBudget + size)
  | .array values =>
    reject (inputBudget + 1 > 65536) (validation .boundExceeded)
    reject (values.length > 64) (validation .boundExceeded)
    validateItemBounds values (depth + 1) (inputBudget + 1)
  | .null | .bool _ | .number _ =>
    reject (inputBudget + 1 > 65536) (validation .boundExceeded)
    return inputBudget + 1

def validateItemBounds : List Value → (depth inputBudget : Nat) → Except Error Nat
  | [], _, inputBudget => .ok inputBudget
  | value :: values, depth, inputBudget => do
    let inputBudget ← validateJsonBounds value depth inputBudget
    validateItemBounds values depth inputBudget

def validateEntryBounds : List (String × Value) → (depth inputBudget : Nat) → Except Error Nat
  | [], _, inputBudget => .ok inputBudget
  | (_, value) :: entries, depth, inputBudget => do
    let inputBudget ← validateJsonBounds value depth inputBudget
    validateEntryBounds entries depth inputBudget

end

/-- The size limits that every record meets before its type is read. -/
def validateSizes (formatFinite : Rat → String) (value : Value) : Except Error Map := do
  let _ ← validateJsonBounds value 0 0
  let canonical ← (canonicalJson formatFinite value).mapError fun error => validation error.code
  reject (canonical.utf8ByteSize > 65536) (validation .boundExceeded)
  members value

def validateDefinitionRecord (formatFinite : Rat → String) (value : Value) :
    Except Fault Unit := do
  let record ← validateSizes formatFinite value
  let recordType ← text record "recordType"
  match recordType with
  | "identityUpdate" => validateIdentityUpdate record
  | "affiliationUpdate" => validateAffiliationUpdate record
  | "routeUpdate" => validateRouteUpdate record
  | "firstContact" => validateFirstContact record
  | "discoveryInput" => validateDiscovery record
  | "transparencyBundle" => validateTransparency record
  | "userAuthorityState" => validateUserAuthorityRecord record
  | "stationDescriptor" => validateStationDescriptor record
  | _ => throw (.failed (validation .unknownField))

end Definition

end Identity

end LicoArc
