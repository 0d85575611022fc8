import LicoArc.IdentityRecord
import LicoArc.Provider

/-!
# User authority states

The digests and signature inputs of a user authority state, the check of a
state against its predecessor, catch-up over a list of snapshots and the
admission of a protected payload.
-/

namespace LicoArc

structure EndpointStateKeys where
  endpointIdentityRef : FixedBytes 32
  identityStateDigest : FixedBytes 32
  ed25519KeyId : FixedBytes 32
  ed25519Public : FixedBytes 32
  mlDsa65KeyId : FixedBytes 32
  mlDsa65Public : Bytes
  deriving DecidableEq

structure AcceptedUserAuthority where
  state : Json.Value
  userIdentityRef : FixedBytes 32
  authorityEpoch : Nat
  stateDigest : FixedBytes 32

structure AuthenticatedAuthoritySession where
  authenticated : Bool
  authorityStateDigest : FixedBytes 32
  endpointIdentityRef : FixedBytes 32
  identityStateDigest : FixedBytes 32

namespace Identity

open Json

def maxChainRecords : Nat := 64
def userIdentityDomain : Bytes := domain "LICOARC-V1/USER-IDENTITY-REF"
def authorityStateDomain : Bytes := domain "LICOARC-V1/USER-AUTHORITY-STATE"
def authoritySignatureDomain : Bytes := domain "LICOARC-V1/USER-AUTHORITY-STATE/SIGN"
def devicePossessionDomain : Bytes := domain "LICOARC-V1/USER-AUTHORITY/DEVICE-POSSESSION"

def domainInput (domain input : Bytes) : Bytes := domain ++ input

section Projections

def keyProjection (value : Value) : Except Fault CborValue := do
  let key ← members value
  let keyId ← decodedHex 32 key "keyId"
  let purpose ← text key "keyPurpose"
  let profile ← decodedHex 32 key "keyProfileId"
  let publicKey ← decodeHexText (← text key "publicKey")
  return .array [.bytes keyId.toList, .text purpose, .bytes profile.toList, .bytes publicKey]

def authorityKeyProjection (values : List Value) : Except Fault CborValue := do
  return .array (← values.mapM keyProjection)

def signatureEntryProjection (value : Value) : Except Fault CborValue := do
  let signature ← members value
  let profile ← decodedHex 32 signature "keyProfileId"
  let keyId ← decodedHex 32 signature "keyId"
  let purpose ← text signature "signaturePurpose"
  let signatureValue ← decodeHexText (← text signature "signatureValue")
  return .array [.bytes profile.toList, .bytes keyId.toList, .text purpose, .bytes signatureValue]

def signatureProjection (values : List Value) : Except Fault CborValue := do
  return .array (← values.mapM signatureEntryProjection)

def deviceProjection (value : Value) : Except Fault CborValue := do
  let device ← members value
  let revoked := (((device.get "revokedAuthorityEpoch").bind Value.asU64).map
    CborValue.unsigned).getD .null
  let endpoint ← decodedHex 32 device "endpointIdentityRef"
  let digest ← decodedHex 32 device "identityStateDigest"
  let status ← text device "deviceStatus"
  let admitted ← unsigned device "admittedAuthorityEpoch"
  let proof ← signatureProjection (← array device "possessionProof")
  return .array [.bytes endpoint.toList, .bytes digest.toList, .text status, .unsigned admitted,
    revoked, proof]

def proofSignatures (proof : Map) (name : String) : Except Fault CborValue :=
  match proof.get name with
  | none => .ok .null
  | some value => do signatureProjection (← items value)

def replacementProofProjection (proof : Map) : Except Fault CborValue := do
  let management ← proofSignatures proof "managementSignatures"
  let recovery ← proofSignatures proof "recoverySignatures"
  return .array [management, recovery]

def possessionProjection (record : Map) : Except Fault CborValue :=
  match record.get "possessionProof" with
  | none => .ok .null
  | some value => do replacementProofProjection (← members value)

def previousDigest (record : Map) : Except Fault (Option (FixedBytes 32)) :=
  match record.get "previousUserAuthorityStateDigest" with
  | none => .ok none
  | some _ => some <$> decodedHex 32 record "previousUserAuthorityStateDigest"

def authorityStateProjection (record : Map) : Except Fault CborValue := do
  let previous ← previousDigest record
  let possession ← possessionProjection record
  let line ← decodedHex 32 record "protocolLineId"
  let user ← decodedHex 32 record "userIdentityRef"
  let epoch ← unsigned record "authorityEpoch"
  let transition ← text record "authorityTransitionKind"
  let management ← authorityKeyProjection (← array record "managementSigningKeys")
  let recovery ← authorityKeyProjection (← array record "recoverySigningKeys")
  let devices ← (← array record "authorizedDevices").mapM deviceProjection
  return .array [.text "UserAuthorityStateV1", .bytes line.toList, .bytes user.toList,
    .unsigned epoch, (previous.map fun digest => CborValue.bytes digest.toList).getD .null,
    .text transition, management, recovery, .array devices, possession]

end Projections

section Inputs

def deriveUserIdentityRef (provider : Provider) (management recovery : List Value) :
    Except Fault (FixedBytes 32) := do
  validateAuthorityKeys management "management"
  validateAuthorityKeys recovery "recovery"
  let management ← authorityKeyProjection management
  let recovery ← authorityKeyProjection recovery
  let projection ← Encoding.encode (.array [management, recovery])
  return provider.sha256 (domainInput userIdentityDomain projection)

def userAuthorityStateDigest (formatFinite : Rat → String) (provider : Provider) (state : Value) :
    Except Fault (FixedBytes 32) := do
  validateDefinitionRecord formatFinite state
  let projection ← authorityStateProjection (← members state)
  let encoded ← Encoding.encode projection
  return provider.sha256 (domainInput authorityStateDomain encoded)

def authoritySignatureInput (formatFinite : Rat → String) (provider : Provider) (state : Value) :
    Except Fault Bytes := do
  let digest ← userAuthorityStateDigest formatFinite provider state
  return domainInput authoritySignatureDomain digest.toList

def devicePossessionInput (state device : Value) : Except Fault Bytes := do
  let record ← members state
  let item ← members device
  let line ← decodedHex 32 record "protocolLineId"
  let user ← decodedHex 32 record "userIdentityRef"
  let epoch ← unsigned record "authorityEpoch"
  let endpoint ← decodedHex 32 item "endpointIdentityRef"
  let digest ← decodedHex 32 item "identityStateDigest"
  let encoded ← Encoding.encode (.array [.bytes line.toList, .bytes user.toList, .unsigned epoch,
    .bytes endpoint.toList, .bytes digest.toList])
  return domainInput devicePossessionDomain encoded

def replacementPossessionInput (state : Value) : Except Fault Bytes := do
  let record ← members state
  let line ← decodedHex 32 record "protocolLineId"
  let user ← decodedHex 32 record "userIdentityRef"
  let epoch ← unsigned record "authorityEpoch"
  let management ← authorityKeyProjection (← array record "managementSigningKeys")
  let recovery ← authorityKeyProjection (← array record "recoverySigningKeys")
  let encoded ← Encoding.encode (.array [.text "AuthorityKeyReplacementV1", .bytes line.toList,
    .bytes user.toList, .unsigned epoch, management, recovery])
  return domainInput devicePossessionDomain encoded

end Inputs

section Signatures

def endpointKeyValues (keys : EndpointStateKeys) : List Value :=
  [.object [("keyId", .string (hexBytes keys.ed25519KeyId.toList)),
      ("keyProfileId", .string ed25519ProfileId), ("keyPurpose", .string "device"),
      ("publicKey", .string (hexBytes keys.ed25519Public.toList))],
    .object [("keyId", .string (hexBytes keys.mlDsa65KeyId.toList)),
      ("keyProfileId", .string mlDsa65ProfileId), ("keyPurpose", .string "device"),
      ("publicKey", .string (hexBytes keys.mlDsa65Public))]]

def findKey (keys : List Value) (keyId profile : String) : Option Map :=
  (keys.filterMap Value.asObject).find? fun key =>
    (key.get "keyId").bind Value.asStr == some keyId &&
      (key.get "keyProfileId").bind Value.asStr == some profile

def verifySignature (provider : Provider) (keys : List Value) (purpose : String) (message : Bytes)
    (signature : Value) : Except Fault Unit := do
  let sig ← members signature
  validateSignature sig (some purpose)
  let keyId ← text sig "keyId"
  let profile ← text sig "keyProfileId"
  let key ← okOr (.failed (validation .authorizationFailed)) (findKey keys keyId profile)
  let publicKey ← decodeHexText (← text key "publicKey")
  let signature ← decodeHexText (← text sig "signatureValue")
  if profile = ed25519ProfileId then
    let publicKey ← okOr (.failed (validation .invalidRepresentation))
      (FixedBytes.ofBytes? 32 publicKey)
    let signature ← okOr (.failed (validation .invalidRepresentation))
      (FixedBytes.ofBytes? 64 signature)
    (provider.ed25519VerifyStrict publicKey message signature).mapError
      fun _ => .failed (validation .authenticationFailed)
  else if profile = mlDsa65ProfileId then
    (provider.mlDsa65Verify publicKey message signature).mapError
      fun _ => .failed (validation .authenticationFailed)
  else throw (.failed (validation .unknownField))

def verifySignaturePair (provider : Provider) (signatures keys : List Value) (purpose : String)
    (message : Bytes) : Except Fault Unit := do
  reject (signatures.length ≠ 2 ∨ keys.length ≠ 2) (.failed (validation .authorizationFailed))
  signatures.forM (verifySignature provider keys purpose message)

/-- The possession proof of one key set: required where the set changed, refused elsewhere. -/
def verifyReplacedKeys (provider : Provider) (record proof : Map) (input : Bytes) (changed : Bool)
    (field keys purpose : String) : Except Fault Unit := do
  if changed then
    let signatures ← okOr (.failed (validation .authorizationFailed))
      ((proof.get field).bind Value.asArray)
    verifySignaturePair provider signatures (← array record keys) purpose input
  else reject (proof.containsKey field) (.failed (validation .invalidTransition))

def verifyReplacementPossession (provider : Provider) (state : Value) (record : Map)
    (managementChanged recoveryChanged : Bool) : Except Fault Unit := do
  reject (¬managementChanged ∧ ¬recoveryChanged) (.failed (validation .invalidTransition))
  let proof ← okOr (.failed (validation .authorizationFailed))
    ((record.get "possessionProof").bind Value.asObject)
  let input ← replacementPossessionInput state
  verifyReplacedKeys provider record proof input managementChanged "managementSignatures"
    "managementSigningKeys" "replacement-management-possession"
  verifyReplacedKeys provider record proof input recoveryChanged "recoverySignatures"
    "recoverySigningKeys" "replacement-recovery-possession"

end Signatures

section Roster

def insertDevice (endpoint : FixedBytes 32) (device : Map) :
    List (FixedBytes 32 × Map) → List (FixedBytes 32 × Map)
  | [] => [(endpoint, device)]
  | (first, other) :: entries =>
    if endpoint.toList < first.toList then (endpoint, device) :: (first, other) :: entries
    else if endpoint = first then (endpoint, device) :: entries
    else (first, other) :: insertDevice endpoint device entries

def deviceEntry (value : Value) : Except Fault (FixedBytes 32 × Map) := do
  let device ← members value
  return (← decodedHex 32 device "endpointIdentityRef", device)

def deviceMap (values : List Value) : Except Fault (List (FixedBytes 32 × Map)) := do
  let entries ← values.mapM deviceEntry
  return entries.foldl (fun map entry => insertDevice entry.1 entry.2 map) []

def validateListedDevice (next : List (FixedBytes 32 × Map)) (epoch : Nat)
    (entry : FixedBytes 32 × Map) : Except Fault Unit := do
  let prior := entry.2
  let status ← text prior "deviceStatus"
  match next.lookup entry.1 with
  | none => reject (status = "active") (.failed (validation .authorizationFailed))
  | some current =>
    if status = "revoked" then
      reject (prior ≠ current) (.failed (validation .authorizationFailed))
    else if (← text current "deviceStatus") = "revoked" then
      reject (current.get "identityStateDigest" ≠ prior.get "identityStateDigest" ∨
          current.get "admittedAuthorityEpoch" ≠ prior.get "admittedAuthorityEpoch" ∨
          current.get "possessionProof" ≠ prior.get "possessionProof" ∨
          (current.get "revokedAuthorityEpoch").bind Value.asU64 ≠ some epoch)
        (.failed (validation .authorizationFailed))
    else if current.get "identityStateDigest" = prior.get "identityStateDigest" then
      reject (current.get "admittedAuthorityEpoch" ≠ prior.get "admittedAuthorityEpoch" ∨
          current.get "possessionProof" ≠ prior.get "possessionProof")
        (.failed (validation .authorizationFailed))
    else
      reject ((current.get "admittedAuthorityEpoch").bind Value.asU64 ≠ some epoch)
        (.failed (validation .authorizationFailed))

def validateNewDevice (previous : List (FixedBytes 32 × Map)) (epoch : Nat)
    (entry : FixedBytes 32 × Map) : Except Fault Unit := do
  match previous.lookup entry.1 with
  | some _ => pure ()
  | none =>
    let status ← text entry.2 "deviceStatus"
    reject (status ≠ "active" ∨
        (entry.2.get "admittedAuthorityEpoch").bind Value.asU64 ≠ some epoch)
      (.failed (validation .authorizationFailed))

def validateRosterTransition (previous next : List Value) (epoch : Nat) : Except Fault Unit := do
  let previousByRef ← deviceMap previous
  let nextByRef ← deviceMap next
  previousByRef.forM (validateListedDevice nextByRef epoch)
  nextByRef.forM (validateNewDevice previousByRef epoch)

/-- Whether the entry of a device is carried over from the prior roster. -/
def unchangedDevice (priorDevices : List Value) (item : Map) : Bool :=
  priorDevices.any fun prior => prior.asObject.any fun prior =>
    prior.get "endpointIdentityRef" == item.get "endpointIdentityRef" &&
      prior.get "identityStateDigest" == item.get "identityStateDigest"

def validateGenesisDevice (genesis : Bool) (epoch : Nat) (item : Map) : Except Error Unit :=
  if genesis then do
    let status ← text item "deviceStatus"
    reject (status ≠ "active" ∨
        (item.get "admittedAuthorityEpoch").bind Value.asU64 ≠ some epoch)
      (validation .authorizationFailed)
  else .ok ()

def validateAdmittedStatus (item : Map) (epoch admitted : Nat) : Except Error Unit := do
  let status ← text item "deviceStatus"
  if status = "active" ∧ admitted ≤ epoch ∧ ¬item.containsKey "revokedAuthorityEpoch" then
    return ()
  else
    reject (¬(status = "revoked" ∧ ((item.get "revokedAuthorityEpoch").bind Value.asU64).any
        fun revoked => revoked ≥ admitted ∧ revoked ≤ epoch))
      (validation .invalidTransition)

/-- The proof check that a device carried over from the prior roster skips. -/
def admitDevice (provider : Provider) (state : Value) (epoch : Nat) (genesis : Bool)
    (priorDevices : List Value) (endpointStates : List EndpointStateKeys) (device : Value)
    (item : Map) (endpointRef identityDigest : FixedBytes 32) : Except Fault Unit :=
  if unchangedDevice priorDevices item then .ok ()
  else do
    validateGenesisDevice genesis epoch item
    let endpoint ← okOr (.failed (validation .authorizationFailed))
      (endpointStates.find? fun candidate => candidate.endpointIdentityRef = endpointRef ∧
        candidate.identityStateDigest = identityDigest)
    let admitted ← unsigned item "admittedAuthorityEpoch"
    let proof ← array item "possessionProof"
    let input ← devicePossessionInput state device
    verifySignaturePair provider proof (endpointKeyValues endpoint) "device-possession" input
    validateAdmittedStatus item epoch admitted

def validateAuthorizedDevice (provider : Provider) (state : Value) (epoch : Nat) (genesis : Bool)
    (priorDevices : List Value) (endpointStates : List EndpointStateKeys)
    (previousRef : Option (FixedBytes 32)) (device : Value) :
    Except Fault (Option (FixedBytes 32)) := do
  let item ← members device
  let endpointRef ← decodedHex 32 item "endpointIdentityRef"
  reject (previousRef.any fun value => ¬value.toList < endpointRef.toList)
    (.failed (validation .invalidRepresentation))
  let identityDigest ← decodedHex 32 item "identityStateDigest"
  admitDevice provider state epoch genesis priorDevices endpointStates device item endpointRef
    identityDigest
  return some endpointRef

end Roster

section Transition

variable (formatFinite : Rat → String) (provider : Provider)

/-- The genesis arm of the transition match: the state's own management keys sign. -/
def genesisKeys (record : Map) (epoch : Nat) (userRef : FixedBytes 32) (transition : String)
    (management recovery : List Value) : Except Fault (List Value) := do
  reject (¬(transition = "genesis" ∧ epoch = 0 ∧
      ¬record.containsKey "previousUserAuthorityStateDigest" ∧
      ¬record.containsKey "possessionProof")) (.failed (validation .invalidTransition))
  let derived ← deriveUserIdentityRef provider management recovery
  reject (userRef ≠ derived) (.failed (validation .invalidTransition))
  return management

/-- The successor arm: the keys that the predecessor holds for the transition sign. -/
def successorKeys (record : Map) (epoch : Nat) (transition : String) (predecessor : Value)
    (previous : Map) : Except Fault (List Value) := do
  reject (transition ≠ "management" ∧ transition ≠ "recovery")
    (.failed (validation .invalidTransition))
  let digest ← userAuthorityStateDigest formatFinite provider predecessor
  let previousEpoch ← unsigned previous "authorityEpoch"
  reject (previousEpoch + 1 ≥ 2 ^ 64) (.failed (validation .boundExceeded))
  reject (epoch ≠ previousEpoch + 1 ∨
      (record.get "previousUserAuthorityStateDigest").bind Value.asStr ≠
        some (hexBytes digest.toList) ∨
      record.get "userIdentityRef" ≠ previous.get "userIdentityRef" ∨
      record.get "protocolLineId" ≠ previous.get "protocolLineId")
    (.failed (validation .conflict))
  reject (transition = "management" ∧
      record.get "recoverySigningKeys" ≠ previous.get "recoverySigningKeys")
    (.failed (validation .authorizationFailed))
  validateRosterTransition (← array previous "authorizedDevices")
    (← array record "authorizedDevices") epoch
  array previous
    (if transition = "management" then "managementSigningKeys" else "recoverySigningKeys")

/-- The transition match: the keys that sign, and what the transition itself must meet. -/
def signingKeys (record : Map) (epoch : Nat) (userRef : FixedBytes 32) (transition : String)
    (management recovery : List Value) : Option (Value × Map) → Except Fault (List Value)
  | none => genesisKeys provider record epoch userRef transition management recovery
  | some (predecessor, previous) =>
    successorKeys formatFinite provider record epoch transition predecessor previous

def authorityPurpose (transition : String) : String :=
  if transition = "genesis" then "authority-genesis"
  else if transition = "management" then "authority-management"
  else "authority-recovery"

def previousRecord : Option Value → Except Fault (Option (Value × Map))
  | none => .ok none
  | some previous => do
    validateDefinitionRecord formatFinite previous
    let record ← members previous
    return some (previous, record)

def priorRoster : Option (Value × Map) → Except Error (List Value)
  | none => .ok []
  | some (_, previous) => array previous "authorizedDevices"

def validateReplacement (state : Value) (record : Map) (transition : String) :
    Option (Value × Map) → Except Fault Unit
  | none => .ok ()
  | some (_, previous) =>
    let managementChanged :=
      record.get "managementSigningKeys" ≠ previous.get "managementSigningKeys"
    let recoveryChanged := record.get "recoverySigningKeys" ≠ previous.get "recoverySigningKeys"
    if transition = "management" ∧ managementChanged then
      verifyReplacementPossession provider state record managementChanged recoveryChanged
    else if transition = "management" ∧ record.containsKey "possessionProof" then
      .error (.failed (validation .invalidTransition))
    else if transition = "recovery" then
      verifyReplacementPossession provider state record managementChanged recoveryChanged
    else .ok ()

def validateUserAuthorityState (state : Value) (predecessor : Option Value)
    (expectedProtocolLineId : FixedBytes 32) (endpointStates : List EndpointStateKeys) :
    Except Fault AcceptedUserAuthority := do
  validateDefinitionRecord formatFinite state
  let record ← members state
  let epoch ← unsigned record "authorityEpoch"
  let userRef ← decodedHex 32 record "userIdentityRef"
  let line ← decodedHex 32 record "protocolLineId"
  reject (line ≠ expectedProtocolLineId) (.failed (validation .authorizationFailed))
  let transition ← text record "authorityTransitionKind"
  let management ← array record "managementSigningKeys"
  let recovery ← array record "recoverySigningKeys"
  validateAuthorityKeys management "management"
  validateAuthorityKeys recovery "recovery"
  let previous ← previousRecord formatFinite predecessor
  let keys ← signingKeys formatFinite provider record epoch userRef transition management recovery
    previous
  let digest ← userAuthorityStateDigest formatFinite provider state
  let signatures ← array record "authoritySignatures"
  verifySignaturePair provider signatures keys (authorityPurpose transition)
    (domainInput authoritySignatureDomain digest.toList)
  let devices ← array record "authorizedDevices"
  reject (devices = [] ∨ devices.length > 16) (.failed (validation .boundExceeded))
  let priorDevices ← priorRoster previous
  let _ ← devices.foldlM (validateAuthorizedDevice provider state epoch predecessor.isNone
    priorDevices endpointStates) none
  validateReplacement provider state record transition previous
  return ⟨state, userRef, epoch, digest⟩

/-- One turn of the catch-up loop, with the digests that each parent was seen with. -/
def catchUpSnapshot (expectedProtocolLineId : FixedBytes 32)
    (endpointStates : List EndpointStateKeys)
    (seen : Option AcceptedUserAuthority ×
      (Option (FixedBytes 32) → Option (FixedBytes 32))) (snapshot : Value) :
    Except Fault (Option AcceptedUserAuthority ×
      (Option (FixedBytes 32) → Option (FixedBytes 32))) := do
  let record ← members snapshot
  let parent ← previousDigest record
  let digest ← userAuthorityStateDigest formatFinite provider snapshot
  reject ((seen.2 parent).any fun prior => prior ≠ digest) (.failed (validation .conflict))
  let accepted ← validateUserAuthorityState formatFinite provider snapshot
    (seen.1.map (·.state)) expectedProtocolLineId endpointStates
  return (some accepted, Function.update seen.2 parent (some digest))

def applyUserAuthorityCatchUp (accepted : Option AcceptedUserAuthority) (snapshots : List Value)
    (expectedProtocolLineId : FixedBytes 32) (endpointStates : List EndpointStateKeys) :
    Except Fault AcceptedUserAuthority := do
  reject (snapshots = [] ∨ snapshots.length > maxChainRecords)
    (.failed (validation .boundExceeded))
  let (current, _) ← snapshots.foldlM (catchUpSnapshot formatFinite provider
    expectedProtocolLineId endpointStates) (accepted, fun _ => none)
  okOr (.failed (validation .boundExceeded)) current

def listsActive (devices : List Value) (session : AuthenticatedAuthoritySession) : Bool :=
  devices.any fun device => device.asObject.any fun value =>
    (value.get "endpointIdentityRef").bind Value.asStr ==
        some (hexBytes session.endpointIdentityRef.toList) &&
      (value.get "identityStateDigest").bind Value.asStr ==
        some (hexBytes session.identityStateDigest.toList) &&
      (value.get "deviceStatus").bind Value.asStr == some "active"

/-- The accepted authority again where the payload repeats it, else the payload's state. -/
def admittedAuthority (accepted : Option AcceptedUserAuthority) (state : Value)
    (payloadDigest expectedProtocolLineId : FixedBytes 32)
    (endpointStates : List EndpointStateKeys) : Except Fault AcceptedUserAuthority :=
  match accepted.filter fun current => current.stateDigest = payloadDigest with
  | some current => .ok current
  | none =>
    validateUserAuthorityState formatFinite provider state
      (accepted.map fun current => current.state) expectedProtocolLineId endpointStates

def acceptedLine (state : Value) : Except Fault (Option (FixedBytes 32)) :=
  match state.asObject with
  | none => .ok none
  | some record => some <$> decodedHex 32 record "protocolLineId"

def admitProtectedAuthorityPayload (accepted : Option AcceptedUserAuthority)
    (session : AuthenticatedAuthoritySession) (state : Value)
    (expectedProtocolLineId : FixedBytes 32) (endpointStates : List EndpointStateKeys) :
    Except Fault AcceptedUserAuthority := do
  reject (¬session.authenticated) (.failed (validation .authenticationFailed))
  let payloadDigest ← userAuthorityStateDigest formatFinite provider state
  let result ← admittedAuthority formatFinite provider accepted state payloadDigest
    expectedProtocolLineId endpointStates
  reject (payloadDigest ≠ session.authorityStateDigest ∨
    result.stateDigest ≠ session.authorityStateDigest)
    (.failed (validation .authenticationFailed))
  let line ← acceptedLine result.state
  reject (line ≠ some expectedProtocolLineId) (.failed (validation .authorizationFailed))
  let devices ← okOr (.failed (validation .invalidRepresentation))
    ((result.state.asObject.bind fun value => value.get "authorizedDevices").bind Value.asArray)
  reject (¬listsActive devices session) (.failed (validation .authorizationFailed))
  return result

end Transition

end Identity

end LicoArc
