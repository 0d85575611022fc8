import LicoArc.ProfileIdentity
import LicoArc.IdentityRecord

/-!
# The accounting of security claims

The registry of claims, the registry of their formal bindings and the manifest
of a line are read into structs and checked against each other. The accounting
that is returned binds every claim to every kind of evidence exactly once.
-/

namespace LicoArc

namespace Security

open Json

def accounting (code : ErrorCode) : Error := .terminal code .securityAccounting

/-! ## Derived structs -/

def readStrings : Value → Option (List String)
  | .array values => values.mapM Value.asStr
  | _ => none

def readVec {α : Type} (read : Value → Option α) : Value → Option (List α)
  | .array values => values.mapM read
  | _ => none

structure StructFields where
  /-- The fields are the members of an object, not the elements of an array. -/
  named : Bool
  entries : Map

/-- The fields of a struct of these names, in the order of its declaration. A closed struct rejects
the members of other names. -/
def structFields (closed : Bool) (names : List String) : Value → Option StructFields
  | .object entries =>
    if closed ∧ ∃ entry ∈ entries, entry.1 ∉ names then none else some ⟨true, entries⟩
  | .array values =>
    if values.length ≤ names.length then some ⟨false, names.zip values⟩ else none
  | _ => none

namespace StructFields

variable {α : Type} (fields : StructFields) (name : String)

def required (read : Value → Option α) : Option α := (fields.entries.get name).bind read

/-- An `Option<String>`: a member may be missing, an element may not. -/
def nullableString : Option (Option String) :=
  match fields.entries.get name with
  | none => if fields.named then some none else none
  | some .null => some none
  | some value => value.asStr.map some

end StructFields

/-! ## The registries -/

structure Claim where
  id : String
  property : String
  scope : String
  adversary : List String
  assumptions : List String
  proofModel : Option String
  proofLemma : Option String
  counterexampleStatus : String
  residualRisk : String
  status : String

def Claim.read (value : Value) : Option Claim := do
  let fields ← structFields true ["id", "property", "scope", "adversary", "assumptions",
    "proofModel", "proofLemma", "counterexampleStatus", "residualRisk", "status"] value
  let id ← fields.required "id" Value.asStr
  let property ← fields.required "property" Value.asStr
  let scope ← fields.required "scope" Value.asStr
  let adversary ← fields.required "adversary" readStrings
  let assumptions ← fields.required "assumptions" readStrings
  let proofModel ← fields.nullableString "proofModel"
  let proofLemma ← fields.nullableString "proofLemma"
  let counterexampleStatus ← fields.required "counterexampleStatus" Value.asStr
  let residualRisk ← fields.required "residualRisk" Value.asStr
  let status ← fields.required "status" Value.asStr
  return ⟨id, property, scope, adversary, assumptions, proofModel, proofLemma,
    counterexampleStatus, residualRisk, status⟩

structure Claims where
  schema : String
  id : String
  registryVersion : String
  lifecycle : String
  claimStatusValues : List String
  claims : List Claim
  nonClaims : List String

def Claims.read (value : Value) : Option Claims := do
  let fields ← structFields true ["$schema", "$id", "registryVersion", "lifecycle",
    "claimStatusValues", "claims", "nonClaims"] value
  let schema ← fields.required "$schema" Value.asStr
  let id ← fields.required "$id" Value.asStr
  let registryVersion ← fields.required "registryVersion" Value.asStr
  let lifecycle ← fields.required "lifecycle" Value.asStr
  let claimStatusValues ← fields.required "claimStatusValues" readStrings
  let claims ← fields.required "claims" (readVec Claim.read)
  let nonClaims ← fields.required "nonClaims" readStrings
  return ⟨schema, id, registryVersion, lifecycle, claimStatusValues, claims, nonClaims⟩

structure Binding where
  bindingId : String
  claimId : String
  kind : String
  authorityPath : String
  authorityPointer : String
  authorityDigest : String
  authorityValueDigest : String
  proofModel : String
  proofLemma : String

def Binding.read (value : Value) : Option Binding := do
  let fields ← structFields true ["bindingId", "claimId", "kind", "authorityPath",
    "authorityPointer", "authorityDigest", "authorityValueDigest", "proofModel", "proofLemma"] value
  let bindingId ← fields.required "bindingId" Value.asStr
  let claimId ← fields.required "claimId" Value.asStr
  let kind ← fields.required "kind" Value.asStr
  let authorityPath ← fields.required "authorityPath" Value.asStr
  let authorityPointer ← fields.required "authorityPointer" Value.asStr
  let authorityDigest ← fields.required "authorityDigest" Value.asStr
  let authorityValueDigest ← fields.required "authorityValueDigest" Value.asStr
  let proofModel ← fields.required "proofModel" Value.asStr
  let proofLemma ← fields.required "proofLemma" Value.asStr
  return ⟨bindingId, claimId, kind, authorityPath, authorityPointer, authorityDigest,
    authorityValueDigest, proofModel, proofLemma⟩

structure Bindings where
  schema : String
  id : String
  registryVersion : String
  lifecycle : String
  status : String
  requiredKinds : List String
  semanticSourceDigest : String
  semanticSources : List String
  bindings : List Binding
  authority : String
  missingBindingPolicy : String
  modelAuthority : String

def Bindings.read (value : Value) : Option Bindings := do
  let fields ← structFields true ["$schema", "$id", "registryVersion", "lifecycle", "status",
    "requiredKinds", "semanticSourceDigest", "semanticSources", "bindings", "authority",
    "missingBindingPolicy", "modelAuthority"] value
  let schema ← fields.required "$schema" Value.asStr
  let id ← fields.required "$id" Value.asStr
  let registryVersion ← fields.required "registryVersion" Value.asStr
  let lifecycle ← fields.required "lifecycle" Value.asStr
  let status ← fields.required "status" Value.asStr
  let requiredKinds ← fields.required "requiredKinds" readStrings
  let semanticSourceDigest ← fields.required "semanticSourceDigest" Value.asStr
  let semanticSources ← fields.required "semanticSources" readStrings
  let bindings ← fields.required "bindings" (readVec Binding.read)
  let authority ← fields.required "authority" Value.asStr
  let missingBindingPolicy ← fields.required "missingBindingPolicy" Value.asStr
  let modelAuthority ← fields.required "modelAuthority" Value.asStr
  return ⟨schema, id, registryVersion, lifecycle, status, requiredKinds, semanticSourceDigest,
    semanticSources, bindings, authority, missingBindingPolicy, modelAuthority⟩

structure Manifest where
  stableClaimIds : List String

def Manifest.read (value : Value) : Option Manifest := do
  let fields ← structFields false ["stableClaimIds"] value
  let stableClaimIds ← fields.required "stableClaimIds" readStrings
  return ⟨stableClaimIds⟩

/-! ## The texts -/

def isAsciiLowercase (byte : UInt8) : Bool := 97 ≤ byte && byte ≤ 122

def isAsciiUppercase (byte : UInt8) : Bool := 65 ≤ byte && byte ≤ 90

def isAsciiDigit (byte : UInt8) : Bool := 48 ≤ byte && byte ≤ 57

def isAsciiAlphanumeric (byte : UInt8) : Bool :=
  isAsciiLowercase byte || isAsciiUppercase byte || isAsciiDigit byte

abbrev bytesOf (value : String) : Bytes := Encoding.textBytes value

def unique (values : List String) : Bool := values.Nodup

def sortedUnique (values : List String) : Bool := values.IsChain (· < ·)

def lowerToken (value : String) (maximum : Nat) : Bool :=
  2 ≤ (bytesOf value).length && (bytesOf value).length ≤ maximum &&
  (bytesOf value).head?.any isAsciiLowercase &&
  (bytesOf value).tail.all fun byte => isAsciiLowercase byte || isAsciiDigit byte || byte == 45

def validClaimId (value : String) : Bool :=
  (bytesOf value).length == 7 && (bytesOf "SEC-").isPrefixOf (bytesOf value) &&
  ((bytesOf value).drop 4).all isAsciiDigit

def validAdversary (value : String) : Bool :=
  2 ≤ (bytesOf value).length && (bytesOf value).length ≤ 8 && (bytesOf value).head? == some 65 &&
  (bytesOf value).tail.all isAsciiDigit

def isPathByte (byte : UInt8) : Bool :=
  isAsciiAlphanumeric byte || byte == 46 || byte == 95 || byte == 47 || byte == 45

def modelReference (value : String) : Bool :=
  value != "" && (bytesOf value).length ≤ 256 && (bytesOf value).all isPathByte

def hexDigest (value : String) : Bool :=
  (bytesOf value).length == 64 &&
  (bytesOf value).all fun byte => isAsciiDigit byte || (97 ≤ byte && byte ≤ 102)

def sourcePath (value : String) : Bool :=
  value != "" && (bytesOf value).length ≤ 256 && (bytesOf value).head? != some 47 &&
  !(decide ([46, 46] <:+: bytesOf value)) && (bytesOf value).all isPathByte

def jsonPointer (value : String) : Bool :=
  (bytesOf value).head? == some 47 && (bytesOf value).length ≤ 256 &&
  (bytesOf value).all fun byte =>
    isAsciiAlphanumeric byte || byte == 47 || byte == 126 || byte == 95 || byte == 45

def kinds : List String :=
  ["protocol-line-id", "profile-id", "algorithm-id", "domain-separator", "field-label", "bound",
    "failure-enum"]

def Claim.isValid (self : Claim) : Bool :=
  validClaimId self.id && lowerToken self.property 128 && lowerToken self.scope 128 &&
  !self.adversary.isEmpty && self.adversary.length ≤ 32 && unique self.adversary &&
  self.adversary.all validAdversary && self.assumptions.length ≤ 64 && unique self.assumptions &&
  (self.assumptions.all fun value => lowerToken value 128) &&
  self.proofModel.any modelReference && self.proofLemma.any modelReference &&
  ["not-evaluated", "no-counterexample-found", "counterexample-found"].contains
    self.counterexampleStatus &&
  lowerToken self.residualRisk 128 && self.status == "proved"

def Binding.isValid (self : Binding) : Bool :=
  (bytesOf "BIND-SEC-").isPrefixOf (bytesOf self.bindingId) &&
  (bytesOf self.bindingId).length ≤ 128 &&
  ((bytesOf self.bindingId).all fun byte =>
    isAsciiUppercase byte || isAsciiDigit byte || byte == 45) &&
  validClaimId self.claimId && kinds.contains self.kind && sourcePath self.authorityPath &&
  jsonPointer self.authorityPointer && hexDigest self.authorityDigest &&
  hexDigest self.authorityValueDigest && modelReference self.proofModel &&
  modelReference self.proofLemma

/-! ## The accounting -/

structure SecurityAccounting where
  claimIds : List String
  nonClaimCount : Nat
  deriving DecidableEq

def source (sources : Map) (path : String) : Except Error Value :=
  okOr (admission .sourceClosureMismatch) (sources.get path)

def readAs {α : Type} (read : Value → Option α) (value : Value) : Except Error α :=
  okOr (accounting .invalidAuthorityInput) (read value)

def expect {α : Type} : Option α → Except Fault α
  | some a => .ok a
  | none => .error .panicked

def registriesValid (claims : Claims) (bindings : Bindings) (manifest : Manifest) : Bool :=
  claims.schema == "https://licoarc.com/spec/schemas/security-claims.schema.json" &&
  claims.id == "https://licoarc.com/spec/v1/security/claims.json" &&
  claims.registryVersion == "licoarc.security-claims.v1" && claims.lifecycle == "Candidate" &&
  claims.claimStatusValues == ["unproved", "proved", "explicit-nonclaim"] &&
  !claims.claims.isEmpty && claims.claims.length ≤ 128 &&
  !claims.nonClaims.isEmpty && claims.nonClaims.length ≤ 128 &&
  claims.claims.all Claim.isValid && unique claims.nonClaims &&
  (claims.nonClaims.all fun value => lowerToken value 128) &&
  bindings.schema == "https://licoarc.com/spec/schemas/security-formal-bindings.schema.json" &&
  bindings.id == "https://licoarc.com/spec/v1/security/formal-bindings.json" &&
  bindings.registryVersion == "licoarc.formal-bindings.v1" && bindings.lifecycle == "Candidate" &&
  bindings.status == "complete" && bindings.requiredKinds == kinds &&
  bindings.authority == "generated-only-from-decided-specified-normative-sources" &&
  bindings.missingBindingPolicy == "claim-remains-unproved-and-line-ineligible" &&
  bindings.modelAuthority == "never-a-second-protocol" && hexDigest bindings.semanticSourceDigest &&
  !bindings.semanticSources.isEmpty && bindings.semanticSources.length ≤ 128 &&
  sortedUnique bindings.semanticSources &&
  !bindings.bindings.isEmpty && bindings.bindings.length ≤ 512 &&
  !manifest.stableClaimIds.isEmpty && manifest.stableClaimIds.length ≤ 128 &&
  sortedUnique manifest.stableClaimIds

def claimProof (claim : Claim) : Except Fault (String × String × String) := do
  let proofModel ← expect claim.proofModel
  let proofLemma ← expect claim.proofLemma
  return (claim.id, proofModel, proofLemma)

/-- A table that is collected from its entries: of entries under one name the last counts. -/
def tableGet {α : Type} (entries : List (String × α)) (name : String) : Option α :=
  entries.reverse.lookup name

/-- What the loop over the bindings has met. -/
structure Marks where
  bindingIds : List String
  boundClaimKinds : List (String × String)

def bindAll (semanticSources : List String) (claimProofs : List (String × String × String))
    (requiredKinds : List String) (marks : Marks) : List Binding → Option Marks
  | [] => some marks
  | binding :: bindings =>
    if binding.isValid ∧ binding.bindingId ∉ marks.bindingIds ∧
        binding.authorityPath ∈ semanticSources ∧
        tableGet claimProofs binding.claimId = some (binding.proofModel, binding.proofLemma) ∧
        binding.kind ∈ requiredKinds ∧ (binding.claimId, binding.kind) ∉ marks.boundClaimKinds then
      bindAll semanticSources claimProofs requiredKinds
        ⟨binding.bindingId :: marks.bindingIds,
          (binding.claimId, binding.kind) :: marks.boundClaimKinds⟩ bindings
    else none

def sortStrings (values : List String) : List String := values.insertionSort (· ≤ ·)

namespace SecurityAccounting

def fromProtocolLine (sources : Map) : Except Fault SecurityAccounting := do
  let claims ← source sources "spec/v1/security/claims.json"
  let claims ← readAs Claims.read claims
  let bindings ← source sources "spec/v1/security/formal-bindings.json"
  let bindings ← readAs Bindings.read bindings
  let manifest ← source sources "spec/v1/manifest.json"
  let manifest ← readAs Manifest.read manifest
  reject (registriesValid claims bindings manifest = false)
    (Fault.failed (accounting .invalidAuthorityInput))
  let claimIds := sortStrings (claims.claims.map Claim.id)
  let claimProofs ← claims.claims.mapM claimProof
  reject (¬claimIds.IsChain (· ≠ ·) ∨ claimIds ≠ manifest.stableClaimIds)
    (Fault.failed (accounting .invalidAuthorityInput))
  let marks ← okOr (Fault.failed (accounting .invalidAuthorityInput))
    (bindAll bindings.semanticSources claimProofs bindings.requiredKinds ⟨[], []⟩ bindings.bindings)
  reject (∃ claimId ∈ claimIds, ∃ kind ∈ bindings.requiredKinds,
    (claimId, kind) ∉ marks.boundClaimKinds) (Fault.failed (accounting .invalidAuthorityInput))
  return ⟨claimIds, claims.nonClaims.length⟩

/-- `SecurityAccounting::require_proved`; the binary search finds a member of an ascending list. -/
def requireProved (self : SecurityAccounting) (claimId : String) : Except Error Unit :=
  if claimId ∈ self.claimIds then .ok () else .error (accounting .securityClaimUnproved)

end SecurityAccounting

end Security

end LicoArc
