import LicoArc.AuthoritySize
import LicoArc.JsonSchema

/-!
# The schemas of the identity records

Each of the eight record types as a schema, after the member lists and the checks
of its validator. A record that is accepted conforms at every depth, so that it
is refused with a further member in any of its objects.
-/

namespace LicoArc

namespace Identity

open Json

/-! ## Members -/

inductive FieldKind
  | hex (sizes : List Nat)
  | decoded (size : Nat)
  | integer (least : Nat)
  | oneOf (texts : List String)
  | text
  | uri
  | flag (allowed : List Bool)
  | predecessor

/-- The type and the range of a scalar member. -/
def FieldKind.Checks : FieldKind → Value → Prop
  | .hex sizes, value => ∃ size ∈ sizes, ∃ v : FixedBytes size, value = hexText v
  | .decoded size, value => ∃ text, ∃ v : FixedBytes size,
      value = .string text ∧ decodeHexText text = .ok v.toList
  | .integer least, value => ∃ n, value = natural n ∧ least ≤ n ∧ n ≤ maxEpoch
  | .oneOf texts, value => ∃ text ∈ texts, value = .string text
  | .text, value => ∃ text, value = .string text ∧ (Encoding.textBytes text).length ≤ 8192
  | .uri, value => ∃ text, value = .string text ∧ 10 ≤ (Encoding.textBytes text).length ∧
      (Encoding.textBytes text).length ≤ 128 ∧
      (Encoding.textBytes "https://").isPrefixOf (Encoding.textBytes text) = true ∧
      (63 : UInt8) ∉ Encoding.textBytes text ∧ (35 : UInt8) ∉ Encoding.textBytes text ∧
      ∀ byte ∈ Encoding.textBytes text, byte < 0x80
  | .flag allowed, value => ∃ b ∈ allowed, value = .bool b
  | .predecessor, value => value = .null ∨ ∃ v : FixedBytes 32, value = hexText v

theorem FieldKind.scalar (kind : FieldKind) (value : Value) (h : kind.Checks value) :
    value.Scalar := by
  cases kind with
  | hex | oneOf | flag =>
    obtain ⟨_, _, h⟩ := h
    first | (subst h; exact trivial) | (obtain ⟨_, rfl⟩ := h; exact trivial)
  | decoded | integer | text | uri =>
    obtain ⟨_, h⟩ := h
    first | (obtain ⟨rfl, _⟩ := h; exact trivial) | (obtain ⟨_, rfl, _⟩ := h; exact trivial)
  | predecessor =>
    rcases h with rfl | ⟨_, rfl⟩ <;> exact trivial

abbrev RecordSchema := Schema FieldKind

/-! ## Schemas -/

section Schemas

def digestSchema : RecordSchema := .leaf (.hex [32])
def profileSchema : RecordSchema := .leaf (.oneOf [ed25519ProfileId, mlDsa65ProfileId])
def publicKeySchema : RecordSchema := .leaf (.hex [32, 1952])
def unsignedSchema : RecordSchema := .leaf (.integer 0)
def epochSchema : RecordSchema := .leaf (.integer 1)
def trueSchema : RecordSchema := .leaf (.flag [true])
def constantSchema (text : String) : RecordSchema := .leaf (.oneOf [text])
def chainKindSchema : RecordSchema := .leaf (.oneOf ["identity", "affiliation", "route"])

def signatureSchema (purposes : List String) : RecordSchema :=
  .object [("keyProfileId", profileSchema), ("keyId", digestSchema),
      ("signaturePurpose", .leaf (.oneOf purposes)), ("signatureValue", .leaf (.hex [64, 3309]))]
    ["keyProfileId", "keyId", "signaturePurpose", "signatureValue"]

def signaturePairSchema : RecordSchema := .array 2 2 (signatureSchema signaturePurposes)

def authorityKeySchema (purpose : String) : RecordSchema :=
  .object [("keyId", digestSchema), ("keyPurpose", constantSchema purpose),
      ("keyProfileId", profileSchema), ("publicKey", publicKeySchema)]
    ["keyId", "keyPurpose", "keyProfileId", "publicKey"]

def deviceSchema : RecordSchema :=
  .object [("endpointIdentityRef", .leaf (.decoded 32)), ("identityStateDigest", digestSchema),
      ("deviceStatus", .leaf (.oneOf ["active", "revoked"])),
      ("admittedAuthorityEpoch", unsignedSchema), ("revokedAuthorityEpoch", unsignedSchema),
      ("possessionProof", signaturePairSchema)]
    ["endpointIdentityRef", "identityStateDigest", "deviceStatus", "admittedAuthorityEpoch",
      "possessionProof"]

def replacementProofSchema : RecordSchema :=
  .object [("managementSignatures", signaturePairSchema),
    ("recoverySignatures", signaturePairSchema)] []

def userAuthoritySchema : RecordSchema :=
  .object [("recordType", constantSchema "userAuthorityState"), ("protocolLineId", digestSchema),
      ("userIdentityRef", digestSchema), ("authorityEpoch", unsignedSchema),
      ("previousUserAuthorityStateDigest", digestSchema),
      ("authorityTransitionKind", .leaf .text),
      ("managementSigningKeys", .array 2 2 (authorityKeySchema "management")),
      ("recoverySigningKeys", .array 2 2 (authorityKeySchema "recovery")),
      ("authorizedDevices", .array 1 16 deviceSchema), ("possessionProof", replacementProofSchema),
      ("authoritySignatures", signaturePairSchema)]
    requiredAuthorityMembers

def keyAuthorizationSchema : RecordSchema :=
  .object [("keyId", digestSchema), ("keyPurpose", .leaf (.oneOf ["identity", "handshake"])),
      ("keyState", .leaf (.oneOf ["active", "revoked", "recovery"])),
      ("keyProfileId", profileSchema), ("publicKey", publicKeySchema),
      ("validFromEpoch", epochSchema), ("revokedAtEpoch", epochSchema)]
    ["keyId", "keyPurpose", "keyState", "keyProfileId", "publicKey", "validFromEpoch"]

def recoveryProofSchema : RecordSchema :=
  .object [("recoveryDigest", digestSchema),
      ("witnesses", .array 1 4 (signatureSchema signaturePurposes))]
    ["recoveryDigest", "witnesses"]

def continuityProofSchema : RecordSchema :=
  .object [("proofKind", .leaf (.oneOf ["genesis", "rotation", "revocation", "recovery",
        "migration"])),
      ("predecessorStateDigest", .leaf .predecessor),
      ("signature", signatureSchema ["endpoint-continuity"])]
    ["proofKind", "predecessorStateDigest", "signature"]

def identityUpdateSchema : RecordSchema :=
  .object [("recordType", constantSchema "identityUpdate"), ("protocolLineId", digestSchema),
      ("endpointIdentityRef", digestSchema), ("identityEpoch", epochSchema),
      ("previousIdentityStateDigest", digestSchema),
      ("transition", .leaf (.oneOf ["genesis", "rotation", "revocation", "recovery"])),
      ("stateDigest", digestSchema), ("keyAuthorizations", .array 1 4 keyAuthorizationSchema),
      ("revokedKeyDigests", .array 0 4 digestSchema), ("recoveryProof", recoveryProofSchema),
      ("continuityProof", continuityProofSchema),
      ("endpointSignature", signatureSchema ["endpoint-continuity"])]
    ["protocolLineId", "endpointIdentityRef", "identityEpoch", "transition", "stateDigest",
      "keyAuthorizations", "continuityProof", "endpointSignature"]

def chainTransitionSchema : RecordSchema :=
  .leaf (.oneOf ["genesis", "migration", "rotation", "revocation", "recovery"])

def affiliationSchema : RecordSchema :=
  .object [("stationDescriptorDigest", digestSchema), ("affiliationCommitment", digestSchema),
      ("affiliationNonce", digestSchema), ("affiliationNotAfter", unsignedSchema),
      ("stationAffiliationSignature", signatureSchema ["station-affiliation"])]
    ["stationDescriptorDigest", "affiliationCommitment", "affiliationNonce",
      "affiliationNotAfter", "stationAffiliationSignature"]

def affiliationUpdateSchema : RecordSchema :=
  .object [("recordType", constantSchema "affiliationUpdate"), ("protocolLineId", digestSchema),
      ("endpointIdentityRef", digestSchema), ("affiliationEpoch", epochSchema),
      ("previousAffiliationUpdateDigest", digestSchema), ("transition", chainTransitionSchema),
      ("stationAffiliations", .array 0 4 affiliationSchema), ("stateDigest", digestSchema),
      ("endpointSignature", signatureSchema ["endpoint-continuity"])]
    ["protocolLineId", "endpointIdentityRef", "affiliationEpoch", "transition",
      "stationAffiliations", "stateDigest", "endpointSignature"]

def routeSchema : RecordSchema :=
  .object [("stationDescriptorDigest", digestSchema), ("affiliationCommitment", digestSchema),
      ("transportProfileId", digestSchema), ("handleClass", constantSchema "async"),
      ("deliveryHandle", digestSchema), ("serviceUntil", unsignedSchema),
      ("stationServiceSignature", signatureSchema ["station-route-service"])]
    ["stationDescriptorDigest", "affiliationCommitment", "transportProfileId",
      "handleClass", "deliveryHandle", "serviceUntil", "stationServiceSignature"]

def routeUpdateSchema : RecordSchema :=
  .object [("recordType", constantSchema "routeUpdate"), ("protocolLineId", digestSchema),
      ("endpointIdentityRef", digestSchema), ("peerEndpointIdentityRef", digestSchema),
      ("routeEpoch", epochSchema), ("previousRouteUpdateDigest", digestSchema),
      ("transition", chainTransitionSchema), ("affiliationStateDigest", digestSchema),
      ("routeNotAfter", unsignedSchema), ("routes", .array 1 4 routeSchema),
      ("endpointSignature", signatureSchema ["endpoint-continuity"])]
    ["protocolLineId", "endpointIdentityRef", "peerEndpointIdentityRef", "routeEpoch",
      "transition", "affiliationStateDigest", "routeNotAfter", "routes", "endpointSignature"]

def invitationSchema : RecordSchema :=
  .object [("inviterEndpointIdentityRef", digestSchema),
      ("inviteeEndpointIdentityRef", digestSchema), ("invitationBinding", digestSchema),
      ("purpose", constantSchema "firstContact"), ("audienceDigest", digestSchema),
      ("handshakeNonce", digestSchema)]
    ["inviterEndpointIdentityRef", "invitationBinding", "purpose", "audienceDigest"]

def firstContactSchema : RecordSchema :=
  .object [("recordType", constantSchema "firstContact"),
      ("handleClass", constantSchema "firstContact"), ("deliveryHandle", digestSchema),
      ("audienceDigest", digestSchema), ("invitationBinding", digestSchema),
      ("purpose", constantSchema "firstContact"), ("singleUse", trueSchema),
      ("expiresAt", unsignedSchema), ("protectedInvitation", invitationSchema),
      ("peerVerificationState", constantSchema "unverified")]
    ["handleClass", "deliveryHandle", "audienceDigest", "invitationBinding", "purpose",
      "singleUse", "expiresAt", "protectedInvitation", "peerVerificationState"]

def discoverySchema : RecordSchema :=
  .object [("recordType", constantSchema "discoveryInput"), ("inputId", .leaf (.hex [16])),
      ("sourceKind", .leaf (.oneOf ["directory", "witness", "gossip", "station"])),
      ("sourceRef", digestSchema), ("subjectEndpointIdentityRef", digestSchema),
      ("chainKind", chainKindSchema), ("stateEpoch", epochSchema), ("stateDigest", digestSchema),
      ("statementDigest", digestSchema), ("observedAt", unsignedSchema),
      ("expiresAt", unsignedSchema), ("sourceSignature", signatureSchema signaturePurposes),
      ("authenticatedInputOnly", trueSchema)]
    ["inputId", "sourceKind", "sourceRef", "subjectEndpointIdentityRef",
      "chainKind", "stateEpoch", "stateDigest", "statementDigest", "observedAt", "expiresAt",
      "sourceSignature", "authenticatedInputOnly"]

def authenticatedInputSchema : RecordSchema :=
  .object [("inputId", .leaf (.hex [16])),
      ("inputKind", .leaf (.oneOf ["witness", "gossip", "discovery", "stationSignature",
        "verificationRecord"])),
      ("sourceRef", digestSchema), ("stateEpoch", epochSchema), ("stateDigest", digestSchema),
      ("statementDigest", digestSchema), ("expiresAt", unsignedSchema),
      ("signature", signatureSchema signaturePurposes), ("authenticatedInputOnly", trueSchema)]
    ["inputId", "inputKind", "sourceRef", "stateEpoch", "stateDigest",
      "statementDigest", "expiresAt", "signature", "authenticatedInputOnly"]

def transparencySchema : RecordSchema :=
  .object [("recordType", constantSchema "transparencyBundle"),
      ("subjectEndpointIdentityRef", digestSchema), ("chainKind", chainKindSchema),
      ("stateEpoch", epochSchema), ("stateDigest", digestSchema),
      ("witnessInputs", .array 0 8 authenticatedInputSchema),
      ("gossipInputs", .array 0 8 authenticatedInputSchema),
      ("discoveryInputs", .array 0 8 authenticatedInputSchema),
      ("stationSignatureInputs", .array 0 8 authenticatedInputSchema),
      ("verificationInputs", .array 0 8 authenticatedInputSchema),
      ("authority", constantSchema "bounded-authenticated-input-only"),
      ("endpointRetainsContinuity", trueSchema), ("splitView", .leaf (.flag [true, false]))]
    ["subjectEndpointIdentityRef", "chainKind", "stateEpoch",
      "stateDigest", "witnessInputs", "gossipInputs", "discoveryInputs", "stationSignatureInputs",
      "verificationInputs", "authority", "endpointRetainsContinuity"]

def listenerSchema : RecordSchema :=
  .object [("transportProfileId", digestSchema), ("endpointUri", .leaf .uri)]
    ["transportProfileId", "endpointUri"]

def signingKeySchema : RecordSchema :=
  .object [("keyProfileId", profileSchema), ("keyId", digestSchema),
      ("publicKey", publicKeySchema)]
    ["keyProfileId", "keyId", "publicKey"]

def stationDescriptorSchema : RecordSchema :=
  .object [("recordType", constantSchema "stationDescriptor"), ("stationId", digestSchema),
      ("descriptorSequence", epochSchema), ("previousDescriptorDigest", digestSchema),
      ("notBefore", unsignedSchema), ("notAfter", unsignedSchema),
      ("listeners", .array 1 4 listenerSchema), ("signingKeys", .array 1 4 signingKeySchema),
      ("certificationRefs", .array 1 4 digestSchema),
      ("signatures", .array 1 4 (signatureSchema ["station-descriptor"]))]
    ["stationId", "descriptorSequence", "notBefore", "notAfter", "listeners", "signingKeys",
      "signatures"]

def recordSchema : String → Option RecordSchema
  | "identityUpdate" => some identityUpdateSchema
  | "affiliationUpdate" => some affiliationUpdateSchema
  | "routeUpdate" => some routeUpdateSchema
  | "firstContact" => some firstContactSchema
  | "discoveryInput" => some discoverySchema
  | "transparencyBundle" => some transparencySchema
  | "userAuthorityState" => some userAuthoritySchema
  | "stationDescriptor" => some stationDescriptorSchema
  | _ => none

end Schemas

/-! ## Checked members -/

section Fields

variable {object : Map} {key : String} {schema : RecordSchema}

/-- What stands under a name, where something does, conforms to the schema. -/
def Field (object : Map) (member : String × RecordSchema) : Prop :=
  ∀ value, object.get member.1 = some value → Conforms FieldKind.Checks member.2 value

theorem conforms_object {members : List (String × RecordSchema)} {required : List String}
    (hclosed : closed object (members.map Prod.fst) required = .ok ())
    (hfields : ∀ member ∈ members, Field object member) :
    Conforms FieldKind.Checks (.object members required) (.object object) := by
  obtain ⟨hnames, hrequired⟩ := closed_eq_ok.mp hclosed
  refine .object hnames hrequired fun name value inner hget hlookup => ?_
  obtain ⟨before, after, rfl, _⟩ := List.lookup_eq_some_iff.mp hlookup
  exact hfields (name, inner) (by simp) value hget

theorem field_of_get {value : Value} (hget : object.get key = some value)
    (h : Conforms FieldKind.Checks schema value) : Field object (key, schema) := by
  intro other hother
  cases hget.symm.trans hother
  exact h

theorem field_absent (hget : object.get key = none) : Field object (key, schema) := by
  intro value hvalue
  cases hget.symm.trans hvalue

theorem conforms_hex {size : Nat} {value : Value} (h : ∃ v : FixedBytes size, value = hexText v)
    {sizes : List Nat} (hsize : size ∈ sizes) :
    Conforms FieldKind.Checks (.leaf (.hex sizes)) value :=
  .leaf ⟨size, hsize, h⟩

theorem field_hexField {size : Nat} {u : Unit} (h : hexField object key size = .ok u) :
    Field object (key, .leaf (.hex [size])) := by
  obtain ⟨v, hget⟩ := hexField_eq_ok.mp h
  exact field_of_get hget (conforms_hex ⟨v, rfl⟩ List.mem_cons_self)

theorem field_optionalHex {size : Nat} {u : Unit} (h : optionalHex (object.get key) size = .ok u) :
    Field object (key, .leaf (.hex [size])) := fun value hget =>
  conforms_hex (optionalHex_eq_ok.mp h value hget) List.mem_cons_self

theorem field_text {t : String} {texts : List String} (h : object.get key = some (.string t))
    (ht : t ∈ texts) : Field object (key, .leaf (.oneOf texts)) :=
  field_of_get h (.leaf ⟨t, ht, rfl⟩)

theorem field_constant {t : String} (h : object.get key = some (.string t)) :
    Field object (key, constantSchema t) :=
  field_text h List.mem_cons_self

theorem field_unsigned {n : Nat} (h : unsigned object key = .ok n) :
    Field object (key, unsignedSchema) := by
  obtain ⟨hget, hle⟩ := natural_of_unsigned h
  exact field_of_get hget (.leaf ⟨n, rfl, Nat.zero_le n, hle⟩)

theorem field_epoch {n : Nat} (h : epoch object key = .ok n) : Field object (key, epochSchema) := by
  rw [epoch, Except.bind_eq_ok] at h
  obtain ⟨value, hvalue, h⟩ := h
  obtain ⟨hget, hle⟩ := natural_of_unsigned hvalue
  split at h
  · cases h
  · rename_i hne
    exact field_of_get hget (.leaf ⟨value, rfl, Nat.one_le_iff_ne_zero.mpr hne, hle⟩)

theorem field_true (h : object.get key = some (.bool true)) : Field object (key, trueSchema) :=
  field_of_get h (.leaf ⟨true, List.mem_cons_self, rfl⟩)

theorem field_array {least most : Nat} {values : List Value}
    (h : object.get key = some (.array values))
    (hlength : least ≤ values.length ∧ values.length ≤ most)
      (hitems : ∀ value ∈ values, Conforms FieldKind.Checks schema value) :
    Field object (key, .array least most schema) :=
  field_of_get h (.array hlength hitems)

end Fields

/-! ## Accepted objects -/

section Accepted

variable {value : Value} {record : Map} {u : Unit}

/-- The purposes that a signature may have where one is expected, or none is. -/
def expectedPurposes : Option String → List String
  | none => signaturePurposes
  | some purpose => [purpose]

theorem signature_conforms {expected : Option String}
    (h : validateSignature record expected = .ok u) :
    Conforms FieldKind.Checks (signatureSchema (expectedPurposes expected)) (.object record) := by
  simp only [validateSignature, Except.bind_eq_ok, okOr_eq_ok, text_eq_ok, reject_eq_ok] at h
  obtain ⟨_, hclosed, _, hid, purpose, hpurpose, _, hallowed, signature, hsignature, profile,
    hprofile, h⟩ := h
  rw [not_or, not_not] at hallowed
  have hexpected : purpose ∈ expectedPurposes expected := by
    cases expected with
    | none => exact hallowed.1
    | some p =>
      have hsame : purpose = p := by simpa using hallowed.2
      exact hsame ▸ List.mem_cons_self
  have hvalue : profile ∈ [ed25519ProfileId, mlDsa65ProfileId] ∧
      Conforms FieldKind.Checks (.leaf (.hex [64, 3309])) signature := by
    split at h
    · rename_i hed
      exact ⟨hed ▸ List.mem_cons_self,
        conforms_hex ((hexStringRange_eq_ok (n := 64)).mp h) List.mem_cons_self⟩
    · split at h
      · rename_i hml
        exact ⟨hml ▸ List.mem_cons_of_mem _ List.mem_cons_self,
          conforms_hex ((hexStringRange_eq_ok (n := 3309)).mp h)
            (List.mem_cons_of_mem _ List.mem_cons_self)⟩
      · cases h
  refine conforms_object hclosed ?_
  simp only [List.forall_mem_cons, List.not_mem_nil, false_implies, implies_true, and_true]
  exact ⟨field_text hprofile hvalue.1, field_hexField hid, field_text hpurpose hexpected,
    field_of_get hsignature hvalue.2⟩

theorem field_signature {key : String} {signature : Map} {expected : Option String}
    (hget : Identity.object record key = .ok signature)
    (h : validateSignature signature expected = .ok u) :
    Field record (key, signatureSchema (expectedPurposes expected)) := by
  rw [Identity.object, okOr_eq_ok, Option.bind_eq_some_iff] at hget
  obtain ⟨value, hget, hobject⟩ := hget
  rw [Value.asObject_eq_some] at hobject
  subst hobject
  exact field_of_get hget (signature_conforms h)

theorem publicKey_fields (h : validatePublicKey record = .ok u) :
    Field record ("keyProfileId", profileSchema) ∧ Field record ("publicKey", publicKeySchema) := by
  rcases validatePublicKey_eq_ok.mp h with ⟨hprofile, v, hkey⟩ | ⟨hprofile, v, hkey⟩
  · exact ⟨field_text hprofile List.mem_cons_self,
      field_of_get hkey (conforms_hex ⟨v, rfl⟩ List.mem_cons_self)⟩
  · exact ⟨field_text hprofile (by simp), field_of_get hkey (conforms_hex ⟨v, rfl⟩ (by simp))⟩

theorem keyAuthorization_conforms (h : validateKeyAuthorization value = .ok u) :
    Conforms FieldKind.Checks keyAuthorizationSchema value := by
  simp only [validateKeyAuthorization, Except.bind_eq_ok, members_eq_ok, text_eq_ok,
    reject_eq_ok, not_not] at h
  obtain ⟨record, rfl, _, hclosed, _, hid, _, hkey, purpose, hpurpose, _, hpurposes, state, hstate,
    _, hstates, from', hfrom, hrevoked⟩ := h
  obtain ⟨hprofile, hpublic⟩ := publicKey_fields hkey
  have hrevocation : Field record ("revokedAtEpoch", epochSchema) := by
    split at hrevoked
    · rw [Except.bind_eq_ok] at hrevoked
      obtain ⟨revoked, hepoch, _⟩ := hrevoked
      exact field_epoch hepoch
    · rename_i habsent
      rw [Map.containsKey, Bool.not_eq_true, Option.isSome_eq_false_iff, Option.isNone_iff_eq_none]
        at habsent
      exact field_absent habsent
  refine conforms_object hclosed ?_
  simp only [List.forall_mem_cons, List.not_mem_nil, false_implies, implies_true, and_true]
  exact ⟨field_hexField hid, field_text hpurpose hpurposes, field_text hstate hstates, hprofile,
    hpublic, field_epoch hfrom, hrevocation⟩

theorem signatures_conform {values : List Value} {expected : Option String}
    (h : values.forM (fun value => do validateSignature (← members value) expected) =
      (.ok u : Except Error Unit)) :
    ∀ value ∈ values,
      Conforms FieldKind.Checks (signatureSchema (expectedPurposes expected)) value := by
  intro value hvalue
  have hsignature := Except.forM_eq_ok.mp h value hvalue
  simp only [Except.bind_eq_ok, members_eq_ok] at hsignature
  obtain ⟨signature, rfl, hvalid⟩ := hsignature
  exact signature_conforms hvalid

theorem length_bounds {values : List Value} {most : Nat}
    (h : ¬(values = [] ∨ values.length > most)) : 1 ≤ values.length ∧ values.length ≤ most := by
  rw [not_or, ← List.length_eq_zero_iff] at h
  omega

theorem recoveryProof_conforms (h : validateRecoveryProof record = .ok u) :
    Conforms FieldKind.Checks recoveryProofSchema (.object record) := by
  simp only [validateRecoveryProof, Except.bind_eq_ok, array_eq_ok, reject_eq_ok] at h
  obtain ⟨_, hclosed, _, hdigest, witnesses, hwitnesses, _, hbounds, _, _, hsigned⟩ := h
  refine conforms_object hclosed ?_
  simp only [List.forall_mem_cons, List.not_mem_nil, false_implies, implies_true, and_true]
  exact ⟨field_hexField hdigest,
    field_array hwitnesses (length_bounds hbounds) (signatures_conform hsigned)⟩

theorem continuityProof_conforms {transition : String} {predecessor : Option Value}
    (h : validateContinuityProof record transition predecessor = .ok u) :
    Conforms FieldKind.Checks continuityProofSchema (.object record) := by
  simp only [validateContinuityProof, Except.bind_eq_ok, text_eq_ok, reject_eq_ok, not_or,
    not_not] at h
  obtain ⟨_, hclosed, kind, hkind, _, ⟨hkinds, _, hpredecessor⟩, _, hhex, signature, hget,
    hsignature⟩ := h
  have hlink : Conforms FieldKind.Checks (.leaf .predecessor) (predecessor.getD .null) := by
    cases predecessor with
    | none => exact .leaf (.inl rfl)
    | some digest => exact .leaf (.inr (optionalHex_eq_ok.mp hhex digest rfl))
  refine conforms_object hclosed ?_
  simp only [List.forall_mem_cons, List.not_mem_nil, false_implies, implies_true, and_true]
  exact ⟨field_text hkind hkinds, field_of_get hpredecessor hlink, field_signature hget hsignature⟩

theorem optionalArray_eq_ok {key : String} {values : Option (List Value)} :
    optionalArray record key = .ok values ↔ record.get key = values.map Value.array := by
  rw [optionalArray]
  cases hget : record.get key with
  | none => cases values <;> simp
  | some value =>
    simp only [Except.bind_eq_ok, items_eq_ok, Except.pure_eq, Except.ok.injEq]
    constructor
    · rintro ⟨inner, rfl, rfl⟩
      rfl
    · intro h
      cases values with
      | none => cases h
      | some inner => exact ⟨inner, Option.some.inj h, rfl⟩

theorem digests_conform {values : List Value}
    (h : values.forM (fun value => hexValue value 32) = .ok u) :
    ∀ value ∈ values, Conforms FieldKind.Checks digestSchema value := fun value hvalue =>
  conforms_hex (hexValue_eq_ok.mp (Except.forM_eq_ok.mp h value hvalue)) List.mem_cons_self

theorem revokedKeys_field {key : String} {values : Option (List Value)}
    (hget : record.get key = values.map Value.array) (h : validateRevokedKeys values = .ok u) :
    Field record (key, .array 0 4 digestSchema) := by
  cases values with
  | none => exact field_absent hget
  | some revoked =>
    simp only [validateRevokedKeys, Except.bind_eq_ok, reject_eq_ok] at h
    obtain ⟨_, hlength, _, _, hdigests⟩ := h
    exact field_array hget ⟨Nat.zero_le _, by omega⟩ (digests_conform hdigests)

theorem certifications_field {key : String} {values : Option (List Value)}
    (hget : record.get key = values.map Value.array) (h : validateCertifications values = .ok u) :
    Field record (key, .array 1 4 digestSchema) := by
  cases values with
  | none => exact field_absent hget
  | some certifications =>
    simp only [validateCertifications, Except.bind_eq_ok, reject_eq_ok] at h
    obtain ⟨_, hbounds, _, _, hdigests⟩ := h
    exact field_array hget (length_bounds hbounds) (digests_conform hdigests)

theorem recovery_field {key : String} (h : validateRecovery (record.get key) = .ok u) :
    Field record (key, recoveryProofSchema) := by
  intro value hget
  rw [hget] at h
  simp only [validateRecovery, Except.bind_eq_ok, members_eq_ok] at h
  obtain ⟨proof, rfl, hproof⟩ := h
  exact recoveryProof_conforms hproof

theorem object_eq_ok {key : String} {inner : Map} :
    Identity.object record key = .ok inner ↔ record.get key = some (.object inner) := by
  rw [Identity.object, okOr_eq_ok, Option.bind_eq_some_iff]
  simp [Value.asObject_eq_some]

theorem admissibleUpdate_transition {transition : String} {epoch : Nat}
    (h : admissibleUpdate record transition epoch = true) :
    transition ∈ ["genesis", "rotation", "revocation", "recovery"] := by
  rw [admissibleUpdate] at h
  split_ifs at h with hgenesis hlater
  · exact hgenesis.1 ▸ List.mem_cons_self
  · simp only [Bool.or_eq_true, Bool.and_eq_true, beq_iff_eq] at h
    rcases h with (rfl | ⟨rfl, _⟩) | ⟨rfl, _⟩ <;> decide

theorem identityUpdate_conforms (h : validateIdentityUpdate record = .ok u)
    (htype : record.get "recordType" = some (.string "identityUpdate")) :
    Conforms FieldKind.Checks identityUpdateSchema (.object record) := by
  simp only [validateIdentityUpdate, Except.bind_eq_ok, text_eq_ok, array_eq_ok, reject_eq_ok,
    not_not, optionalArray_eq_ok] at h
  obtain ⟨_, hclosed, _, hline, _, hendpoint, _, hdigest, epoch, hepoch, transition, htransition, _,
    hadmissible, _, hprevious, keys, hkeys, _, hbounds, _, _, _, hvalid, revoked, hrevoked, _,
    hrevocation, _, hrecovery, proof, hproof, _, hcontinuity, signature, hget, hsignature⟩ := h
  refine conforms_object hclosed ?_
  simp only [List.forall_mem_cons, List.not_mem_nil, false_implies, implies_true, and_true]
  exact ⟨field_constant htype, field_hexField hline, field_hexField hendpoint, field_epoch hepoch,
    field_optionalHex hprevious,
    field_text htransition (admissibleUpdate_transition hadmissible), field_hexField hdigest,
    field_array hkeys (length_bounds hbounds)
      (fun key hkey => keyAuthorization_conforms (Except.forM_eq_ok.mp hvalid key hkey)),
    revokedKeys_field hrevoked hrevocation, recovery_field hrecovery,
    field_of_get (object_eq_ok.mp hproof) (continuityProof_conforms hcontinuity),
    field_signature hget hsignature⟩

theorem admissibleTransition_mem {transition : String} {epoch : Nat} {predecessor : Option Value}
    (h : admissibleTransition transition epoch predecessor = true) :
    transition ∈ ["genesis", "migration", "rotation", "revocation", "recovery"] := by
  rw [admissibleTransition, Bool.and_eq_true, Bool.and_eq_true, List.contains_iff_mem] at h
  exact h.1.1

theorem affiliation_conforms (h : validateAffiliation value = .ok u) :
    Conforms FieldKind.Checks affiliationSchema value := by
  simp only [validateAffiliation, Except.bind_eq_ok, members_eq_ok] at h
  obtain ⟨item, rfl, _, hclosed, _, hdescriptor, _, hcommitment, _, hnonce, _, hafter, signature,
    hget, hsignature⟩ := h
  refine conforms_object hclosed ?_
  simp only [List.forall_mem_cons, List.not_mem_nil, false_implies, implies_true, and_true]
  exact ⟨field_hexField hdescriptor, field_hexField hcommitment, field_hexField hnonce,
    field_unsigned hafter, field_signature hget hsignature⟩

theorem affiliationUpdate_conforms (h : validateAffiliationUpdate record = .ok u)
    (htype : record.get "recordType" = some (.string "affiliationUpdate")) :
    Conforms FieldKind.Checks affiliationUpdateSchema (.object record) := by
  simp only [validateAffiliationUpdate, Except.bind_eq_ok, text_eq_ok, array_eq_ok, reject_eq_ok,
    not_not] at h
  obtain ⟨_, hclosed, _, hline, _, hendpoint, _, hdigest, epoch, hepoch, transition, htransition, _,
    hadmissible, _, hprevious, affiliations, haffiliations, _, hlength, _, _, _, hvalid, signature,
    hget, hsignature⟩ := h
  refine conforms_object hclosed ?_
  simp only [List.forall_mem_cons, List.not_mem_nil, false_implies, implies_true, and_true]
  exact ⟨field_constant htype, field_hexField hline, field_hexField hendpoint, field_epoch hepoch,
    field_optionalHex hprevious, field_text htransition (admissibleTransition_mem hadmissible),
    field_array haffiliations ⟨Nat.zero_le _, not_lt.mp hlength⟩
      (fun item hitem => affiliation_conforms (Except.forM_eq_ok.mp hvalid item hitem)),
    field_hexField hdigest, field_signature hget hsignature⟩

theorem route_conforms (h : validateRoute value = .ok u) :
    Conforms FieldKind.Checks routeSchema value := by
  simp only [validateRoute, Except.bind_eq_ok, members_eq_ok, text_eq_ok, reject_eq_ok, not_not,
    Except.forM_eq_ok, List.forall_mem_cons] at h
  obtain ⟨route, rfl, _, hclosed, _, ⟨hdescriptor, hcommitment, hprofile, hhandle, _⟩, _, huntil,
    _, hclass, _, rfl, signature, hget, hsignature⟩ := h
  refine conforms_object hclosed ?_
  simp only [List.forall_mem_cons, List.not_mem_nil, false_implies, implies_true, and_true]
  exact ⟨field_hexField hdescriptor, field_hexField hcommitment, field_hexField hprofile,
    field_constant hclass, field_hexField hhandle, field_unsigned huntil,
    field_signature hget hsignature⟩

theorem routeUpdate_conforms (h : validateRouteUpdate record = .ok u)
    (htype : record.get "recordType" = some (.string "routeUpdate")) :
    Conforms FieldKind.Checks routeUpdateSchema (.object record) := by
  simp only [validateRouteUpdate, Except.bind_eq_ok, text_eq_ok, array_eq_ok, reject_eq_ok,
    not_not, Except.forM_eq_ok, List.forall_mem_cons] at h
  obtain ⟨_, hclosed, _, ⟨hline, hendpoint, hpeer, haffiliation, _⟩, epoch, hepoch, transition,
    htransition, _, hadmissible, _, hprevious, _, hafter, routes, hroutes, _, hbounds, _, _, _,
    hvalid, signature, hget, hsignature⟩ := h
  refine conforms_object hclosed ?_
  simp only [List.forall_mem_cons, List.not_mem_nil, false_implies, implies_true, and_true]
  exact ⟨field_constant htype, field_hexField hline, field_hexField hendpoint, field_hexField hpeer,
    field_epoch hepoch, field_optionalHex hprevious,
    field_text htransition (admissibleTransition_mem hadmissible), field_hexField haffiliation,
    field_unsigned hafter,
    field_array hroutes (length_bounds hbounds)
    (fun route hroute => route_conforms (hvalid route hroute)), field_signature hget hsignature⟩

theorem firstContact_conforms (h : validateFirstContact record = .ok u)
    (htype : record.get "recordType" = some (.string "firstContact")) :
    Conforms FieldKind.Checks firstContactSchema (.object record) := by
  simp only [validateFirstContact, Except.bind_eq_ok, text_eq_ok, reject_eq_ok, not_or, not_not,
    Except.forM_eq_ok, List.forall_mem_cons, object_eq_ok] at h
  obtain ⟨_, hclosed, _, hclass, _, rfl, _, hpurpose, _, ⟨rfl, hsingle⟩, _, hstate, _, rfl, _,
    ⟨hhandle, haudience, hbinding, _⟩, _, hexpires, invitation, hinvitation, _, hclosed', _,
    ⟨hinviter, hinvited, haudience', _⟩, _, ⟨hinvitee, hnonce, _⟩, _, _, purpose, hpurpose',
    rfl⟩ := h
  have hnested : Conforms FieldKind.Checks invitationSchema (.object invitation) := by
    refine conforms_object hclosed' ?_
    simp only [List.forall_mem_cons, List.not_mem_nil, false_implies, implies_true, and_true]
    exact ⟨field_hexField hinviter, field_optionalHex hinvitee, field_hexField hinvited,
      field_constant hpurpose', field_hexField haudience', field_optionalHex hnonce⟩
  refine conforms_object hclosed ?_
  simp only [List.forall_mem_cons, List.not_mem_nil, false_implies, implies_true, and_true]
  exact ⟨field_constant htype, field_constant hclass, field_hexField hhandle,
    field_hexField haudience, field_hexField hbinding, field_constant hpurpose, field_true hsingle,
    field_unsigned hexpires, field_of_get hinvitation hnested, field_constant hstate⟩

theorem discovery_conforms (h : validateDiscovery record = .ok u)
    (htype : record.get "recordType" = some (.string "discoveryInput")) :
    Conforms FieldKind.Checks discoverySchema (.object record) := by
  simp only [validateDiscovery, Except.bind_eq_ok, text_eq_ok, reject_eq_ok, not_or, not_not,
    Except.forM_eq_ok, List.forall_mem_cons] at h
  obtain ⟨_, hclosed, kind, hkind, _, hkinds, chain, hchain, _, ⟨hchains, honly⟩, _, hid, _,
    ⟨hsource, hsubject, hdigest, hstatement, _⟩, _, hepoch, _, hobserved, _, hexpires, signature,
    hget, hsignature⟩ := h
  refine conforms_object hclosed ?_
  simp only [List.forall_mem_cons, List.not_mem_nil, false_implies, implies_true, and_true]
  exact ⟨field_constant htype, field_hexField hid, field_text hkind hkinds, field_hexField hsource,
    field_hexField hsubject, field_text hchain hchains, field_epoch hepoch, field_hexField hdigest,
    field_hexField hstatement, field_unsigned hobserved, field_unsigned hexpires,
    field_signature hget hsignature, field_true honly⟩

theorem authenticatedInput_conforms (h : validateAuthenticatedInput value = .ok u) :
    Conforms FieldKind.Checks authenticatedInputSchema value := by
  simp only [validateAuthenticatedInput, Except.bind_eq_ok, members_eq_ok, text_eq_ok,
    reject_eq_ok, not_or, not_not, Except.forM_eq_ok, List.forall_mem_cons] at h
  obtain ⟨input, rfl, _, hclosed, kind, hkind, _, ⟨hkinds, honly⟩, _, hid, _,
    ⟨hsource, hdigest, hstatement, _⟩, _, hepoch, _, hexpires, signature, hget, hsignature⟩ := h
  refine conforms_object hclosed ?_
  simp only [List.forall_mem_cons, List.not_mem_nil, false_implies, implies_true, and_true]
  exact ⟨field_hexField hid, field_text hkind hkinds, field_hexField hsource, field_epoch hepoch,
    field_hexField hdigest, field_hexField hstatement, field_unsigned hexpires,
    field_signature hget hsignature, field_true honly⟩

theorem transparency_conforms (h : validateTransparency record = .ok u)
    (htype : record.get "recordType" = some (.string "transparencyBundle")) :
    Conforms FieldKind.Checks transparencySchema (.object record) := by
  simp only [validateTransparency, Except.bind_eq_ok, text_eq_ok, array_eq_ok, reject_eq_ok,
    not_or, not_not, Except.forM_eq_ok] at h
  obtain ⟨_, hclosed, chain, hchain, _, hchains, _, hauthority, _, ⟨rfl, hretains, hsplit⟩, _,
    hsubject, _, hdigest, _, hepoch, hinputs⟩ := h
  have hfield : ∀ key ∈ ["witnessInputs", "gossipInputs", "discoveryInputs",
      "stationSignatureInputs", "verificationInputs"],
      Field record (key, .array 0 8 authenticatedInputSchema) := by
    intro key hkey
    obtain ⟨inputs, hget, _, hlength, _, _, hvalid⟩ := hinputs key hkey
    exact field_array hget ⟨Nat.zero_le _, not_lt.mp hlength⟩
      fun input hinput => authenticatedInput_conforms (hvalid input hinput)
  have hview : Field record ("splitView", .leaf (.flag [true, false])) := by
    intro value hget
    rw [hget, Option.any_some, Bool.not_eq_true', Bool.not_eq_false] at hsplit
    cases value with
    | bool b => exact .leaf ⟨b, by cases b <;> simp, rfl⟩
    | _ => cases hsplit
  simp only [List.forall_mem_cons, List.not_mem_nil, false_implies, implies_true, and_true]
    at hfield
  obtain ⟨hwitness, hgossip, hdiscovery, hstation, hverification⟩ := hfield
  refine conforms_object hclosed ?_
  simp only [List.forall_mem_cons, List.not_mem_nil, false_implies, implies_true, and_true]
  exact ⟨field_constant htype, field_hexField hsubject, field_text hchain hchains,
    field_epoch hepoch, field_hexField hdigest, hwitness, hgossip, hdiscovery, hstation,
    hverification, field_constant hauthority, field_true hretains, hview⟩

theorem listener_conforms (h : validateListener value = .ok u) :
    Conforms FieldKind.Checks listenerSchema value := by
  simp only [validateListener, Except.bind_eq_ok, members_eq_ok, text_eq_ok, reject_eq_ok, not_or,
    not_not, not_lt] at h
  obtain ⟨listener, rfl, _, hclosed, _, hprofile, endpoint, hendpoint, hshort, hlong, hscheme,
    hquery, hfragment, hascii⟩ := h
  rw [List.all_eq_true] at hascii
  have huri : Conforms FieldKind.Checks (.leaf .uri) (.string endpoint) :=
    .leaf ⟨endpoint, rfl, hshort, hlong, hscheme, hquery, hfragment, fun byte hbyte =>
      of_decide_eq_true (hascii byte hbyte)⟩
  refine conforms_object hclosed ?_
  simp only [List.forall_mem_cons, List.not_mem_nil, false_implies, implies_true, and_true]
  exact ⟨field_hexField hprofile, field_of_get hendpoint huri⟩

theorem signingKey_conforms (h : validateSigningKey value = .ok u) :
    Conforms FieldKind.Checks signingKeySchema value := by
  simp only [validateSigningKey, Except.bind_eq_ok, members_eq_ok] at h
  obtain ⟨key, rfl, _, hclosed, _, hid, hkey⟩ := h
  obtain ⟨hprofile, hpublic⟩ := publicKey_fields hkey
  refine conforms_object hclosed ?_
  simp only [List.forall_mem_cons, List.not_mem_nil, false_implies, implies_true, and_true]
  exact ⟨hprofile, field_hexField hid, hpublic⟩

theorem predecessor_field {key : String} {sequence : Nat}
    (h : validatePredecessor sequence (record.get key) = .ok u) :
    Field record (key, digestSchema) := by
  intro value hget
  rw [hget] at h
  simp only [validatePredecessor, Except.bind_eq_ok, hexValue_eq_ok] at h
  obtain ⟨_, _, hdigest⟩ := h
  exact conforms_hex hdigest List.mem_cons_self

theorem stationDescriptor_conforms (h : validateStationDescriptor record = .ok u)
    (htype : record.get "recordType" = some (.string "stationDescriptor")) :
    Conforms FieldKind.Checks stationDescriptorSchema (.object record) := by
  simp only [validateStationDescriptor, Except.bind_eq_ok, array_eq_ok, reject_eq_ok,
    optionalArray_eq_ok] at h
  obtain ⟨_, hclosed, _, hid, sequence, hsequence, _, hprevious, _, hbefore, _, hafter, _, _,
    listeners, hlisteners, _, hlistenerBounds, _, _, _, hlistener, keys, hkeys, _, hkeyBounds, _, _,
    _, hkey, certifications, hcertifications, _, hcertified, signatures, hsignatures, _, hbounds, _,
    _, hsigned⟩ := h
  refine conforms_object hclosed ?_
  simp only [List.forall_mem_cons, List.not_mem_nil, false_implies, implies_true, and_true]
  exact ⟨field_constant htype, field_hexField hid, field_epoch hsequence,
    predecessor_field hprevious, field_unsigned hbefore, field_unsigned hafter,
    field_array hlisteners (length_bounds hlistenerBounds) (fun listener hmem =>
      listener_conforms (Except.forM_eq_ok.mp hlistener listener hmem)),
    field_array hkeys (length_bounds hkeyBounds) (fun key hmem =>
      signingKey_conforms (Except.forM_eq_ok.mp hkey key hmem)),
    certifications_field hcertifications hcertified,
    field_array hsignatures (length_bounds hbounds) (signatures_conform hsigned)⟩

/-! ## Accepted user authority records -/

theorem signaturePair_conforms {values : List Value} (h : validateSignatureArray values = .ok u) :
    Conforms FieldKind.Checks signaturePairSchema (.array values) := by
  obtain ⟨ed, ml, rfl, hed, hml, _⟩ := validateSignatureArray_eq_ok.mp h
  have hedValid : validateSignature ed none = .ok () :=
    validateSignature_eq_ok.mpr ⟨.inl hed, nofun⟩
  have hmlValid : validateSignature ml none = .ok () :=
    validateSignature_eq_ok.mpr ⟨.inr hml, nofun⟩
  refine .array ⟨le_rfl, le_rfl⟩ ?_
  simp only [List.forall_mem_cons, List.not_mem_nil, false_implies, implies_true, and_true]
  exact ⟨signature_conforms hedValid, signature_conforms hmlValid⟩

theorem authorityKey_conforms {purpose profile : String} {size : Nat} {key : Map}
    (h : AuthorityKey purpose profile size key)
    (hprofile : profile ∈ [ed25519ProfileId, mlDsa65ProfileId]) (hsize : size ∈ [32, 1952]) :
    Conforms FieldKind.Checks (authorityKeySchema purpose) (.object key) := by
  obtain ⟨id, hid⟩ := h.keyId
  obtain ⟨v, hv⟩ := h.publicKey
  refine conforms_object h.closed ?_
  simp only [List.forall_mem_cons, List.not_mem_nil, false_implies, implies_true, and_true]
  exact ⟨field_of_get hid (conforms_hex ⟨id, rfl⟩ List.mem_cons_self), field_constant h.purpose,
    field_text h.profile hprofile, field_of_get hv (conforms_hex ⟨v, rfl⟩ hsize)⟩

theorem authorityKeys_conform {values : List Value} {purpose : String}
    (h : validateAuthorityKeys values purpose = .ok u) :
    Conforms FieldKind.Checks (.array 2 2 (authorityKeySchema purpose)) (.array values) := by
  obtain ⟨ed, ml, rfl, hed, hml, _⟩ := validateAuthorityKeys_eq_ok.mp h
  refine .array ⟨le_rfl, le_rfl⟩ ?_
  simp only [List.forall_mem_cons, List.not_mem_nil, false_implies, implies_true, and_true]
  exact ⟨authorityKey_conforms hed List.mem_cons_self List.mem_cons_self,
    authorityKey_conforms hml (by simp) (by simp)⟩

theorem device_conforms {epoch : Nat} {item : Map} {endpoint : FixedBytes 32}
    (hepoch : epoch ≤ maxEpoch) (h : DeviceRecord epoch item endpoint) :
    Conforms FieldKind.Checks deviceSchema (.object item) := by
  obtain ⟨reference, hreference, hdecoded⟩ := decodedHex_eq_ok.mp h.endpoint
  obtain ⟨identity, hidentity⟩ := h.identity
  obtain ⟨admitted, _, hadmitted, hstatus⟩ := h.admitted
  obtain ⟨proof, hproof, hsigned⟩ := h.proof
  obtain ⟨revoked, hget, hrevoked, hepochs⟩ := revoked_of_status hstatus
  have hname : (if revoked.isSome then "revoked" else "active") ∈ ["active", "revoked"] := by
    split_ifs <;> decide
  have hrevocation : Field item ("revokedAuthorityEpoch", unsignedSchema) := by
    cases revoked with
    | none => exact field_absent hrevoked
    | some e =>
      exact field_of_get hrevoked (.leaf ⟨e, rfl, Nat.zero_le e, (hepochs e rfl).2.trans hepoch⟩)
  refine conforms_object h.closed ?_
  simp only [List.forall_mem_cons, List.not_mem_nil, false_implies, implies_true, and_true]
  exact ⟨field_of_get hreference (.leaf ⟨reference, endpoint, rfl, hdecoded⟩),
    field_of_get hidentity (conforms_hex ⟨identity, rfl⟩ List.mem_cons_self),
    field_text hget hname, field_unsigned hadmitted, hrevocation,
    field_of_get hproof (signaturePair_conforms hsigned)⟩

theorem replacementProof_field (h : validateReplacementProof record = .ok u) :
    Field record ("possessionProof", replacementProofSchema) := by
  intro value hget
  rw [validateReplacementProof, hget] at h
  simp only [Except.bind_eq_ok, members_eq_ok, reject_eq_ok, Except.forM_eq_ok,
    List.forall_mem_cons, List.not_mem_nil, false_implies, implies_true, and_true] at h
  obtain ⟨proof, rfl, _, hclosed, _, _, hmanagement, hrecovery⟩ := h
  have hfield : ∀ key, validateProofSignatures proof key = .ok () →
      Field proof (key, signaturePairSchema) := by
    intro key hvalid value hvalue
    rw [validateProofSignatures, hvalue] at hvalid
    simp only [Except.bind_eq_ok, items_eq_ok] at hvalid
    obtain ⟨values, rfl, hsigned⟩ := hvalid
    exact signaturePair_conforms hsigned
  refine conforms_object hclosed ?_
  simp only [List.forall_mem_cons, List.not_mem_nil, false_implies, implies_true, and_true]
  exact ⟨hfield _ hmanagement, hfield _ hrecovery⟩

theorem userAuthority_conforms (r : AuthorityRecord record)
    (htype : record.get "recordType" = some (.string "userAuthorityState"))
    (htransition : (Encoding.textBytes r.transition).length ≤ 8192) :
    Conforms FieldKind.Checks userAuthoritySchema (.object record) := by
  have hepoch := (natural_of_unsigned r.get_epoch).2
  have hprevious : Field record ("previousUserAuthorityStateDigest", digestSchema) :=
    fun value hget => conforms_hex (r.previous value hget) List.mem_cons_self
  have hdevices : ∀ value ∈ devices r.entries,
      Conforms FieldKind.Checks deviceSchema value := by
    rw [devices, List.forall_mem_map]
    exact fun entry hentry => device_conforms hepoch (r.roster.valid entry hentry)
  have hlength : 1 ≤ (devices r.entries).length ∧ (devices r.entries).length ≤ 16 := by
    have hbounded := r.bounded
    rw [ne_eq, ← List.length_eq_zero_iff] at hbounded
    rw [devices, List.length_map]
    omega
  refine conforms_object r.closed ?_
  simp only [List.forall_mem_cons, List.not_mem_nil, false_implies, implies_true, and_true]
  exact ⟨field_constant htype, field_of_get r.get_line
    (conforms_hex ⟨r.line, rfl⟩ List.mem_cons_self),
    field_of_get r.get_user (conforms_hex ⟨r.user, rfl⟩ List.mem_cons_self),
    field_unsigned r.get_epoch, hprevious, field_of_get r.get_transition
    (.leaf ⟨r.transition, rfl, htransition⟩), field_of_get r.get_management
      (authorityKeys_conform r.management_keys),
    field_of_get r.get_recovery (authorityKeys_conform r.recovery_keys),
    field_array r.get_devices hlength hdevices, replacementProof_field r.proof,
    field_of_get r.get_signatures (signaturePair_conforms r.signed)⟩

end Accepted

/-! ## Closed records -/

section Closed

variable {formatFinite : Rat → String} {value : Value}

def schemaOf (value : Value) : Option RecordSchema :=
  ((value.member "recordType").bind Value.asStr).bind recordSchema

theorem definition_conforms (h : validateDefinitionRecord formatFinite value = .ok ()) :
    ∃ recordType schema, value.member "recordType" = some (.string recordType) ∧
      recordSchema recordType = some schema ∧ Conforms FieldKind.Checks schema value := by
  simp only [validateDefinitionRecord, Except.bind_eq_ok, liftM_eq_ok, text_eq_ok] at h
  obtain ⟨record, hsizes, recordType, htype, h⟩ := h
  cases validateSizes_members hsizes
  refine ⟨recordType, ?_⟩
  split at h
  case h_1 => exact ⟨_, htype, rfl, identityUpdate_conforms (liftM_eq_ok.mp h) htype⟩
  case h_2 => exact ⟨_, htype, rfl, affiliationUpdate_conforms (liftM_eq_ok.mp h) htype⟩
  case h_3 => exact ⟨_, htype, rfl, routeUpdate_conforms (liftM_eq_ok.mp h) htype⟩
  case h_4 => exact ⟨_, htype, rfl, firstContact_conforms (liftM_eq_ok.mp h) htype⟩
  case h_5 => exact ⟨_, htype, rfl, discovery_conforms (liftM_eq_ok.mp h) htype⟩
  case h_6 => exact ⟨_, htype, rfl, transparency_conforms (liftM_eq_ok.mp h) htype⟩
  case h_7 =>
    obtain ⟨r⟩ := validateUserAuthorityRecord_eq_ok.mp h
    exact ⟨_, htype, rfl,
      userAuthority_conforms r htype (transition_bounded hsizes r.get_transition)⟩
  case h_8 => exact ⟨_, htype, rfl, stationDescriptor_conforms (liftM_eq_ok.mp h) htype⟩
  case h_9 => cases h

/-- Every part of an accepted value has been checked, and no object in it takes another member. -/
theorem definition_closed (h : validateDefinitionRecord formatFinite value = .ok ()) :
    ∃ schema, schemaOf value = some schema ∧
      (∀ path part, value.part path = some part →
        ∃ inner, schema.part path = some inner ∧ Conforms FieldKind.Checks inner part) ∧
      ∀ path object, value.part path = some (.object object) →
        ∃ members required, schema.part path = some (.object members required) ∧
          ∀ name, name ∉ members.map Prod.fst → ∀ added,
            (value.insertAt name path added).part path =
              some (.object (Map.insert name added object)) ∧
            (value.Ordered → added.Ordered → (value.insertAt name path added).Ordered) ∧
            validateDefinitionRecord formatFinite (value.insertAt name path added) ≠ .ok () := by
  obtain ⟨recordType, schema, htype, hschema, hconforms⟩ := definition_conforms h
  have hschemaOf : schemaOf value = some schema := by
    rw [schemaOf, htype]
    exact hschema
  refine ⟨schema, hschemaOf, fun path part hpart => hconforms.part FieldKind.scalar hpart, ?_⟩
  intro path object hpart
  obtain ⟨members, required, hinner, hnot⟩ := hconforms.insertAt_not FieldKind.scalar hpart
  refine ⟨members, required, hinner, fun name hname added => ⟨Value.part_insertAt hpart,
    fun hordered hadded => Value.insertAt_ordered hadded hordered, fun hinserted => ?_⟩⟩
  obtain ⟨otherType, other, hother, hotherSchema, hotherConforms⟩ :=
    definition_conforms hinserted
  have hdeclared : path = [] → name ≠ "recordType" := by
    rintro rfl rfl
    cases Option.some.inj hinner
    cases hconforms with
    | object closed _ _ => exact hname (closed _ (Map.mem_of_get htype))
  have hkept := @Value.member_insertAt name added _ _ _ _ _ hpart htype trivial hdeclared
  cases hkept.symm.trans hother
  cases hschema.symm.trans hotherSchema
  exact hnot name hname added hotherConforms

/-- A signature of a device's proof in the state of one device. -/
theorem device_signature_closed : validateDefinitionRecord (fun _ => "")
    ((Value.object (sampleState 0 [sampleDevice 1 0 none]).print).insertAt "operator"
      [.member "authorizedDevices", .item 0, .member "possessionProof", .item 1] .null) ≠
      .ok () := by
  have hvalid : (sampleState 0 [sampleDevice 1 0 none]).WellFormed :=
    sampleState_valid (by decide) (by decide) (by simp) (by simp [sampleDevice])
      (by simp [sampleDevice])
  obtain ⟨schema, hschema, _, hclosed⟩ :=
    definition_closed (@AuthorityData.definition (fun _ => "") _ hvalid)
  cases Option.some.inj hschema
  obtain ⟨members, required, hinner, hnot⟩ := hclosed
    [.member "authorizedDevices", .item 0, .member "possessionProof", .item 1] _ rfl
  cases Option.some.inj hinner
  exact (hnot "operator" (by decide) .null).2.2

end Closed

end Identity

end LicoArc
