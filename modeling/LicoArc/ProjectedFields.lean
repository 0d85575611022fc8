import LicoArc.EncodingLaws
import LicoArc.IdentityLaws
import LicoArc.UserAuthority

/-!
# The fields of an authority

What the projections of an authority state, of a device and of a key
replacement read from a record, and that the projected value loses none of it.
-/

namespace LicoArc

open Encoding (WellFormed WellFormedItems)
open Json Identity

/-! ## Projected fields -/

structure KeyFields where
  keyId : FixedBytes 32
  purpose : String
  profile : FixedBytes 32
  publicKey : Bytes

structure SignatureFields where
  profile : FixedBytes 32
  keyId : FixedBytes 32
  purpose : String
  signatureValue : Bytes

structure DeviceFields where
  endpoint : FixedBytes 32
  identity : FixedBytes 32
  status : String
  admitted : Nat
  revoked : Option Nat
  proof : List SignatureFields

structure ReplacementProof where
  management : Option (List SignatureFields)
  recovery : Option (List SignatureFields)

structure AuthorityFields where
  line : FixedBytes 32
  user : FixedBytes 32
  epoch : Nat
  previous : Option (FixedBytes 32)
  transition : String
  management : List KeyFields
  recovery : List KeyFields
  devices : List DeviceFields
  possession : Option ReplacementProof

/-- What a device signs to prove that it holds its keys. -/
structure DeviceBinding where
  line : FixedBytes 32
  user : FixedBytes 32
  epoch : Nat
  endpoint : FixedBytes 32
  identity : FixedBytes 32

/-- What the keys sign that replace those of an authority. -/
structure ReplacementBinding where
  line : FixedBytes 32
  user : FixedBytes 32
  epoch : Nat
  management : List KeyFields
  recovery : List KeyFields

section Values

def orNull {α : Type} (value : α → CborValue) : Option α → CborValue
  | none => .null
  | some a => value a

def KeyFields.value (key : KeyFields) : CborValue :=
  .array [.bytes key.keyId.toList, .text key.purpose, .bytes key.profile.toList,
    .bytes key.publicKey]

def SignatureFields.value (signature : SignatureFields) : CborValue :=
  .array [.bytes signature.profile.toList, .bytes signature.keyId.toList, .text signature.purpose,
    .bytes signature.signatureValue]

def listValue {α : Type} (value : α → CborValue) (items : List α) : CborValue :=
  .array (items.map value)

def DeviceFields.value (device : DeviceFields) : CborValue :=
  .array [.bytes device.endpoint.toList, .bytes device.identity.toList, .text device.status,
    .unsigned device.admitted, orNull .unsigned device.revoked,
    listValue SignatureFields.value device.proof]

def ReplacementProof.value (proof : ReplacementProof) : CborValue :=
  .array [orNull (listValue SignatureFields.value) proof.management,
    orNull (listValue SignatureFields.value) proof.recovery]

def AuthorityFields.value (fields : AuthorityFields) : CborValue :=
  .array [.text "UserAuthorityStateV1", .bytes fields.line.toList, .bytes fields.user.toList,
    .unsigned fields.epoch, orNull (fun digest => .bytes digest.toList) fields.previous,
    .text fields.transition, listValue KeyFields.value fields.management,
    listValue KeyFields.value fields.recovery, listValue DeviceFields.value fields.devices,
    orNull ReplacementProof.value fields.possession]

def DeviceBinding.value (binding : DeviceBinding) : CborValue :=
  .array [.bytes binding.line.toList, .bytes binding.user.toList, .unsigned binding.epoch,
    .bytes binding.endpoint.toList, .bytes binding.identity.toList]

def ReplacementBinding.value (binding : ReplacementBinding) : CborValue :=
  .array [.text "AuthorityKeyReplacementV1", .bytes binding.line.toList,
    .bytes binding.user.toList, .unsigned binding.epoch,
    listValue KeyFields.value binding.management, listValue KeyFields.value binding.recovery]

end Values

/-! ## The projections lose no field -/

section Injective

variable {α : Type} {value : α → CborValue}

theorem getD_map (value : α → CborValue) (field : Option α) :
    (field.map value).getD .null = orNull value field := by
  cases field <;> rfl

theorem orNull_injective (h : Function.Injective value) (hnull : ∀ a, value a ≠ .null) :
    Function.Injective (orNull value) := by
  intro first second heq
  cases first with
  | none =>
    cases second with
    | none => rfl
    | some a => exact absurd heq.symm (hnull a)
  | some a =>
    cases second with
    | none => exact absurd heq (hnull a)
    | some b => rw [h heq]

theorem listValue_injective (h : Function.Injective value) :
    Function.Injective (listValue value) := by
  intro first second heq
  exact List.map_injective_iff.mpr h (CborValue.array.inj heq)

theorem KeyFields.value_injective : Function.Injective KeyFields.value := by
  intro first second h
  simp only [KeyFields.value, CborValue.array.injEq, List.cons.injEq, CborValue.bytes.injEq,
    CborValue.text.injEq, and_true] at h
  obtain ⟨hkey, hpurpose, hprofile, hpublic⟩ := h
  cases first
  cases second
  simp only [KeyFields.mk.injEq]
  exact ⟨FixedBytes.toList_injective hkey, hpurpose, FixedBytes.toList_injective hprofile, hpublic⟩

theorem SignatureFields.value_injective : Function.Injective SignatureFields.value := by
  intro first second h
  simp only [SignatureFields.value, CborValue.array.injEq, List.cons.injEq, CborValue.bytes.injEq,
    CborValue.text.injEq, and_true] at h
  obtain ⟨hprofile, hkey, hpurpose, hvalue⟩ := h
  cases first
  cases second
  simp only [SignatureFields.mk.injEq]
  exact ⟨FixedBytes.toList_injective hprofile, FixedBytes.toList_injective hkey, hpurpose, hvalue⟩

theorem DeviceFields.value_injective : Function.Injective DeviceFields.value := by
  intro first second h
  simp only [DeviceFields.value, CborValue.array.injEq, List.cons.injEq, CborValue.bytes.injEq,
    CborValue.text.injEq, CborValue.unsigned.injEq, and_true] at h
  obtain ⟨hendpoint, hidentity, hstatus, hadmitted, hrevoked, hproof⟩ := h
  have hunsigned : Function.Injective (orNull CborValue.unsigned) :=
    orNull_injective (fun _ _ => CborValue.unsigned.inj) nofun
  cases first
  cases second
  simp only [DeviceFields.mk.injEq]
  exact ⟨FixedBytes.toList_injective hendpoint, FixedBytes.toList_injective hidentity, hstatus,
    hadmitted, hunsigned hrevoked, listValue_injective SignatureFields.value_injective hproof⟩

theorem ReplacementProof.value_injective : Function.Injective ReplacementProof.value := by
  intro first second h
  simp only [ReplacementProof.value, CborValue.array.injEq, List.cons.injEq, and_true] at h
  have hlist : Function.Injective (orNull (listValue SignatureFields.value)) :=
    orNull_injective (listValue_injective SignatureFields.value_injective) nofun
  cases first
  cases second
  simp only [ReplacementProof.mk.injEq]
  exact ⟨hlist h.1, hlist h.2⟩

theorem AuthorityFields.value_injective : Function.Injective AuthorityFields.value := by
  intro first second h
  simp only [AuthorityFields.value, CborValue.array.injEq, List.cons.injEq, CborValue.bytes.injEq,
    CborValue.text.injEq, CborValue.unsigned.injEq, and_true, true_and] at h
  obtain ⟨hline, huser, hepoch, hprevious, htransition, hmanagement, hrecovery, hdevices,
    hpossession⟩ := h
  have hdigest : Function.Injective
      (orNull fun digest : FixedBytes 32 => CborValue.bytes digest.toList) :=
    orNull_injective (fun _ _ heq => FixedBytes.toList_injective (CborValue.bytes.inj heq)) nofun
  have hkeys := listValue_injective KeyFields.value_injective
  cases first
  cases second
  simp only [AuthorityFields.mk.injEq]
  exact ⟨FixedBytes.toList_injective hline, FixedBytes.toList_injective huser, hepoch,
    hdigest hprevious, htransition, hkeys hmanagement, hkeys hrecovery,
    listValue_injective DeviceFields.value_injective hdevices,
    orNull_injective ReplacementProof.value_injective nofun hpossession⟩

theorem DeviceBinding.value_injective : Function.Injective DeviceBinding.value := by
  intro first second h
  simp only [DeviceBinding.value, CborValue.array.injEq, List.cons.injEq, CborValue.bytes.injEq,
    CborValue.unsigned.injEq, and_true] at h
  obtain ⟨hline, huser, hepoch, hendpoint, hidentity⟩ := h
  cases first
  cases second
  simp only [DeviceBinding.mk.injEq]
  exact ⟨FixedBytes.toList_injective hline, FixedBytes.toList_injective huser, hepoch,
    FixedBytes.toList_injective hendpoint, FixedBytes.toList_injective hidentity⟩

theorem ReplacementBinding.value_injective : Function.Injective ReplacementBinding.value := by
  intro first second h
  simp only [ReplacementBinding.value, CborValue.array.injEq, List.cons.injEq,
    CborValue.bytes.injEq, CborValue.unsigned.injEq, and_true, true_and] at h
  obtain ⟨hline, huser, hepoch, hmanagement, hrecovery⟩ := h
  have hkeys := listValue_injective KeyFields.value_injective
  cases first
  cases second
  simp only [ReplacementBinding.mk.injEq]
  exact ⟨FixedBytes.toList_injective hline, FixedBytes.toList_injective huser, hepoch,
    hkeys hmanagement, hkeys hrecovery⟩

end Injective

section WellFormed

theorem orNull_wellFormed {α : Type} {value : α → CborValue} (h : ∀ a, WellFormed (value a))
    (field : Option α) : WellFormed (orNull value field) := by
  cases field with
  | none => trivial
  | some a => exact h a

theorem listValue_wellFormed {α : Type} {value : α → CborValue} (h : ∀ a, WellFormed (value a))
    (items : List α) : WellFormed (listValue value items) := by
  induction items with
  | nil => trivial
  | cons item items ih => exact ⟨h item, ih⟩

theorem KeyFields.value_wellFormed (key : KeyFields) : WellFormed key.value := by
  simp [KeyFields.value, WellFormed, WellFormedItems]

theorem SignatureFields.value_wellFormed (signature : SignatureFields) :
    WellFormed signature.value := by
  simp [SignatureFields.value, WellFormed, WellFormedItems]

theorem DeviceFields.value_wellFormed (device : DeviceFields) : WellFormed device.value := by
  have hrevoked : WellFormed (orNull .unsigned device.revoked) :=
    orNull_wellFormed (fun _ => by trivial) _
  have hproof := listValue_wellFormed SignatureFields.value_wellFormed device.proof
  simp [DeviceFields.value, WellFormed, WellFormedItems, hrevoked, hproof]

theorem ReplacementProof.value_wellFormed (proof : ReplacementProof) : WellFormed proof.value := by
  have hlist := listValue_wellFormed SignatureFields.value_wellFormed
  exact ⟨orNull_wellFormed hlist _, orNull_wellFormed hlist _, trivial⟩

theorem AuthorityFields.value_wellFormed (fields : AuthorityFields) : WellFormed fields.value := by
  have hkeys := listValue_wellFormed KeyFields.value_wellFormed
  have hprevious : WellFormed (orNull (fun digest => .bytes digest.toList) fields.previous) :=
    orNull_wellFormed (fun _ => by trivial) _
  exact ⟨trivial, trivial, trivial, trivial, hprevious, trivial, hkeys _, hkeys _,
    listValue_wellFormed DeviceFields.value_wellFormed _,
    orNull_wellFormed ReplacementProof.value_wellFormed _, trivial⟩

theorem DeviceBinding.value_wellFormed (binding : DeviceBinding) : WellFormed binding.value := by
  simp [DeviceBinding.value, WellFormed, WellFormedItems]

theorem ReplacementBinding.value_wellFormed (binding : ReplacementBinding) :
    WellFormed binding.value := by
  have hkeys := listValue_wellFormed KeyFields.value_wellFormed
  exact ⟨trivial, trivial, trivial, trivial, hkeys _, hkeys _, trivial⟩

end WellFormed

/-! ## The fields of a record -/

section Reading

def KeyFields.Read (fields : KeyFields) (value : Value) : Prop :=
  ∃ key publicKey, members value = .ok key ∧ decodedHex 32 key "keyId" = .ok fields.keyId ∧
    text key "keyPurpose" = .ok fields.purpose ∧
    decodedHex 32 key "keyProfileId" = .ok fields.profile ∧
    text key "publicKey" = .ok publicKey ∧ decodeHexText publicKey = .ok fields.publicKey

def SignatureFields.Read (fields : SignatureFields) (value : Value) : Prop :=
  ∃ signature signatureValue, members value = .ok signature ∧
    decodedHex 32 signature "keyProfileId" = .ok fields.profile ∧
    decodedHex 32 signature "keyId" = .ok fields.keyId ∧
    text signature "signaturePurpose" = .ok fields.purpose ∧
    text signature "signatureValue" = .ok signatureValue ∧
    decodeHexText signatureValue = .ok fields.signatureValue

def DeviceFields.Read (fields : DeviceFields) (value : Value) : Prop :=
  ∃ device proof, members value = .ok device ∧
    (device.get "revokedAuthorityEpoch").bind Value.asU64 = fields.revoked ∧
    decodedHex 32 device "endpointIdentityRef" = .ok fields.endpoint ∧
    decodedHex 32 device "identityStateDigest" = .ok fields.identity ∧
    text device "deviceStatus" = .ok fields.status ∧
    unsigned device "admittedAuthorityEpoch" = .ok fields.admitted ∧
    array device "possessionProof" = .ok proof ∧
    List.Forall₂ SignatureFields.Read fields.proof proof

def ReadSignatures (fields : Option (List SignatureFields)) (proof : Map) (name : String) : Prop :=
  match proof.get name, fields with
  | none, none => True
  | some value, some fields =>
    ∃ values, items value = .ok values ∧ List.Forall₂ SignatureFields.Read fields values
  | _, _ => False

def ReadPossession (fields : Option ReplacementProof) (record : Map) : Prop :=
  match record.get "possessionProof", fields with
  | none, none => True
  | some value, some fields => ∃ proof, members value = .ok proof ∧
    ReadSignatures fields.management proof "managementSignatures" ∧
    ReadSignatures fields.recovery proof "recoverySignatures"
  | _, _ => False

def ReadKeys (fields : List KeyFields) (record : Map) (name : String) : Prop :=
  ∃ values, array record name = .ok values ∧ List.Forall₂ KeyFields.Read fields values

def AuthorityFields.Read (fields : AuthorityFields) (state : Value) : Prop :=
  ∃ record devices, members state = .ok record ∧
    previousDigest record = .ok fields.previous ∧ ReadPossession fields.possession record ∧
    decodedHex 32 record "protocolLineId" = .ok fields.line ∧
    decodedHex 32 record "userIdentityRef" = .ok fields.user ∧
    unsigned record "authorityEpoch" = .ok fields.epoch ∧
    text record "authorityTransitionKind" = .ok fields.transition ∧
    ReadKeys fields.management record "managementSigningKeys" ∧
    ReadKeys fields.recovery record "recoverySigningKeys" ∧
    array record "authorizedDevices" = .ok devices ∧
    List.Forall₂ DeviceFields.Read fields.devices devices

def DeviceBinding.Read (binding : DeviceBinding) (state device : Value) : Prop :=
  ∃ record item, members state = .ok record ∧ members device = .ok item ∧
    decodedHex 32 record "protocolLineId" = .ok binding.line ∧
    decodedHex 32 record "userIdentityRef" = .ok binding.user ∧
    unsigned record "authorityEpoch" = .ok binding.epoch ∧
    decodedHex 32 item "endpointIdentityRef" = .ok binding.endpoint ∧
    decodedHex 32 item "identityStateDigest" = .ok binding.identity

def ReplacementBinding.Read (binding : ReplacementBinding) (state : Value) : Prop :=
  ∃ record, members state = .ok record ∧
    decodedHex 32 record "protocolLineId" = .ok binding.line ∧
    decodedHex 32 record "userIdentityRef" = .ok binding.user ∧
    unsigned record "authorityEpoch" = .ok binding.epoch ∧
    ReadKeys binding.management record "managementSigningKeys" ∧
    ReadKeys binding.recovery record "recoverySigningKeys"

end Reading

section Projection

theorem keyProjection_reads {value : Value} {projected : CborValue}
    (h : keyProjection value = .ok projected) :
    ∃ fields : KeyFields, fields.Read value ∧ projected = fields.value := by
  simp only [keyProjection, Except.bind_eq_ok, liftM_eq_ok, Except.pure_eq,
    Except.ok.injEq] at h
  obtain ⟨key, hkey, keyId, hid, purpose, hpurpose, profile, hprofile, publicText, htext,
    publicKey, hpublic, rfl⟩ := h
  exact ⟨⟨keyId, purpose, profile, publicKey⟩,
    ⟨key, publicText, hkey, hid, hpurpose, hprofile, htext, hpublic⟩, rfl⟩

theorem signatureEntryProjection_reads {value : Value} {projected : CborValue}
    (h : signatureEntryProjection value = .ok projected) :
    ∃ fields : SignatureFields, fields.Read value ∧ projected = fields.value := by
  simp only [signatureEntryProjection, Except.bind_eq_ok, liftM_eq_ok, Except.pure_eq,
    Except.ok.injEq] at h
  obtain ⟨signature, hsignature, profile, hprofile, keyId, hid, purpose, hpurpose, valueText,
    htext, signatureValue, hvalue, rfl⟩ := h
  exact ⟨⟨profile, keyId, purpose, signatureValue⟩,
    ⟨signature, valueText, hsignature, hprofile, hid, hpurpose, htext, hvalue⟩, rfl⟩

theorem mapM_reads {Fields : Type} {Read : Fields → Value → Prop} {value : Fields → CborValue}
    {project : Value → Except Fault CborValue}
    (hread : ∀ {item projected}, project item = .ok projected →
      ∃ fields, Read fields item ∧ projected = value fields)
    {items : List Value} {projected : List CborValue} (h : items.mapM project = .ok projected) :
    ∃ fields, List.Forall₂ Read fields items ∧ projected = fields.map value := by
  have hall := Except.mapM_eq_ok.mp h
  clear h
  induction hall with
  | nil => exact ⟨[], .nil, rfl⟩
  | cons hfirst _ ih =>
    obtain ⟨head, hhead, rfl⟩ := hread hfirst
    obtain ⟨fields, hfields, rfl⟩ := ih
    exact ⟨head :: fields, .cons hhead hfields, rfl⟩

theorem signatureProjection_reads {values : List Value} {projected : CborValue}
    (h : signatureProjection values = .ok projected) :
    ∃ fields, List.Forall₂ SignatureFields.Read fields values ∧
      projected = listValue SignatureFields.value fields := by
  simp only [signatureProjection, Except.bind_eq_ok, Except.pure_eq, Except.ok.injEq] at h
  obtain ⟨list, hlist, rfl⟩ := h
  obtain ⟨fields, hfields, rfl⟩ := mapM_reads signatureEntryProjection_reads hlist
  exact ⟨fields, hfields, rfl⟩

theorem authorityKeyProjection_reads {record : Map} {name : String} {values : List Value}
    {projected : CborValue} (harray : array record name = .ok values)
    (h : authorityKeyProjection values = .ok projected) :
    ∃ fields, ReadKeys fields record name ∧ projected = listValue KeyFields.value fields := by
  simp only [authorityKeyProjection, Except.bind_eq_ok, Except.pure_eq, Except.ok.injEq] at h
  obtain ⟨list, hlist, rfl⟩ := h
  obtain ⟨fields, hfields, rfl⟩ := mapM_reads keyProjection_reads hlist
  exact ⟨fields, ⟨values, harray, hfields⟩, rfl⟩

theorem deviceProjection_reads {value : Value} {projected : CborValue}
    (h : deviceProjection value = .ok projected) :
    ∃ fields : DeviceFields, fields.Read value ∧ projected = fields.value := by
  simp only [deviceProjection, Except.bind_eq_ok, liftM_eq_ok, Except.pure_eq,
    Except.ok.injEq] at h
  obtain ⟨device, hdevice, endpoint, hendpoint, identity, hidentity, status, hstatus, admitted,
    hadmitted, values, hvalues, proof, hproof, rfl⟩ := h
  obtain ⟨signatures, hsignatures, rfl⟩ := signatureProjection_reads hproof
  refine ⟨⟨endpoint, identity, status, admitted, _, signatures⟩, ⟨device, values, hdevice, rfl,
    hendpoint, hidentity, hstatus, hadmitted, hvalues, hsignatures⟩, ?_⟩
  rw [getD_map]
  rfl

theorem proofSignatures_reads {proof : Map} {name : String} {projected : CborValue}
    (h : proofSignatures proof name = .ok projected) :
    ∃ fields, ReadSignatures fields proof name ∧
      projected = orNull (listValue SignatureFields.value) fields := by
  rw [proofSignatures] at h
  split at h
  · rename_i hnone
    cases h
    exact ⟨none, by simp only [ReadSignatures, hnone], rfl⟩
  · rename_i value hvalue
    simp only [Except.bind_eq_ok, liftM_eq_ok] at h
    obtain ⟨values, hvalues, h⟩ := h
    obtain ⟨fields, hfields, rfl⟩ := signatureProjection_reads h
    refine ⟨some fields, ?_, rfl⟩
    simp only [ReadSignatures, hvalue]
    exact ⟨values, hvalues, hfields⟩

theorem possessionProjection_reads {record : Map} {projected : CborValue}
    (h : possessionProjection record = .ok projected) :
    ∃ fields, ReadPossession fields record ∧ projected = orNull ReplacementProof.value fields := by
  rw [possessionProjection] at h
  split at h
  · rename_i hnone
    cases h
    exact ⟨none, by simp only [ReadPossession, hnone], rfl⟩
  · rename_i value hvalue
    simp only [replacementProofProjection, Except.bind_eq_ok, liftM_eq_ok, Except.pure_eq,
    Except.ok.injEq] at h
    obtain ⟨proof, hproof, management, hmanagement, recovery, hrecovery, rfl⟩ := h
    obtain ⟨managementFields, hreads, rfl⟩ := proofSignatures_reads hmanagement
    obtain ⟨recoveryFields, hreads', rfl⟩ := proofSignatures_reads hrecovery
    refine ⟨some ⟨managementFields, recoveryFields⟩, ?_, rfl⟩
    simp only [ReadPossession, hvalue]
    exact ⟨proof, hproof, hreads, hreads'⟩

theorem authorityStateProjection_reads {state : Value} {record : Map} {projected : CborValue}
    (hstate : members state = .ok record) (h : authorityStateProjection record = .ok projected) :
    ∃ fields : AuthorityFields, fields.Read state ∧ projected = fields.value := by
  simp only [authorityStateProjection, Except.bind_eq_ok, liftM_eq_ok, Except.pure_eq,
    Except.ok.injEq] at h
  obtain ⟨previous, hprevious, possession, hpossession, line, hline, user, huser, epoch, hepoch,
    transition, htransition, managementKeys, hmanagementKeys, management, hmanagement,
    recoveryKeys, hrecoveryKeys, recovery, hrecovery, deviceValues, hdeviceValues, devices,
    hdevices, rfl⟩ := h
  obtain ⟨possession, hproof, rfl⟩ := possessionProjection_reads hpossession
  obtain ⟨management, hkeys, rfl⟩ := authorityKeyProjection_reads hmanagementKeys hmanagement
  obtain ⟨recovery, hkeys', rfl⟩ := authorityKeyProjection_reads hrecoveryKeys hrecovery
  obtain ⟨devices, hroster, rfl⟩ := mapM_reads deviceProjection_reads hdevices
  refine ⟨⟨line, user, epoch, previous, transition, management, recovery, devices, possession⟩,
    ⟨record, deviceValues, hstate, hprevious, hproof, hline, huser, hepoch, htransition, hkeys,
      hkeys', hdeviceValues, hroster⟩, ?_⟩
  rw [getD_map]
  rfl

end Projection

end LicoArc
