import LicoArc.AuthorityPrint
import LicoArc.JsonOrder

/-!
# The form of a user authority record

An ordered record that the validator accepts is the printed form of its fields:
each text but one is fixed by the bytes that it stands for. The reference of a
device is decoded only, so a form keeps its text.
-/

namespace LicoArc

namespace Identity

open Json

/-! ## Forms -/

structure SignatureForm where
  values : SignatureSet
  edPurpose : String
  mlPurpose : String

structure DeviceForm where
  reference : String
  identity : FixedBytes 32
  admitted : Nat
  revoked : Option Nat
  proof : SignatureForm

structure ProofForm where
  management : Option SignatureForm
  recovery : Option SignatureForm

structure AuthorityForm where
  line : FixedBytes 32
  user : FixedBytes 32
  epoch : Nat
  transition : String
  previous : Option (FixedBytes 32)
  management : KeySet
  recovery : KeySet
  devices : List DeviceForm
  possession : Option ProofForm
  signatures : SignatureForm

def SignatureForm.print (form : SignatureForm) : List Value :=
  [.object (printSignature form.edPurpose ed25519ProfileId form.values.edId form.values.ed),
    .object (printSignature form.mlPurpose mlDsa65ProfileId form.values.mlId form.values.ml)]

def DeviceForm.status (form : DeviceForm) : String :=
  if form.revoked.isSome then "revoked" else "active"

def DeviceForm.print (form : DeviceForm) : Map :=
  [("admittedAuthorityEpoch", natural form.admitted), ("deviceStatus", .string form.status),
    ("endpointIdentityRef", .string form.reference),
    ("identityStateDigest", hexText form.identity),
    ("possessionProof", .array form.proof.print)] ++
  form.revoked.toList.map fun epoch => ("revokedAuthorityEpoch", natural epoch)

def ProofForm.print (form : ProofForm) : Map :=
  (form.management.toList.map fun signatures =>
    ("managementSignatures", Value.array signatures.print)) ++
  form.recovery.toList.map fun signatures => ("recoverySignatures", .array signatures.print)

def AuthorityForm.print (form : AuthorityForm) : Map :=
  [("authorityEpoch", natural form.epoch), ("authoritySignatures", .array form.signatures.print),
    ("authorityTransitionKind", .string form.transition),
    ("authorizedDevices", .array (form.devices.map fun device => .object device.print)),
    ("managementSigningKeys", .array (KeySet.print form.management "management"))] ++
  (form.possession.toList.map fun proof => ("possessionProof", .object proof.print)) ++
  (form.previous.toList.map fun digest => ("previousUserAuthorityStateDigest", hexText digest)) ++
  [("protocolLineId", hexText form.line), ("recordType", .string "userAuthorityState"),
    ("recoverySigningKeys", .array (KeySet.print form.recovery "recovery")),
    ("userIdentityRef", hexText form.user)]

/-! ## Valid forms -/

def SignatureForm.Valid (form : SignatureForm) : Prop :=
  form.edPurpose ∈ signaturePurposes ∧ form.mlPurpose ∈ signaturePurposes

structure DeviceForm.Valid (form : DeviceForm) (epoch : Nat) (endpoint : FixedBytes 32) : Prop where
  reference : decodeHexText form.reference = .ok endpoint.toList
  admitted : form.admitted ≤ epoch
  revoked : ∀ revoked ∈ form.revoked, form.admitted ≤ revoked ∧ revoked ≤ epoch
  proof : form.proof.Valid

structure ProofForm.Valid (form : ProofForm) : Prop where
  some : form.management ≠ none ∨ form.recovery ≠ none
  management : ∀ signatures ∈ form.management, signatures.Valid
  recovery : ∀ signatures ∈ form.recovery, signatures.Valid

structure AuthorityForm.Valid (form : AuthorityForm) (endpoints : List (FixedBytes 32)) :
    Prop where
  epoch : form.epoch ≤ maxEpoch
  genesis : form.epoch = 0 ↔ form.transition = "genesis"
  linked : form.epoch = 0 ↔ form.previous = none
  bounded : form.devices ≠ [] ∧ form.devices.length ≤ 16
  devices : List.Forall₂ (fun device endpoint => device.Valid form.epoch endpoint) form.devices
    endpoints
  ascending : endpoints.Pairwise fun a b => a.toList < b.toList
  possession : ∀ proof ∈ form.possession, proof.Valid
  signatures : form.signatures.Valid

/-! ## Printed objects -/

section Printed

variable {size : Nat} {purpose profile : String}

theorem ordered_of_names {entries : Map} {names : List String}
    (hentries : (entries.map Prod.fst).Sublist names) (hnames : names.Pairwise (· < ·))
    (hvalues : ∀ entry ∈ entries, entry.2.Ordered) : (Value.object entries).Ordered :=
  Value.ordered_object.mpr ⟨hnames.sublist hentries, hvalues⟩

theorem names_optional {α : Type} (member : Option α) (name : String) (value : α → Value) :
    ((member.toList.map fun a => (name, value a)).map Prod.fst).Sublist [name] := by
  cases member <;> simp

theorem names_append {first second : Map} {names names' : List String}
    (h : (first.map Prod.fst).Sublist names) (h' : (second.map Prod.fst).Sublist names') :
    ((first ++ second).map Prod.fst).Sublist (names ++ names') := by
  rw [List.map_append]
  exact h.append h'

theorem ordered_text (text : String) : (Value.string text).Ordered := trivial

theorem ordered_natural (n : Nat) : (natural n).Ordered := trivial

theorem ordered_hexText {n : Nat} (v : FixedBytes n) : (hexText v).Ordered := trivial

theorem printKey_ordered (id : FixedBytes 32) (key : FixedBytes size) :
    (Value.object (printKey purpose profile id key)).Ordered := by
  refine ordered_of_names (.refl ["keyId", "keyProfileId", "keyPurpose", "publicKey"])
    (by decide) ?_
  simp [printKey, ordered_text, ordered_hexText]

theorem printSignature_ordered (id : FixedBytes 32) (value : FixedBytes size) :
    (Value.object (printSignature purpose profile id value)).Ordered := by
  refine ordered_of_names
    (.refl ["keyId", "keyProfileId", "signaturePurpose", "signatureValue"]) (by decide) ?_
  simp [printSignature, ordered_text, ordered_hexText]

theorem KeySet.print_ordered (keys : KeySet) (purpose : String) :
    (Value.array (KeySet.print keys purpose)).Ordered := by
  rw [Value.ordered_array, KeySet.print]
  simp [printKey_ordered]

theorem SignatureForm.print_ordered (form : SignatureForm) :
    (Value.array form.print).Ordered := by
  rw [Value.ordered_array, SignatureForm.print]
  simp [printSignature_ordered]

theorem DeviceForm.print_ordered (form : DeviceForm) : (Value.object form.print).Ordered := by
  rw [DeviceForm.print]
  refine ordered_of_names (names_append (.refl ["admittedAuthorityEpoch", "deviceStatus",
    "endpointIdentityRef", "identityStateDigest", "possessionProof"]) (names_optional _ _ _))
    (by decide) ?_
  cases form.revoked <;>
    simp [ordered_text, ordered_natural, ordered_hexText, form.proof.print_ordered]

theorem ProofForm.print_ordered (form : ProofForm) : (Value.object form.print).Ordered := by
  rw [ProofForm.print]
  refine ordered_of_names (names_append (names_optional _ _ _) (names_optional _ _ _))
    (by decide) ?_
  cases form.management <;> cases form.recovery <;> simp [SignatureForm.print_ordered]

theorem AuthorityForm.devices_ordered (form : AuthorityForm) :
    (Value.array (form.devices.map fun device => .object device.print)).Ordered := by
  rw [Value.ordered_array]
  simp only [List.forall_mem_map]
  exact fun device _ => device.print_ordered

theorem AuthorityForm.print_ordered (form : AuthorityForm) :
    (Value.object form.print).Ordered := by
  have hdevices := form.devices_ordered
  rw [AuthorityForm.print]
  refine ordered_of_names (names_append (names_append (names_append
    (.refl ["authorityEpoch", "authoritySignatures", "authorityTransitionKind",
      "authorizedDevices", "managementSigningKeys"]) (names_optional _ _ _)) (names_optional _ _ _))
    (.refl ["protocolLineId", "recordType", "recoverySigningKeys", "userIdentityRef"]))
    (by decide) ?_
  cases form.possession <;> cases form.previous <;>
    simp [ordered_text, ordered_natural, ordered_hexText, hdevices, KeySet.print_ordered,
      SignatureForm.print_ordered, ProofForm.print_ordered]

end Printed

section Members

variable {object other : Map} {allowed required : List String}

/-- Ordered objects that agree under every allowed name are the same. -/
theorem eq_of_closed (hclosed : closed object allowed required = .ok ())
    (hobject : (Value.object object).Ordered) (hother : (Value.object other).Ordered)
    (hnames : ∀ entry ∈ other, entry.1 ∈ allowed)
    (hget : ∀ key ∈ allowed, object.get key = other.get key) : object = other := by
  refine Map.ext_of_get (Value.ordered_object.mp hobject).1 (Value.ordered_object.mp hother).1
    fun key => ?_
  by_cases hkey : key ∈ allowed
  · exact hget key hkey
  · rw [get_eq_none hclosed hkey]
    cases hvalue : other.get key with
    | none => rfl
    | some value => exact absurd (hnames _ (Map.mem_of_get hvalue)) hkey

theorem Map.ordered_of_get {key : String} {value : Value} (h : (Value.object object).Ordered)
    (hget : object.get key = some value) : value.Ordered :=
  (Value.ordered_object.mp h).2 _ (Map.mem_of_get hget)

theorem ordered_items {values : List Value} (h : (Value.array values).Ordered) {value : Value}
    (hvalue : value ∈ values) : value.Ordered :=
  Value.ordered_array.mp h value hvalue

theorem AuthorityKey.form {purpose profile : String} {size : Nat} {key : Map}
    (h : AuthorityKey purpose profile size key) (hordered : (Value.object key).Ordered) :
    ∃ id, ∃ v : FixedBytes size, key = printKey purpose profile id v := by
  obtain ⟨id, hid⟩ := h.keyId
  obtain ⟨v, hv⟩ := h.publicKey
  refine ⟨id, v, eq_of_closed h.closed hordered (printKey_ordered id v) (by simp [printKey]) ?_⟩
  simp only [List.forall_mem_cons, List.not_mem_nil, false_implies, implies_true, and_true]
  exact ⟨hid, h.purpose, h.profile, hv⟩

theorem Signature.form {profile : String} {size : Nat} {signature : Map}
    (h : Signature profile size signature) (hordered : (Value.object signature).Ordered) :
    ∃ purpose ∈ signaturePurposes, ∃ id, ∃ v : FixedBytes size,
      signature = printSignature purpose profile id v := by
  obtain ⟨purpose, hmem, hpurpose⟩ := h.purpose
  obtain ⟨id, hid⟩ := h.keyId
  obtain ⟨v, hv⟩ := h.value
  refine ⟨purpose, hmem, id, v,
    eq_of_closed h.closed hordered (printSignature_ordered id v) (by simp [printSignature]) ?_⟩
  simp only [List.forall_mem_cons, List.not_mem_nil, false_implies, implies_true, and_true]
  exact ⟨h.profile, hid, hpurpose, hv⟩

theorem KeySet.form {keys : List Value} {purpose : String}
    (h : validateAuthorityKeys keys purpose = .ok ()) (hordered : (Value.array keys).Ordered) :
    ∃ form : KeySet, keys = KeySet.print form purpose := by
  obtain ⟨ed, ml, rfl, hed, hml, hne⟩ := validateAuthorityKeys_eq_ok.mp h
  obtain ⟨edId, edKey, rfl⟩ := hed.form (ordered_items hordered List.mem_cons_self)
  obtain ⟨mlId, mlKey, rfl⟩ := hml.form (ordered_items hordered (by simp))
  have hids : edId ≠ mlId := by
    rintro rfl
    exact hne rfl
  exact ⟨⟨edId, mlId, edKey, mlKey, hids⟩, rfl⟩

theorem SignatureForm.valid {form : SignatureForm} (h : form.Valid) :
    validateSignatureArray form.print = .ok () := by
  refine validateSignatureArray_eq_ok.mpr ⟨_, _, rfl, ?_, ?_, ?_⟩
  · exact ⟨rfl, ⟨_, h.1, rfl⟩, rfl, ⟨form.values.edId, rfl⟩, form.values.ed, rfl⟩
  · exact ⟨rfl, ⟨_, h.2, rfl⟩, rfl, ⟨form.values.mlId, rfl⟩, form.values.ml, rfl⟩
  · intro heq
    injection (Option.some.inj heq) with heq
    exact form.values.distinct (hexBytes_injective heq)

theorem SignatureForm.of_valid {signatures : List Value}
    (h : validateSignatureArray signatures = .ok ()) (hordered : (Value.array signatures).Ordered) :
    ∃ form : SignatureForm, form.Valid ∧ signatures = form.print := by
  obtain ⟨ed, ml, rfl, hed, hml, hne⟩ := validateSignatureArray_eq_ok.mp h
  obtain ⟨edPurpose, hedPurpose, edId, edValue, rfl⟩ :=
    hed.form (ordered_items hordered List.mem_cons_self)
  obtain ⟨mlPurpose, hmlPurpose, mlId, mlValue, rfl⟩ := hml.form (ordered_items hordered (by simp))
  have hids : edId ≠ mlId := by
    rintro rfl
    exact hne rfl
  exact ⟨⟨⟨edId, mlId, edValue, mlValue, hids⟩, edPurpose, mlPurpose⟩,
    ⟨hedPurpose, hmlPurpose⟩, rfl⟩

theorem natural_of_unsigned {key : String} {n : Nat} (h : unsigned object key = .ok n) :
    object.get key = some (natural n) ∧ n ≤ maxEpoch := by
  obtain ⟨hvalue, hle⟩ := unsigned_eq_ok.mp h
  refine ⟨?_, hle⟩
  obtain ⟨value, hget, hu64⟩ := Option.bind_eq_some_iff.mp hvalue
  rw [hget]
  cases value with
  | number number =>
    cases number with
    | integer i =>
      rw [Value.asU64] at hu64
      split at hu64
      · rename_i hbounds
        rw [← Option.some.inj hu64, natural, Int.toNat_of_nonneg hbounds.1]
      · cases hu64
    | float => cases hu64
  | _ => cases hu64

end Members

section Devices

variable {epoch : Nat} {item : Map} {endpoint : FixedBytes 32}

theorem DeviceForm.get_revoked (form : DeviceForm) :
    form.print.get "revokedAuthorityEpoch" = form.revoked.map natural := by
  rw [DeviceForm.print]
  cases form.revoked <;> rfl

theorem DeviceForm.names (form : DeviceForm) : ∀ entry ∈ form.print, entry.1 ∈ deviceMembers := by
  rw [DeviceForm.print]
  cases form.revoked <;> simp [deviceMembers]

theorem DeviceForm.status_valid {form : DeviceForm} (hepoch : epoch ≤ maxEpoch)
    (hrevoked : ∀ revoked ∈ form.revoked, form.admitted ≤ revoked ∧ revoked ≤ epoch) :
    validateDeviceStatus form.print epoch form.admitted = .ok () := by
  have hget := form.get_revoked
  simp only [validateDeviceStatus, Except.bind_eq_ok, text_eq_ok]
  refine ⟨form.status, rfl, ?_⟩
  rw [Map.containsKey, hget, DeviceForm.status]
  cases hcase : form.revoked with
  | none => rfl
  | some revoked =>
    obtain ⟨hlower, hupper⟩ := hrevoked revoked hcase
    rw [hcase] at hget
    simp only [Option.isSome_some, if_true, Option.map_some, not_true_eq_false, and_false, if_false,
      and_self, unsigned_natural (hupper.trans hepoch) hget, Except.ok_bind]
    exact reject_of_not _ (by omega)

theorem DeviceForm.valid {form : DeviceForm} (hepoch : epoch ≤ maxEpoch)
    (h : form.Valid epoch endpoint) :
    DeviceRecord epoch form.print endpoint where
  closed := by
    rw [closed_eq_ok]
    refine ⟨form.names, ?_⟩
    simp only [requiredDeviceMembers, List.forall_mem_cons, List.not_mem_nil, false_implies,
      implies_true, and_true]
    exact ⟨rfl, rfl, rfl, rfl, rfl⟩
  endpoint := decodedHex_eq_ok.mpr ⟨form.reference, rfl, h.reference⟩
  identity := ⟨form.identity, rfl⟩
  admitted := ⟨form.admitted, h.admitted, unsigned_natural (h.admitted.trans hepoch) rfl,
    form.status_valid hepoch h.revoked⟩
  proof := ⟨_, rfl, SignatureForm.valid h.proof⟩

theorem revoked_of_status {admitted : Nat}
    (h : validateDeviceStatus item epoch admitted = .ok ()) :
    ∃ revoked : Option Nat, item.get "deviceStatus" =
        some (.string (if revoked.isSome then "revoked" else "active")) ∧
      item.get "revokedAuthorityEpoch" = revoked.map natural ∧
      ∀ e ∈ revoked, admitted ≤ e ∧ e ≤ epoch := by
  simp only [validateDeviceStatus, Except.bind_eq_ok, text_eq_ok] at h
  obtain ⟨status, hstatus, h⟩ := h
  split at h
  · rename_i hactive
    obtain ⟨rfl, habsent⟩ := hactive
    rw [Map.containsKey, Bool.not_eq_true, Option.isSome_eq_false_iff, Option.isNone_iff_eq_none]
      at habsent
    exact ⟨none, hstatus, habsent, nofun⟩
  · split at h
    · rename_i hrevoked
      obtain ⟨rfl, _⟩ := hrevoked
      rw [Except.bind_eq_ok] at h
      obtain ⟨revoked, hread, h⟩ := h
      rw [reject_eq_ok] at h
      refine ⟨some revoked, hstatus, (natural_of_unsigned hread).1, fun e he => ?_⟩
      cases he
      omega
    · cases h

theorem DeviceRecord.form (h : DeviceRecord epoch item endpoint)
    (hordered : (Value.object item).Ordered) :
    ∃ form : DeviceForm, form.Valid epoch endpoint ∧ item = form.print := by
  obtain ⟨reference, hreference, hdecoded⟩ := decodedHex_eq_ok.mp h.endpoint
  obtain ⟨identity, hidentity⟩ := h.identity
  obtain ⟨admitted, hle, hadmitted, hstatus⟩ := h.admitted
  obtain ⟨proof, hproof, hsignatures⟩ := h.proof
  obtain ⟨revoked, hget, hrevoked, hepochs⟩ := revoked_of_status hstatus
  obtain ⟨signatures, hvalid, rfl⟩ :=
    SignatureForm.of_valid hsignatures (Map.ordered_of_get hordered hproof)
  let form : DeviceForm := ⟨reference, identity, admitted, revoked, signatures⟩
  refine ⟨form, ⟨hdecoded, hle, hepochs, hvalid⟩,
    eq_of_closed h.closed hordered form.print_ordered form.names ?_⟩
  simp only [deviceMembers, List.forall_mem_cons, List.not_mem_nil, false_implies, implies_true,
    and_true]
  exact ⟨hreference, hidentity, hget, (natural_of_unsigned hadmitted).1,
    hrevoked.trans form.get_revoked.symm, hproof⟩

theorem Roster.forms {entries : List (FixedBytes 32 × Map)} (h : Roster epoch entries)
    (hordered : (Value.array (devices entries)).Ordered) :
    ∃ forms : List DeviceForm,
      List.Forall₂ (fun form endpoint => form.Valid epoch endpoint) forms (entries.map Prod.fst) ∧
      devices entries = forms.map fun form => .object form.print := by
  have hvalid := h.valid
  clear h
  induction entries with
  | nil => exact ⟨[], .nil, rfl⟩
  | cons entry entries ih =>
    obtain ⟨hentry, hentries⟩ := List.forall_mem_cons.mp hvalid
    rw [devices, List.map_cons, Value.ordered_array, List.forall_mem_cons] at hordered
    obtain ⟨form, hform, hitem⟩ := hentry.form hordered.1
    obtain ⟨forms, hforms, hdevices⟩ := ih (Value.ordered_array.mpr hordered.2) hentries
    refine ⟨form :: forms, .cons hform hforms, ?_⟩
    rw [List.map_cons, ← hdevices, ← hitem]
    rfl

end Devices

section Proofs

variable {record : Map}

theorem ProofForm.get_management (form : ProofForm) : form.print.get "managementSignatures" =
    form.management.map fun signatures => .array signatures.print := by
  rw [ProofForm.print]
  cases form.management <;> cases form.recovery <;> rfl

theorem ProofForm.get_recovery (form : ProofForm) : form.print.get "recoverySignatures" =
    form.recovery.map fun signatures => .array signatures.print := by
  rw [ProofForm.print]
  cases form.management <;> cases form.recovery <;> rfl

theorem ProofForm.names (form : ProofForm) :
    ∀ entry ∈ form.print, entry.1 ∈ ["managementSignatures", "recoverySignatures"] := by
  rw [ProofForm.print]
  cases form.management <;> cases form.recovery <;> simp

theorem validateProofSignatures_print {proof : Map} {field : String}
    {member : Option SignatureForm}
    (hget : proof.get field = member.map fun form => .array form.print)
    (h : ∀ form ∈ member, form.Valid) : validateProofSignatures proof field = .ok () := by
  rw [validateProofSignatures, hget]
  cases member with
  | none => rfl
  | some form => exact SignatureForm.valid (h form rfl)

theorem validateProofSignatures_form {proof : Map} {field : String}
    (h : validateProofSignatures proof field = .ok ()) (hordered : (Value.object proof).Ordered) :
    ∃ member : Option SignatureForm, (∀ form ∈ member, form.Valid) ∧
      proof.get field = member.map fun form => .array form.print := by
  rw [validateProofSignatures] at h
  cases hget : proof.get field with
  | none => exact ⟨none, (by rintro _ ⟨⟩), rfl⟩
  | some value =>
    rw [hget] at h
    simp only [Except.bind_eq_ok, items_eq_ok] at h
    obtain ⟨values, rfl, hvalid⟩ := h
    obtain ⟨form, hform, rfl⟩ := SignatureForm.of_valid hvalid (Map.ordered_of_get hordered hget)
    refine ⟨some form, ?_, rfl⟩
    rintro _ ⟨⟩
    exact hform

theorem ProofForm.ne_nil {form : ProofForm} (h : form.Valid) : form.print ≠ [] := by
  intro hnil
  have hmanagement := form.get_management
  have hrecovery := form.get_recovery
  rw [hnil] at hmanagement hrecovery
  rcases h.some with hsome | hsome
  · exact hsome (Option.map_eq_none_iff.mp hmanagement.symm)
  · exact hsome (Option.map_eq_none_iff.mp hrecovery.symm)

theorem validateReplacementProof_print {possession : Option ProofForm}
    (hget : record.get "possessionProof" = possession.map fun proof => .object proof.print)
    (h : ∀ proof ∈ possession, proof.Valid) : validateReplacementProof record = .ok () := by
  rw [validateReplacementProof, hget]
  cases possession with
  | none => rfl
  | some proof =>
    have hproof := h proof rfl
    simp only [Option.map_some, Except.bind_eq_ok, members_eq_ok, reject_eq_ok, Except.forM_eq_ok]
    refine ⟨_, rfl, (), closed_eq_ok.mpr ⟨proof.names, (by rintro _ ⟨⟩)⟩, (),
      ProofForm.ne_nil hproof, ?_⟩
    simp only [List.forall_mem_cons, List.not_mem_nil, false_implies, implies_true, and_true]
    exact ⟨validateProofSignatures_print proof.get_management hproof.management,
      validateProofSignatures_print proof.get_recovery hproof.recovery⟩

theorem validateReplacementProof_form (h : validateReplacementProof record = .ok ())
    (hordered : (Value.object record).Ordered) :
    ∃ possession : Option ProofForm, (∀ proof ∈ possession, proof.Valid) ∧
      record.get "possessionProof" = possession.map fun proof => .object proof.print := by
  rw [validateReplacementProof] at h
  cases hget : record.get "possessionProof" with
  | none => exact ⟨none, (by rintro _ ⟨⟩), rfl⟩
  | some value =>
    rw [hget] at h
    simp only [Except.bind_eq_ok, members_eq_ok, reject_eq_ok, Except.forM_eq_ok,
      List.forall_mem_cons, List.not_mem_nil, false_implies, implies_true, and_true] at h
    obtain ⟨proof, rfl, _, hclosed, _, hne, hmanagement, hrecovery⟩ := h
    have hproof := Map.ordered_of_get hordered hget
    obtain ⟨management, hvalid, hget⟩ := validateProofSignatures_form hmanagement hproof
    obtain ⟨recovery, hvalid', hget'⟩ := validateProofSignatures_form hrecovery hproof
    let form : ProofForm := ⟨management, recovery⟩
    have hform : proof = form.print := by
      refine eq_of_closed hclosed hproof form.print_ordered form.names ?_
      simp only [List.forall_mem_cons, List.not_mem_nil, false_implies, implies_true, and_true]
      exact ⟨hget.trans form.get_management.symm, hget'.trans form.get_recovery.symm⟩
    have hsome : management ≠ none ∨ recovery ≠ none := by
      by_contra hnone
      rw [not_or, not_not, not_not] at hnone
      obtain ⟨rfl, rfl⟩ := hnone
      exact hne hform
    refine ⟨some form, ?_, by rw [hform]; rfl⟩
    rintro _ ⟨⟩
    exact ⟨hsome, hvalid, hvalid'⟩

end Proofs

section Records

variable {record : Map} {endpoints : List (FixedBytes 32)}

structure AuthorityForm.Members (form : AuthorityForm) : Prop where
  line : form.print.get "protocolLineId" = some (hexText form.line)
  user : form.print.get "userIdentityRef" = some (hexText form.user)
  previous : form.print.get "previousUserAuthorityStateDigest" = form.previous.map hexText
  possession : form.print.get "possessionProof" =
    form.possession.map fun proof => .object proof.print
  recordType : form.print.get "recordType" = some (.string "userAuthorityState")
  recovery : form.print.get "recoverySigningKeys" =
    some (.array (KeySet.print form.recovery "recovery"))
  names : ∀ entry ∈ form.print, entry.1 ∈ authorityMembers

theorem AuthorityForm.members (form : AuthorityForm) : form.Members := by
  constructor <;> rw [AuthorityForm.print] <;>
    cases form.possession <;> cases form.previous <;> first | rfl | simp [authorityMembers]

theorem Roster.of_forms {epoch : Nat} (hepoch : epoch ≤ maxEpoch) {forms : List DeviceForm}
    (h : List.Forall₂ (fun form endpoint => form.Valid epoch endpoint) forms endpoints)
    (hascending : endpoints.Pairwise fun a b => a.toList < b.toList) :
    ∃ entries, Roster epoch entries ∧ entries.length = forms.length ∧
      entries.map Prod.fst = endpoints ∧
      devices entries = forms.map fun form => .object form.print := by
  induction h with
  | nil => exact ⟨[], ⟨nofun, .nil⟩, rfl, rfl, rfl⟩
  | @cons form endpoint forms endpoints hform _ ih =>
    obtain ⟨hfirst, hrest⟩ := List.pairwise_cons.mp hascending
    obtain ⟨entries, hroster, hlength, rfl, hdevices⟩ := ih hrest
    refine ⟨(endpoint, form.print) :: entries, ⟨?_, ?_⟩, congrArg Nat.succ hlength, rfl, ?_⟩
    · exact List.forall_mem_cons.mpr ⟨DeviceForm.valid hepoch hform, hroster.valid⟩
    · exact List.pairwise_cons.mpr
        ⟨fun entry hentry => hfirst _ (List.mem_map_of_mem hentry), hroster.ascending⟩
    · rw [List.map_cons, ← hdevices]
      rfl

theorem AuthorityForm.valid {form : AuthorityForm} (h : form.Valid endpoints) :
    validateUserAuthorityRecord form.print = .ok () := by
  obtain ⟨entries, hroster, hlength, _, hdevices⟩ :=
    Roster.of_forms h.epoch h.devices h.ascending
  have hmembers := form.members
  refine validateUserAuthorityRecord_eq_ok.mpr ⟨⟨form.line, form.user, form.epoch, form.transition,
    KeySet.print form.management "management", KeySet.print form.recovery "recovery", entries,
    form.signatures.print, ?_, hmembers.line, hmembers.user, unsigned_natural h.epoch rfl, rfl,
    h.genesis, ?_, ?_, rfl, KeySet.valid _ _, hmembers.recovery, KeySet.valid _ _, ?_, ?_, hroster,
    validateReplacementProof_print hmembers.possession h.possession, rfl,
    SignatureForm.valid h.signatures⟩⟩
  · rw [closed_eq_ok]
    refine ⟨hmembers.names, ?_⟩
    simp only [requiredAuthorityMembers, List.forall_mem_cons, List.not_mem_nil, false_implies,
      implies_true, and_true, hmembers.line, hmembers.user, hmembers.recovery, Option.isSome_some,
      true_and]
    exact ⟨rfl, rfl, rfl, rfl, rfl⟩
  · rw [hmembers.previous, Option.map_eq_none_iff]
    exact h.linked
  · rw [hmembers.previous]
    intro value hvalue
    obtain ⟨digest, _, rfl⟩ := Option.map_eq_some_iff.mp hvalue
    exact ⟨digest, rfl⟩
  · rw [hdevices]
    rfl
  · have hbounded := h.bounded
    rw [ne_eq, ← List.length_eq_zero_iff] at hbounded ⊢
    omega

/-- An accepted record of ordered objects is the printed form of its fields. -/
theorem AuthorityRecord.form (r : AuthorityRecord record)
    (hordered : (Value.object record).Ordered)
    (htype : record.get "recordType" = some (.string "userAuthorityState")) :
    ∃ form : AuthorityForm, form.Valid (r.entries.map Prod.fst) ∧ record = form.print := by
  have harray := Map.ordered_of_get hordered r.get_devices
  obtain ⟨forms, hforms, hdevices⟩ := r.roster.forms harray
  obtain ⟨management, hmanagement⟩ :=
    KeySet.form r.management_keys (Map.ordered_of_get hordered r.get_management)
  obtain ⟨recovery, hrecovery⟩ :=
    KeySet.form r.recovery_keys (Map.ordered_of_get hordered r.get_recovery)
  obtain ⟨signatures, hsigned, hsignatures⟩ :=
    SignatureForm.of_valid r.signed (Map.ordered_of_get hordered r.get_signatures)
  obtain ⟨possession, hvalid, hpossession⟩ := validateReplacementProof_form r.proof hordered
  obtain ⟨hepoch, hle⟩ := natural_of_unsigned r.get_epoch
  obtain ⟨previous, hprevious⟩ : ∃ previous : Option (FixedBytes 32),
      record.get "previousUserAuthorityStateDigest" = previous.map hexText := by
    cases hget : record.get "previousUserAuthorityStateDigest" with
    | none => exact ⟨none, rfl⟩
    | some value =>
      obtain ⟨digest, rfl⟩ := r.previous value hget
      exact ⟨some digest, rfl⟩
  let form : AuthorityForm := ⟨r.line, r.user, r.epoch, r.transition, previous, management,
    recovery, forms, possession, signatures⟩
  have hlength : forms.length = r.entries.length := by
    rw [hforms.length_eq, List.length_map]
  have hmembers := form.members
  refine ⟨form, ⟨hle, r.genesis, ?_, ?_, hforms, ?_, hvalid, hsigned⟩,
    eq_of_closed r.closed hordered form.print_ordered hmembers.names ?_⟩
  · rw [r.linked, hprevious, Option.map_eq_none_iff]
  · have hbounded := r.bounded
    rw [ne_eq, ← List.length_eq_zero_iff] at hbounded ⊢
    change ¬forms.length = 0 ∧ forms.length ≤ 16
    omega
  · rw [List.pairwise_map]
    exact r.roster.ascending
  · simp only [authorityMembers, List.forall_mem_cons, List.not_mem_nil, false_implies,
      implies_true, and_true]
    refine ⟨htype.trans hmembers.recordType.symm, r.get_line.trans hmembers.line.symm,
      r.get_user.trans hmembers.user.symm, hepoch, hprevious.trans hmembers.previous.symm,
      r.get_transition, ?_, ?_, ?_, hpossession.trans hmembers.possession.symm, ?_⟩
    · rw [r.get_management, hmanagement]
      rfl
    · rw [r.get_recovery, hrecovery]
      exact hmembers.recovery.symm
    · rw [r.get_devices, hdevices]
      rfl
    · rw [r.get_signatures, hsignatures]
      rfl

end Records

end Identity

end LicoArc
