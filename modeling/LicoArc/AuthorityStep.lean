import LicoArc.AuthorityRecord
import LicoArc.Membership

/-!
# One accepted user authority state

What `validate_user_authority_state` has established when it succeeds: the dual
signature over the state, the link to its predecessor, the possession proofs of
changed key sets, and for every endpoint the move of its roster entry.
-/

namespace LicoArc

namespace Identity

open Json

section Signatures

variable (provider : Provider)

def VerifiedEd25519 (key signature : Map) (message : Bytes) : Prop :=
  ∃ (publicKey : FixedBytes 32) (value : FixedBytes 64),
    decodedHex 32 key "publicKey" = .ok publicKey ∧
    decodedHex 64 signature "signatureValue" = .ok value ∧
    provider.ed25519VerifyStrict publicKey message value = .ok ()

def VerifiedMlDsa65 (key signature : Map) (message : Bytes) : Prop :=
  ∃ (publicText valueText : String) (publicKey value : Bytes),
    text key "publicKey" = .ok publicText ∧ decodeHexText publicText = .ok publicKey ∧
    text signature "signatureValue" = .ok valueText ∧ decodeHexText valueText = .ok value ∧
    provider.mlDsa65Verify publicKey message value = .ok ()

/-- Both verifications, under the two keys of a set. -/
def DualVerified (keys signatures : List Value) (message : Bytes) : Prop :=
  ∃ edKey mlKey edSignature mlSignature : Map,
    keys = [.object edKey, .object mlKey] ∧
    signatures = [.object edSignature, .object mlSignature] ∧
    edKey.get "keyId" = edSignature.get "keyId" ∧ mlKey.get "keyId" = mlSignature.get "keyId" ∧
    edKey.get "keyId" ≠ mlKey.get "keyId" ∧
    VerifiedEd25519 provider edKey edSignature message ∧
    VerifiedMlDsa65 provider mlKey mlSignature message

variable {provider} {edKey mlKey signature : Map} {purpose : String} {message : Bytes}

theorem get_bind_asStr {key : Map} {name value : String} :
    ((key.get name).bind Value.asStr == some value) = true ↔
      key.get name = some (.string value) := by
  rw [beq_iff_eq, Option.bind_eq_some_iff]
  simp [Value.asStr_eq_some]

theorem findKey_eq_some {keys : List Value} {id profile : String} {key : Map}
    (h : findKey keys id profile = some key) :
    .object key ∈ keys ∧ key.get "keyId" = some (.string id) ∧
      key.get "keyProfileId" = some (.string profile) := by
  have hkey := List.find?_some h
  rw [Bool.and_eq_true, get_bind_asStr, get_bind_asStr] at hkey
  obtain ⟨value, hvalue, hobject⟩ := List.mem_filterMap.mp (List.mem_of_find?_eq_some h)
  rw [Value.asObject_eq_some] at hobject
  exact ⟨hobject ▸ hvalue, hkey⟩

theorem verifySignature_eq_ok {keys : List Value} {u : Unit}
    (h : verifySignature provider keys purpose message (.object signature) = .ok u) :
    ∃ (key : Map) (id profile : String), .object key ∈ keys ∧
      key.get "keyId" = some (.string id) ∧ signature.get "keyId" = some (.string id) ∧
      key.get "keyProfileId" = some (.string profile) ∧
      signature.get "keyProfileId" = some (.string profile) ∧
      (profile = ed25519ProfileId → VerifiedEd25519 provider key signature message) ∧
      (profile = mlDsa65ProfileId → VerifiedMlDsa65 provider key signature message) := by
  simp only [verifySignature, Except.bind_eq_ok, liftM_eq_ok, members_eq_ok, text_eq_ok,
    okOr_eq_ok] at h
  obtain ⟨_, heq, _, _, id, hid, profile, hprofile, key, hfind, publicText, hpublicText, publicKey,
    hpublicKey, valueText, hvalueText, value, hvalue, h⟩ := h
  cases heq
  obtain ⟨hmem, hkeyId, hkeyProfile⟩ := findKey_eq_some hfind
  refine ⟨key, id, profile, hmem, hkeyId, hid, hkeyProfile, hprofile, ?_, ?_⟩
  · rintro rfl
    rw [if_pos rfl] at h
    simp only [Except.bind_eq_ok, okOr_eq_ok, FixedBytes.ofBytes?_eq_some,
      Except.mapError_eq_ok] at h
    obtain ⟨edPublic, rfl, edValue, rfl, hverify⟩ := h
    exact ⟨edPublic, edValue, decodedHex_eq_ok.mpr ⟨_, hpublicText, hpublicKey⟩,
      decodedHex_eq_ok.mpr ⟨_, hvalueText, hvalue⟩, hverify⟩
  · rintro rfl
    rw [if_neg profiles_ne.symm, if_pos rfl, Except.mapError_eq_ok] at h
    exact ⟨publicText, valueText, publicKey, value, text_eq_ok.mpr hpublicText, hpublicKey,
      text_eq_ok.mpr hvalueText, hvalue, h⟩

/-- Two objects of the two profiles, in this order. -/
def ProfilePair (values : List Value) : Prop :=
  ∃ ed ml : Map, values = [.object ed, .object ml] ∧
    ed.get "keyProfileId" = some (.string ed25519ProfileId) ∧
    ml.get "keyProfileId" = some (.string mlDsa65ProfileId)

theorem profilePair_of_keys {keys : List Value} (h : validateAuthorityKeys keys purpose = .ok ()) :
    ProfilePair keys := by
  obtain ⟨ed, ml, rfl, hed, hml, _⟩ := validateAuthorityKeys_eq_ok.mp h
  exact ⟨ed, ml, rfl, hed.profile, hml.profile⟩

theorem profilePair_endpointKeyValues (keys : EndpointStateKeys) :
    ProfilePair (endpointKeyValues keys) := ⟨_, _, rfl, rfl, rfl⟩

/-- The loop pairs each signature with the key of its own profile: it is the order of profiles in
the two arrays that rules out two verifications of one algorithm. -/
theorem verifySignaturePair_eq_ok {keys signatures : List Value} {u : Unit}
    (hkeys : ProfilePair keys) (hsignatures : validateSignatureArray signatures = .ok ())
    (h : verifySignaturePair provider signatures keys purpose message = .ok u) :
    DualVerified provider keys signatures message := by
  obtain ⟨edKey, mlKey, rfl, hedKey, hmlKey⟩ := hkeys
  obtain ⟨edSignature, mlSignature, rfl, hed, hml, hdistinct⟩ :=
    validateSignatureArray_eq_ok.mp hsignatures
  rw [verifySignaturePair, Except.bind_eq_ok] at h
  obtain ⟨_, _, hloop⟩ := h
  rw [Except.forM_eq_ok] at hloop
  obtain ⟨key, id, profile, hmem, hkeyId, hid, hkeyProfile, hprofile, hverified, _⟩ :=
    verifySignature_eq_ok (hloop (.object edSignature) (by simp))
  obtain ⟨key', id', profile', hmem', hkeyId', hid', hkeyProfile', hprofile', _, hverified'⟩ :=
    verifySignature_eq_ok (hloop (.object mlSignature) (by simp))
  obtain rfl := text_unique hed.profile hprofile
  obtain rfl := text_unique hml.profile hprofile'
  have hkey : key = edKey := by
    simp only [List.mem_cons, Value.object.injEq, List.not_mem_nil, or_false] at hmem
    rcases hmem with rfl | rfl
    · rfl
    · exact absurd (text_unique hkeyProfile hmlKey) profiles_ne
  have hkey' : key' = mlKey := by
    simp only [List.mem_cons, Value.object.injEq, List.not_mem_nil, or_false] at hmem'
    rcases hmem' with rfl | rfl
    · exact absurd (text_unique hedKey hkeyProfile') profiles_ne
    · rfl
  subst hkey hkey'
  refine ⟨key, key', edSignature, mlSignature, rfl, rfl, hkeyId.trans hid.symm,
    hkeyId'.trans hid'.symm, ?_, hverified rfl, hverified' rfl⟩
  rwa [hkeyId, ← hid, hkeyId', ← hid']

end Signatures

section Step

variable (formatFinite : Rat → String) (provider : Provider)

/-- The dual signature over a state, under a key set of the record that authorises it. -/
def AuthorizedBy (authority : Map) (keySet : String) (record : Map) : Prop :=
  ∃ keys signatures message, array authority keySet = .ok keys ∧
    array record "authoritySignatures" = .ok signatures ∧
    authoritySignatureInput formatFinite provider (.object record) = .ok message ∧
    DualVerified provider keys signatures message

/-- The dual possession signature of a key set of a record by the keys of that set. -/
def KeysPossessed (record : Map) (field keySet : String) : Prop :=
  ∃ (proof : Map) (signatures keys : List Value) (message : Bytes),
    record.get "possessionProof" = some (.object proof) ∧
    array proof field = .ok signatures ∧ array record keySet = .ok keys ∧
    replacementPossessionInput (.object record) = .ok message ∧
    DualVerified provider keys signatures message

def Possessed (record : Map) (endpointStates : List EndpointStateKeys)
    (endpoint : FixedBytes 32) (item : Map) : Prop :=
  ∃ keys ∈ endpointStates, keys.endpointIdentityRef = endpoint ∧
    decodedHex 32 item "identityStateDigest" = .ok keys.identityStateDigest ∧
    ∃ proof message, array item "possessionProof" = .ok proof ∧
      devicePossessionInput (.object record) (.object item) = .ok message ∧
      DualVerified provider (endpointKeyValues keys) proof message

structure Continues (previous next : Map) : Prop where
  user : next.get "userIdentityRef" = previous.get "userIdentityRef"
  line : next.get "protocolLineId" = previous.get "protocolLineId"
  epoch : ∃ epoch, unsigned previous "authorityEpoch" = .ok epoch ∧
    unsigned next "authorityEpoch" = .ok (epoch + 1)
  digest : ∃ digest, userAuthorityStateDigest formatFinite provider (.object previous) =
    .ok digest ∧
    text next "previousUserAuthorityStateDigest" = .ok (hexBytes digest.toList)
  authorized : text next "authorityTransitionKind" = .ok "management" ∧
      next.get "recoverySigningKeys" = previous.get "recoverySigningKeys" ∧
      AuthorizedBy formatFinite provider previous "managementSigningKeys" next ∨
    text next "authorityTransitionKind" = .ok "recovery" ∧
      AuthorizedBy formatFinite provider previous "recoverySigningKeys" next
  management : next.get "managementSigningKeys" ≠ previous.get "managementSigningKeys" →
    KeysPossessed provider next "managementSignatures" "managementSigningKeys"
  recovery : next.get "recoverySigningKeys" ≠ previous.get "recoverySigningKeys" →
    KeysPossessed provider next "recoverySignatures" "recoverySigningKeys"

variable {formatFinite provider} {state : Value} {record : Map}

theorem userAuthorityStateDigest_record {digest : FixedBytes 32}
    (h : userAuthorityStateDigest formatFinite provider state = .ok digest) :
    ∃ record : Map, state = .object record ∧ Nonempty (AuthorityRecord record) := by
  simp only [userAuthorityStateDigest, Except.bind_eq_ok, liftM_eq_ok, members_eq_ok] at h
  obtain ⟨_, hvalid, record, rfl, _, hprojection, _⟩ := h
  simp only [authorityStateProjection, Except.bind_eq_ok] at hprojection
  obtain ⟨_, _, _, _, _, _, user, huser, _⟩ := hprojection
  obtain ⟨_, hget, _⟩ := decodedHex_eq_ok.mp huser
  exact ⟨record, rfl, (validateDefinitionRecord_eq_ok hvalid (by rw [hget]; rintro ⟨⟩)).2⟩

theorem admitDevice_eq_ok {epoch : Nat} {genesis : Bool} {priorDevices : List Value}
    {endpointStates : List EndpointStateKeys} {item : Map} {endpoint digest : FixedBytes 32}
    {u : Unit} (hitem : DeviceRecord epoch item endpoint)
    (hdigest : decodedHex 32 item "identityStateDigest" = .ok digest)
    (h : admitDevice provider (.object record) epoch genesis priorDevices endpointStates
      (.object item) item endpoint digest = .ok u) :
    unchangedDevice priorDevices item ∨
      Possessed provider record endpointStates endpoint item ∧
      (genesis = true → item.get "deviceStatus" = some (.string "active") ∧
        (item.get "admittedAuthorityEpoch").bind Value.asU64 = some epoch) := by
  rw [admitDevice] at h
  split at h
  · exact .inl ‹_›
  right
  simp only [Except.bind_eq_ok, liftM_eq_ok, okOr_eq_ok, array_eq_ok] at h
  obtain ⟨_, hgenesis, keys, hfind, _, _, proof, hproof, message, hmessage, _, hverified, _⟩ := h
  obtain ⟨proof', hproof', hsigned⟩ := hitem.proof
  rw [hproof, Option.some.injEq, Value.array.injEq] at hproof'
  subst hproof'
  have hkeys := List.find?_some hfind
  simp only [decide_eq_true_eq] at hkeys
  refine ⟨⟨keys, List.mem_of_find?_eq_some hfind, hkeys.1, by rw [hkeys.2, hdigest], proof, message,
    array_eq_ok.mpr hproof, hmessage,
    verifySignaturePair_eq_ok (profilePair_endpointKeyValues keys) hsigned hverified⟩, ?_⟩
  rintro rfl
  simp only [validateGenesisDevice, if_true, Except.bind_eq_ok, text_eq_ok,
    reject_eq_ok] at hgenesis
  obtain ⟨status, hstatus, hactive⟩ := hgenesis
  rw [not_or, not_not, not_not] at hactive
  exact ⟨hactive.1 ▸ hstatus, hactive.2⟩

theorem foldlM_validateAuthorizedDevice {epoch : Nat} {genesis : Bool} {priorDevices : List Value}
    {endpointStates : List EndpointStateKeys} {entries : List (FixedBytes 32 × Map)}
    {previous last : Option (FixedBytes 32)} (hroster : Roster epoch entries)
    (h : (devices entries).foldlM (validateAuthorizedDevice provider (.object record) epoch genesis
      priorDevices endpointStates) previous = .ok last) :
    ∀ entry ∈ entries, unchangedDevice priorDevices entry.2 ∨
      Possessed provider record endpointStates entry.1 entry.2 ∧
      (genesis = true → entry.2.get "deviceStatus" = some (.string "active") ∧
        (entry.2.get "admittedAuthorityEpoch").bind Value.asU64 = some epoch) := by
  induction entries generalizing previous with
  | nil => exact nofun
  | cons entry entries ih =>
    obtain ⟨_, hascending⟩ := List.pairwise_cons.mp hroster.ascending
    obtain ⟨hitem, hrest⟩ := List.forall_mem_cons.mp hroster.valid
    rw [devices, List.map_cons, List.foldlM_cons, Except.bind_eq_ok] at h
    obtain ⟨next, hdevice, hloop⟩ := h
    refine List.forall_mem_cons.mpr ⟨?_, ih ⟨hrest, hascending⟩ hloop⟩
    simp only [validateAuthorizedDevice, Except.bind_eq_ok, liftM_eq_ok, members_eq_ok] at hdevice
    obtain ⟨item, heq, endpoint, hendpoint, _, _, digest, hdigest, _, hadmit, _⟩ := hdevice
    cases heq
    rw [hitem.endpoint] at hendpoint
    cases hendpoint
    exact admitDevice_eq_ok hitem hdigest hadmit

theorem AuthorityRecord.proof_signatures (r : AuthorityRecord record) {proof : Map}
    {signatures : List Value} {field : String}
    (hproof : record.get "possessionProof" = some (.object proof))
    (hfield : field = "managementSignatures" ∨ field = "recoverySignatures")
    (hget : proof.get field = some (.array signatures)) :
    validateSignatureArray signatures = .ok () := by
  have h := r.proof
  simp only [validateReplacementProof, hproof, Except.bind_eq_ok, members_eq_ok,
    Value.object.injEq] at h
  obtain ⟨_, rfl, _, _, _, _, hfields⟩ := h
  have hsignatures := Except.forM_eq_ok.mp hfields field (by simpa using hfield)
  simpa [validateProofSignatures, hget, Except.bind_eq_ok] using hsignatures

theorem verifyReplacedKeys_eq_ok (r : AuthorityRecord record) {proof : Map} {message : Bytes}
    {field keySet purpose keyPurpose : String} {keys : List Value} {u : Unit}
    (hproof : record.get "possessionProof" = some (.object proof))
    (hfield : field = "managementSignatures" ∨ field = "recoverySignatures")
    (hkeys : record.get keySet = some (.array keys))
    (hvalid : validateAuthorityKeys keys keyPurpose = .ok ())
    (hmessage : replacementPossessionInput (.object record) = .ok message)
    (h : verifyReplacedKeys provider record proof message true field keySet purpose = .ok u) :
    KeysPossessed provider record field keySet := by
  simp only [verifyReplacedKeys, if_true, Except.bind_eq_ok, okOr_eq_ok, liftM_eq_ok, array_eq_ok,
    Option.bind_eq_some_iff, Value.asArray_eq_some] at h
  obtain ⟨signatures, ⟨_, hget, rfl⟩, keys', hkeys', hverified⟩ := h
  rw [hkeys, Option.some.injEq, Value.array.injEq] at hkeys'
  subst hkeys'
  exact ⟨proof, signatures, keys, message, hproof, array_eq_ok.mpr hget, array_eq_ok.mpr hkeys,
    hmessage, verifySignaturePair_eq_ok (profilePair_of_keys hvalid)
      (r.proof_signatures hproof hfield hget) hverified⟩

theorem verifyReplacementPossession_eq_ok (r : AuthorityRecord record)
    {managementChanged recoveryChanged : Bool} {u : Unit}
    (h : verifyReplacementPossession provider (.object record) record managementChanged
      recoveryChanged = .ok u) :
    (managementChanged = true →
      KeysPossessed provider record "managementSignatures" "managementSigningKeys") ∧
    (recoveryChanged = true →
      KeysPossessed provider record "recoverySignatures" "recoverySigningKeys") := by
  simp only [verifyReplacementPossession, Except.bind_eq_ok, okOr_eq_ok, Option.bind_eq_some_iff,
    Value.asObject_eq_some] at h
  obtain ⟨_, _, proof, ⟨_, hproof, rfl⟩, message, hmessage, _, hmanagement, hrecovery⟩ := h
  constructor
  · rintro rfl
    exact verifyReplacedKeys_eq_ok r hproof (.inl rfl) r.get_management r.management_keys hmessage
      hmanagement
  · rintro rfl
    exact verifyReplacedKeys_eq_ok r hproof (.inr rfl) r.get_recovery r.recovery_keys hmessage
      hrecovery

theorem validateReplacement_eq_ok (r : AuthorityRecord record) {previous : Map} {p : Value}
    {u : Unit} (hkind : r.transition = "management" ∨ r.transition = "recovery")
    (hrecovery : r.transition = "management" →
      record.get "recoverySigningKeys" = previous.get "recoverySigningKeys")
    (h : validateReplacement provider (.object record) record r.transition (some (p, previous)) =
      .ok u) :
    (record.get "managementSigningKeys" ≠ previous.get "managementSigningKeys" →
      KeysPossessed provider record "managementSignatures" "managementSigningKeys") ∧
    (record.get "recoverySigningKeys" ≠ previous.get "recoverySigningKeys" →
      KeysPossessed provider record "recoverySignatures" "recoverySigningKeys") := by
  simp only [validateReplacement] at h
  split at h
  · obtain ⟨hmanagement, hrecovered⟩ := verifyReplacementPossession_eq_ok r h
    exact ⟨fun hne => hmanagement (decide_eq_true hne), fun hne => hrecovered (decide_eq_true hne)⟩
  · rename_i hkept
    split at h
    · cases h
    · split at h
      · obtain ⟨hmanagement, hrecovered⟩ := verifyReplacementPossession_eq_ok r h
        exact ⟨fun hne => hmanagement (decide_eq_true hne), fun hne =>
          hrecovered (decide_eq_true hne)⟩
      · rename_i hother
        have hmanagement := hkind.resolve_right hother
        exact ⟨fun hne => absurd ⟨hmanagement, hne⟩ hkept,
          fun hne => absurd (hrecovery hmanagement) hne⟩

/-- The checks of a state whose record is parsed, in the order of the source. -/
structure Validated (formatFinite : Rat → String) (provider : Provider) (record : Map)
    (r : AuthorityRecord record) (predecessor : Option Value) (line : FixedBytes 32)
    (endpointStates : List EndpointStateKeys) (previous : Option (Value × Map))
    (digest : FixedBytes 32) : Prop where
  definition : validateDefinitionRecord formatFinite (.object record) = .ok ()
  expected : r.line = line
  read : previousRecord formatFinite predecessor = .ok previous
  hashed : userAuthorityStateDigest formatFinite provider (.object record) = .ok digest
  signed : ∃ keys, signingKeys formatFinite provider record r.epoch r.user r.transition
      r.management r.recovery previous = .ok keys ∧
    verifySignaturePair provider r.signatures keys (authorityPurpose r.transition)
      (domainInput authoritySignatureDomain digest.toList) = .ok ()
  listed : ∃ priorDevices last, priorRoster previous = .ok priorDevices ∧
    (devices r.entries).foldlM (validateAuthorizedDevice provider (.object record) r.epoch
      predecessor.isNone priorDevices endpointStates) none = .ok last
  replaced : validateReplacement provider (.object record) record r.transition previous = .ok ()

theorem validateUserAuthorityState_eq_ok {predecessor : Option Value} {line : FixedBytes 32}
    {endpointStates : List EndpointStateKeys} {accepted : AcceptedUserAuthority} :
    validateUserAuthorityState formatFinite provider state predecessor line endpointStates =
        .ok accepted ↔
      ∃ (record : Map) (r : AuthorityRecord record) (previous : Option (Value × Map))
        (digest : FixedBytes 32), state = .object record ∧
        Validated formatFinite provider record r predecessor line endpointStates previous digest ∧
        accepted = ⟨state, r.user, r.epoch, digest⟩ := by
  simp only [validateUserAuthorityState, Except.bind_eq_ok, liftM_eq_ok, members_eq_ok, text_eq_ok,
    array_eq_ok, reject_eq_ok, Except.pure_eq, Except.ok.injEq]
  constructor
  · rintro ⟨_, hdefinition, record, rfl, epoch, hepoch, user, huser, line', hline, _, hexpected,
      transition, htransition, management, hmanagement, recovery, hrecovery, _, _, _, _, previous,
      hprevious, keys, hkeys, digest, hdigest, signatures, hsignatures, _, hsigned, values,
      hdevices, _, _, priorDevices, hprior, last, hloop, _, hreplaced, rfl⟩
    obtain ⟨_, hget, _⟩ := decodedHex_eq_ok.mp huser
    obtain ⟨_, ⟨r⟩⟩ := validateDefinitionRecord_eq_ok hdefinition (by rw [hget]; rintro ⟨⟩)
    obtain rfl : r.epoch = epoch := Except.ok.inj (r.get_epoch.symm.trans hepoch)
    obtain rfl : r.user = user := Except.ok.inj ((decodedHex_of_get r.get_user).symm.trans huser)
    obtain rfl : r.line = line' := Except.ok.inj ((decodedHex_of_get r.get_line).symm.trans hline)
    obtain rfl := text_unique r.get_transition htransition
    obtain rfl : r.management = management := by simpa [r.get_management] using hmanagement
    obtain rfl : r.recovery = recovery := by simpa [r.get_recovery] using hrecovery
    obtain rfl : r.signatures = signatures := by simpa [r.get_signatures] using hsignatures
    obtain rfl : devices r.entries = values := by simpa [r.get_devices] using hdevices
    exact ⟨record, r, previous, digest, rfl, ⟨hdefinition, not_not.mp hexpected, hprevious, hdigest,
      ⟨keys, hkeys, hsigned⟩, ⟨priorDevices, last, hprior, hloop⟩, hreplaced⟩, rfl⟩
  · rintro ⟨record, r, previous, digest, rfl, h, rfl⟩
    obtain ⟨keys, hkeys, hsigned⟩ := h.signed
    obtain ⟨priorDevices, last, hprior, hloop⟩ := h.listed
    refine ⟨(), h.definition, record, rfl, r.epoch, r.get_epoch, r.user,
      decodedHex_of_get r.get_user, r.line, decodedHex_of_get r.get_line, (),
      not_not.mpr h.expected, r.transition, r.get_transition, r.management, r.get_management,
      r.recovery, r.get_recovery, (), r.management_keys, (), r.recovery_keys, previous, h.read,
      keys, hkeys, digest, h.hashed, r.signatures, r.get_signatures, (), hsigned, _, r.get_devices,
      (), ?_, priorDevices, hprior, last, hloop, (), h.replaced, rfl⟩
    simpa [devices] using r.bounded

theorem Validated.message {r : AuthorityRecord record} {predecessor : Option Value}
    {line digest : FixedBytes 32} {endpointStates : List EndpointStateKeys}
    {previous : Option (Value × Map)}
    (h : Validated formatFinite provider record r predecessor line endpointStates previous digest) :
    authoritySignatureInput formatFinite provider (.object record) =
      .ok (domainInput authoritySignatureDomain digest.toList) := by
  rw [authoritySignatureInput, h.hashed]
  rfl

theorem Validated.genesis {r : AuthorityRecord record} {line digest : FixedBytes 32}
    {endpointStates : List EndpointStateKeys} {previous : Option (Value × Map)}
    (h : Validated formatFinite provider record r none line endpointStates previous digest) :
    r.epoch = 0 ∧ AuthorizedBy formatFinite provider record "managementSigningKeys" record ∧
    ∀ entry ∈ r.entries, Possessed provider record endpointStates entry.1 entry.2 ∧
      entry.2.get "deviceStatus" = some (.string "active") ∧
      (entry.2.get "admittedAuthorityEpoch").bind Value.asU64 = some 0 := by
  obtain rfl : none = previous := Except.ok.inj h.read
  obtain ⟨keys, hkeys, hsigned⟩ := h.signed
  obtain ⟨priorDevices, last, hprior, hloop⟩ := h.listed
  obtain rfl : [] = priorDevices := Except.ok.inj hprior
  simp only [signingKeys, genesisKeys, Except.bind_eq_ok, reject_eq_ok, not_not, Except.pure_eq,
    Except.ok.injEq] at hkeys
  obtain ⟨_, ⟨_, hepoch, _⟩, _, _, _, _, rfl⟩ := hkeys
  refine ⟨hepoch, ⟨r.management, r.signatures, _, array_eq_ok.mpr r.get_management,
    array_eq_ok.mpr r.get_signatures, h.message,
    verifySignaturePair_eq_ok (profilePair_of_keys r.management_keys) r.signed hsigned⟩, ?_⟩
  intro entry hentry
  rcases foldlM_validateAuthorizedDevice r.roster hloop entry hentry
    with hunchanged | ⟨hproof, hnew⟩
  · simp [unchangedDevice] at hunchanged
  · rw [hepoch] at hnew
    exact ⟨hproof, hnew rfl⟩

theorem Validated.successor {r : AuthorityRecord record} {predecessor : Value}
    {line digest : FixedBytes 32} {endpointStates : List EndpointStateKeys}
    {previous : Option (Value × Map)}
    (h : Validated formatFinite provider record r (some predecessor) line endpointStates previous
      digest) :
    ∃ (prior : Map) (q : AuthorityRecord prior), predecessor = .object prior ∧
      previous = some (predecessor, prior) ∧ Continues formatFinite provider prior record ∧
      r.epoch = q.epoch + 1 ∧
      validateRosterTransition (devices q.entries) (devices r.entries) r.epoch = .ok () := by
  have hprevious := h.read
  simp only [previousRecord, Except.bind_eq_ok, liftM_eq_ok, members_eq_ok, Except.pure_eq,
    Except.ok.injEq] at hprevious
  obtain ⟨_, _, prior, rfl, rfl⟩ := hprevious
  obtain ⟨keys, hkeys, hsigned⟩ := h.signed
  simp only [signingKeys, successorKeys, Except.bind_eq_ok, reject_eq_ok, liftM_eq_ok, array_eq_ok,
    not_or, not_not] at hkeys
  obtain ⟨_, hkind, previousDigest, hdigest, epoch, hepoch, _, _, _, ⟨hnext, hlink, huser, hline⟩,
    _, hrecovery, _, hbefore, _, hafter, _, hroster, hkeys⟩ := hkeys
  obtain ⟨_, heq, ⟨q⟩⟩ := userAuthorityStateDigest_record hdigest
  cases heq
  obtain rfl : q.epoch = epoch := Except.ok.inj (q.get_epoch.symm.trans hepoch)
  rw [q.get_devices, Option.some.injEq, Value.array.injEq] at hbefore
  rw [r.get_devices, Option.some.injEq, Value.array.injEq] at hafter
  subst hbefore hafter
  have hkind : r.transition = "management" ∨ r.transition = "recovery" := by
    by_contra hother
    exact hkind (not_or.mp hother)
  have hrecovery : r.transition = "management" →
      record.get "recoverySigningKeys" = prior.get "recoverySigningKeys" := fun hmanagement =>
    not_not.mp fun hne => hrecovery ⟨hmanagement, hne⟩
  obtain ⟨hmanaged, hrecovered⟩ := validateReplacement_eq_ok r hkind hrecovery h.replaced
  refine ⟨prior, q, rfl, rfl, ?_, hnext, hroster⟩
  refine ⟨huser, hline, ⟨q.epoch, q.get_epoch, hnext ▸ r.get_epoch⟩, ⟨previousDigest, hdigest, ?_⟩,
    ?_, hmanaged, hrecovered⟩
  · rw [text, okOr_eq_ok]
    exact hlink
  · rcases hkind with hmanagement | hrecover
    · left
      rw [if_pos hmanagement, q.get_management, Option.some.injEq, Value.array.injEq] at hkeys
      subst hkeys
      refine ⟨text_eq_ok.mpr (hmanagement ▸ r.get_transition), hrecovery hmanagement, q.management,
        r.signatures, _, array_eq_ok.mpr q.get_management, array_eq_ok.mpr r.get_signatures,
        h.message, verifySignaturePair_eq_ok (profilePair_of_keys q.management_keys) r.signed
        hsigned⟩
    · right
      rw [if_neg (by rw [hrecover]; decide), q.get_recovery, Option.some.injEq,
        Value.array.injEq] at hkeys
      subst hkeys
      exact ⟨text_eq_ok.mpr (hrecover ▸ r.get_transition), q.recovery, r.signatures, _,
        array_eq_ok.mpr q.get_recovery, array_eq_ok.mpr r.get_signatures, h.message,
        verifySignaturePair_eq_ok (profilePair_of_keys q.recovery_keys) r.signed hsigned⟩

end Step

end Identity

end LicoArc
