import LicoArc.AuthorityPrint

/-!
# Acceptance of printed user authority states

The digests and signature inputs of a printed state are defined. Under a
provider that accepts its signatures, a printed genesis state is accepted, and
a printed successor that carries its roster on is accepted after its
predecessor.
-/

namespace LicoArc

namespace Identity

open Json

section Small

/-- A CBOR value within the limits, with a bound on its size. -/
structure Small (levels size : Nat) (value : CborValue) : Prop where
  fits : Encoding.Fits levels value
  size_le : Encoding.valueSize value ≤ size

structure ItemsSmall (levels size : Nat) (values : List CborValue) : Prop where
  fits : Encoding.ItemsFit levels values
  size_le : Encoding.itemsSize values ≤ size

variable {levels size rest : Nat}

theorem Small.mono {size' : Nat} {value : CborValue} (h : Small levels size value)
    (hle : size ≤ size') : Small levels size' value := ⟨h.fits, h.size_le.trans hle⟩

theorem small_bytes {n : Nat} (v : FixedBytes n) (h : n ≤ 4096) :
    Small levels (9 + n) (.bytes v.toList) := by
  constructor
  · rw [Encoding.Fits, List.Vector.toList_length]
    exact h.trans (by decide)
  · rw [Encoding.valueSize, List.Vector.toList_length]

theorem small_text {text : String} (h : (Encoding.textBytes text).length ≤ 66) :
    Small levels 75 (.text text) := by
  constructor
  · rw [Encoding.Fits]
    exact h.trans (by decide)
  · rw [Encoding.valueSize]
    omega

theorem small_unsigned {n : Nat} (h : n ≤ maxEpoch) : Small levels 9 (.unsigned n) :=
  ⟨h, le_rfl⟩

theorem small_null : Small levels 9 .null := ⟨trivial, le_rfl⟩

theorem itemsSmall_nil : ItemsSmall levels 0 [] := ⟨trivial, le_rfl⟩

theorem ItemsSmall.cons {value : CborValue} {values : List CborValue}
    (hvalues : ItemsSmall levels rest values) (hvalue : Small levels size value) :
    ItemsSmall levels (size + rest) (value :: values) :=
  ⟨⟨hvalue.fits, hvalues.fits⟩, Nat.add_le_add hvalue.size_le hvalues.size_le⟩

theorem ItemsSmall.array {values : List CborValue} (h : ItemsSmall levels size values)
    (hlength : values.length ≤ 64) : Small (levels + 1) (9 + size) (.array values) :=
  ⟨⟨hlength, nofun, h.fits⟩, Nat.add_le_add_left h.size_le 9⟩

theorem mapM_small {f : Value → Except Fault CborValue} {values : List Value}
    (h : ∀ value ∈ values, ∃ projected, f value = .ok projected ∧ Small levels size projected) :
    ∃ projected, values.mapM f = .ok projected ∧ projected.length = values.length ∧
      ItemsSmall levels (values.length * size) projected := by
  induction values with
  | nil => exact ⟨[], rfl, rfl, by simpa using itemsSmall_nil⟩
  | cons value values ih =>
    obtain ⟨⟨first, hfirst, hsmall⟩, hrest⟩ := List.forall_mem_cons.mp h
    obtain ⟨projected, hprojected, hlength, hitems⟩ := ih hrest
    refine ⟨first :: projected, ?_, congrArg Nat.succ hlength, ?_⟩
    · rw [List.mapM_cons, hfirst, Except.ok_bind, hprojected]
      rfl
    · rw [List.length_cons, Nat.succ_mul, add_comm]
      exact hitems.cons hsmall

end Small

section Projected

variable {levels size : Nat} {purpose profile : String}

theorem profile_text (h : profile = ed25519ProfileId ∨ profile = mlDsa65ProfileId) :
    ∃ v : FixedBytes 32, profile = hexBytes v.toList := by
  rw [← lowerHex_iff_fixed]
  rcases h with rfl | rfl <;> exact ⟨by decide +kernel, by decide +kernel⟩

theorem purpose_size (h : purpose ∈ "management" :: "recovery" :: signaturePurposes) :
    (Encoding.textBytes purpose).length ≤ 66 := by
  have hall : ∀ purpose ∈ "management" :: "recovery" :: signaturePurposes,
      (Encoding.textBytes purpose).length ≤ 66 := by decide
  exact hall purpose h

theorem keyProjection_printKey (id : FixedBytes 32) (key : FixedBytes size) (hsize : size ≤ 1952)
    (hpurpose : purpose ∈ "management" :: "recovery" :: signaturePurposes)
    (hprofile : profile = ed25519ProfileId ∨ profile = mlDsa65ProfileId) :
    ∃ projected, keyProjection (.object (printKey purpose profile id key)) = .ok projected ∧
      Small (levels + 1) 2127 projected := by
  obtain ⟨v, rfl⟩ := profile_text hprofile
  refine ⟨.array [.bytes id.toList, .text purpose, .bytes v.toList, .bytes key.toList], ?_, ?_⟩
  · simp only [keyProjection, Except.bind_eq_ok, liftM_eq_ok, members_eq_ok, text_eq_ok]
    exact ⟨_, rfl, id, decodedHex_of_get rfl, purpose, rfl, v, decodedHex_of_get rfl, _, rfl, _,
      decodeHexText_hexBytes _, rfl⟩
  · have hnil : ItemsSmall levels 0 [] := itemsSmall_nil
    have hkey := hnil.cons (small_bytes key (by omega))
    have hitems := ((hkey.cons (small_bytes v (by decide))).cons
      (small_text (purpose_size hpurpose))).cons (small_bytes id (by decide))
    exact (hitems.array (by simp)).mono (by omega)

theorem signatureProjection_printSignature (id : FixedBytes 32) (value : FixedBytes size)
    (hsize : size ≤ 3309) (hpurpose : purpose ∈ "management" :: "recovery" :: signaturePurposes)
    (hprofile : profile = ed25519ProfileId ∨ profile = mlDsa65ProfileId) :
    ∃ projected, signatureEntryProjection (.object (printSignature purpose profile id value)) =
      .ok projected ∧ Small (levels + 1) 3484 projected := by
  obtain ⟨v, rfl⟩ := profile_text hprofile
  refine ⟨.array [.bytes v.toList, .bytes id.toList, .text purpose, .bytes value.toList], ?_, ?_⟩
  · simp only [signatureEntryProjection, Except.bind_eq_ok, liftM_eq_ok, members_eq_ok, text_eq_ok]
    exact ⟨_, rfl, v, decodedHex_of_get rfl, id, decodedHex_of_get rfl, purpose, rfl, _, rfl, _,
      decodeHexText_hexBytes _, rfl⟩
  · have hnil : ItemsSmall levels 0 [] := itemsSmall_nil
    have hvalue := hnil.cons (small_bytes value (by omega))
    have hitems := ((hvalue.cons (small_text (purpose_size hpurpose))).cons
      (small_bytes id (by decide))).cons (small_bytes v (by decide))
    exact (hitems.array (by simp)).mono (by omega)

theorem KeySet.projection (keys : KeySet)
    (hpurpose : purpose ∈ "management" :: "recovery" :: signaturePurposes) :
    ∃ projected, authorityKeyProjection (KeySet.print keys purpose) = .ok projected ∧
      Small (levels + 2) 4263 projected := by
  have hall : ∀ value ∈ KeySet.print keys purpose, ∃ projected,
      keyProjection value = .ok projected ∧ Small (levels + 1) 2127 projected := by
    rw [KeySet.print]
    simp only [List.forall_mem_cons, List.not_mem_nil, false_implies, implies_true, and_true]
    exact ⟨keyProjection_printKey _ _ (by decide) hpurpose (.inl rfl),
      keyProjection_printKey _ _ le_rfl hpurpose (.inr rfl)⟩
  obtain ⟨projected, hprojected, hlength, hitems⟩ := mapM_small hall
  refine ⟨.array projected, by rw [authorityKeyProjection, hprojected]; rfl, ?_⟩
  exact (hitems.array (by simp [hlength, KeySet.print])).mono (by simp [KeySet.print])

theorem SignatureSet.projection (signatures : SignatureSet)
    (hpurpose : purpose ∈ "management" :: "recovery" :: signaturePurposes) :
    ∃ projected, signatureProjection (SignatureSet.print signatures purpose) = .ok projected ∧
      Small (levels + 2) 6977 projected := by
  have hall : ∀ value ∈ SignatureSet.print signatures purpose, ∃ projected,
      signatureEntryProjection value = .ok projected ∧ Small (levels + 1) 3484 projected := by
    rw [SignatureSet.print]
    simp only [List.forall_mem_cons, List.not_mem_nil, false_implies, implies_true, and_true]
    exact ⟨signatureProjection_printSignature _ _ (by decide) hpurpose (.inl rfl),
      signatureProjection_printSignature _ _ le_rfl hpurpose (.inr rfl)⟩
  obtain ⟨projected, hprojected, hlength, hitems⟩ := mapM_small hall
  refine ⟨.array projected, by rw [signatureProjection, hprojected]; rfl, ?_⟩
  exact (hitems.array (by simp [hlength, SignatureSet.print])).mono (by simp [SignatureSet.print])

theorem DeviceData.projection (device : DeviceData) (hadmitted : device.admitted ≤ maxEpoch)
    (hrevoked : ∀ e ∈ device.revoked, e ≤ maxEpoch) :
    ∃ projected, deviceProjection (.object device.print) = .ok projected ∧
      Small (levels + 3) 7172 projected := by
  have hpurpose : "device-possession" ∈ "management" :: "recovery" :: signaturePurposes := by decide
  obtain ⟨proof, hproof, hsmall⟩ : ∃ proof, signatureProjection
      (SignatureSet.print device.proof "device-possession") = .ok proof ∧
      Small (levels + 2) 6977 proof := SignatureSet.projection device.proof hpurpose
  let revoked := (((device.print.get "revokedAuthorityEpoch").bind Value.asU64).map
    CborValue.unsigned).getD .null
  have hsmallRevoked : Small (levels + 2) 9 revoked := by
    have hget : device.print.get "revokedAuthorityEpoch" = device.revoked.map natural := by
      rw [DeviceData.print]
      cases device.revoked <;> rfl
    simp only [revoked, hget]
    cases hcase : device.revoked with
    | none => exact small_null
    | some e =>
      rw [Option.map_some, Option.bind_some, natural_asU64 (hrevoked e hcase)]
      exact small_unsigned (hrevoked e hcase)
  refine ⟨.array [.bytes device.endpoint.toList, .bytes device.identity.toList, .text device.status,
    .unsigned device.admitted, revoked, proof], ?_, ?_⟩
  · simp only [deviceProjection, Except.bind_eq_ok, liftM_eq_ok, members_eq_ok, text_eq_ok,
      array_eq_ok]
    exact ⟨_, rfl, device.endpoint, decodedHex_of_get rfl, device.identity, decodedHex_of_get rfl,
      device.status, rfl, device.admitted, unsigned_natural hadmitted rfl, _, rfl, proof,
      hproof, rfl⟩
  · have hstatus : (Encoding.textBytes device.status).length ≤ 66 := by
      rw [DeviceData.status]
      split_ifs <;> decide
    have hnil : ItemsSmall (levels + 2) 0 [] := itemsSmall_nil
    have htail := ((hnil.cons hsmall).cons hsmallRevoked).cons (small_unsigned hadmitted)
    have hitems := ((htail.cons (small_text hstatus)).cons
      (small_bytes device.identity (by decide))).cons (small_bytes device.endpoint (by decide))
    exact (hitems.array (by simp)).mono (by omega)

theorem AuthorityData.devices_projection {data : AuthorityData} (h : data.WellFormed) :
    ∃ projected, (Identity.devices data.entries).mapM deviceProjection = .ok projected ∧
      projected.length ≤ 3 ∧ ItemsSmall 14 21516 projected := by
  have hall : ∀ value ∈ Identity.devices data.entries, ∃ projected,
      deviceProjection value = .ok projected ∧ Small 14 7172 projected := by
    intro value hvalue
    simp only [Identity.devices, AuthorityData.entries, List.map_map, List.mem_map] at hvalue
    obtain ⟨device, hdevice, rfl⟩ := hvalue
    exact DeviceData.projection device ((h.admitted device hdevice).trans h.epoch)
      fun e he => ((h.revoked device hdevice e he).2).trans h.epoch
  obtain ⟨projected, hprojected, hlength, hitems⟩ := mapM_small hall
  have hcount : (Identity.devices data.entries).length ≤ 3 := by
    simpa [Identity.devices, AuthorityData.entries] using h.bounded.2
  exact ⟨projected, hprojected, by omega, hitems.fits, hitems.size_le.trans (by omega)⟩

theorem AuthorityData.transition_size {data : AuthorityData} (h : data.WellFormed) :
    (Encoding.textBytes data.transition).length ≤ 66 := by
  have hall : ∀ transition ∈ ["genesis", "management", "recovery"],
      (Encoding.textBytes transition).length ≤ 66 := by decide
  refine hall _ ?_
  rcases h.transition with ⟨_, htransition, _⟩ | ⟨_, htransition, _⟩
  · exact htransition ▸ List.mem_cons_self
  · exact List.mem_cons_of_mem _ htransition

theorem AuthorityData.previousDigest {data : AuthorityData} :
    Identity.previousDigest data.print = .ok data.previous := by
  rw [Identity.previousDigest]
  cases hcase : data.previous with
  | none =>
    have hget : data.print.get "previousUserAuthorityStateDigest" = none := by
      rw [AuthorityData.print, AuthorityData.record, hcase]
      rfl
    rw [hget]
  | some digest =>
    have hget : data.print.get "previousUserAuthorityStateDigest" = some (hexText digest) := by
      rw [AuthorityData.print, AuthorityData.record, hcase]
      rfl
    rw [hget]
    simp only [decodedHex_of_get hget]
    rfl

theorem AuthorityData.projection {data : AuthorityData} (h : data.WellFormed) :
    ∃ projected, authorityStateProjection data.print = .ok projected ∧
      Small 16 30495 projected := by
  have hmanagement : "management" ∈ "management" :: "recovery" :: signaturePurposes := by decide
  have hrecovery : "recovery" ∈ "management" :: "recovery" :: signaturePurposes := by decide
  obtain ⟨management, hmanaged, hsmall⟩ : ∃ projected, authorityKeyProjection
      (KeySet.print data.management "management") = .ok projected ∧ Small 15 4263 projected :=
    KeySet.projection data.management hmanagement
  obtain ⟨recovery, hrecovered, hsmall'⟩ : ∃ projected, authorityKeyProjection
      (KeySet.print data.recovery "recovery") = .ok projected ∧ Small 15 4263 projected :=
    KeySet.projection data.recovery hrecovery
  obtain ⟨devices, hdevices, hlength, hitems⟩ := AuthorityData.devices_projection h
  let r := AuthorityData.parsed h
  have hpossession : possessionProjection data.print = .ok .null := by
    have hproof : data.print.get "possessionProof" = none := by
      rw [AuthorityData.print, AuthorityData.record]
      cases data.previous <;> rfl
    rw [possessionProjection, hproof]
  have hprevious : Small 15 41 ((data.previous.map fun digest =>
      CborValue.bytes digest.toList).getD .null) := by
    cases data.previous with
    | none => exact small_null.mono (by omega)
    | some digest => exact small_bytes digest (by decide)
  refine ⟨.array [.text "UserAuthorityStateV1", .bytes data.line.toList, .bytes data.user.toList,
    .unsigned data.epoch, (data.previous.map fun digest =>
    CborValue.bytes digest.toList).getD .null, .text data.transition, management, recovery,
      .array devices, .null], ?_, ?_⟩
  · simp only [authorityStateProjection, Except.bind_eq_ok, liftM_eq_ok]
    exact ⟨_, AuthorityData.previousDigest, .null, hpossession, data.line,
      decodedHex_of_get r.get_line, data.user, decodedHex_of_get r.get_user, data.epoch,
      r.get_epoch, data.transition, text_eq_ok.mpr r.get_transition, _,
      array_eq_ok.mpr r.get_management, management, hmanaged, _, array_eq_ok.mpr r.get_recovery,
      recovery, hrecovered, _, array_eq_ok.mpr r.get_devices, devices, hdevices, rfl⟩
  · have hname : (Encoding.textBytes "UserAuthorityStateV1").length ≤ 66 := by decide
    have hnil : ItemsSmall 15 0 [] := itemsSmall_nil
    have hroster := (hnil.cons small_null).cons (hitems.array (by omega))
    have hkeys := (hroster.cons hsmall').cons hsmall
    have hlink := (hkeys.cons (small_text (AuthorityData.transition_size h))).cons hprevious
    have hhead := ((hlink.cons (small_unsigned h.epoch)).cons
      (small_bytes data.user (by decide))).cons (small_bytes data.line (by decide))
    exact ((hhead.cons (small_text hname)).array (by simp)).mono (by omega)

theorem AuthorityData.digest {formatFinite : Rat → String} {provider : Provider}
    {data : AuthorityData} (h : data.WellFormed) :
    ∃ input, userAuthorityStateDigest formatFinite provider (.object data.print) =
      .ok (provider.sha256 input) := by
  obtain ⟨projected, hprojected, hsmall⟩ := AuthorityData.projection h
  have hencoded := Encoding.encode_ok hsmall.fits (hsmall.size_le.trans (by decide))
  refine ⟨domainInput authorityStateDomain (Encoding.encodeInto projected), ?_⟩
  simp only [userAuthorityStateDigest, Except.bind_eq_ok, liftM_eq_ok, members_eq_ok]
  exact ⟨(), AuthorityData.definition h, data.print, rfl, projected, hprojected, _, hencoded, rfl⟩

theorem AuthorityData.userIdentityRef {provider : Provider} {data : AuthorityData} :
    ∃ projection, deriveUserIdentityRef provider (KeySet.print data.management "management")
      (KeySet.print data.recovery "recovery") =
        .ok (provider.sha256 (domainInput userIdentityDomain projection)) := by
  have hmanagement : "management" ∈ "management" :: "recovery" :: signaturePurposes := by decide
  have hrecovery : "recovery" ∈ "management" :: "recovery" :: signaturePurposes := by decide
  obtain ⟨management, hmanaged, hsmall⟩ : ∃ projected, authorityKeyProjection
      (KeySet.print data.management "management") = .ok projected ∧ Small 15 4263 projected :=
    KeySet.projection data.management hmanagement
  obtain ⟨recovery, hrecovered, hsmall'⟩ : ∃ projected, authorityKeyProjection
      (KeySet.print data.recovery "recovery") = .ok projected ∧ Small 15 4263 projected :=
    KeySet.projection data.recovery hrecovery
  have hsets : Small 16 8535 (.array [management, recovery]) :=
    ((itemsSmall_nil.cons hsmall').cons hsmall).array (by simp)
  have hencoded := Encoding.encode_ok hsets.fits (hsets.size_le.trans (by decide))
  refine ⟨Encoding.encodeInto (.array [management, recovery]), ?_⟩
  simp only [deriveUserIdentityRef, Except.bind_eq_ok, liftM_eq_ok]
  exact ⟨(), KeySet.valid _ _, (), KeySet.valid _ _, management, hmanaged, recovery, hrecovered, _,
    hencoded, rfl⟩

theorem AuthorityData.possessionInput {data : AuthorityData} (h : data.WellFormed)
    (device : DeviceData) :
    ∃ message, devicePossessionInput (.object data.print) (.object device.print) = .ok message := by
  let r := AuthorityData.parsed h
  have hnil : ItemsSmall 15 0 [] := itemsSmall_nil
  have hdevice := (hnil.cons (small_bytes device.identity (by decide))).cons
    (small_bytes device.endpoint (by decide))
  have hitems := ((hdevice.cons (small_unsigned h.epoch)).cons
    (small_bytes data.user (by decide))).cons (small_bytes data.line (by decide))
  have hinput := hitems.array (by simp)
  have hencoded := Encoding.encode_ok hinput.fits (hinput.size_le.trans (by decide))
  refine ⟨domainInput devicePossessionDomain (Encoding.encodeInto (.array [.bytes data.line.toList,
    .bytes data.user.toList, .unsigned data.epoch, .bytes device.endpoint.toList,
    .bytes device.identity.toList])), ?_⟩
  simp only [devicePossessionInput, Except.bind_eq_ok, liftM_eq_ok, members_eq_ok]
  exact ⟨data.print, rfl, device.print, rfl, data.line, decodedHex_of_get r.get_line, data.user,
    decodedHex_of_get r.get_user, data.epoch, r.get_epoch, device.endpoint, decodedHex_of_get rfl,
    device.identity, decodedHex_of_get rfl, _, hencoded, rfl⟩

end Projected

section Verified

variable {provider : Provider} {message : Bytes} {purpose : String}

theorem findKey_ed25519 (keys : KeySet) (keyPurpose : String) :
    findKey (KeySet.print keys keyPurpose) (hexBytes keys.edId.toList) ed25519ProfileId =
      some (printKey keyPurpose ed25519ProfileId keys.edId keys.ed) := by
  refine List.find?_cons_of_pos ?_
  rw [Bool.and_eq_true, get_bind_asStr, get_bind_asStr]
  exact ⟨rfl, rfl⟩

theorem findKey_mlDsa65 (keys : KeySet) (keyPurpose : String) :
    findKey (KeySet.print keys keyPurpose) (hexBytes keys.mlId.toList) mlDsa65ProfileId =
      some (printKey keyPurpose mlDsa65ProfileId keys.mlId keys.ml) := by
  refine (List.find?_cons_of_neg ?_).trans (List.find?_cons_of_pos ?_)
  · rw [Bool.and_eq_true, get_bind_asStr, get_bind_asStr]
    rintro ⟨_, hprofile⟩
    injection (Option.some.inj hprofile) with hprofile
    exact profiles_ne hprofile
  · rw [Bool.and_eq_true, get_bind_asStr, get_bind_asStr]
    exact ⟨rfl, rfl⟩

theorem printSignature_ed25519 (signatures : SignatureSet) (h : purpose ∈ signaturePurposes) :
    validateSignature (printSignature purpose ed25519ProfileId signatures.edId signatures.ed)
      (some purpose) = .ok () := by
  refine validateSignature_eq_ok.mpr ⟨.inl ?_, by simp [printSignature, Map.get, List.lookup]⟩
  exact ⟨rfl, ⟨purpose, h, rfl⟩, rfl, ⟨signatures.edId, rfl⟩, signatures.ed, rfl⟩

theorem printSignature_mlDsa65 (signatures : SignatureSet) (h : purpose ∈ signaturePurposes) :
    validateSignature (printSignature purpose mlDsa65ProfileId signatures.mlId signatures.ml)
      (some purpose) = .ok () := by
  refine validateSignature_eq_ok.mpr ⟨.inr ?_, by simp [printSignature, Map.get, List.lookup]⟩
  exact ⟨rfl, ⟨purpose, h, rfl⟩, rfl, ⟨signatures.mlId, rfl⟩, signatures.ml, rfl⟩

theorem verifySignaturePair_print {signatures : SignatureSet} {keys : KeySet} {keyPurpose : String}
    (hpurpose : purpose ∈ signaturePurposes) (hed : signatures.edId = keys.edId)
    (hml : signatures.mlId = keys.mlId)
    (hverified : provider.ed25519VerifyStrict keys.ed message signatures.ed = .ok ())
    (hverified' : provider.mlDsa65Verify keys.ml.toList message signatures.ml.toList = .ok ()) :
    verifySignaturePair provider (SignatureSet.print signatures purpose)
      (KeySet.print keys keyPurpose) purpose message = .ok () := by
  rw [verifySignaturePair, reject_of_not _ (by simp [SignatureSet.print, KeySet.print]),
    Except.ok_bind, Except.forM_eq_ok]
  simp only [SignatureSet.print, List.forall_mem_cons, List.not_mem_nil, false_implies,
    implies_true, and_true]
  constructor
  · simp only [verifySignature, Except.bind_eq_ok, liftM_eq_ok, members_eq_ok, text_eq_ok,
      okOr_eq_ok]
    refine ⟨_, rfl, (), printSignature_ed25519 signatures hpurpose, _, rfl, _, rfl, _,
      hed ▸ findKey_ed25519 keys keyPurpose, _, rfl, _, decodeHexText_hexBytes _, _, rfl, _,
      decodeHexText_hexBytes _, ?_⟩
    rw [if_pos rfl]
    simp only [Except.bind_eq_ok, okOr_eq_ok, Except.mapError_eq_ok]
    exact ⟨_, FixedBytes.ofBytes?_toList _, _, FixedBytes.ofBytes?_toList _, hverified⟩
  · simp only [verifySignature, Except.bind_eq_ok, liftM_eq_ok, members_eq_ok, text_eq_ok,
      okOr_eq_ok]
    refine ⟨_, rfl, (), printSignature_mlDsa65 signatures hpurpose, _, rfl, _, rfl, _,
      hml ▸ findKey_mlDsa65 keys keyPurpose, _, rfl, _, decodeHexText_hexBytes _, _, rfl, _,
      decodeHexText_hexBytes _, ?_⟩
    rw [if_neg profiles_ne.symm, if_pos rfl, Except.mapError_eq_ok]
    exact hverified'

end Verified

section Acceptance

/-- A provider that accepts every signature and gives every input one digest. -/
structure Permissive (provider : Provider) (digest : FixedBytes 32) : Prop where
  sha256 : ∀ input, provider.sha256 input = digest
  ed25519 : ∀ key message signature, provider.ed25519VerifyStrict key message signature = .ok ()
  mlDsa65 : ∀ key message signature, provider.mlDsa65Verify key message signature = .ok ()

/-- A provider that accepts every signature. -/
structure Lenient (provider : Provider) : Prop where
  ed25519 : ∀ key message signature, provider.ed25519VerifyStrict key message signature = .ok ()
  mlDsa65 : ∀ key message signature, provider.mlDsa65Verify key message signature = .ok ()

theorem Permissive.lenient {provider : Provider} {digest : FixedBytes 32}
    (h : Permissive provider digest) : Lenient provider :=
  ⟨h.ed25519, h.mlDsa65⟩

/-- The keys that the possession proof of a device names. -/
def DeviceData.keys (device : DeviceData) : KeySet where
  edId := device.proof.edId
  mlId := device.proof.mlId
  ed := FixedBytes.zero 32
  ml := FixedBytes.zero 1952
  distinct := device.proof.distinct

def DeviceData.endpointState (device : DeviceData) : EndpointStateKeys where
  endpointIdentityRef := device.endpoint
  identityStateDigest := device.identity
  ed25519KeyId := device.keys.edId
  ed25519Public := device.keys.ed
  mlDsa65KeyId := device.keys.mlId
  mlDsa65Public := device.keys.ml.toList

theorem DeviceData.endpointKeyValues (device : DeviceData) :
    Identity.endpointKeyValues device.endpointState = KeySet.print device.keys "device" := by
  generalize hkeys : device.keys = keys
  rw [DeviceData.endpointState, hkeys]
  rfl

def AuthorityData.endpointStates (data : AuthorityData) : List EndpointStateKeys :=
  data.devices.map DeviceData.endpointState

variable {formatFinite : Rat → String} {provider : Provider} {digest : FixedBytes 32}
  {data : AuthorityData} {device : DeviceData}

theorem Lenient.verifies (h : Lenient provider) {signatures : SignatureSet}
    {keys : KeySet} {keyPurpose purpose : String} {message : Bytes}
    (hpurpose : purpose ∈ signaturePurposes) (hed : signatures.edId = keys.edId)
    (hml : signatures.mlId = keys.mlId) :
    verifySignaturePair provider (SignatureSet.print signatures purpose)
      (KeySet.print keys keyPurpose) purpose message = .ok () :=
  verifySignaturePair_print hpurpose hed hml (h.ed25519 _ _ _) (h.mlDsa65 _ _ _)

theorem Permissive.stateDigest (h : Permissive provider digest) (hdata : data.WellFormed) :
    userAuthorityStateDigest formatFinite provider (.object data.print) = .ok digest := by
  obtain ⟨input, hinput⟩ : ∃ input, userAuthorityStateDigest formatFinite provider
      (.object data.print) = .ok (provider.sha256 input) := AuthorityData.digest hdata
  rw [hinput, h.sha256]

theorem AuthorityData.WellFormed.device_eq (h : data.WellFormed) {other : DeviceData}
    (hdevice : device ∈ data.devices) (hother : other ∈ data.devices)
    (heq : other.endpoint = device.endpoint) : other = device := by
  have hnodup : (data.devices.map (·.endpoint)).Nodup := by
    rw [List.Nodup, List.pairwise_map]
    refine h.ascending.imp fun hlt heq => ?_
    exact List.lt_irrefl _ (heq ▸ hlt)
  exact List.inj_on_of_nodup_map hnodup hother hdevice heq

theorem AuthorityData.find_endpointState (h : data.WellFormed) (hdevice : device ∈ data.devices) :
    (data.endpointStates.find? fun candidate => candidate.endpointIdentityRef = device.endpoint ∧
      candidate.identityStateDigest = device.identity) = some device.endpointState := by
  cases hfind : data.endpointStates.find? fun candidate => candidate.endpointIdentityRef =
      device.endpoint ∧ candidate.identityStateDigest = device.identity with
  | none =>
    have hmiss := List.find?_eq_none.mp hfind _ (List.mem_map_of_mem hdevice)
    rw [decide_eq_true_eq] at hmiss
    exact absurd ⟨rfl, rfl⟩ hmiss
  | some keys =>
    obtain ⟨other, hother, rfl⟩ := List.mem_map.mp (List.mem_of_find?_eq_some hfind)
    have hkeys := List.find?_some hfind
    simp only [decide_eq_true_eq] at hkeys
    rw [h.device_eq hdevice hother hkeys.1]

theorem DeviceData.admittedStatus {epoch : Nat} (hadmitted : device.admitted ≤ epoch)
    (hepoch : epoch ≤ maxEpoch)
    (hrevoked : ∀ e ∈ device.revoked, device.admitted ≤ e ∧ e ≤ epoch) :
    validateAdmittedStatus device.print epoch device.admitted = .ok () := by
  simp only [validateAdmittedStatus, Except.bind_eq_ok, text_eq_ok]
  refine ⟨device.status, rfl, ?_⟩
  cases hcase : device.revoked with
  | none =>
    rw [if_pos]
    · rfl
    · refine ⟨by rw [DeviceData.status, hcase]; rfl, hadmitted, ?_⟩
      rw [DeviceData.print, hcase]
      exact Bool.false_ne_true
  | some e =>
    obtain ⟨hlower, hupper⟩ := hrevoked e hcase
    have hstatus : device.status = "revoked" := by rw [DeviceData.status, hcase]; rfl
    have hget : device.print.get "revokedAuthorityEpoch" = some (natural e) := by
      rw [DeviceData.print, hcase]
      rfl
    rw [if_neg (by rw [hstatus]; simp), reject_of_not]
    rw [not_not, hget, Option.bind_some, natural_asU64 (hupper.trans hepoch)]
    simp [hstatus, hlower, hupper]

theorem AuthorityData.admits (hprovider : Lenient provider) (h : data.WellFormed)
    (hdevice : device ∈ data.devices) {genesis : Bool}
    (hgenesis : genesis = true → device.revoked = none ∧ device.admitted = data.epoch)
    (priorDevices : List Value) :
    admitDevice provider (.object data.print) data.epoch genesis priorDevices data.endpointStates
      (.object device.print) device.print device.endpoint device.identity = .ok () := by
  rw [admitDevice]
  split
  · rfl
  have hpurpose : "device-possession" ∈ signaturePurposes := by decide
  have hadmitted := h.admitted device hdevice
  have hactive : validateGenesisDevice genesis data.epoch device.print = .ok () := by
    rw [validateGenesisDevice]
    split
    · obtain ⟨hrevoked, hepoch⟩ := hgenesis ‹_›
      simp only [Except.bind_eq_ok, text_eq_ok, reject_eq_ok, not_or, not_not]
      refine ⟨device.status, rfl, by rw [DeviceData.status, hrevoked]; rfl, ?_⟩
      have hget : device.print.get "admittedAuthorityEpoch" = some (natural device.admitted) := rfl
      rw [hget, Option.bind_some, natural_asU64 (hadmitted.trans h.epoch), hepoch]
    · rfl
  obtain ⟨message, hmessage⟩ := AuthorityData.possessionInput h device
  simp only [Except.bind_eq_ok, liftM_eq_ok, okOr_eq_ok, array_eq_ok]
  refine ⟨(), hactive, _, AuthorityData.find_endpointState h hdevice, _,
    unsigned_natural (hadmitted.trans h.epoch) rfl, _, rfl, message, hmessage, (), ?_,
    DeviceData.admittedStatus hadmitted h.epoch (h.revoked device hdevice)⟩
  rw [DeviceData.endpointKeyValues]
  exact hprovider.verifies hpurpose rfl rfl

theorem Roster.foldlM_validateAuthorizedDevice {state : Value} {epoch : Nat} {genesis : Bool}
    {priorDevices : List Value} {endpointStates : List EndpointStateKeys}
    {entries : List (FixedBytes 32 × Map)} (hroster : Roster epoch entries)
    (hadmits : ∀ entry ∈ entries, ∀ identity,
      decodedHex 32 entry.2 "identityStateDigest" = .ok identity →
      admitDevice provider state epoch genesis priorDevices endpointStates (.object entry.2) entry.2
        entry.1 identity = .ok ())
    {previous : Option (FixedBytes 32)}
    (hprevious : ∀ p ∈ previous, ∀ entry ∈ entries, p.toList < entry.1.toList) :
    ∃ last, (Identity.devices entries).foldlM (validateAuthorizedDevice provider state epoch genesis
      priorDevices endpointStates) previous = .ok last := by
  induction entries generalizing previous with
  | nil => exact ⟨previous, rfl⟩
  | cons entry entries ih =>
    obtain ⟨habove, hascending⟩ := List.pairwise_cons.mp hroster.ascending
    obtain ⟨hvalid, hrest⟩ := List.forall_mem_cons.mp hroster.valid
    obtain ⟨hfirst, hadmits⟩ := List.forall_mem_cons.mp hadmits
    obtain ⟨identity, hidentity⟩ := hvalid.identity
    have hdecoded := decodedHex_of_get hidentity
    have habove' : ∀ p ∈ some entry.1, ∀ other ∈ entries, p.toList < other.1.toList := by
      simpa using habove
    obtain ⟨last, hlast⟩ := ih ⟨hrest, hascending⟩ hadmits habove'
    refine ⟨last, ?_⟩
    rw [Identity.devices, List.map_cons, List.foldlM_cons, Except.bind_eq_ok]
    refine ⟨some entry.1, ?_, hlast⟩
    simp only [validateAuthorizedDevice, Except.bind_eq_ok, members_eq_ok, liftM_eq_ok,
      reject_eq_ok]
    refine ⟨entry.2, rfl, entry.1, hvalid.endpoint, (), ?_, identity, hdecoded, (),
      hfirst identity hdecoded, rfl⟩
    cases previous with
    | none => simp
    | some p => simpa using hprevious p rfl entry List.mem_cons_self

theorem AuthorityData.loop (hprovider : Lenient provider) (h : data.WellFormed)
    {genesis : Bool} {priorDevices : List Value}
    (hdevices : ∀ device ∈ data.devices, unchangedDevice priorDevices device.print ∨
      (genesis = true → device.revoked = none ∧ device.admitted = data.epoch)) :
    ∃ last, (Identity.devices data.entries).foldlM (validateAuthorizedDevice provider
      (.object data.print) data.epoch genesis priorDevices data.endpointStates) none =
      .ok last := by
  refine (AuthorityData.roster h).foldlM_validateAuthorizedDevice ?_ nofun
  intro entry hentry identity hidentity
  obtain ⟨device, hdevice, rfl⟩ := List.mem_map.mp hentry
  have hdevice' : decodedHex 32 device.print "identityStateDigest" = .ok device.identity :=
    decodedHex_of_get rfl
  obtain rfl : device.identity = identity := Except.ok.inj (hdevice'.symm.trans hidentity)
  rcases hdevices device hdevice with hunchanged | hgenesis
  · rw [admitDevice, if_pos hunchanged]
  · exact AuthorityData.admits hprovider h hdevice hgenesis priorDevices

theorem AuthorityData.genesis_valid (hprovider : Lenient provider)
    (h : data.WellFormed) (hepoch : data.epoch = 0)
    (hdigest : userAuthorityStateDigest formatFinite provider (.object data.print) = .ok digest)
    (huser : deriveUserIdentityRef provider (KeySet.print data.management "management")
      (KeySet.print data.recovery "recovery") = .ok data.user)
    (hed : data.signatures.edId = data.management.edId)
    (hml : data.signatures.mlId = data.management.mlId)
    (hdevices : ∀ device ∈ data.devices, device.revoked = none ∧ device.admitted = 0) :
    validateUserAuthorityState formatFinite provider (.object data.print) none data.line
      data.endpointStates = .ok ⟨.object data.print, data.user, data.epoch, digest⟩ := by
  obtain ⟨_, htransition, hprevious⟩ := h.transition.resolve_right fun hother => hother.1 hepoch
  let r := AuthorityData.parsed h
  have hpurpose : authorityPurpose data.transition ∈ signaturePurposes :=
    AuthorityData.purpose data
  have hlink : data.print.get "previousUserAuthorityStateDigest" = none := by
    rw [AuthorityData.print, AuthorityData.record, hprevious]
    rfl
  have hproof : data.print.get "possessionProof" = none := by
    rw [AuthorityData.print, AuthorityData.record, hprevious]
    rfl
  obtain ⟨last, hloop⟩ : ∃ last, (Identity.devices data.entries).foldlM
      (validateAuthorizedDevice provider (.object data.print) data.epoch true []
        data.endpointStates) none = .ok last :=
    AuthorityData.loop hprovider h fun device hdevice => .inr fun _ =>
      hepoch ▸ hdevices device hdevice
  refine validateUserAuthorityState_eq_ok.mpr ⟨data.print, r, none, digest, rfl, ?_, rfl⟩
  refine ⟨AuthorityData.definition h, rfl, rfl, hdigest,
    ⟨KeySet.print data.management "management", ?_, hprovider.verifies hpurpose hed hml⟩,
    ⟨[], last, rfl, hloop⟩, rfl⟩
  simp only [signingKeys, genesisKeys, Except.bind_eq_ok, reject_eq_ok, not_not]
  refine ⟨(), ⟨htransition, hepoch, ?_, ?_⟩, data.user, huser, (), rfl, rfl⟩
  · simp [Map.containsKey, hlink]
  · simp [Map.containsKey, hproof]

theorem AuthorityData.genesis_accepted (hprovider : Permissive provider digest)
    (h : data.WellFormed) (hepoch : data.epoch = 0) (huser : data.user = digest)
    (hed : data.signatures.edId = data.management.edId)
    (hml : data.signatures.mlId = data.management.mlId)
    (hdevices : ∀ device ∈ data.devices, device.revoked = none ∧ device.admitted = 0) :
    validateUserAuthorityState formatFinite provider (.object data.print) none data.line
      data.endpointStates = .ok ⟨.object data.print, data.user, data.epoch, digest⟩ := by
  obtain ⟨projection, hderived⟩ : ∃ projection, deriveUserIdentityRef provider
      (KeySet.print data.management "management") (KeySet.print data.recovery "recovery") =
      .ok (provider.sha256 (domainInput userIdentityDomain projection)) :=
    AuthorityData.userIdentityRef
  rw [hprovider.sha256, ← huser] at hderived
  exact genesis_valid hprovider.lenient h hepoch (hprovider.stateDigest h) hderived hed hml hdevices

end Acceptance

section Successor

/-- A device that is kept, or revoked in an epoch. -/
def DeviceData.Follows (epoch : Nat) (prior current : DeviceData) : Prop :=
  current = prior ∨ prior.revoked = none ∧ current = { prior with revoked := some epoch }

/-- A state that a management step puts after another one, with the keys kept. -/
structure AuthorityData.Follows (digest : FixedBytes 32) (prior next : AuthorityData) : Prop where
  line : next.line = prior.line
  user : next.user = prior.user
  epoch : next.epoch = prior.epoch + 1
  transition : next.transition = "management"
  previous : next.previous = some digest
  management : next.management = prior.management
  recovery : next.recovery = prior.recovery
  signed : next.signatures.edId = prior.management.edId ∧
    next.signatures.mlId = prior.management.mlId
  listed : ∀ device ∈ prior.devices, ∀ current ∈ next.devices,
    current.endpoint = device.endpoint → DeviceData.Follows next.epoch device current
  kept : ∀ device ∈ prior.devices, device.revoked = none →
    ∃ current ∈ next.devices, current.endpoint = device.endpoint
  admitted : ∀ device ∈ next.devices, (∀ p ∈ prior.devices, p.endpoint ≠ device.endpoint) →
    device.revoked = none ∧ device.admitted = next.epoch

variable {formatFinite : Rat → String} {provider : Provider} {digest : FixedBytes 32}
  {prior next : AuthorityData} {device : DeviceData}

theorem AuthorityData.lookup_device (h : next.WellFormed) {item : Map} :
    next.entries.lookup device.endpoint = some item ↔
      ∃ current ∈ next.devices, current.endpoint = device.endpoint ∧ current.print = item := by
  rw [(AuthorityData.roster h).lookup, AuthorityData.entries, List.mem_map]
  simp only [Prod.mk.injEq]

theorem AuthorityData.lookup_none (h : next.WellFormed) :
    next.entries.lookup device.endpoint = none ↔
      ∀ current ∈ next.devices, current.endpoint ≠ device.endpoint := by
  rw [Option.eq_none_iff_forall_not_mem]
  simp only [Option.mem_def, AuthorityData.lookup_device h]
  constructor
  · intro hmiss current hcurrent heq
    exact hmiss _ ⟨current, hcurrent, heq, rfl⟩
  · rintro hmiss _ ⟨current, hcurrent, heq, rfl⟩
    exact hmiss current hcurrent heq

theorem DeviceData.text_status : text device.print "deviceStatus" = .ok device.status :=
  text_eq_ok.mpr rfl

theorem DeviceData.get_revoked :
    device.print.get "revokedAuthorityEpoch" = device.revoked.map natural := by
  rw [DeviceData.print]
  cases device.revoked <;> rfl

theorem AuthorityData.Follows.validateListed (h : next.WellFormed)
    (hfollows : AuthorityData.Follows digest prior next) (hdevice : device ∈ prior.devices) :
    validateListedDevice next.entries next.epoch (device.endpoint, device.print) = .ok () := by
  simp only [validateListedDevice, DeviceData.text_status, Except.bind_eq_ok, liftM_eq_ok]
  refine ⟨device.status, rfl, ?_⟩
  cases hlookup : next.entries.lookup device.endpoint with
  | none =>
    have hmiss := (AuthorityData.lookup_none h).mp hlookup
    simp only [reject_eq_ok]
    intro hactive
    have hrevoked : device.revoked = none := by
      cases hcase : device.revoked with
      | none => rfl
      | some e =>
        rw [DeviceData.status, hcase] at hactive
        exact absurd hactive (by simp)
    obtain ⟨current, hcurrent, heq⟩ := hfollows.kept device hdevice hrevoked
    exact hmiss current hcurrent heq
  | some item =>
    obtain ⟨current, hcurrent, heq, rfl⟩ := (AuthorityData.lookup_device h).mp hlookup
    simp only
    rcases hfollows.listed device hdevice current hcurrent heq with rfl | ⟨hactive, rfl⟩
    · split
      · simp
      · rename_i hstatus
        simp [DeviceData.text_status, hstatus, Except.bind_eq_ok, liftM_eq_ok]
    · have hstatus : device.status = "active" := by rw [DeviceData.status, hactive]; rfl
      have hrevoked : ({ device with revoked := some next.epoch } : DeviceData).status =
        "revoked" := rfl
      rw [if_neg (by rw [hstatus]; decide)]
      simp only [DeviceData.text_status, hrevoked, Except.bind_eq_ok, liftM_eq_ok]
      refine ⟨_, rfl, ?_⟩
      rw [if_pos rfl, reject_of_not]
      rw [not_or, not_or, not_or, not_not, not_not, not_not, not_not, DeviceData.get_revoked]
      refine ⟨rfl, rfl, rfl, ?_⟩
      rw [Option.map_some, Option.bind_some, natural_asU64 h.epoch]

theorem AuthorityData.Follows.validateNew (hprior : prior.WellFormed) (h : next.WellFormed)
    (hfollows : AuthorityData.Follows digest prior next) (hdevice : device ∈ next.devices) :
    validateNewDevice prior.entries next.epoch (device.endpoint, device.print) = .ok () := by
  rw [validateNewDevice]
  cases hlookup : prior.entries.lookup device.endpoint with
  | some item => rfl
  | none =>
    obtain ⟨hactive, hadmitted⟩ := hfollows.admitted device hdevice
      ((AuthorityData.lookup_none hprior).mp hlookup)
    have hget : device.print.get "admittedAuthorityEpoch" = some (natural device.admitted) := rfl
    simp only [DeviceData.text_status, Except.bind_eq_ok, liftM_eq_ok, reject_eq_ok, not_or,
      not_not]
    refine ⟨device.status, rfl, by rw [DeviceData.status, hactive]; rfl, ?_⟩
    rw [hget, Option.bind_some, natural_asU64 ((h.admitted device hdevice).trans h.epoch),
      hadmitted]

theorem AuthorityData.Follows.roster (hprior : prior.WellFormed) (h : next.WellFormed)
    (hfollows : AuthorityData.Follows digest prior next) :
    validateRosterTransition (Identity.devices prior.entries) (Identity.devices next.entries)
      next.epoch = .ok () := by
  rw [validateRosterTransition_eq_ok (AuthorityData.roster hprior) (AuthorityData.roster h)]
  constructor
  · intro entry hentry
    obtain ⟨device, hdevice, rfl⟩ := List.mem_map.mp hentry
    exact hfollows.validateListed h hdevice
  · intro entry hentry
    obtain ⟨device, hdevice, rfl⟩ := List.mem_map.mp hentry
    exact hfollows.validateNew hprior h hdevice

theorem AuthorityData.successor_valid {link : FixedBytes 32} (hprovider : Lenient provider)
    (hprior : prior.WellFormed) (h : next.WellFormed)
    (hfollows : AuthorityData.Follows link prior next)
    (hlinked : userAuthorityStateDigest formatFinite provider (.object prior.print) = .ok link)
    (hdigest : userAuthorityStateDigest formatFinite provider (.object next.print) = .ok digest) :
    validateUserAuthorityState formatFinite provider (.object next.print)
      (some (.object prior.print)) next.line next.endpointStates =
        .ok ⟨.object next.print, next.user, next.epoch, digest⟩ := by
  let r := AuthorityData.parsed h
  let q := AuthorityData.parsed hprior
  have hpurpose : authorityPurpose next.transition ∈ signaturePurposes :=
    AuthorityData.purpose next
  have hproof : next.print.get "possessionProof" = none := by
    rw [AuthorityData.print, AuthorityData.record]
    cases next.previous <;> rfl
  have hmanagement : next.print.get "managementSigningKeys" =
      prior.print.get "managementSigningKeys" := by
    rw [r.get_management, q.get_management]
    exact congrArg (fun keys => some (Value.array (KeySet.print keys "management")))
      hfollows.management
  have hrecovery : next.print.get "recoverySigningKeys" =
      prior.print.get "recoverySigningKeys" := by
    rw [r.get_recovery, q.get_recovery]
    exact congrArg (fun keys => some (Value.array (KeySet.print keys "recovery")))
      hfollows.recovery
  have hread : previousRecord formatFinite (some (.object prior.print)) =
      .ok (some (.object prior.print, prior.print)) := by
    simp only [previousRecord, Except.bind_eq_ok, liftM_eq_ok, members_eq_ok]
    exact ⟨(), AuthorityData.definition hprior, prior.print, rfl, rfl⟩
  obtain ⟨last, hloop⟩ : ∃ last, (Identity.devices next.entries).foldlM
      (validateAuthorizedDevice provider (.object next.print) next.epoch false
        (Identity.devices prior.entries) next.endpointStates) none = .ok last :=
    AuthorityData.loop hprovider h fun _ _ => .inr nofun
  refine validateUserAuthorityState_eq_ok.mpr
    ⟨next.print, r, some (.object prior.print, prior.print), digest, rfl, ?_, rfl⟩
  refine ⟨AuthorityData.definition h, rfl, hread, hdigest,
    ⟨KeySet.print prior.management "management", ?_,
      hprovider.verifies hpurpose hfollows.signed.1 hfollows.signed.2⟩,
    ⟨Identity.devices prior.entries, last, ?_, hloop⟩, ?_⟩
  · have hepoch : next.epoch < 2 ^ 64 := lt_of_le_of_lt h.epoch (by decide)
    have hlink : next.print.get "previousUserAuthorityStateDigest" = some (hexText link) := by
      rw [AuthorityData.print, AuthorityData.record, hfollows.previous]
      rfl
    have hnext := hfollows.epoch
    simp only [signingKeys, successorKeys, Except.bind_eq_ok, reject_eq_ok, liftM_eq_ok,
      array_eq_ok]
    refine ⟨(), by simp [r, AuthorityData.parsed, hfollows.transition], link,
      hlinked, q.epoch, q.get_epoch, (), ?_, (), ?_, (), ?_, _, q.get_devices,
      _, r.get_devices, (), hfollows.roster hprior h, ?_⟩
    · change ¬prior.epoch + 1 ≥ 2 ^ 64
      omega
    · rw [not_or, not_or, not_or, not_not, not_not, not_not, not_not, hlink, r.get_user, q.get_user,
        r.get_line, q.get_line]
      refine ⟨hnext, rfl, ?_, ?_⟩
      · exact congrArg (fun user => some (hexText user)) hfollows.user
      · exact congrArg (fun line => some (hexText line)) hfollows.line
    · rw [not_and, not_not]
      exact fun _ => hrecovery
    · have htransition : r.transition = "management" := hfollows.transition
      rw [if_pos htransition]
      exact q.get_management
  · simp only [priorRoster, array_eq_ok]
    exact q.get_devices
  · have htransition : r.transition = "management" := hfollows.transition
    simp [validateReplacement, hmanagement, htransition, Map.containsKey, hproof]

theorem AuthorityData.successor_accepted (hprovider : Permissive provider digest)
    (hprior : prior.WellFormed) (h : next.WellFormed)
    (hfollows : AuthorityData.Follows digest prior next) :
    validateUserAuthorityState formatFinite provider (.object next.print)
      (some (.object prior.print)) next.line next.endpointStates =
        .ok ⟨.object next.print, next.user, next.epoch, digest⟩ :=
  successor_valid hprovider.lenient hprior h hfollows (hprovider.stateDigest hprior)
    (hprovider.stateDigest h)

end Successor

end Identity

end LicoArc
