import LicoArc.AuthorityStep
import LicoArc.RecordSize

/-!
# Printed user authority states

A user authority state as typed data and the JSON record that it is written as.
A printed state with a small roster passes the definition checks, and it has a
digest under every provider.
-/

namespace LicoArc

namespace Identity

open Json

section Within

/-- A value that fits, with a bound on its budget and on its canonical text. -/
structure Within (levels size : Nat) (value : Value) : Prop where
  fits : value.Fits levels
  budget : value.budget ≤ size
  canonical : value.canonicalSize ≤ size

structure EntriesWithin (levels size : Nat) (entries : List (String × Value)) : Prop where
  fits : Value.EntriesFit levels entries
  names : ∀ entry ∈ entries, (Encoding.textBytes entry.1).length ≤ 36
  budget : (entries.map fun entry => (Encoding.textBytes entry.1).length).sum +
    Value.entriesBudget entries ≤ size
  canonical : Value.entriesSize entries ≤ size

structure ItemsWithin (levels size : Nat) (values : List Value) : Prop where
  fits : Value.ItemsFit levels values
  budget : Value.itemsBudget values ≤ size
  canonical : Value.itemsSize values ≤ size

variable {levels : Nat}

theorem within_hex {bytes : Bytes} (h : bytes.length * 2 ≤ 8192) :
    Within levels (bytes.length * 2 + 2) (.string (hexBytes bytes)) where
  fits := by rwa [Value.Fits, hexBytes_size]
  budget := by
    rw [Value.budget, hexBytes_size]
    omega
  canonical := by rw [Value.canonicalSize, quoted_hexBytes]

theorem within_text {text : String} (hsize : (Encoding.textBytes text).length ≤ 66)
    (hquoted : (quoted text).utf8ByteSize ≤ 66) : Within levels 66 (.string text) where
  fits := by
    rw [Value.Fits]
    omega
  budget := by rwa [Value.budget]
  canonical := by rwa [Value.canonicalSize]

theorem within_integer {n : Nat} (h : n ≤ maxInteger) :
    Within levels 17 (.number (.integer n)) where
  fits := by rwa [Value.Fits]
  budget := by
    rw [Value.budget]
    omega
  canonical := by rw [Value.canonicalSize]

theorem itemsWithin_nil : ItemsWithin levels 0 [] := ⟨trivial, le_rfl, le_rfl⟩

theorem ItemsWithin.cons {size rest : Nat} {value : Value} {values : List Value}
    (hvalue : Within levels size value) (hvalues : ItemsWithin levels rest values) :
    ItemsWithin levels (1 + size + rest) (value :: values) where
  fits := ⟨hvalue.fits, hvalues.fits⟩
  budget := by
    have h := hvalue.budget
    have h' := hvalues.budget
    rw [Value.itemsBudget]
    omega
  canonical := by
    have h := hvalue.canonical
    have h' := hvalues.canonical
    rw [Value.itemsSize]
    omega

theorem itemsWithin_of_forall {size : Nat} {values : List Value}
    (h : ∀ value ∈ values, Within levels size value) :
    ItemsWithin levels (values.length * (1 + size)) values := by
  induction values with
  | nil => simpa using itemsWithin_nil
  | cons value values ih =>
    obtain ⟨hvalue, hvalues⟩ := List.forall_mem_cons.mp h
    have hcons := ItemsWithin.cons hvalue (ih hvalues)
    rwa [List.length_cons, add_mul, one_mul, add_comm (values.length * _)]

theorem ItemsWithin.array {size : Nat} {values : List Value} (h : ItemsWithin levels size values)
    (hlength : values.length ≤ 64) : Within (levels + 1) (2 + size) (.array values) where
  fits := ⟨hlength, nofun, h.fits⟩
  budget := by
    have := h.budget
    rw [Value.budget]
    omega
  canonical := by
    have := h.canonical
    rw [Value.canonicalSize]
    omega

theorem entriesWithin_nil : EntriesWithin levels 0 [] := ⟨trivial, (by rintro _ ⟨⟩), le_rfl, le_rfl⟩

theorem EntriesWithin.cons {size rest : Nat} {value : Value} {entries : List (String × Value)}
    (hentries : EntriesWithin levels rest entries) (key : String)
    (hvalue : Within levels size value)
    (hkey : (Encoding.textBytes key).length ≤ 36 ∧ (quoted key).utf8ByteSize ≤ 36) :
    EntriesWithin levels (38 + size + rest) ((key, value) :: entries) where
  fits := ⟨hvalue.fits, hentries.fits⟩
  names := List.forall_mem_cons.mpr ⟨hkey.1, hentries.names⟩
  budget := by
    have h := hvalue.budget
    have h' := hentries.budget
    have hname := hkey.1
    simp only [List.map_cons, List.sum_cons, Value.entriesBudget]
    omega
  canonical := by
    have h := hvalue.canonical
    have h' := hentries.canonical
    rw [Value.entriesSize]
    omega

theorem EntriesWithin.object {size : Nat} {entries : List (String × Value)}
    (h : EntriesWithin levels size entries) (hlength : entries.length ≤ 64) :
    Within (levels + 1) (2 + size) (.object entries) where
  fits := ⟨hlength, nofun, fun entry hentry => (h.names entry hentry).trans (by decide), h.fits⟩
  budget := by
    have := h.budget
    rw [Value.budget]
    omega
  canonical := by
    have := h.canonical
    rw [Value.canonicalSize]
    omega

theorem Within.mono {size size' : Nat} {value : Value} (h : Within levels size value)
    (hle : size ≤ size') : Within levels size' value :=
  ⟨h.fits, h.budget.trans hle, h.canonical.trans hle⟩

theorem EntriesWithin.mono {size size' : Nat} {entries : List (String × Value)}
    (h : EntriesWithin levels size entries) (hle : size ≤ size') :
    EntriesWithin levels size' entries :=
  ⟨h.fits, h.names, h.budget.trans hle, h.canonical.trans hle⟩

end Within

section Data

/-- Two keys, or two signatures, of the two algorithms under distinct key ids. -/
structure Pair (edSize mlSize : Nat) where
  edId : FixedBytes 32
  mlId : FixedBytes 32
  ed : FixedBytes edSize
  ml : FixedBytes mlSize
  distinct : edId ≠ mlId

abbrev KeySet := Pair 32 1952
abbrev SignatureSet := Pair 64 3309

structure DeviceData where
  endpoint : FixedBytes 32
  identity : FixedBytes 32
  admitted : Nat
  revoked : Option Nat
  proof : SignatureSet

structure AuthorityData where
  line : FixedBytes 32
  user : FixedBytes 32
  epoch : Nat
  transition : String
  previous : Option (FixedBytes 32)
  management : KeySet
  recovery : KeySet
  devices : List DeviceData
  signatures : SignatureSet

def hexText {n : Nat} (v : FixedBytes n) : Value := .string (hexBytes v.toList)

def natural (n : Nat) : Value := .number (.integer n)

def printKey {size : Nat} (purpose profile : String) (id : FixedBytes 32) (key : FixedBytes size) :
    Map :=
  [("keyId", hexText id), ("keyProfileId", .string profile), ("keyPurpose", .string purpose),
    ("publicKey", hexText key)]

def KeySet.print (keys : KeySet) (purpose : String) : List Value :=
  [.object (printKey purpose ed25519ProfileId keys.edId keys.ed),
    .object (printKey purpose mlDsa65ProfileId keys.mlId keys.ml)]

def printSignature {size : Nat} (purpose profile : String) (id : FixedBytes 32)
    (value : FixedBytes size) : Map :=
  [("keyId", hexText id), ("keyProfileId", .string profile), ("signaturePurpose", .string purpose),
    ("signatureValue", hexText value)]

def SignatureSet.print (signatures : SignatureSet) (purpose : String) : List Value :=
  [.object (printSignature purpose ed25519ProfileId signatures.edId signatures.ed),
    .object (printSignature purpose mlDsa65ProfileId signatures.mlId signatures.ml)]

def DeviceData.status (device : DeviceData) : String :=
  if device.revoked.isSome then "revoked" else "active"

def DeviceData.print (device : DeviceData) : Map :=
  [("admittedAuthorityEpoch", natural device.admitted), ("deviceStatus", .string device.status),
    ("endpointIdentityRef", hexText device.endpoint),
    ("identityStateDigest", hexText device.identity),
    ("possessionProof", .array (SignatureSet.print device.proof "device-possession"))] ++
  device.revoked.toList.map fun epoch => ("revokedAuthorityEpoch", natural epoch)

def AuthorityData.entries (data : AuthorityData) : List (FixedBytes 32 × Map) :=
  data.devices.map fun device => (device.endpoint, device.print)

def AuthorityData.record (data : AuthorityData) (devices : List Value) : Map :=
  [("authorityEpoch", natural data.epoch),
    ("authoritySignatures",
      .array (SignatureSet.print data.signatures (authorityPurpose data.transition))),
    ("authorityTransitionKind", .string data.transition),
    ("authorizedDevices", .array devices),
    ("managementSigningKeys", .array (KeySet.print data.management "management"))] ++
  (data.previous.toList.map fun digest => ("previousUserAuthorityStateDigest", hexText digest)) ++
  [("protocolLineId", hexText data.line), ("recordType", .string "userAuthorityState"),
    ("recoverySigningKeys", .array (KeySet.print data.recovery "recovery")),
    ("userIdentityRef", hexText data.user)]

def AuthorityData.print (data : AuthorityData) : Map :=
  data.record (Identity.devices data.entries)

/-- Data whose record is accepted: the epochs are in order and the roster is ascending. -/
structure AuthorityData.WellFormed (data : AuthorityData) : Prop where
  epoch : data.epoch ≤ maxEpoch
  transition : data.epoch = 0 ∧ data.transition = "genesis" ∧ data.previous = none ∨
    data.epoch ≠ 0 ∧ data.transition ∈ ["management", "recovery"] ∧ data.previous ≠ none
  bounded : data.devices ≠ [] ∧ data.devices.length ≤ 3
  ascending : data.devices.Pairwise fun a b => a.endpoint.toList < b.endpoint.toList
  admitted : ∀ device ∈ data.devices, device.admitted ≤ data.epoch
  revoked : ∀ device ∈ data.devices, ∀ epoch ∈ device.revoked,
    device.admitted ≤ epoch ∧ epoch ≤ data.epoch

end Data

section Shape

theorem KeySet.valid (keys : KeySet) (purpose : String) :
    validateAuthorityKeys (KeySet.print keys purpose) purpose = .ok () := by
  refine validateAuthorityKeys_eq_ok.mpr ⟨_, _, rfl, ?_, ?_, ?_⟩
  · exact ⟨rfl, rfl, rfl, ⟨keys.edId, rfl⟩, keys.ed, rfl⟩
  · exact ⟨rfl, rfl, rfl, ⟨keys.mlId, rfl⟩, keys.ml, rfl⟩
  · intro h
    injection (Option.some.inj h) with h
    exact keys.distinct (hexBytes_injective h)

theorem SignatureSet.valid (signatures : SignatureSet) {purpose : String}
    (hpurpose : purpose ∈ signaturePurposes) :
    validateSignatureArray (SignatureSet.print signatures purpose) = .ok () := by
  refine validateSignatureArray_eq_ok.mpr ⟨_, _, rfl, ?_, ?_, ?_⟩
  · exact ⟨rfl, ⟨purpose, hpurpose, rfl⟩, rfl, ⟨signatures.edId, rfl⟩, signatures.ed, rfl⟩
  · exact ⟨rfl, ⟨purpose, hpurpose, rfl⟩, rfl, ⟨signatures.mlId, rfl⟩, signatures.ml, rfl⟩
  · intro h
    injection (Option.some.inj h) with h
    exact signatures.distinct (hexBytes_injective h)

theorem natural_asU64 {n : Nat} (h : n ≤ maxEpoch) : (natural n).asU64 = some n := by
  have hlt : n < 2 ^ 64 := lt_of_le_of_lt h (by decide)
  rw [natural, Value.asU64, if_pos (by omega), Int.toNat_natCast]

theorem unsigned_natural {record : Map} {key : String} {n : Nat} (h : n ≤ maxEpoch)
    (hget : record.get key = some (natural n)) : unsigned record key = .ok n := by
  rw [unsigned_eq_ok, hget, Option.bind_some, natural_asU64 h]
  exact ⟨rfl, h⟩

theorem DeviceData.record {epoch : Nat} (hepoch : epoch ≤ maxEpoch) {device : DeviceData}
    (hadmitted : device.admitted ≤ epoch)
    (hrevoked : ∀ e ∈ device.revoked, device.admitted ≤ e ∧ e ≤ epoch) :
    DeviceRecord epoch device.print device.endpoint where
  closed := by
    rw [closed_eq_ok, DeviceData.print]
    cases device.revoked <;>
      simp [deviceMembers, requiredDeviceMembers, Map.get, List.lookup]
  endpoint := decodedHex_of_get rfl
  identity := ⟨device.identity, rfl⟩
  admitted := by
    refine ⟨device.admitted, hadmitted, unsigned_natural (hadmitted.trans hepoch) rfl, ?_⟩
    simp only [validateDeviceStatus, Except.bind_eq_ok, text_eq_ok]
    cases hcase : device.revoked with
    | none =>
      refine ⟨"active", by simp [DeviceData.print, DeviceData.status, hcase]; rfl, ?_⟩
      rw [if_pos]
      · rfl
      · refine ⟨rfl, ?_⟩
        rw [DeviceData.print, hcase]
        exact Bool.false_ne_true
    | some e =>
      obtain ⟨hlower, hupper⟩ := hrevoked e hcase
      have hget : device.print.get "revokedAuthorityEpoch" = some (natural e) := by
        rw [DeviceData.print, hcase]
        rfl
      refine ⟨"revoked", by simp [DeviceData.print, DeviceData.status, hcase]; rfl, ?_⟩
      rw [if_neg (by simp), if_pos ⟨rfl, by rw [Map.containsKey, hget]; rfl⟩,
        unsigned_natural (hupper.trans hepoch) hget, Except.ok_bind, reject_of_not _ (by omega)]
  proof := ⟨_, rfl, SignatureSet.valid _ (by decide)⟩

theorem AuthorityData.roster {data : AuthorityData} (h : data.WellFormed) :
    Roster data.epoch data.entries where
  valid := by
    intro entry hentry
    obtain ⟨device, hdevice, rfl⟩ := List.mem_map.mp hentry
    exact DeviceData.record h.epoch (h.admitted device hdevice) (h.revoked device hdevice)
  ascending := by
    rw [AuthorityData.entries, List.pairwise_map]
    exact h.ascending

theorem AuthorityData.purpose (data : AuthorityData) :
    authorityPurpose data.transition ∈ signaturePurposes := by
  rw [authorityPurpose]
  split_ifs <;> decide

theorem AuthorityData.print_closed (data : AuthorityData) :
    closed data.print authorityMembers requiredAuthorityMembers = .ok () := by
  rw [closed_eq_ok, AuthorityData.print, AuthorityData.record]
  cases data.previous <;>
    simp [authorityMembers, requiredAuthorityMembers, Map.get, List.lookup]

theorem AuthorityData.print_linked {data : AuthorityData} (h : data.WellFormed) :
    data.epoch = 0 ↔ data.print.get "previousUserAuthorityStateDigest" = none := by
  rw [AuthorityData.print, AuthorityData.record]
  rcases h.transition with ⟨hepoch, _, hprevious⟩ | ⟨hepoch, _, hprevious⟩
  · rw [hprevious]
    exact iff_of_true hepoch rfl
  · obtain ⟨digest, hdigest⟩ := Option.ne_none_iff_exists'.mp hprevious
    rw [hdigest]
    exact iff_of_false hepoch (by rintro ⟨⟩)

theorem AuthorityData.print_previous (data : AuthorityData) :
    ∀ value ∈ data.print.get "previousUserAuthorityStateDigest",
      ∃ digest : FixedBytes 32, value = .string (hexBytes digest.toList) := by
  rw [AuthorityData.print, AuthorityData.record]
  intro value hvalue
  cases hprevious : data.previous with
  | none =>
    rw [hprevious] at hvalue
    cases hvalue
  | some digest =>
    rw [hprevious] at hvalue
    exact ⟨digest, (Option.some.inj hvalue).symm⟩

theorem AuthorityData.WellFormed.entries {data : AuthorityData} (h : data.WellFormed) :
    data.entries ≠ [] ∧ data.entries.length ≤ 16 := by
  have hbounded := h.bounded
  simp only [AuthorityData.entries, ne_eq, List.map_eq_nil_iff, List.length_map]
  exact ⟨hbounded.1, by omega⟩

def AuthorityData.parsed {data : AuthorityData} (h : data.WellFormed) :
    AuthorityRecord data.print where
  line := data.line
  user := data.user
  epoch := data.epoch
  transition := data.transition
  management := KeySet.print data.management "management"
  recovery := KeySet.print data.recovery "recovery"
  entries := data.entries
  signatures := SignatureSet.print data.signatures (authorityPurpose data.transition)
  closed := data.print_closed
  get_line := by
    rw [AuthorityData.print, AuthorityData.record]
    cases data.previous <;> rfl
  get_user := by
    rw [AuthorityData.print, AuthorityData.record]
    cases data.previous <;> rfl
  get_epoch := unsigned_natural h.epoch rfl
  get_transition := rfl
  genesis := by
    rcases h.transition with ⟨hepoch, htransition, _⟩ | ⟨hepoch, htransition, _⟩
    · exact iff_of_true hepoch htransition
    · refine iff_of_false hepoch fun hgenesis => ?_
      rw [hgenesis] at htransition
      exact absurd htransition (by decide)
  linked := AuthorityData.print_linked h
  previous := data.print_previous
  get_management := rfl
  management_keys := KeySet.valid _ _
  get_recovery := by
    rw [AuthorityData.print, AuthorityData.record]
    cases data.previous <;> rfl
  recovery_keys := KeySet.valid _ _
  get_devices := rfl
  bounded := h.entries
  roster := AuthorityData.roster h
  proof := by
    have hproof : data.print.get "possessionProof" = none := by
      rw [AuthorityData.print, AuthorityData.record]
      cases data.previous <;> rfl
    rw [validateReplacementProof, hproof]
  get_signatures := rfl
  signed := SignatureSet.valid _ (AuthorityData.purpose data)

end Shape

section Size

theorem within_hexText {levels n : Nat} (v : FixedBytes n) (h : n ≤ 4096) :
    Within levels (n * 2 + 2) (hexText v) := by
  have hlength : v.toList.length = n := List.Vector.toList_length v
  have hex : Within levels (v.toList.length * 2 + 2) (hexText v) := within_hex (by omega)
  rwa [hlength] at hex

theorem within_profile {levels : Nat} {profile : String}
    (h : profile = ed25519ProfileId ∨ profile = mlDsa65ProfileId) :
    Within levels 66 (.string profile) := by
  rcases h with rfl | rfl <;> exact within_text (by decide) (by decide)

theorem within_purpose {levels : Nat} {purpose : String}
    (h : purpose ∈ "management" :: "recovery" :: signaturePurposes) :
    Within levels 66 (.string purpose) := by
  have hall : ∀ purpose ∈ "management" :: "recovery" :: signaturePurposes,
      (Encoding.textBytes purpose).length ≤ 66 ∧ (quoted purpose).utf8ByteSize ≤ 66 := by decide
  exact within_text (hall purpose h).1 (hall purpose h).2

theorem within_printKey {levels size : Nat} {purpose profile : String} (id : FixedBytes 32)
    (key : FixedBytes size) (hsize : size ≤ 1952)
    (hpurpose : purpose ∈ "management" :: "recovery" :: signaturePurposes)
    (hprofile : profile = ed25519ProfileId ∨ profile = mlDsa65ProfileId) :
    Within (levels + 1) (354 + size * 2) (.object (printKey purpose profile id key)) := by
  have hnil : EntriesWithin levels 0 [] := entriesWithin_nil
  have hkey := hnil.cons "publicKey" (within_hexText key (by omega)) (by decide)
  have hpurposes := hkey.cons "keyPurpose" (within_purpose hpurpose) (by decide)
  have hprofiles := hpurposes.cons "keyProfileId" (within_profile hprofile) (by decide)
  have hentries := hprofiles.cons "keyId" (within_hexText id (by decide)) (by decide)
  exact (hentries.object (by simp)).mono (by omega)

theorem within_printSignature {levels size : Nat} {purpose profile : String} (id : FixedBytes 32)
    (value : FixedBytes size) (hsize : size ≤ 3309)
    (hpurpose : purpose ∈ "management" :: "recovery" :: signaturePurposes)
    (hprofile : profile = ed25519ProfileId ∨ profile = mlDsa65ProfileId) :
    Within (levels + 1) (354 + size * 2)
      (.object (printSignature purpose profile id value)) := by
  have hnil : EntriesWithin levels 0 [] := entriesWithin_nil
  have hvalue := hnil.cons "signatureValue" (within_hexText value (by omega)) (by decide)
  have hpurposes := hvalue.cons "signaturePurpose" (within_purpose hpurpose) (by decide)
  have hprofiles := hpurposes.cons "keyProfileId" (within_profile hprofile) (by decide)
  have hentries := hprofiles.cons "keyId" (within_hexText id (by decide)) (by decide)
  exact (hentries.object (by simp)).mono (by omega)

theorem KeySet.within {levels : Nat} (keys : KeySet) {purpose : String}
    (hpurpose : purpose ∈ "management" :: "recovery" :: signaturePurposes) :
    Within (levels + 2) 4680 (.array (KeySet.print keys purpose)) := by
  have hnil : ItemsWithin (levels + 1) 0 [] := itemsWithin_nil
  have hml := hnil.cons (within_printKey keys.mlId keys.ml le_rfl hpurpose (.inr rfl))
  have hitems := hml.cons (within_printKey keys.edId keys.ed (by decide) hpurpose (.inl rfl))
  exact hitems.array (by simp)

theorem SignatureSet.within {levels : Nat} (signatures : SignatureSet) {purpose : String}
    (hpurpose : purpose ∈ signaturePurposes) :
    Within (levels + 2) 7458 (.array (SignatureSet.print signatures purpose)) := by
  have hpurpose' : purpose ∈ "management" :: "recovery" :: signaturePurposes :=
    List.mem_cons_of_mem _ (List.mem_cons_of_mem _ hpurpose)
  have hnil : ItemsWithin (levels + 1) 0 [] := itemsWithin_nil
  have hml := hnil.cons
    (within_printSignature signatures.mlId signatures.ml le_rfl hpurpose' (.inr rfl))
  have hitems := hml.cons
    (within_printSignature signatures.edId signatures.ed (by decide) hpurpose' (.inl rfl))
  exact hitems.array (by simp)

theorem within_natural {levels n : Nat} (h : n ≤ maxEpoch) : Within levels 17 (natural n) :=
  within_integer h

theorem within_status {levels : Nat} (device : DeviceData) :
    Within levels 66 (.string device.status) := by
  rw [DeviceData.status]
  split_ifs <;> exact within_text (by decide) (by decide)

theorem DeviceData.within {levels : Nat} (device : DeviceData)
    (hadmitted : device.admitted ≤ maxEpoch) (hrevoked : ∀ e ∈ device.revoked, e ≤ maxEpoch) :
    Within (levels + 3) 7920 (.object device.print) := by
  have hlast : EntriesWithin (levels + 2) 55
      (device.revoked.toList.map fun epoch => ("revokedAuthorityEpoch", natural epoch)) := by
    cases hcase : device.revoked with
    | none => exact ⟨trivial, nofun, Nat.zero_le _, Nat.zero_le _⟩
    | some e =>
      exact entriesWithin_nil.cons "revokedAuthorityEpoch" (within_natural (hrevoked e hcase))
        (by decide)
  have hpurpose : "device-possession" ∈ signaturePurposes := by decide
  have hproof := hlast.cons "possessionProof" (SignatureSet.within device.proof hpurpose)
    (by decide)
  have hidentity := hproof.cons "identityStateDigest" (within_hexText device.identity (by decide))
    (by decide)
  have hendpoint := hidentity.cons "endpointIdentityRef"
    (within_hexText device.endpoint (by decide)) (by decide)
  have hstatus := hendpoint.cons "deviceStatus" (within_status device) (by decide)
  have hentries := hstatus.cons "admittedAuthorityEpoch" (within_natural hadmitted) (by decide)
  refine (hentries.object ?_).mono (by omega)
  cases device.revoked <;> simp

theorem AuthorityData.within_devices {data : AuthorityData} (h : data.WellFormed) :
    Within 15 23765 (.array (Identity.devices data.entries)) := by
  have hall : ∀ value ∈ Identity.devices data.entries, Within 14 7920 value := by
    intro value hvalue
    simp only [Identity.devices, AuthorityData.entries, List.map_map, List.mem_map] at hvalue
    obtain ⟨device, hdevice, rfl⟩ := hvalue
    exact DeviceData.within device ((h.admitted device hdevice).trans h.epoch)
      fun e he => ((h.revoked device hdevice e he).2).trans h.epoch
  have hlength : (Identity.devices data.entries).length ≤ 3 := by
    simpa [Identity.devices, AuthorityData.entries] using h.bounded.2
  exact ((itemsWithin_of_forall hall).array (by omega)).mono (by omega)

theorem within_recordType {levels : Nat} : Within levels 66 (.string "userAuthorityState") :=
  within_text (by decide) (by decide)

theorem AuthorityData.within_transition {data : AuthorityData} (h : data.WellFormed)
    {levels : Nat} : Within levels 66 (.string data.transition) := by
  have hall : ∀ transition ∈ ["genesis", "management", "recovery"],
      (Encoding.textBytes transition).length ≤ 66 ∧
        (quoted transition).utf8ByteSize ≤ 66 := by decide
  have hmem : data.transition ∈ ["genesis", "management", "recovery"] := by
    rcases h.transition with ⟨_, htransition, _⟩ | ⟨_, htransition, _⟩
    · rw [htransition]
      decide
    · exact List.mem_cons_of_mem _ htransition
  exact within_text (hall _ hmem).1 (hall _ hmem).2

theorem AuthorityData.within {data : AuthorityData} (h : data.WellFormed) {roster : List Value}
    (hroster : Within 15 23765 (.array roster)) :
    Within 16 41316 (.object (data.record roster)) := by
  have hmanagement : "management" ∈ "management" :: "recovery" :: signaturePurposes := by decide
  have hrecovery : "recovery" ∈ "management" :: "recovery" :: signaturePurposes := by decide
  have hnil : EntriesWithin 15 0 [] := entriesWithin_nil
  have huser := hnil.cons "userIdentityRef" (within_hexText data.user (by decide)) (by decide)
  have hrecoveryKeys := huser.cons "recoverySigningKeys" (KeySet.within data.recovery hrecovery)
    (by decide)
  have htype := hrecoveryKeys.cons "recordType" within_recordType (by decide)
  have hline := htype.cons "protocolLineId" (within_hexText data.line (by decide)) (by decide)
  have hprevious : EntriesWithin 15 5138
      ((data.previous.toList.map fun digest =>
        ("previousUserAuthorityStateDigest", hexText digest)) ++
      [("protocolLineId", hexText data.line), ("recordType", .string "userAuthorityState"),
        ("recoverySigningKeys", .array (KeySet.print data.recovery "recovery")),
        ("userIdentityRef", hexText data.user)]) := by
    cases data.previous with
    | none => exact hline.mono (by omega)
    | some digest =>
      have hlink := hline.cons "previousUserAuthorityStateDigest"
        (within_hexText digest (by decide)) (by decide)
      exact hlink.mono (by omega)
  have hmanagementKeys := hprevious.cons "managementSigningKeys"
    (KeySet.within data.management hmanagement) (by decide)
  have hdevices := hmanagementKeys.cons "authorizedDevices" hroster (by decide)
  have htransition := hdevices.cons "authorityTransitionKind"
    (AuthorityData.within_transition h) (by decide)
  have hsignatures := htransition.cons "authoritySignatures"
    (SignatureSet.within data.signatures (AuthorityData.purpose data)) (by decide)
  have hentries := hsignatures.cons "authorityEpoch" (within_natural h.epoch) (by decide)
  refine (hentries.object ?_).mono (by omega)
  cases data.previous <;> simp

theorem AuthorityData.sizes {formatFinite : Rat → String} {data : AuthorityData}
    (h : data.WellFormed) {roster : List Value} (hroster : Within 15 23765 (.array roster)) :
    validateSizes formatFinite (.object (data.record roster)) = .ok (data.record roster) := by
  have hwithin := AuthorityData.within h hroster
  rw [validateSizes_eq_ok hwithin.fits]
  exact (textSize_le _ hwithin.fits).trans (hwithin.canonical.trans (by decide))

theorem AuthorityData.get_recordType {data : AuthorityData} {roster : List Value} :
    (data.record roster).get "recordType" = some (.string "userAuthorityState") := by
  rw [AuthorityData.record]
  cases data.previous <;> rfl

theorem AuthorityData.definition {formatFinite : Rat → String} {data : AuthorityData}
    (h : data.WellFormed) :
    validateDefinitionRecord formatFinite (.object data.print) = .ok () := by
  have hsizes : validateSizes formatFinite (.object data.print) = .ok data.print :=
    AuthorityData.sizes h (AuthorityData.within_devices h)
  simp only [validateDefinitionRecord, Except.bind_eq_ok, liftM_eq_ok]
  exact ⟨_, hsizes, _, text_eq_ok.mpr AuthorityData.get_recordType,
    validateUserAuthorityRecord_eq_ok.mpr ⟨AuthorityData.parsed h⟩⟩

end Size

end Identity

end LicoArc
