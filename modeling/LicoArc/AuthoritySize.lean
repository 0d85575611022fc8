import LicoArc.AuthorityChain
import LicoArc.AuthorityForm
import LicoArc.HexSpelling

/-!
# Sizes of user authority records

A grammatical record is accepted where its transition and its canonical text
meet the byte limits. Every device and every signature list of a replacement
proof costs some seven thousand bytes, so that six of them fit and seven do not.
-/

namespace LicoArc

namespace Json

namespace Value

variable {levels : Nat}

theorem itemsFit_iff {values : List Value} :
    ItemsFit levels values ↔ ∀ value ∈ values, value.Fits levels := by
  induction values with
  | nil => simp [ItemsFit]
  | cons value values ih => simp [ItemsFit, ih]

theorem entriesFit_iff {entries : List (String × Value)} :
    EntriesFit levels entries ↔ ∀ entry ∈ entries, entry.2.Fits levels := by
  induction entries with
  | nil => simp [EntriesFit]
  | cons entry entries ih => simp [EntriesFit, ih]

theorem fits_array {values : List Value} (hlength : values.length ≤ 64)
    (h : ∀ value ∈ values, value.Fits levels) : (array values).Fits (levels + 1) := by
  rw [Fits]
  exact ⟨hlength, Nat.succ_ne_zero _, itemsFit_iff.mpr h⟩

theorem fits_of_names {entries : Map} {names : List String}
    (hentries : (entries.map Prod.fst).Sublist names) (hlength : names.length ≤ 64)
    (hnames : ∀ name ∈ names, (Encoding.textBytes name).length ≤ 4096)
    (h : ∀ entry ∈ entries, entry.2.Fits levels) : (object entries).Fits (levels + 1) := by
  rw [Fits]
  refine ⟨?_, Nat.succ_ne_zero _, ?_, entriesFit_iff.mpr h⟩
  · have hle := hentries.length_le
    rw [List.length_map] at hle
    omega
  · exact fun entry hentry => hnames _ (hentries.subset (List.mem_map_of_mem hentry))

theorem entriesTextSize_append (first second : List (String × Value)) :
    entriesTextSize (first ++ second) = entriesTextSize first + entriesTextSize second := by
  induction first with
  | nil => simp [entriesTextSize]
  | cons entry first ih =>
    rw [List.cons_append, entriesTextSize, ih, entriesTextSize]
    omega

end Value

end Json

namespace Identity

open Json

/-! ## Local limits -/

section Fits

variable {levels epoch : Nat} {endpoint : FixedBytes 32} {endpoints : List (FixedBytes 32)}

theorem signature_fits {size : Nat} {purpose profile : String} (id : FixedBytes 32)
    (value : FixedBytes size) (hsize : size ≤ 3309) (hpurpose : purpose ∈ signaturePurposes)
    (hprofile : profile = ed25519ProfileId ∨ profile = mlDsa65ProfileId) :
    (Value.object (printSignature purpose profile id value)).Fits (levels + 1) :=
  (within_printSignature id value hsize
    (List.mem_cons_of_mem _ (List.mem_cons_of_mem _ hpurpose)) hprofile).fits

theorem SignatureForm.fits {form : SignatureForm} (h : form.Valid) :
    (Value.array form.print).Fits (levels + 2) := by
  refine Value.fits_array (Nat.le_of_ble_eq_true rfl) ?_
  simp only [SignatureForm.print, List.forall_mem_cons, List.not_mem_nil, false_implies,
    implies_true, and_true]
  exact ⟨signature_fits _ _ (by decide) h.1 (.inl rfl),
    signature_fits _ _ le_rfl h.2 (.inr rfl)⟩

theorem natural_fits {n : Nat} (h : n ≤ maxEpoch) : (natural n).Fits levels :=
  (within_natural h).fits

theorem hexText_fits {n : Nat} (v : FixedBytes n) (h : n ≤ 4096) : (hexText v).Fits levels :=
  (within_hexText v h).fits

theorem text_fits {text : String} (h : (Encoding.textBytes text).length ≤ 8192) :
    (Value.string text).Fits levels := by
  rwa [Value.Fits]

set_option maxRecDepth 4000 in
theorem DeviceForm.fits {form : DeviceForm} (hepoch : epoch ≤ maxEpoch)
    (h : form.Valid epoch endpoint) : (Value.object form.print).Fits (levels + 3) := by
  have hreference : (Encoding.textBytes form.reference).length ≤ 8192 := by
    rw [(quoted_size h.reference).1, List.Vector.toList_length]
    decide
  have hstatus : (Encoding.textBytes form.status).length ≤ 8192 := by
    rw [DeviceForm.status]
    split_ifs <;> decide
  have hproof : (Value.array form.proof.print).Fits (levels + 2) := SignatureForm.fits h.proof
  rw [DeviceForm.print]
  refine Value.fits_of_names (names_append (.refl ["admittedAuthorityEpoch", "deviceStatus",
    "endpointIdentityRef", "identityStateDigest", "possessionProof"]) (names_optional _ _ _))
    (by decide) (by decide) ?_
  rw [List.forall_mem_append]
  constructor
  · simp only [List.forall_mem_cons, List.not_mem_nil, false_implies, implies_true, and_true]
    exact ⟨natural_fits (h.admitted.trans hepoch), text_fits hstatus, text_fits hreference,
      hexText_fits _ (by decide), hproof⟩
  · simp only [List.forall_mem_map, Option.mem_toList]
    exact fun revoked hrevoked => natural_fits ((h.revoked revoked hrevoked).2.trans hepoch)

set_option maxRecDepth 4000 in
theorem ProofForm.fits {form : ProofForm} (h : form.Valid) :
    (Value.object form.print).Fits (levels + 3) := by
  rw [ProofForm.print]
  refine Value.fits_of_names (names_append (names_optional _ _ _) (names_optional _ _ _))
    (by decide) (by decide) ?_
  simp only [List.forall_mem_append, List.forall_mem_map, Option.mem_toList]
  exact ⟨fun signatures hsignatures => SignatureForm.fits (h.management signatures hsignatures),
    fun signatures hsignatures => SignatureForm.fits (h.recovery signatures hsignatures)⟩

theorem AuthorityForm.Valid.device {form : AuthorityForm} (h : form.Valid endpoints)
    {device : DeviceForm} (hdevice : device ∈ form.devices) :
    ∃ endpoint, device.Valid form.epoch endpoint := by
  have hdevices : List.Forall₂ (fun device endpoint =>
    (∃ endpoint, device.Valid form.epoch endpoint) ∧
      device.Valid form.epoch endpoint) form.devices endpoints :=
    h.devices.imp fun _ endpoint hvalid => ⟨⟨endpoint, hvalid⟩, hvalid⟩
  exact ((List.forall₂_and_left _ _).mp hdevices).1 device hdevice

set_option maxRecDepth 4000 in
theorem AuthorityForm.fits {form : AuthorityForm} (h : form.Valid endpoints)
    (htransition : (Encoding.textBytes form.transition).length ≤ 8192) :
    (Value.object form.print).Fits 16 := by
  have hdevices : (Value.array (form.devices.map fun device => .object device.print)).Fits 15 := by
    refine Value.fits_array (by rw [List.length_map]; have := h.bounded.2; omega) ?_
    rw [List.forall_mem_map]
    intro device hdevice
    obtain ⟨endpoint, hvalid⟩ := h.device hdevice
    exact DeviceForm.fits h.epoch hvalid
  have hmanagement : (Value.array (KeySet.print form.management "management")).Fits 15 :=
    (KeySet.within form.management (by decide)).fits
  have hrecovery : (Value.array (KeySet.print form.recovery "recovery")).Fits 15 :=
    (KeySet.within form.recovery (by decide)).fits
  rw [AuthorityForm.print]
  refine Value.fits_of_names (names_append (names_append (names_append
    (.refl ["authorityEpoch", "authoritySignatures", "authorityTransitionKind",
      "authorizedDevices", "managementSigningKeys"]) (names_optional _ _ _)) (names_optional _ _ _))
    (.refl ["protocolLineId", "recordType", "recoverySigningKeys", "userIdentityRef"]))
    (by decide) (by decide) ?_
  simp only [List.forall_mem_append, List.forall_mem_map, Option.mem_toList, List.forall_mem_cons,
    List.not_mem_nil, false_implies, implies_true, and_true]
  exact ⟨⟨⟨⟨natural_fits h.epoch, SignatureForm.fits h.signatures, text_fits htransition, hdevices,
    hmanagement⟩, fun proof hproof => ProofForm.fits (h.possession proof hproof)⟩,
    fun digest _ => hexText_fits _ (by decide)⟩, hexText_fits _ (by decide),
    text_fits (by decide), hrecovery, hexText_fits _ (by decide)⟩

end Fits

/-! ## Sizes of the parts -/

section Sizes

variable {epoch : Nat} {endpoint : FixedBytes 32} {endpoints : List (FixedBytes 32)}

theorem hexText_textSize {n : Nat} (v : FixedBytes n) : (hexText v).textSize = n * 2 + 2 := by
  rw [hexText, Value.textSize, quoted_hexBytes, List.Vector.toList_length]

theorem natural_textSize {n : Nat} (h : n ≤ maxEpoch) :
    1 ≤ (natural n).textSize ∧ (natural n).textSize ≤ 17 :=
  ⟨integerText_pos n, integerText_size h⟩

theorem profile_textSize : (Value.string ed25519ProfileId).textSize = 66 ∧
    (Value.string mlDsa65ProfileId).textSize = 66 := by
  decide

set_option maxRecDepth 4000 in
theorem purpose_textSize : ∀ purpose ∈ signaturePurposes,
    8 ≤ (Value.string purpose).textSize ∧ (Value.string purpose).textSize ≤ 35 := by
  decide

theorem signature_textSize {size : Nat} (purpose profile : String) (id : FixedBytes 32)
    (value : FixedBytes size) :
    (Value.object (printSignature purpose profile id value)).textSize =
      132 + (Value.string profile).textSize + (Value.string purpose).textSize + size * 2 := by
  have hnames : (quoted "keyId").utf8ByteSize = 7 ∧ (quoted "keyProfileId").utf8ByteSize = 14 ∧
      (quoted "signaturePurpose").utf8ByteSize = 18 ∧
      (quoted "signatureValue").utf8ByteSize = 16 := by decide
  obtain ⟨hid, hprofile, hpurpose, hvalue⟩ := hnames
  simp only [printSignature, Value.textSize, Value.entriesTextSize, hexText_textSize, hid, hprofile,
    hpurpose, hvalue, List.length_cons, List.length_nil]
  omega

theorem key_textSize {size : Nat} (purpose profile : String) (id : FixedBytes 32)
    (key : FixedBytes size) :
    (Value.object (printKey purpose profile id key)).textSize =
      121 + (Value.string profile).textSize + (Value.string purpose).textSize + size * 2 := by
  have hnames : (quoted "keyId").utf8ByteSize = 7 ∧ (quoted "keyProfileId").utf8ByteSize = 14 ∧
      (quoted "keyPurpose").utf8ByteSize = 12 ∧ (quoted "publicKey").utf8ByteSize = 11 := by decide
  obtain ⟨hid, hprofile, hpurpose, hkey⟩ := hnames
  simp only [printKey, Value.textSize, Value.entriesTextSize, hexText_textSize, hid, hprofile,
    hpurpose, hkey, List.length_cons, List.length_nil]
  omega

theorem SignatureForm.textSize {form : SignatureForm} (h : form.Valid) :
    7161 ≤ (Value.array form.print).textSize ∧ (Value.array form.print).textSize ≤ 7215 := by
  have hed := purpose_textSize _ h.1
  have hml := purpose_textSize _ h.2
  simp only [SignatureForm.print, Value.textSize, Value.itemsTextSize, List.length_cons,
    List.length_nil] at hed hml ⊢
  have hfirst := signature_textSize form.edPurpose ed25519ProfileId form.values.edId form.values.ed
  have hsecond := signature_textSize form.mlPurpose mlDsa65ProfileId form.values.mlId form.values.ml
  rw [profile_textSize.1] at hfirst
  rw [profile_textSize.2] at hsecond
  simp only [Value.textSize] at hfirst hsecond
  omega

theorem KeySet.textSize (keys : KeySet) (purpose : String) :
    (Value.array (KeySet.print keys purpose)).textSize =
      4345 + 2 * (Value.string purpose).textSize := by
  have hfirst := key_textSize purpose ed25519ProfileId keys.edId keys.ed
  have hsecond := key_textSize purpose mlDsa65ProfileId keys.mlId keys.ml
  rw [profile_textSize.1] at hfirst
  rw [profile_textSize.2] at hsecond
  simp only [KeySet.print, Value.textSize, Value.itemsTextSize, List.length_cons,
    List.length_nil] at hfirst hsecond ⊢
  omega

set_option maxRecDepth 4000 in
theorem DeviceForm.textSize {form : DeviceForm} (hepoch : epoch ≤ maxEpoch)
    (h : form.Valid epoch endpoint) : 7410 ≤ (Value.object form.print).textSize ∧
      (Value.object form.print).textSize ≤ 7523 := by
  have hnames : (quoted "admittedAuthorityEpoch").utf8ByteSize = 24 ∧
      (quoted "deviceStatus").utf8ByteSize = 14 ∧
      (quoted "endpointIdentityRef").utf8ByteSize = 21 ∧
      (quoted "identityStateDigest").utf8ByteSize = 21 ∧
      (quoted "possessionProof").utf8ByteSize = 17 ∧
      (quoted "revokedAuthorityEpoch").utf8ByteSize = 23 := by decide
  obtain ⟨hadmittedName, hstatusName, hreferenceName, hidentityName, hproofName, hrevokedName⟩ :=
    hnames
  have hreference : (Value.string form.reference).textSize = 66 := by
    rw [Value.textSize, (quoted_size h.reference).2, List.Vector.toList_length]
  have hadmitted := natural_textSize (h.admitted.trans hepoch)
  have hproof := SignatureForm.textSize h.proof
  rw [DeviceForm.print, DeviceForm.status]
  cases hcase : form.revoked with
  | none =>
    have hstatus : (Value.string "active").textSize = 8 := by decide
    simp only [Option.isSome_none, Bool.false_eq_true, if_false, Option.toList_none, List.map_nil,
      List.append_nil, Value.textSize, Value.entriesTextSize, hadmittedName, hstatusName,
      hreferenceName, hidentityName, hproofName, hexText_textSize, List.length_cons,
      List.length_nil] at hreference hproof hstatus ⊢
    omega
  | some revoked =>
    have hstatus : (Value.string "revoked").textSize = 9 := by decide
    have hrevoked := natural_textSize ((h.revoked revoked hcase).2.trans hepoch)
    simp only [Option.isSome_some, if_true, Option.toList_some, List.map_cons, List.map_nil,
      List.cons_append, List.nil_append, Value.textSize, Value.entriesTextSize, hadmittedName,
      hstatusName, hreferenceName, hidentityName, hproofName, hrevokedName, hexText_textSize,
      List.length_cons, List.length_nil] at hreference hproof hstatus ⊢
    omega

set_option maxRecDepth 4000 in
theorem ProofForm.textSize {form : ProofForm} (h : form.Valid) :
    form.print.length * 7161 ≤ (Value.object form.print).textSize ∧
      (Value.object form.print).textSize ≤ 2 + form.print.length * 7239 := by
  have hnames : (quoted "managementSignatures").utf8ByteSize = 22 ∧
      (quoted "recoverySignatures").utf8ByteSize = 20 := by decide
  have hmanagement : ∀ signatures ∈ form.management, _ := fun signatures hsignatures =>
    SignatureForm.textSize (h.management signatures hsignatures)
  have hrecovery : ∀ signatures ∈ form.recovery, _ := fun signatures hsignatures =>
    SignatureForm.textSize (h.recovery signatures hsignatures)
  rw [ProofForm.print]
  cases hfirst : form.management <;> cases hsecond : form.recovery <;>
    simp_all [Value.textSize, Value.entriesTextSize] <;> omega

theorem itemsTextSize_bounds {values : List Value} {low high : Nat}
    (h : ∀ value ∈ values, low ≤ value.textSize ∧ value.textSize ≤ high) :
    values.length * low ≤ Value.itemsTextSize values ∧
      Value.itemsTextSize values ≤ values.length * high := by
  induction values with
  | nil => simp [Value.itemsTextSize]
  | cons value values ih =>
    obtain ⟨hvalue, hvalues⟩ := List.forall_mem_cons.mp h
    have hrest := ih hvalues
    rw [Value.itemsTextSize, List.length_cons, add_mul, add_mul]
    omega

theorem AuthorityForm.devices_textSize {form : AuthorityForm} (h : form.Valid endpoints) :
    form.devices.length * 7410 ≤
        (Value.array (form.devices.map fun device => .object device.print)).textSize ∧
      (Value.array (form.devices.map fun device => .object device.print)).textSize ≤
        2 + form.devices.length * 7524 := by
  have hdevices : ∀ value ∈ form.devices.map fun device => Value.object device.print,
      7410 ≤ value.textSize ∧ value.textSize ≤ 7523 := by
    rw [List.forall_mem_map]
    intro device hdevice
    obtain ⟨endpoint, hvalid⟩ := h.device hdevice
    exact DeviceForm.textSize h.epoch hvalid
  have hitems := itemsTextSize_bounds hdevices
  rw [List.length_map] at hitems
  rw [Value.textSize, List.length_map]
  omega

def AuthorityForm.units (form : AuthorityForm) : Nat :=
  form.devices.length + (form.possession.map fun proof => proof.print.length).getD 0

theorem AuthorityForm.possession_textSize {form : AuthorityForm} (h : form.Valid endpoints) :
    ((form.possession.map fun proof => proof.print.length).getD 0) * 7161 ≤
        Value.entriesTextSize (form.possession.toList.map fun proof =>
          ("possessionProof", .object proof.print)) ∧
      Value.entriesTextSize (form.possession.toList.map fun proof =>
          ("possessionProof", .object proof.print)) ≤
        20 + ((form.possession.map fun proof => proof.print.length).getD 0) * 7239 := by
  have hname : (quoted "possessionProof").utf8ByteSize = 17 := by decide
  cases hcase : form.possession with
  | none => simp [Value.entriesTextSize]
  | some proof =>
    have hproof := ProofForm.textSize (h.possession proof hcase)
    simp only [Option.toList_some, List.map_cons, List.map_nil, Value.entriesTextSize, hname,
      Option.map_some, Option.getD_some]
    omega

set_option maxRecDepth 4000 in
theorem AuthorityForm.previous_textSize (form : AuthorityForm) :
    Value.entriesTextSize (form.previous.toList.map fun digest =>
      ("previousUserAuthorityStateDigest", hexText digest)) ≤ 101 := by
  have hname : (quoted "previousUserAuthorityStateDigest").utf8ByteSize = 34 := by decide
  cases form.previous with
  | none => exact Nat.zero_le 101
  | some digest =>
    simp only [Option.toList_some, List.map_cons, List.map_nil, Value.entriesTextSize, hname,
      hexText_textSize]
    omega

/-- Beside its devices, its proof and its transition a form takes some sixteen thousand bytes. -/
theorem AuthorityForm.textSize {form : AuthorityForm} (h : form.Valid endpoints) :
    form.units * 7161 + 15895 ≤ (Value.object form.print).textSize ∧
      (Value.object form.print).textSize ≤
        form.units * 7524 + 16500 + (quoted form.transition).utf8ByteSize := by
  have hnames : (quoted "authorityEpoch").utf8ByteSize = 16 ∧
      (quoted "authoritySignatures").utf8ByteSize = 21 ∧
      (quoted "authorityTransitionKind").utf8ByteSize = 25 ∧
      (quoted "authorizedDevices").utf8ByteSize = 19 ∧
      (quoted "managementSigningKeys").utf8ByteSize = 23 ∧
      (quoted "protocolLineId").utf8ByteSize = 16 ∧ (quoted "recordType").utf8ByteSize = 12 ∧
      (quoted "userAuthorityState").utf8ByteSize = 20 ∧
      (quoted "recoverySigningKeys").utf8ByteSize = 21 ∧
      (quoted "userIdentityRef").utf8ByteSize = 17 := by decide
  obtain ⟨hepochName, hsignaturesName, htransitionName, hdevicesName, hmanagementName, hlineName,
    htypeName, htype, hrecoveryName, huserName⟩ := hnames
  have hepoch := natural_textSize h.epoch
  have hsignatures := SignatureForm.textSize h.signatures
  have hdevices := AuthorityForm.devices_textSize h
  have hmanagement : (Value.array (KeySet.print form.management "management")).textSize = 4369 :=
    KeySet.textSize _ _
  have hrecovery : (Value.array (KeySet.print form.recovery "recovery")).textSize = 4365 :=
    KeySet.textSize _ _
  have hpossession := AuthorityForm.possession_textSize h
  have hprevious := form.previous_textSize
  have hoptional : form.possession.toList.length ≤ 1 ∧ form.previous.toList.length ≤ 1 := by
    cases form.possession <;> cases form.previous <;> simp
  have htransition : (Value.string form.transition).textSize =
    (quoted form.transition).utf8ByteSize := by rw [Value.textSize]
  have hrecordType : (Value.string "userAuthorityState").textSize = 20 := by
    rw [Value.textSize, htype]
  rw [AuthorityForm.print, Value.textSize, AuthorityForm.units]
  simp only [Value.entriesTextSize_append, Value.entriesTextSize, List.length_append,
    List.length_map, List.length_cons, List.length_nil, hepochName, hsignaturesName,
    htransitionName, hdevicesName, hmanagementName, hlineName, htypeName, hrecoveryName, huserName,
    hmanagement, hrecovery, hexText_textSize, htransition, hrecordType]
  constructor <;> omega

end Sizes

/-! ## Definition checks -/

section Definition

variable {formatFinite : Rat → String} {record : Map} {endpoints : List (FixedBytes 32)}

/-- The byte limits of a record. -/
structure Sized (record : Map) : Prop where
  transition : ∀ transition, record.get "authorityTransitionKind" = some (.string transition) →
    (Encoding.textBytes transition).length ≤ 8192
  text : (Value.object record).textSize ≤ 65536

def signatureUnits (record : Map) : Nat :=
  (((record.get "authorizedDevices").bind Value.asArray).map List.length).getD 0 +
    (((record.get "possessionProof").bind Value.asObject).map List.length).getD 0

theorem AuthorityForm.signatureUnits_print (form : AuthorityForm) :
    signatureUnits form.print = form.units := by
  rw [signatureUnits, form.members.possession, AuthorityForm.units]
  have hdevices : form.print.get "authorizedDevices" =
      some (.array (form.devices.map fun device => .object device.print)) := rfl
  rw [hdevices]
  simp only [Option.bind_some, Value.asArray, Option.map_some, List.length_map, Option.getD_some]
  cases form.possession <;> rfl

theorem validateEntryBounds_mem {entries : List (String × Value)} {depth inputBudget total : Nat}
    (h : validateEntryBounds entries depth inputBudget = .ok total) {entry : String × Value}
    (hentry : entry ∈ entries) :
    ∃ before after, validateJsonBounds entry.2 depth before = .ok after := by
  induction entries generalizing inputBudget with
  | nil => cases hentry
  | cons first entries ih =>
    rw [validateEntryBounds, Except.bind_eq_ok] at h
    obtain ⟨middle, hfirst, hrest⟩ := h
    rcases List.mem_cons.mp hentry with rfl | hentry
    · exact ⟨inputBudget, middle, hfirst⟩
    · exact ih hrest hentry

theorem transition_bounded (h : validateSizes formatFinite (.object record) = .ok record)
    {key transition : String} (hget : record.get key = some (.string transition)) :
    (Encoding.textBytes transition).length ≤ 8192 := by
  simp only [validateSizes, Except.bind_eq_ok] at h
  obtain ⟨total, hbounds, _⟩ := h
  simp only [validateJsonBounds, Except.bind_eq_ok] at hbounds
  obtain ⟨_, _, _, _, _, _, hentries⟩ := hbounds
  obtain ⟨before, after, htext⟩ := validateEntryBounds_mem hentries (Map.mem_of_get hget)
  simp only [validateJsonBounds, Except.bind_eq_ok, reject_eq_ok] at htext
  obtain ⟨_, _, _, _, _, hsize, _⟩ := htext
  omega

theorem AuthorityForm.sizes_iff {form : AuthorityForm} (h : form.Valid endpoints) :
    validateSizes formatFinite (.object form.print) = .ok form.print ↔ Sized form.print := by
  constructor
  · intro hsizes
    have hget : form.print.get "authorityTransitionKind" = some (.string form.transition) := rfl
    have htransition := transition_bounded hsizes hget
    refine ⟨fun transition hget => transition_bounded hsizes hget, ?_⟩
    exact (validateSizes_eq_ok (AuthorityForm.fits h htransition)).mp hsizes
  · intro hsized
    exact (validateSizes_eq_ok (AuthorityForm.fits h (hsized.transition _ rfl))).mpr hsized.text

/-- The definition checks of a user authority record are its sizes and its grammar. -/
theorem validateDefinitionRecord_iff
    (htype : record.get "recordType" = some (.string "userAuthorityState")) :
    validateDefinitionRecord formatFinite (.object record) = .ok () ↔
      validateSizes formatFinite (.object record) = .ok record ∧
        validateUserAuthorityRecord record = .ok () := by
  simp only [validateDefinitionRecord, Except.bind_eq_ok, liftM_eq_ok, text_eq_ok]
  constructor
  · rintro ⟨record', hsizes, recordType, hget, hvalid⟩
    cases validateSizes_members hsizes
    obtain rfl : recordType = "userAuthorityState" :=
      Value.string.inj (Option.some.inj (hget.symm.trans htype))
    exact ⟨hsizes, hvalid⟩
  · rintro ⟨hsizes, hvalid⟩
    exact ⟨record, hsizes, "userAuthorityState", htype, hvalid⟩

theorem exists_form (hordered : (Value.object record).Ordered)
    (htype : record.get "recordType" = some (.string "userAuthorityState"))
    (hvalid : validateUserAuthorityRecord record = .ok ()) :
    ∃ form : AuthorityForm, ∃ endpoints, form.Valid endpoints ∧ record = form.print := by
  obtain ⟨r⟩ := validateUserAuthorityRecord_eq_ok.mp hvalid
  obtain ⟨form, hform, hrecord⟩ := r.form hordered htype
  exact ⟨form, _, hform, hrecord⟩

/-- A user authority record is accepted where its grammar and its byte limits hold. Of a
transition of moderate length, six devices and signature lists are within the limits; seven
never are. -/
theorem definition_accepts_sized (hordered : (Value.object record).Ordered)
    (htype : record.get "recordType" = some (.string "userAuthorityState")) :
    (validateDefinitionRecord formatFinite (.object record) = .ok () ↔
      validateUserAuthorityRecord record = .ok () ∧ Sized record) ∧
    (validateUserAuthorityRecord record = .ok () →
      (7 ≤ signatureUnits record → ¬Sized record) ∧
      (signatureUnits record ≤ 6 → (∀ transition,
        record.get "authorityTransitionKind" = some (.string transition) →
          (quoted transition).utf8ByteSize ≤ 3892) → Sized record)) := by
  constructor
  · rw [validateDefinitionRecord_iff htype, and_comm]
    refine and_congr_right fun hvalid => ?_
    obtain ⟨form, endpoints, hform, rfl⟩ := exists_form hordered htype hvalid
    exact AuthorityForm.sizes_iff hform
  · intro hvalid
    obtain ⟨form, endpoints, hform, rfl⟩ := exists_form hordered htype hvalid
    obtain ⟨hlower, hupper⟩ := AuthorityForm.textSize hform
    rw [form.signatureUnits_print]
    constructor
    · intro hunits hsized
      have htext := hsized.text
      omega
    · intro hunits hshort
      have htransition := hshort form.transition rfl
      refine ⟨fun transition hget => ?_, by omega⟩
      exact (textBytes_le_quoted transition).trans ((hshort transition hget).trans (by decide))

def rosterForm (count : Nat) : AuthorityForm where
  line := FixedBytes.zero 32
  user := FixedBytes.zero 32
  epoch := 0
  transition := "genesis"
  previous := none
  management := samplePair 32 1952
  recovery := samplePair 32 1952
  devices := (List.range count).map fun i =>
    ⟨hexBytes (sampleName (UInt8.ofNat i)).toList, sampleName (UInt8.ofNat i), 0, none,
      ⟨samplePair 64 3309, "device-possession", "device-possession"⟩⟩
  possession := none
  signatures := ⟨samplePair 64 3309, "authority-genesis", "authority-genesis"⟩

theorem sampleName_lt {i j : Nat} (hij : i < j) (hj : j < 256) :
    (sampleName (UInt8.ofNat i)).toList < (sampleName (UInt8.ofNat j)).toList := by
  refine List.Lex.rel ?_
  rw [UInt8.lt_iff_toNat_lt, UInt8.toNat_ofNat', UInt8.toNat_ofNat',
    Nat.mod_eq_of_lt (by omega), Nat.mod_eq_of_lt (by omega)]
  exact hij

theorem samplePurposes : "device-possession" ∈ signaturePurposes ∧
    "authority-genesis" ∈ signaturePurposes := by decide

theorem rosterForm_valid {count : Nat} (hpositive : count ≠ 0) (hcount : count ≤ 16) :
    (rosterForm count).Valid ((List.range count).map fun i => sampleName (UInt8.ofNat i)) where
  epoch := Nat.zero_le _
  genesis := iff_of_true rfl rfl
  linked := iff_of_true rfl rfl
  bounded := by simpa [rosterForm] using ⟨hpositive, hcount⟩
  devices := by
    rw [rosterForm, List.forall₂_map_left_iff, List.forall₂_map_right_iff, List.forall₂_same]
    exact fun i _ =>
      ⟨decodeHexText_hexBytes _, le_rfl, nofun, samplePurposes.1, samplePurposes.1⟩
  ascending := by
    rw [List.pairwise_map]
    refine List.pairwise_lt_range.imp_of_mem fun _ hj hij => ?_
    have hlt := List.mem_range.mp hj
    exact sampleName_lt hij (by omega)
  possession := nofun
  signatures := ⟨samplePurposes.2, samplePurposes.2⟩

theorem rosterForm_units (count : Nat) : (rosterForm count).units = count := by
  simp [AuthorityForm.units, rosterForm]

theorem definition_accepts_six :
    validateDefinitionRecord (fun _ => "") (.object (rosterForm 6).print) = .ok () := by
  have hvalid := AuthorityForm.valid (rosterForm_valid (by decide : 6 ≠ 0) (by decide))
  obtain ⟨hdefinition, hsizes⟩ := @definition_accepts_sized (fun _ => "") _
    (rosterForm 6).print_ordered (rosterForm 6).members.recordType
  refine hdefinition.mpr ⟨hvalid, (hsizes hvalid).2 ?_ fun transition hget => ?_⟩
  · rw [(rosterForm 6).signatureUnits_print, rosterForm_units]
  · obtain rfl : "genesis" = transition := Value.string.inj (Option.some.inj hget)
    decide

/-- Sixteen devices are grammatical and refused. -/
theorem definition_refuses_sixteen : ∃ record : Map, (Value.object record).Ordered ∧
    record.get "recordType" = some (.string "userAuthorityState") ∧
    validateUserAuthorityRecord record = .ok () ∧
    (∃ devices, record.get "authorizedDevices" = some (.array devices) ∧ devices.length = 16) ∧
    ∀ formatFinite : Rat → String,
      validateDefinitionRecord formatFinite (.object record) ≠ .ok () := by
  have hform := rosterForm_valid (by decide : 16 ≠ 0) (by decide)
  refine ⟨(rosterForm 16).print, (rosterForm 16).print_ordered, (rosterForm 16).members.recordType,
    AuthorityForm.valid hform, ⟨_, rfl, by simp [rosterForm]⟩, fun formatFinite hdefinition => ?_⟩
  have hsizes := ((validateDefinitionRecord_iff (rosterForm 16).members.recordType).mp
    hdefinition).1
  have htext := ((AuthorityForm.sizes_iff hform).mp hsizes).text
  have hlower := (AuthorityForm.textSize hform).1
  rw [rosterForm_units] at hlower
  omega

end Definition

end Identity

end LicoArc
