import LicoArc.AuthorityRuns
import LicoArc.AuthoritySize

/-!
# What the digest of an authority state fixes

The digest of a state is taken over the bytes that its texts stand for. Every text
of an accepted record but one has a single spelling; the reference of a device is
decoded only, so that a state has another spelling of the same digest wherever a
reference has one.
-/

namespace LicoArc

namespace Identity

open Json

/-! ## Forms with the same fields -/

section Same

theorem decodedHex_hexText {object : Map} {key : String} {n : Nat} {v w : FixedBytes n}
    (hget : object.get key = some (hexText v)) (h : decodedHex n object key = .ok w) : w = v :=
  Except.ok.inj (h.symm.trans (decodedHex_of_get hget))

theorem text_of_get {object : Map} {key value other : String}
    (hget : object.get key = some (.string value)) (h : text object key = .ok other) :
    other = value :=
  Value.string.inj (Option.some.inj ((text_eq_ok.mp h).symm.trans hget))

theorem decodeHexText_hexText {object : Map} {key other : String} {n : Nat} {v : FixedBytes n}
    {bytes : Bytes} (hget : object.get key = some (hexText v)) (h : text object key = .ok other)
    (hdecoded : decodeHexText other = .ok bytes) : bytes = v.toList := by
  rw [text_of_get hget h, decodeHexText_hexBytes] at hdecoded
  exact (Except.ok.inj hdecoded).symm

theorem signatureFields_printed {fields : SignatureFields} {size : Nat}
    {purpose profile : String} {id : FixedBytes 32} {value : FixedBytes size}
    (h : fields.Read (.object (printSignature purpose profile id value))) :
    fields.keyId = id ∧ fields.purpose = purpose ∧ fields.signatureValue = value.toList := by
  obtain ⟨signature, other, hmembers, _, hid, hpurpose, hvalue, hdecoded⟩ := h
  cases members_eq_ok.mp hmembers
  exact ⟨decodedHex_hexText rfl hid, text_of_get rfl hpurpose,
    decodeHexText_hexText rfl hvalue hdecoded⟩

theorem keyFields_printed {fields : KeyFields} {size : Nat} {purpose profile : String}
    {id : FixedBytes 32} {value : FixedBytes size}
    (h : fields.Read (.object (printKey purpose profile id value))) :
    fields.keyId = id ∧ fields.publicKey = value.toList := by
  obtain ⟨key, other, hmembers, hid, _, _, hvalue, hdecoded⟩ := h
  cases members_eq_ok.mp hmembers
  exact ⟨decodedHex_hexText rfl hid, decodeHexText_hexText rfl hvalue hdecoded⟩

theorem Pair.same {edSize mlSize : Nat} {first second : Pair edSize mlSize}
    (hedId : first.edId = second.edId) (hmlId : first.mlId = second.mlId)
    (hed : first.ed.toList = second.ed.toList) (hml : first.ml.toList = second.ml.toList) :
    first = second := by
  cases first
  cases second
  cases hedId
  cases hmlId
  cases FixedBytes.toList_injective hed
  cases FixedBytes.toList_injective hml
  rfl

theorem SignatureForm.same {fields : List SignatureFields} {first second : SignatureForm}
    (h : List.Forall₂ SignatureFields.Read fields first.print)
    (h' : List.Forall₂ SignatureFields.Read fields second.print) : first = second := by
  obtain _ | ⟨hed, _ | ⟨hml, _⟩⟩ := h
  obtain _ | ⟨hed', _ | ⟨hml', _⟩⟩ := h'
  obtain ⟨hid, hpurpose, hvalue⟩ := signatureFields_printed hed
  obtain ⟨hid', hpurpose', hvalue'⟩ := signatureFields_printed hed'
  obtain ⟨hmlId, hmlPurpose, hmlValue⟩ := signatureFields_printed hml
  obtain ⟨hmlId', hmlPurpose', hmlValue'⟩ := signatureFields_printed hml'
  have hvalues : first.values = second.values :=
    Pair.same (hid.symm.trans hid') (hmlId.symm.trans hmlId') (hvalue.symm.trans hvalue')
      (hmlValue.symm.trans hmlValue')
  cases first
  cases second
  cases hvalues
  cases hpurpose.symm.trans hpurpose'
  cases hmlPurpose.symm.trans hmlPurpose'
  rfl

theorem KeySet.same {fields : List KeyFields} {purpose : String} {first second : KeySet}
    (h : List.Forall₂ KeyFields.Read fields (KeySet.print first purpose))
    (h' : List.Forall₂ KeyFields.Read fields (KeySet.print second purpose)) : first = second := by
  obtain _ | ⟨hed, _ | ⟨hml, _⟩⟩ := h
  obtain _ | ⟨hed', _ | ⟨hml', _⟩⟩ := h'
  obtain ⟨hid, hvalue⟩ := keyFields_printed hed
  obtain ⟨hid', hvalue'⟩ := keyFields_printed hed'
  obtain ⟨hmlId, hmlValue⟩ := keyFields_printed hml
  obtain ⟨hmlId', hmlValue'⟩ := keyFields_printed hml'
  exact Pair.same (hid.symm.trans hid') (hmlId.symm.trans hmlId') (hvalue.symm.trans hvalue')
    (hmlValue.symm.trans hmlValue')

/-- Every byte of a reference has one spelling. -/
def SingleSpelling (endpoint : FixedBytes 32) : Prop := ∀ byte ∈ endpoint.toList, OneSpelling byte

theorem natural_read {object : Map} {key : String} {n m : Nat} (hn : n ≤ maxEpoch)
    (hget : object.get key = some (natural n)) (h : unsigned object key = .ok m) : m = n :=
  Except.ok.inj (h.symm.trans (unsigned_natural hn hget))

theorem optional_natural {object : Map} {key : String} {n : Option Nat} {m : Option Nat}
    (hn : ∀ e ∈ n, e ≤ maxEpoch) (hget : object.get key = n.map natural)
    (h : (object.get key).bind Value.asU64 = m) : m = n := by
  rw [← h, hget]
  cases n with
  | none => rfl
  | some e =>
    have he := hn e rfl
    rw [Option.map_some, Option.bind_some, natural_asU64 he]

theorem DeviceForm.same {fields : DeviceFields} {first second : DeviceForm} {epoch : Nat}
    {endpoint endpoint' : FixedBytes 32} (hepoch : epoch ≤ maxEpoch)
    (hfirst : first.Valid epoch endpoint) (hsecond : second.Valid epoch endpoint')
    (hsingle : SingleSpelling endpoint) (h : fields.Read (.object first.print))
    (h' : fields.Read (.object second.print)) : first = second := by
  obtain ⟨device, proof, hdevice, hrevoked, hendpoint, hidentity, _, hadmitted, hproof, hreads⟩ := h
  obtain ⟨device', proof', hdevice', hrevoked', hendpoint', hidentity', _, hadmitted', hproof',
    hreads'⟩ := h'
  cases members_eq_ok.mp hdevice
  cases members_eq_ok.mp hdevice'
  have hsame : fields.endpoint = endpoint :=
    Except.ok.inj (hendpoint.symm.trans (DeviceForm.valid hepoch hfirst).endpoint)
  have hsame' : fields.endpoint = endpoint' :=
    Except.ok.inj (hendpoint'.symm.trans (DeviceForm.valid hepoch hsecond).endpoint)
  have hreference : first.reference = second.reference := by
    have hdecoded := hsecond.reference
    rw [← hsame', hsame] at hdecoded
    rw [decodeHexText_unique hfirst.reference hsingle, decodeHexText_unique hdecoded hsingle]
  have hproofs : first.proof = second.proof := by
    cases (array_eq_ok.mp hproof).symm.trans (rfl : first.print.get "possessionProof" = _)
    cases (array_eq_ok.mp hproof').symm.trans (rfl : second.print.get "possessionProof" = _)
    exact SignatureForm.same hreads hreads'
  have hid := decodedHex_hexText rfl hidentity
  have hid' := decodedHex_hexText rfl hidentity'
  have hadmission := natural_read (hfirst.admitted.trans hepoch) rfl hadmitted
  have hadmission' := natural_read (hsecond.admitted.trans hepoch) rfl hadmitted'
  have hrevocation := optional_natural
    (fun e he => (hfirst.revoked e he).2.trans hepoch) first.get_revoked hrevoked
  have hrevocation' := optional_natural
    (fun e he => (hsecond.revoked e he).2.trans hepoch) second.get_revoked hrevoked'
  cases first
  cases second
  cases hreference
  cases hproofs
  cases hid.symm.trans hid'
  cases hadmission.symm.trans hadmission'
  cases hrevocation.symm.trans hrevocation'
  rfl

theorem devices_same {fields : List DeviceFields} {first second : List DeviceForm} {epoch : Nat}
    {endpoints endpoints' : List (FixedBytes 32)} (hepoch : epoch ≤ maxEpoch)
    (hfirst : List.Forall₂ (fun device endpoint => device.Valid epoch endpoint) first endpoints)
    (hsecond : List.Forall₂ (fun device endpoint => device.Valid epoch endpoint) second endpoints')
    (hsingle : ∀ endpoint ∈ endpoints, SingleSpelling endpoint)
    (h : List.Forall₂ DeviceFields.Read fields (first.map fun device => .object device.print))
    (h' : List.Forall₂ DeviceFields.Read fields (second.map fun device => .object device.print)) :
    first = second := by
  induction hfirst generalizing fields second endpoints' with
  | nil =>
    cases h
    cases second with
    | nil => rfl
    | cons => cases h'
  | cons hdevice _ ih =>
    obtain _ | ⟨hread, hrest⟩ := h
    cases hsecond with
    | nil => cases h'
    | cons hdevice' hdevices' =>
      obtain _ | ⟨hread', hrest'⟩ := h'
      obtain ⟨hone, hones⟩ := List.forall_mem_cons.mp hsingle
      rw [DeviceForm.same hepoch hdevice hdevice' hone hread hread',
        ih hdevices' hones hrest hrest']

theorem readSignatures_same {fields : Option (List SignatureFields)} {proof proof' : Map}
    {name : String} {first second : Option SignatureForm}
    (hget : proof.get name = first.map fun form => .array form.print)
    (hget' : proof'.get name = second.map fun form => .array form.print)
    (h : ReadSignatures fields proof name) (h' : ReadSignatures fields proof' name) :
    first = second := by
  unfold ReadSignatures at h h'
  rw [hget] at h
  rw [hget'] at h'
  cases fields with
  | none =>
    cases first with
    | none =>
      cases second with
      | none => rfl
      | some => exact h'.elim
    | some => exact h.elim
  | some fields =>
    cases first with
    | none => exact h.elim
    | some first =>
      cases second with
      | none => exact h'.elim
      | some second =>
        obtain ⟨values, hvalues, hreads⟩ := h
        obtain ⟨values', hvalues', hreads'⟩ := h'
        cases items_eq_ok.mp hvalues
        cases items_eq_ok.mp hvalues'
        rw [SignatureForm.same hreads hreads']

theorem readPossession_same {fields : Option ReplacementProof} {record record' : Map}
    {first second : Option ProofForm}
    (hget : record.get "possessionProof" = first.map fun proof => .object proof.print)
    (hget' : record'.get "possessionProof" = second.map fun proof => .object proof.print)
    (h : ReadPossession fields record) (h' : ReadPossession fields record') : first = second := by
  unfold ReadPossession at h h'
  rw [hget] at h
  rw [hget'] at h'
  cases fields with
  | none =>
    cases first with
    | none =>
      cases second with
      | none => rfl
      | some => exact h'.elim
    | some => exact h.elim
  | some fields =>
    cases first with
    | none => exact h.elim
    | some first =>
      cases second with
      | none => exact h'.elim
      | some second =>
        obtain ⟨proof, hproof, hmanagement, hrecovery⟩ := h
        obtain ⟨proof', hproof', hmanagement', hrecovery'⟩ := h'
        cases members_eq_ok.mp hproof
        cases members_eq_ok.mp hproof'
        have hfirst := readSignatures_same first.get_management second.get_management hmanagement
          hmanagement'
        have hsecond := readSignatures_same first.get_recovery second.get_recovery hrecovery
          hrecovery'
        cases first
        cases second
        cases hfirst
        cases hsecond
        rfl

theorem previousDigest_read {record : Map} {previous read : Option (FixedBytes 32)}
    (hget : record.get "previousUserAuthorityStateDigest" = previous.map hexText)
    (h : previousDigest record = .ok read) : read = previous := by
  rw [previousDigest, hget] at h
  cases previous with
  | none => exact (Except.ok.inj h).symm
  | some digest =>
    simp only [Option.map_some, decodedHex_of_get hget] at h
    exact (Except.ok.inj h).symm

theorem readKeys_same {fields : List KeyFields} {record record' : Map} {name purpose : String}
    {first second : KeySet} (hget : record.get name = some (.array (KeySet.print first purpose)))
    (hget' : record'.get name = some (.array (KeySet.print second purpose)))
    (h : ReadKeys fields record name) (h' : ReadKeys fields record' name) : first = second := by
  obtain ⟨values, hvalues, hreads⟩ := h
  obtain ⟨values', hvalues', hreads'⟩ := h'
  cases (array_eq_ok.mp hvalues).symm.trans hget
  cases (array_eq_ok.mp hvalues').symm.trans hget'
  exact KeySet.same hreads hreads'

theorem AuthorityForm.same {fields : AuthorityFields} {first second : AuthorityForm}
    {endpoints endpoints' : List (FixedBytes 32)} (hfirst : first.Valid endpoints)
    (hsecond : second.Valid endpoints') (hsingle : ∀ endpoint ∈ endpoints, SingleSpelling endpoint)
    (h : fields.Read (.object first.print)) (h' : fields.Read (.object second.print)) :
    { first with signatures := second.signatures } = second := by
  obtain ⟨record, devices, hrecord, hprevious, hpossession, hline, huser, hepoch, htransition,
    hmanagement, hrecovery, hdevices, hroster⟩ := h
  obtain ⟨record', devices', hrecord', hprevious', hpossession', hline', huser', hepoch',
    htransition', hmanagement', hrecovery', hdevices', hroster'⟩ := h'
  cases members_eq_ok.mp hrecord
  cases members_eq_ok.mp hrecord'
  have hm := first.members
  have hm' := second.members
  have hsame := natural_read hfirst.epoch rfl hepoch
  have hsame' := natural_read hsecond.epoch rfl hepoch'
  have hrosters : first.devices = second.devices := by
    cases (array_eq_ok.mp hdevices).symm.trans (rfl : first.print.get "authorizedDevices" = _)
    cases (array_eq_ok.mp hdevices').symm.trans (rfl : second.print.get "authorizedDevices" = _)
    have hvalid := hsecond.devices
    rw [← hsame', hsame] at hvalid
    exact devices_same hfirst.epoch hfirst.devices hvalid hsingle hroster hroster'
  have hlines := (decodedHex_hexText hm.line hline).symm.trans (decodedHex_hexText hm'.line hline')
  have husers := (decodedHex_hexText hm.user huser).symm.trans (decodedHex_hexText hm'.user huser')
  have hepochs := hsame.symm.trans hsame'
  have htransitions := (text_of_get rfl htransition).symm.trans (text_of_get rfl htransition')
  have hlinks := (previousDigest_read hm.previous hprevious).symm.trans
    (previousDigest_read hm'.previous hprevious')
  have hkeys : first.management = second.management :=
    readKeys_same rfl rfl hmanagement hmanagement'
  have hkeys' := readKeys_same hm.recovery hm'.recovery hrecovery hrecovery'
  have hproofs := readPossession_same hm.possession hm'.possession hpossession hpossession'
  cases first
  cases second
  cases hlines
  cases husers
  cases hepochs
  cases htransitions
  cases hlinks
  cases hkeys
  cases hkeys'
  cases hrosters
  cases hproofs
  rfl

end Same

/-! ## Other spellings of the references -/

section Respelled

variable {epoch : Nat} {endpoint : FixedBytes 32} {endpoints : List (FixedBytes 32)}

def DeviceForm.respell (form : DeviceForm) : DeviceForm :=
  { form with reference := Identity.respell form.reference }

def AuthorityForm.respell (form : AuthorityForm) : AuthorityForm :=
  { form with devices := form.devices.map DeviceForm.respell }

theorem DeviceForm.respell_valid {form : DeviceForm} (h : form.Valid epoch endpoint) :
    form.respell.Valid epoch endpoint where
  reference := decodeHexText_respell h.reference
  admitted := h.admitted
  revoked := h.revoked
  proof := h.proof

theorem AuthorityForm.respell_valid {form : AuthorityForm} (h : form.Valid endpoints) :
    form.respell.Valid endpoints where
  epoch := h.epoch
  genesis := h.genesis
  linked := h.linked
  bounded := by
    have hbounded := h.bounded
    rw [AuthorityForm.respell, List.length_map, ne_eq, List.map_eq_nil_iff]
    exact hbounded
  devices := by
    rw [AuthorityForm.respell, List.forall₂_map_left_iff]
    exact h.devices.imp fun _ _ hdevice => DeviceForm.respell_valid hdevice
  ascending := h.ascending
  possession := h.possession
  signatures := h.signatures

theorem Map.get_of_ne {before after : Map} {name key : String} {first second : Value}
    (h : key ≠ name) : Map.get (before ++ (name, first) :: after) key =
      Map.get (before ++ (name, second) :: after) key := by
  have hkey : (key == name) = false := beq_eq_false_iff_ne.mpr h
  induction before with
  | nil => simp only [List.nil_append, Map.get, List.lookup_cons, hkey]
  | cons entry before ih =>
    obtain ⟨other, value⟩ := entry
    simp only [List.cons_append, Map.get, List.lookup_cons]
    split
    · rfl
    · exact ih

theorem liftM_ok {α : Type} (a : α) :
    (liftM (.ok a : Except Error α) : Except Fault α) = .ok a := rfl

theorem deviceProjection_congr {device other : Map}
    (hget : ∀ key, key ≠ "endpointIdentityRef" → device.get key = other.get key)
    (hreference : decodedHex 32 device "endpointIdentityRef" =
      decodedHex 32 other "endpointIdentityRef") :
    deviceProjection (.object device) = deviceProjection (.object other) := by
  have hrevoked := hget "revokedAuthorityEpoch" (by decide)
  have hidentity : decodedHex 32 device "identityStateDigest" =
      decodedHex 32 other "identityStateDigest" := by
    rw [decodedHex, decodedHex, text, text, hget _ (by decide)]
  have hstatus : text device "deviceStatus" = text other "deviceStatus" := by
    rw [text, text, hget _ (by decide)]
  have hadmitted : unsigned device "admittedAuthorityEpoch" =
      unsigned other "admittedAuthorityEpoch" := by
    rw [unsigned, unsigned, hget _ (by decide)]
  have hproof : array device "possessionProof" = array other "possessionProof" := by
    rw [array, array, hget _ (by decide)]
  have hmembers : members (.object device) = .ok device := members_eq_ok.mpr rfl
  have hmembers' : members (.object other) = .ok other := members_eq_ok.mpr rfl
  simp only [deviceProjection, hmembers, hmembers', liftM_ok, Except.ok_bind, hrevoked, hreference,
    hidentity, hstatus, hadmitted, hproof]

theorem DeviceForm.respell_projection {form : DeviceForm} (hepoch : epoch ≤ maxEpoch)
    (h : form.Valid epoch endpoint) :
    deviceProjection (.object form.respell.print) = deviceProjection (.object form.print) := by
  refine deviceProjection_congr (fun key hkey => ?_) ?_
  · exact @Map.get_of_ne [("admittedAuthorityEpoch", natural form.admitted),
      ("deviceStatus", .string form.status)] _ "endpointIdentityRef" key _ _ hkey
  · have hreference := (DeviceForm.valid hepoch h).endpoint
    have hreference' := (DeviceForm.valid hepoch (DeviceForm.respell_valid h)).endpoint
    exact hreference'.trans hreference.symm

theorem textSize_of_eq {before after : Map} {name : String} {first second : Value}
    (h : first.textSize = second.textSize) :
    (Value.object (before ++ (name, first) :: after)).textSize =
      (Value.object (before ++ (name, second) :: after)).textSize := by
  simp only [Value.textSize, Value.entriesTextSize_append, Value.entriesTextSize, h,
    List.length_append, List.length_cons]

theorem DeviceForm.respell_textSize {form : DeviceForm} (h : form.Valid epoch endpoint) :
    (Value.object form.respell.print).textSize = (Value.object form.print).textSize := by
  have hreference := (quoted_size h.reference).2
  have hreference' := (quoted_size (decodeHexText_respell h.reference)).2
  have htext : (Value.string (Identity.respell form.reference)).textSize =
      (Value.string form.reference).textSize := by
    rw [Value.textSize, Value.textSize, hreference, hreference']
  exact @textSize_of_eq [("admittedAuthorityEpoch", natural form.admitted),
    ("deviceStatus", .string form.status)] _ "endpointIdentityRef" _ _ htext

theorem devices_respell {forms : List DeviceForm} (hepoch : epoch ≤ maxEpoch)
    (h : List.Forall₂ (fun device endpoint => device.Valid epoch endpoint) forms endpoints) :
    ((forms.map DeviceForm.respell).map fun device => Value.object device.print).mapM
        deviceProjection =
      (forms.map fun device => Value.object device.print).mapM deviceProjection ∧
    Value.itemsTextSize ((forms.map DeviceForm.respell).map fun device => .object device.print) =
      Value.itemsTextSize (forms.map fun device => .object device.print) := by
  induction h with
  | nil => exact ⟨rfl, rfl⟩
  | cons hdevice _ ih =>
    constructor
    · rw [List.map_cons, List.map_cons, List.map_cons, List.mapM_cons, List.mapM_cons, ih.1,
        DeviceForm.respell_projection hepoch hdevice]
    · rw [List.map_cons, List.map_cons, List.map_cons, Value.itemsTextSize, Value.itemsTextSize,
        ih.2, DeviceForm.respell_textSize hdevice]

theorem authorityStateProjection_congr {record other : Map} {values values' : List Value}
    (hget : ∀ key, key ≠ "authorizedDevices" → record.get key = other.get key)
    (hvalues : record.get "authorizedDevices" = some (.array values))
    (hvalues' : other.get "authorizedDevices" = some (.array values'))
    (hdevices : values.mapM deviceProjection = values'.mapM deviceProjection) :
    authorityStateProjection record = authorityStateProjection other := by
  have hprevious := hget "previousUserAuthorityStateDigest" (by decide)
  have hpossession := hget "possessionProof" (by decide)
  have hline := hget "protocolLineId" (by decide)
  have huser := hget "userIdentityRef" (by decide)
  have hepoch := hget "authorityEpoch" (by decide)
  have htransition := hget "authorityTransitionKind" (by decide)
  have hmanagement := hget "managementSigningKeys" (by decide)
  have hrecovery := hget "recoverySigningKeys" (by decide)
  have harray : array record "authorizedDevices" = .ok values := array_eq_ok.mpr hvalues
  have harray' : array other "authorizedDevices" = .ok values' := array_eq_ok.mpr hvalues'
  rw [authorityStateProjection, authorityStateProjection, harray, harray']
  simp only [previousDigest, possessionProjection, decodedHex, text, unsigned, array, hprevious,
    hpossession, hline, huser, hepoch, htransition, hmanagement, hrecovery, liftM_ok,
    Except.ok_bind, hdevices]

theorem AuthorityForm.get_respell (form : AuthorityForm) {key : String}
    (hkey : key ≠ "authorizedDevices") : form.respell.print.get key = form.print.get key :=
  @Map.get_of_ne [("authorityEpoch", natural form.epoch),
    ("authoritySignatures", .array form.signatures.print),
    ("authorityTransitionKind", .string form.transition)] _ "authorizedDevices" key _ _ hkey

theorem AuthorityForm.respell_textSize {form : AuthorityForm} (h : form.Valid endpoints) :
    (Value.object form.respell.print).textSize = (Value.object form.print).textSize := by
  have hitems := (devices_respell h.epoch h.devices).2
  have harray : (Value.array ((form.devices.map DeviceForm.respell).map fun device =>
      .object device.print)).textSize =
      (Value.array (form.devices.map fun device => .object device.print)).textSize := by
    rw [Value.textSize, Value.textSize, hitems, List.length_map, List.length_map, List.length_map]
  exact @textSize_of_eq [("authorityEpoch", natural form.epoch),
    ("authoritySignatures", .array form.signatures.print),
    ("authorityTransitionKind", .string form.transition)] _ "authorizedDevices" _ _ harray

theorem AuthorityForm.respell_projection {form : AuthorityForm} (h : form.Valid endpoints) :
    authorityStateProjection form.respell.print = authorityStateProjection form.print :=
  authorityStateProjection_congr (fun _ hkey => form.get_respell hkey) rfl rfl
    (devices_respell h.epoch h.devices).1

variable {formatFinite : Rat → String} {provider : Provider} {digest : FixedBytes 32}

theorem AuthorityForm.respell_digest {form : AuthorityForm} (h : form.Valid endpoints)
    (hdigest : userAuthorityStateDigest formatFinite provider (.object form.print) = .ok digest) :
    userAuthorityStateDigest formatFinite provider (.object form.respell.print) = .ok digest := by
  simp only [userAuthorityStateDigest, Except.bind_eq_ok, liftM_eq_ok, members_eq_ok] at hdigest ⊢
  obtain ⟨_, hdefinition, _, hmembers, projection, hprojection, hencoded⟩ := hdigest
  cases hmembers
  have hvalid := AuthorityForm.respell_valid h
  have hsizes := ((validateDefinitionRecord_iff form.members.recordType).mp hdefinition).1
  have hsized := (AuthorityForm.sizes_iff h).mp hsizes
  have hsized' : Sized form.respell.print := by
    refine ⟨fun transition hget => hsized.transition transition ?_, ?_⟩
    · rwa [← form.get_respell (by decide)]
    · rw [AuthorityForm.respell_textSize h]
      exact hsized.text
  refine ⟨(), (validateDefinitionRecord_iff form.respell.members.recordType).mpr
    ⟨(AuthorityForm.sizes_iff hvalid).mpr hsized', AuthorityForm.valid hvalid⟩, form.respell.print,
    rfl, projection, ?_, hencoded⟩
  rw [AuthorityForm.respell_projection h]
  exact hprojection

theorem AuthorityForm.respell_digested {form : AuthorityForm} (h : form.Valid endpoints) :
    (SignedMessage.authority (.object form.respell.print)).digested provider =
      (SignedMessage.authority (.object form.print)).digested provider := by
  ext input
  constructor
  · rintro ⟨_, projection, hmembers, hprojection, hinput⟩
    cases members_eq_ok.mp hmembers
    rw [AuthorityForm.respell_projection h] at hprojection
    exact ⟨_, projection, members_eq_ok.mpr rfl, hprojection, hinput⟩
  · rintro ⟨_, projection, hmembers, hprojection, hinput⟩
    cases members_eq_ok.mp hmembers
    rw [← AuthorityForm.respell_projection h] at hprojection
    exact ⟨_, projection, members_eq_ok.mpr rfl, hprojection, hinput⟩

end Respelled

/-! ## Records that their digest fixes -/

section Binding

variable {formatFinite : Rat → String} {provider : Provider} {record : Map}
  {digest : FixedBytes 32} {endpoints : List (FixedBytes 32)}

/-- The records agree on every member but the signatures. -/
def AgreeUnsigned (first second : Map) : Prop :=
  ∀ key, key ≠ "authoritySignatures" → first.get key = second.get key

/-- No other record of the digest differs outside the signatures, as far as SHA-256 keeps apart
what the two digests read. -/
def DigestBinds (formatFinite : Rat → String) (provider : Provider) (record : Map) : Prop :=
  ∀ other : Map, (Value.object other).Ordered →
    other.get "recordType" = some (.string "userAuthorityState") →
    ∀ digest, userAuthorityStateDigest formatFinite provider (.object record) = .ok digest →
      userAuthorityStateDigest formatFinite provider (.object other) = .ok digest →
      Set.InjOn provider.sha256 ((SignedMessage.authority (.object record)).digested provider ∪
        (SignedMessage.authority (.object other)).digested provider) →
      AgreeUnsigned record other

def SingleSpellings (record : Map) : Prop :=
  ∀ devices, record.get "authorizedDevices" = some (.array devices) →
    ∀ item : Map, .object item ∈ devices → ∀ endpoint : FixedBytes 32,
      decodedHex 32 item "endpointIdentityRef" = .ok endpoint → SingleSpelling endpoint

theorem digest_valid
    (htype : record.get "recordType" = some (.string "userAuthorityState"))
    (h : userAuthorityStateDigest formatFinite provider (.object record) = .ok digest) :
    validateUserAuthorityRecord record = .ok () := by
  rw [userAuthorityStateDigest, Except.bind_eq_ok] at h
  obtain ⟨_, hdefinition, _⟩ := h
  exact ((validateDefinitionRecord_iff htype).mp hdefinition).2

theorem digested_subsingleton (state : Value) :
    ((SignedMessage.authority state).digested provider).Subsingleton := by
  rintro _ ⟨record, projection, hrecord, hprojection, encoded, hencoded, rfl⟩ _
    ⟨record', projection', hrecord', hprojection', encoded', hencoded', rfl⟩
  cases Except.ok.inj (hrecord.symm.trans hrecord')
  cases Except.ok.inj (hprojection.symm.trans hprojection')
  cases Except.ok.inj (hencoded.symm.trans hencoded')
  rfl

theorem AuthorityForm.Valid.endpoint {form : AuthorityForm} (h : form.Valid endpoints)
    {endpoint : FixedBytes 32} (hendpoint : endpoint ∈ endpoints) :
    ∃ device ∈ form.devices, device.Valid form.epoch endpoint := by
  have hdevices := h.devices
  clear h
  generalize form.devices = devices at hdevices
  induction hdevices with
  | nil => cases hendpoint
  | @cons device endpoint _ _ hdevice _ ih =>
    rcases List.mem_cons.mp hendpoint with rfl | hendpoint
    · exact ⟨device, List.mem_cons_self, hdevice⟩
    · obtain ⟨other, hother, hvalid⟩ := ih hendpoint
      exact ⟨other, List.mem_cons_of_mem _ hother, hvalid⟩

theorem AuthorityForm.get_signed (form : AuthorityForm) (signatures : SignatureForm) :
    AgreeUnsigned form.print { form with signatures := signatures }.print := fun key hkey =>
  @Map.get_of_ne [("authorityEpoch", natural form.epoch)] _ "authoritySignatures" key _ _ hkey

theorem AuthorityForm.binds {form : AuthorityForm} (h : form.Valid endpoints)
    (hsingle : SingleSpellings form.print) :
    DigestBinds formatFinite provider form.print := by
  intro other hordered htype digest hdigest hdigest' hfree
  obtain ⟨second, endpoints', hsecond, rfl⟩ :=
    exists_form hordered htype (digest_valid htype hdigest')
  obtain ⟨fields, hread, hread'⟩ := SignedMessage.digest_fixes_state hdigest hdigest' hfree
  have hspellings : ∀ endpoint ∈ endpoints, SingleSpelling endpoint := by
    intro endpoint hendpoint
    obtain ⟨device, hdevice, hvalid⟩ := h.endpoint hendpoint
    exact hsingle _ rfl device.print (List.mem_map.mpr ⟨device, hdevice, rfl⟩) endpoint
      (DeviceForm.valid h.epoch hvalid).endpoint
  rw [← AuthorityForm.same h hsecond hspellings hread hread']
  exact form.get_signed second.signatures

theorem AuthorityForm.respell_differs {form : AuthorityForm} {device : DeviceForm}
    (hdevice : device ∈ form.devices) {epoch : Nat} {endpoint : FixedBytes 32}
    (hvalid : device.Valid epoch endpoint) (hmany : ¬SingleSpelling endpoint) :
    form.print.get "authorizedDevices" ≠ form.respell.print.get "authorizedDevices" := by
  intro hagree
  have hrosters : (form.devices.map fun device => Value.object device.print) =
      (form.devices.map DeviceForm.respell).map fun device => .object device.print :=
    Value.array.inj (Option.some.inj hagree)
  rw [List.map_map, List.map_inj_left] at hrosters
  have hprints : device.print = device.respell.print := Value.object.inj (hrosters device hdevice)
  have hreference : device.print.get "endpointIdentityRef" =
      device.respell.print.get "endpointIdentityRef" := by rw [← hprints]
  obtain ⟨byte, hbyte, htwo⟩ : ∃ byte ∈ endpoint.toList, ¬OneSpelling byte := by
    simpa [SingleSpelling] using hmany
  exact respell_ne hvalid.reference hbyte htwo
    (Value.string.inj (Option.some.inj hreference)).symm

theorem AuthorityForm.respell_free {form : AuthorityForm} (h : form.Valid endpoints) :
    Set.InjOn provider.sha256
      ((SignedMessage.authority (.object form.print)).digested provider ∪
        (SignedMessage.authority (.object form.respell.print)).digested provider) := by
  rw [AuthorityForm.respell_digested h, Set.union_self]
  exact (digested_subsingleton _).injOn _

/-- The digest of a state fixes all of it but the signatures where each byte of each device
reference has one spelling, and nowhere else. -/
theorem digest_binds_iff (hordered : (Value.object record).Ordered)
    (htype : record.get "recordType" = some (.string "userAuthorityState"))
    (hdigest : userAuthorityStateDigest formatFinite provider (.object record) = .ok digest) :
    DigestBinds formatFinite provider record ↔ SingleSpellings record := by
  obtain ⟨form, endpoints, hform, rfl⟩ := exists_form hordered htype (digest_valid htype hdigest)
  constructor
  · intro hbinds devices hdevices item hitem endpoint hendpoint
    cases hdevices.symm.trans (rfl : form.print.get "authorizedDevices" = _)
    obtain ⟨device, hdevice, hprint⟩ := List.mem_map.mp hitem
    cases hprint
    obtain ⟨other, hvalid⟩ := hform.device hdevice
    cases Except.ok.inj (hendpoint.symm.trans (DeviceForm.valid hform.epoch hvalid).endpoint)
    by_contra hmany
    exact AuthorityForm.respell_differs hdevice hvalid hmany
      (hbinds form.respell.print form.respell.print_ordered form.respell.members.recordType digest
        hdigest (AuthorityForm.respell_digest hform hdigest) (AuthorityForm.respell_free hform)
        "authorizedDevices" (by decide))
  · exact AuthorityForm.binds hform

end Binding

/-! ## Two spellings of one state -/

section Sample

variable {formatFinite : Rat → String} {provider : Provider} {data : AuthorityData}

def DeviceData.form (device : DeviceData) : DeviceForm :=
  ⟨hexBytes device.endpoint.toList, device.identity, device.admitted, device.revoked,
    ⟨device.proof, "device-possession", "device-possession"⟩⟩

def AuthorityData.form (data : AuthorityData) : AuthorityForm where
  line := data.line
  user := data.user
  epoch := data.epoch
  transition := data.transition
  previous := data.previous
  management := data.management
  recovery := data.recovery
  devices := data.devices.map DeviceData.form
  possession := none
  signatures := ⟨data.signatures, authorityPurpose data.transition,
    authorityPurpose data.transition⟩

theorem AuthorityData.form_print (data : AuthorityData) : data.form.print = data.print := by
  rw [AuthorityForm.print, AuthorityData.print, AuthorityData.record, Identity.devices,
    AuthorityData.entries, List.map_map]
  simp only [AuthorityData.form, List.map_map, Option.toList_none, List.map_nil, List.append_nil]
  rfl

theorem AuthorityData.form_valid (h : data.WellFormed) :
    data.form.Valid (data.devices.map DeviceData.endpoint) where
  epoch := h.epoch
  genesis := (AuthorityData.parsed h).genesis
  linked := by
    rcases h.transition with ⟨hepoch, _, hprevious⟩ | ⟨hepoch, _, hprevious⟩
    · exact iff_of_true hepoch hprevious
    · exact iff_of_false hepoch hprevious
  bounded := by
    have hbounded := h.bounded
    rw [AuthorityData.form, List.length_map, ne_eq, List.map_eq_nil_iff]
    exact ⟨hbounded.1, by omega⟩
  devices := by
    rw [AuthorityData.form, List.forall₂_map_left_iff, List.forall₂_map_right_iff,
      List.forall₂_same]
    exact fun device hdevice => ⟨decodeHexText_hexBytes _, h.admitted device hdevice,
      h.revoked device hdevice, samplePurposes.1, samplePurposes.1⟩
  ascending := by
    rw [List.pairwise_map]
    exact h.ascending
  possession := nofun
  signatures := ⟨AuthorityData.purpose data, AuthorityData.purpose data⟩

/-- A state of one device whose reference has one spelling. -/
theorem single_spelling_binds : DigestBinds (fun _ => "") (tableProvider [] [])
    (sampleState 0 [sampleDevice 0x11 0 none]).form.print := by
  have hvalid : (sampleState 0 [sampleDevice 0x11 0 none]).WellFormed :=
    sampleState_valid (by decide) (by decide) (by simp) (by simp [sampleDevice])
      (by simp [sampleDevice])
  have hdigest := @printed_digest (fun _ => "") (tableProvider [] []) _ hvalid
  rw [← AuthorityData.form_print] at hdigest
  refine (digest_binds_iff (AuthorityForm.print_ordered _) (AuthorityForm.members _).recordType
    hdigest).mpr ?_
  intro devices hdevices item hitem endpoint hendpoint
  cases hdevices.symm.trans
    (rfl : (sampleState 0 [sampleDevice 0x11 0 none]).form.print.get "authorizedDevices" = _)
  cases List.mem_singleton.mp hitem
  obtain rfl : endpoint = sampleName 0x11 := decodedHex_hexText rfl hendpoint
  intro byte hbyte
  obtain rfl : byte = 0x11 := List.eq_of_mem_replicate hbyte
  decide

/-- Two accepted records of one digest under every provider with different rosters. -/
theorem digest_of_two_spellings : ∃ first second : Map, (Value.object first).Ordered ∧
    (Value.object second).Ordered ∧
    first.get "recordType" = some (.string "userAuthorityState") ∧
    second.get "recordType" = some (.string "userAuthorityState") ∧
    (∀ formatFinite : Rat → String, ∀ provider : Provider, ∃ digest,
      userAuthorityStateDigest formatFinite provider (.object first) = .ok digest ∧
      userAuthorityStateDigest formatFinite provider (.object second) = .ok digest ∧
      Set.InjOn provider.sha256 ((SignedMessage.authority (.object first)).digested provider ∪
        (SignedMessage.authority (.object second)).digested provider)) ∧
    first.get "authorizedDevices" ≠ second.get "authorizedDevices" := by
  have hvalid := sample_valid.1
  have hform := AuthorityData.form_valid hvalid
  refine ⟨firstState.form.print, firstState.form.respell.print, AuthorityForm.print_ordered _,
    AuthorityForm.print_ordered _, (AuthorityForm.members _).recordType,
    (AuthorityForm.members _).recordType, fun formatFinite provider => ?_, ?_⟩
  · have hdigest := @printed_digest formatFinite provider _ hvalid
    rw [← AuthorityData.form_print] at hdigest
    exact ⟨_, hdigest, AuthorityForm.respell_digest hform hdigest, AuthorityForm.respell_free hform⟩
  · have hdevice : (sampleDevice 1 0 none).form ∈ firstState.form.devices := List.mem_cons_self
    have hdevice' : (sampleDevice 1 0 none).form.Valid 0 (sampleName 1) :=
      ⟨decodeHexText_hexBytes _, le_rfl, nofun, samplePurposes.1, samplePurposes.1⟩
    refine AuthorityForm.respell_differs hdevice hdevice' fun hsingle => ?_
    exact absurd (hsingle 1 (List.mem_replicate.mpr ⟨by decide, rfl⟩)) (by decide)

end Sample

end Identity

end LicoArc
