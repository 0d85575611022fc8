import LicoArc.AuthorityChain

/-!
# Where the identity layer panics

The hexadecimal decoder slices a text in pairs of bytes and panics at a slice
that cuts a character. Every other decoded text is checked before it is
decoded; the endpoint of a device, the predecessor digest in a catch-up and the
line of a replayed state are not. Each entry point returns exactly where the
texts that it decodes unchecked can be sliced.
-/

namespace LicoArc

namespace Identity

open Json

section Slices

def pairAt (bytes : Bytes) (k : Nat) : Bytes := (bytes.drop (k * 2)).take 2

/-- No pair up to the first one that is no number cuts a character. -/
def Sliceable (t : String) : Prop :=
  (Encoding.textBytes t).length % 2 = 0 → ∀ k < (Encoding.textBytes t).length / 2,
    (∀ j < k, (fromStrRadix16 (pairAt (Encoding.textBytes t) j)).isSome) →
      isCharBoundary (Encoding.textBytes t) (k * 2) ∧
      isCharBoundary (Encoding.textBytes t) (k * 2 + 2)

variable {bytes : Bytes} {k : Nat}

theorem decodePair_ne_panicked : decodePair bytes (k * 2) ≠ .error .panicked ↔
    isCharBoundary bytes (k * 2) ∧ isCharBoundary bytes (k * 2 + 2) := by
  rw [decodePair, Except.bind_ne_error, sliceText]
  constructor
  · rintro ⟨hslice, _⟩
    by_contra hcut
    rw [if_neg fun h => hcut h.2] at hslice
    exact hslice rfl
  · intro h
    rw [if_pos ⟨by omega, h⟩]
    refine ⟨(by rintro ⟨⟩), fun digits _ => ?_⟩
    cases fromStrRadix16 digits <;> simp [okOr]

theorem decodePair_eq_ok : (∃ byte, decodePair bytes (k * 2) = .ok byte) ↔
    (isCharBoundary bytes (k * 2) ∧ isCharBoundary bytes (k * 2 + 2)) ∧
      (fromStrRadix16 (pairAt bytes k)).isSome := by
  rw [decodePair, sliceText]
  constructor
  · rintro ⟨byte, h⟩
    split at h
    · rename_i hslice
      rw [Except.ok_bind, okOr_eq_ok, Nat.add_sub_cancel_left] at h
      exact ⟨hslice.2, Option.isSome_iff_exists.mpr ⟨byte, h⟩⟩
    · cases h
  · rintro ⟨hslice, hdigits⟩
    obtain ⟨byte, hbyte⟩ := Option.isSome_iff_exists.mp hdigits
    refine ⟨byte, ?_⟩
    rw [if_pos ⟨by omega, hslice⟩, Except.ok_bind, okOr_eq_ok, Nat.add_sub_cancel_left]
    exact hbyte

/-- The pairs before the one that panics are numbers, so they cut no character themselves. -/
theorem mapM_decodePair_ne_panicked {n : Nat} :
    (List.range' 0 n 2).mapM (decodePair bytes) ≠ .error .panicked ↔
      ∀ k < n, (∀ j < k, (fromStrRadix16 (pairAt bytes j)).isSome) →
        isCharBoundary bytes (k * 2) ∧ isCharBoundary bytes (k * 2 + 2) := by
  rw [Except.mapM_ne_error_iff]
  simp only [List.length_range', List.getElem_range', Nat.zero_add, Nat.mul_comm 2,
    decodePair_ne_panicked, decodePair_eq_ok]
  constructor
  · intro h k
    induction k using Nat.strong_induction_on with
    | _ k ih =>
      intro hk hdigits
      refine h k hk fun j hj => ⟨?_, hdigits j hj⟩
      exact ih j hj (hj.trans hk) fun i hi => hdigits i (hi.trans hj)
  · intro h k hk hbefore
    exact h k hk fun j hj => (hbefore j hj).2

theorem reject_ne_panicked {p : Prop} [Decidable p] {e : Error} :
    reject p (Fault.failed e) ≠ .error .panicked := by
  rw [reject]
  split <;> simp

theorem okOr_ne_panicked {α : Type} {x : Option α} {e : Error} :
    okOr (Fault.failed e) x ≠ .error .panicked := by
  cases x <;> simp [okOr]

theorem mapError_ne_panicked {α : Type} {x : Except Error α} {e : Error} :
    x.mapError (fun _ => Fault.failed e) ≠ .error .panicked := by
  cases x <;> simp [Except.mapError]

theorem decodeHexText_ne_panicked {t : String} :
    decodeHexText t ≠ .error .panicked ↔ Sliceable t := by
  rw [decodeHexText, Except.bind_ne_error, Sliceable, ← mapM_decodePair_ne_panicked]
  simp only [reject_eq_ok, not_not]
  exact ⟨fun h heven => h.2 () heven, fun h => ⟨reject_ne_panicked, fun _ heven => h heven⟩⟩

end Slices

section Records

variable {formatFinite : Rat → String} {object : Map} {key : String}

theorem decodedHex_ne_panicked {n : Nat} : decodedHex n object key ≠ .error .panicked ↔
    ∀ t, object.get key = some (.string t) → Sliceable t := by
  rw [decodedHex, Except.bind_ne_error]
  constructor
  · rintro ⟨_, h⟩ t ht
    exact decodeHexText_ne_panicked.mp (Except.bind_ne_error.mp (h t (by simpa using ht))).1
  · intro h
    refine ⟨liftM_ne_panicked _, fun t ht =>
      Except.bind_ne_error.mpr ⟨?_, fun _ _ => okOr_ne_panicked⟩⟩
    exact decodeHexText_ne_panicked.mpr (h t (by simpa using ht))

/-- The endpoint of a device that the roster check decodes. -/
def DeviceSliceable (device : Value) : Prop :=
  ∀ item : Map, device = .object item →
    closed item deviceMembers requiredDeviceMembers = .ok () →
    ∀ t, item.get "endpointIdentityRef" = some (.string t) → Sliceable t

theorem validateDevice_ne_panicked {epoch : Nat} {prior : Option (FixedBytes 32)}
    {device : Value} :
    validateDevice epoch prior device ≠ .error .panicked ↔ DeviceSliceable device := by
  rw [validateDevice, Except.bind_ne_error]
  constructor
  · rintro ⟨_, h⟩ item rfl hclosed
    have hclosed := (Except.bind_ne_error.mp (h item (by simp))).2 () (liftM_eq_ok.mpr hclosed)
    exact decodedHex_ne_panicked.mp (Except.bind_ne_error.mp hclosed).1
  · intro h
    refine ⟨liftM_ne_panicked _, fun item hitem => Except.bind_ne_error.mpr
      ⟨liftM_ne_panicked _, fun _ hclosed => Except.bind_ne_error.mpr ⟨?_, fun endpoint _ => ?_⟩⟩⟩
    · rw [liftM_eq_ok] at hitem hclosed
      exact decodedHex_ne_panicked.mpr (h item (members_eq_ok.mp hitem) hclosed)
    · simp only [Except.bind_ne_error, liftM_ne_panicked, reject_ne_panicked, ne_eq,
        not_false_eq_true, true_and]
      exact fun _ _ => nofun

/-- The devices of a roster up to the first one that is refused. -/
def RosterSliceable (epoch : Nat) (roster : List Value) : Prop :=
  ∀ before device after, roster = before ++ device :: after →
    (∃ last, before.foldlM (validateDevice epoch) none = .ok last) → DeviceSliceable device

def RecordSliceable (formatFinite : Rat → String) (value : Value) : Prop :=
  ∀ record, validateSizes formatFinite value = .ok record →
    record.get "recordType" = some (.string "userAuthorityState") →
    ∀ epoch roster, validateAuthorityHead record = .ok (epoch, roster) →
      RosterSliceable epoch roster

theorem validateUserAuthorityRecord_ne_panicked {record : Map} :
    validateUserAuthorityRecord record ≠ .error .panicked ↔
      ∀ epoch roster, validateAuthorityHead record = .ok (epoch, roster) →
        RosterSliceable epoch roster := by
  rw [validateUserAuthorityRecord, Except.bind_ne_error]
  constructor
  · rintro ⟨_, h⟩ epoch roster hhead before device after hsplit ⟨last, hlast⟩
    have hloop := (Except.bind_ne_error.mp (h (epoch, roster) (liftM_eq_ok.mpr hhead))).1
    have hdevice := Except.foldlM_ne_error_iff.mp hloop before device after hsplit last hlast
    exact validateDevice_ne_panicked.mp hdevice
  · intro h
    refine ⟨liftM_ne_panicked _, fun head hhead => Except.bind_ne_error.mpr ⟨?_, fun _ _ => ?_⟩⟩
    · rw [Except.foldlM_ne_error_iff]
      intro before device after hsplit last hlast
      refine validateDevice_ne_panicked.mpr
        (h head.1 head.2 (liftM_eq_ok.mp hhead) before device after hsplit ⟨last, hlast⟩)
    · simp only [Except.bind_ne_error, liftM_ne_panicked, ne_eq, not_false_eq_true, implies_true,
        and_self]

theorem validateDefinitionRecord_ne_panicked {value : Value} :
    validateDefinitionRecord formatFinite value ≠ .error .panicked ↔
      RecordSliceable formatFinite value := by
  rw [validateDefinitionRecord, Except.bind_ne_error]
  constructor
  · rintro ⟨_, h⟩ record hsizes htype
    have hrecord := (Except.bind_ne_error.mp (h record (liftM_eq_ok.mpr hsizes))).2
      "userAuthorityState" (liftM_eq_ok.mpr (text_eq_ok.mpr htype))
    exact validateUserAuthorityRecord_ne_panicked.mp hrecord
  · intro h
    refine ⟨liftM_ne_panicked _, fun record hsizes => Except.bind_ne_error.mpr
      ⟨liftM_ne_panicked _, fun recordType htype => ?_⟩⟩
    rw [liftM_eq_ok] at hsizes htype
    split
    case h_7 =>
      exact validateUserAuthorityRecord_ne_panicked.mpr (h record hsizes (text_eq_ok.mp htype))
    case h_9 => rintro ⟨⟩
    all_goals exact liftM_ne_panicked _

end Records

section Checked

variable {formatFinite : Rat → String} {provider : Provider} {record : Map}

theorem sliceable_hexBytes (bytes : Bytes) : Sliceable (hexBytes bytes) := by
  rw [← decodeHexText_ne_panicked, decodeHexText_hexBytes]
  exact nofun

theorem decodedHex_checked {object : Map} {key : String} {n m : Nat}
    (h : ∀ value ∈ object.get key, ∃ v : FixedBytes m, value = .string (hexBytes v.toList)) :
    decodedHex n object key ≠ .error .panicked := by
  rw [decodedHex_ne_panicked]
  intro t ht
  obtain ⟨v, hv⟩ := h _ ht
  cases hv
  exact sliceable_hexBytes _

theorem decodedHex_get {object : Map} {key : String} {n m : Nat} {v : FixedBytes m}
    (h : object.get key = some (.string (hexBytes v.toList))) :
    decodedHex n object key ≠ .error .panicked := by
  refine decodedHex_checked (m := m) fun value hvalue => ⟨v, ?_⟩
  rw [h] at hvalue
  exact (Option.some.inj hvalue).symm

theorem decodeHexText_get {object : Map} {key t : String} {n : Nat} {v : FixedBytes n}
    (h : object.get key = some (.string (hexBytes v.toList)))
    (ht : (liftM (text object key) : Except Fault String) = .ok t) :
    decodeHexText t ≠ .error .panicked := by
  rw [liftM_eq_ok, text_eq_ok, h] at ht
  injection (Option.some.inj ht) with ht
  rw [← ht, decodeHexText_hexBytes]
  exact nofun

theorem AuthorityKey.projection_ne_panicked {purpose profile : String} {size : Nat} {key : Map}
    (h : AuthorityKey purpose profile size key)
    (hprofile : profile = ed25519ProfileId ∨ profile = mlDsa65ProfileId) :
    keyProjection (.object key) ≠ .error .panicked := by
  obtain ⟨id, hid⟩ := h.keyId
  obtain ⟨v, hv⟩ := h.publicKey
  obtain ⟨p, rfl⟩ := profile_text hprofile
  refine Except.bind_ne_error_of (liftM_ne_panicked _) fun object hobject => ?_
  rw [liftM_eq_ok, members_eq_ok, Value.object.injEq] at hobject
  subst hobject
  refine Except.bind_ne_error_of (decodedHex_get hid) fun _ _ => ?_
  refine Except.bind_ne_error_of (liftM_ne_panicked _) fun _ _ => ?_
  refine Except.bind_ne_error_of (decodedHex_get h.profile) fun _ _ => ?_
  refine Except.bind_ne_error_of (liftM_ne_panicked _) fun t ht => ?_
  exact Except.bind_ne_error_of (decodeHexText_get hv ht) fun _ _ => nofun

theorem authorityKeyProjection_ne_panicked {keys : List Value} {purpose : String}
    (h : validateAuthorityKeys keys purpose = .ok ()) :
    authorityKeyProjection keys ≠ .error .panicked := by
  obtain ⟨ed, ml, rfl, hed, hml, _⟩ := validateAuthorityKeys_eq_ok.mp h
  refine Except.bind_ne_error_of (Except.mapM_ne_error ?_) fun _ _ => nofun
  simp only [List.forall_mem_cons, List.not_mem_nil, false_implies, implies_true, and_true]
  exact ⟨hed.projection_ne_panicked (.inl rfl), hml.projection_ne_panicked (.inr rfl)⟩

theorem Signature.projection_ne_panicked {profile : String} {size : Nat} {signature : Map}
    (h : Signature profile size signature)
    (hprofile : profile = ed25519ProfileId ∨ profile = mlDsa65ProfileId) :
    signatureEntryProjection (.object signature) ≠ .error .panicked := by
  obtain ⟨id, hid⟩ := h.keyId
  obtain ⟨v, hv⟩ := h.value
  obtain ⟨p, rfl⟩ := profile_text hprofile
  refine Except.bind_ne_error_of (liftM_ne_panicked _) fun object hobject => ?_
  rw [liftM_eq_ok, members_eq_ok, Value.object.injEq] at hobject
  subst hobject
  refine Except.bind_ne_error_of (decodedHex_get h.profile) fun _ _ => ?_
  refine Except.bind_ne_error_of (decodedHex_get hid) fun _ _ => ?_
  refine Except.bind_ne_error_of (liftM_ne_panicked _) fun _ _ => ?_
  refine Except.bind_ne_error_of (liftM_ne_panicked _) fun t ht => ?_
  exact Except.bind_ne_error_of (decodeHexText_get hv ht) fun _ _ => nofun

theorem signatureProjection_ne_panicked {signatures : List Value}
    (h : validateSignatureArray signatures = .ok ()) :
    signatureProjection signatures ≠ .error .panicked := by
  obtain ⟨ed, ml, rfl, hed, hml, _⟩ := validateSignatureArray_eq_ok.mp h
  refine Except.bind_ne_error_of (Except.mapM_ne_error ?_) fun _ _ => nofun
  simp only [List.forall_mem_cons, List.not_mem_nil, false_implies, implies_true, and_true]
  exact ⟨hed.projection_ne_panicked (.inl rfl), hml.projection_ne_panicked (.inr rfl)⟩

theorem DeviceRecord.projection_ne_panicked {epoch : Nat} {item : Map} {endpoint : FixedBytes 32}
    (h : DeviceRecord epoch item endpoint) :
    deviceProjection (.object item) ≠ .error .panicked := by
  obtain ⟨identity, hidentity⟩ := h.identity
  obtain ⟨proof, hproof, hsigned⟩ := h.proof
  refine Except.bind_ne_error_of (liftM_ne_panicked _) fun object hobject => ?_
  rw [liftM_eq_ok, members_eq_ok, Value.object.injEq] at hobject
  subst hobject
  refine Except.bind_ne_error_of (by rw [h.endpoint]; exact nofun) fun _ _ => ?_
  refine Except.bind_ne_error_of (decodedHex_get hidentity) fun _ _ => ?_
  refine Except.bind_ne_error_of (liftM_ne_panicked _) fun _ _ => ?_
  refine Except.bind_ne_error_of (liftM_ne_panicked _) fun _ _ => ?_
  refine Except.bind_ne_error_of (liftM_ne_panicked _) fun values hvalues => ?_
  rw [liftM_eq_ok, array_eq_ok, hproof, Option.some.injEq, Value.array.injEq] at hvalues
  subst hvalues
  exact Except.bind_ne_error_of (signatureProjection_ne_panicked hsigned) fun _ _ => nofun

theorem proofSignatures_ne_panicked {proof : Map} {name : String}
    (h : validateProofSignatures proof name = .ok ()) :
    proofSignatures proof name ≠ .error .panicked := by
  rw [proofSignatures]
  rw [validateProofSignatures] at h
  split
  · rintro ⟨⟩
  · rename_i value hget
    simp only [hget, Except.bind_eq_ok, items_eq_ok] at h
    obtain ⟨values, rfl, hsigned⟩ := h
    refine Except.bind_ne_error_of (liftM_ne_panicked _) fun values' hvalues => ?_
    rw [liftM_eq_ok, items_eq_ok, Value.array.injEq] at hvalues
    subst hvalues
    exact signatureProjection_ne_panicked hsigned

theorem possessionProjection_ne_panicked (h : validateReplacementProof record = .ok ()) :
    possessionProjection record ≠ .error .panicked := by
  rw [possessionProjection]
  rw [validateReplacementProof] at h
  split
  · rintro ⟨⟩
  · rename_i value hget
    simp only [hget, Except.bind_eq_ok, members_eq_ok, Except.forM_eq_ok] at h
    obtain ⟨proof, rfl, _, _, _, _, hsigned⟩ := h
    refine Except.bind_ne_error_of (liftM_ne_panicked _) fun proof' hproof => ?_
    rw [liftM_eq_ok, members_eq_ok, Value.object.injEq] at hproof
    subst hproof
    refine Except.bind_ne_error_of (proofSignatures_ne_panicked (hsigned _ (by simp))) fun _ _ => ?_
    refine Except.bind_ne_error_of (proofSignatures_ne_panicked (hsigned _ (by simp))) fun _ _ => ?_
    rintro ⟨⟩

theorem previousDigest_checked
    (h : ∀ value ∈ record.get "previousUserAuthorityStateDigest",
      ∃ v : FixedBytes 32, value = .string (hexBytes v.toList)) :
    previousDigest record ≠ .error .panicked := by
  rw [previousDigest]
  split
  · rintro ⟨⟩
  · have hdigest : decodedHex 32 record "previousUserAuthorityStateDigest" ≠ .error .panicked :=
      decodedHex_checked h
    cases hcase : decodedHex 32 record "previousUserAuthorityStateDigest" with
    | ok digest => rintro ⟨⟩
    | error fault =>
      rw [hcase] at hdigest
      exact fun hpanic => hdigest (congrArg Except.error (Except.error.inj hpanic))

theorem AuthorityRecord.projection_ne_panicked (r : AuthorityRecord record) :
    authorityStateProjection record ≠ .error .panicked := by
  have hdevices : (devices r.entries).mapM deviceProjection ≠ .error .panicked := by
    refine Except.mapM_ne_error fun value hvalue => ?_
    obtain ⟨entry, hentry, rfl⟩ := List.mem_map.mp hvalue
    exact (r.roster.valid entry hentry).projection_ne_panicked
  refine Except.bind_ne_error_of (previousDigest_checked r.previous) fun _ _ => ?_
  refine Except.bind_ne_error_of (possessionProjection_ne_panicked r.proof) fun _ _ => ?_
  refine Except.bind_ne_error_of (decodedHex_get r.get_line) fun _ _ => ?_
  refine Except.bind_ne_error_of (decodedHex_get r.get_user) fun _ _ => ?_
  refine Except.bind_ne_error_of (liftM_ne_panicked _) fun _ _ => ?_
  refine Except.bind_ne_error_of (liftM_ne_panicked _) fun _ _ => ?_
  refine Except.bind_ne_error_of (liftM_ne_panicked _) fun management hmanagement => ?_
  rw [liftM_eq_ok, array_eq_ok, r.get_management, Option.some.injEq, Value.array.injEq]
    at hmanagement
  subst hmanagement
  refine Except.bind_ne_error_of (authorityKeyProjection_ne_panicked r.management_keys)
    fun _ _ => ?_
  refine Except.bind_ne_error_of (liftM_ne_panicked _) fun recovery hrecovery => ?_
  rw [liftM_eq_ok, array_eq_ok, r.get_recovery, Option.some.injEq, Value.array.injEq] at hrecovery
  subst hrecovery
  refine Except.bind_ne_error_of (authorityKeyProjection_ne_panicked r.recovery_keys) fun _ _ => ?_
  refine Except.bind_ne_error_of (liftM_ne_panicked _) fun values hvalues => ?_
  rw [liftM_eq_ok, array_eq_ok, r.get_devices, Option.some.injEq, Value.array.injEq] at hvalues
  subst hvalues
  exact Except.bind_ne_error_of hdevices fun _ _ => nofun

/-- The projection of a record of another type ends before it decodes a text unchecked. -/
theorem OtherRecord.projection_ne_panicked (h : OtherRecord record) :
    authorityStateProjection record ≠ .error .panicked := by
  have hprevious : previousDigest record ≠ .error .panicked := by
    rw [previousDigest, h.previous]
    rintro ⟨⟩
  have hpossession : possessionProjection record ≠ .error .panicked := by
    rw [possessionProjection, h.proof]
    rintro ⟨⟩
  refine Except.bind_ne_error_of hprevious fun _ _ => ?_
  refine Except.bind_ne_error_of hpossession fun _ _ => ?_
  refine Except.bind_ne_error_of (decodedHex_checked h.line) fun _ _ => ?_
  have huser : decodedHex 32 record "userIdentityRef" ≠ .error .panicked := by
    rw [decodedHex_ne_panicked, h.user]
    rintro _ ⟨⟩
  refine Except.bind_ne_error_of huser fun user hok => ?_
  rw [decodedHex_eq_ok, h.user] at hok
  obtain ⟨_, hget, _⟩ := hok
  cases hget

theorem userAuthorityStateDigest_ne_panicked {state : Value} :
    userAuthorityStateDigest formatFinite provider state ≠ .error .panicked ↔
      RecordSliceable formatFinite state := by
  rw [userAuthorityStateDigest, Except.bind_ne_error, validateDefinitionRecord_ne_panicked]
  refine and_iff_left fun _ hdefinition => ?_
  refine Except.bind_ne_error_of (liftM_ne_panicked _) fun record hrecord => ?_
  rw [liftM_eq_ok, members_eq_ok] at hrecord
  subst hrecord
  refine Except.bind_ne_error_of ?_ fun _ _ =>
    Except.bind_ne_error_of (liftM_ne_panicked _) fun _ _ => (by rintro ⟨⟩)
  rcases validateDefinitionRecord_cases hdefinition with ⟨_, ⟨r⟩⟩ | hother
  · exact r.projection_ne_panicked
  · exact hother.projection_ne_panicked

end Checked

section State

variable {formatFinite : Rat → String} {provider : Provider} {record : Map}

def KeysDecode (keys : List Value) : Prop :=
  ∀ key : Map, .object key ∈ keys →
    ∃ bytes : Bytes, key.get "publicKey" = some (.string (hexBytes bytes))

theorem keysDecode_of_valid {keys : List Value} {purpose : String}
    (h : validateAuthorityKeys keys purpose = .ok ()) : KeysDecode keys := by
  obtain ⟨ed, ml, rfl, hed, hml, _⟩ := validateAuthorityKeys_eq_ok.mp h
  intro key hkey
  rw [List.mem_pair, Value.object.injEq, Value.object.injEq] at hkey
  rcases hkey with rfl | rfl
  · obtain ⟨v, hv⟩ := hed.publicKey
    exact ⟨_, hv⟩
  · obtain ⟨v, hv⟩ := hml.publicKey
    exact ⟨_, hv⟩

theorem keysDecode_endpoint (keys : EndpointStateKeys) : KeysDecode (endpointKeyValues keys) := by
  intro key hkey
  rw [endpointKeyValues, List.mem_pair, Value.object.injEq, Value.object.injEq] at hkey
  rcases hkey with rfl | rfl <;> exact ⟨_, rfl⟩

theorem verifySignature_ne_panicked {keys : List Value} (h : KeysDecode keys) {purpose : String}
    {message : Bytes} {signature : Value} :
    verifySignature provider keys purpose message signature ≠ .error .panicked := by
  refine Except.bind_ne_error_of (liftM_ne_panicked _) fun sig _ => ?_
  refine Except.bind_ne_error_of (liftM_ne_panicked _) fun _ hvalid => ?_
  rw [liftM_eq_ok] at hvalid
  refine Except.bind_ne_error_of (liftM_ne_panicked _) fun _ _ => ?_
  refine Except.bind_ne_error_of (liftM_ne_panicked _) fun _ _ => ?_
  refine Except.bind_ne_error_of okOr_ne_panicked fun key hkey => ?_
  obtain ⟨bytes, hbytes⟩ := h key (findKey_eq_some (okOr_eq_ok.mp hkey)).1
  refine Except.bind_ne_error_of (liftM_ne_panicked _) fun t ht => ?_
  refine Except.bind_ne_error_of ?_ fun _ _ => ?_
  · rw [liftM_eq_ok, text_eq_ok, hbytes] at ht
    injection (Option.some.inj ht) with ht
    rw [← ht, decodeHexText_hexBytes]
    exact nofun
  refine Except.bind_ne_error_of (liftM_ne_panicked _) fun t ht => ?_
  refine Except.bind_ne_error_of ?_ fun _ _ => ?_
  · rcases (validateSignature_eq_ok.mp hvalid).1 with hsig | hsig
    · obtain ⟨v, hv⟩ := hsig.value
      exact decodeHexText_get hv ht
    · obtain ⟨v, hv⟩ := hsig.value
      exact decodeHexText_get hv ht
  split
  · refine Except.bind_ne_error_of okOr_ne_panicked fun _ _ => ?_
    exact Except.bind_ne_error_of okOr_ne_panicked fun _ _ => mapError_ne_panicked
  · split
    · exact mapError_ne_panicked
    · exact nofun

theorem verifySignaturePair_ne_panicked {signatures keys : List Value} (h : KeysDecode keys)
    {purpose : String} {message : Bytes} :
    verifySignaturePair provider signatures keys purpose message ≠ .error .panicked :=
  Except.bind_ne_error_of reject_ne_panicked fun _ _ =>
    Except.forM_ne_error fun _ _ => verifySignature_ne_panicked h

theorem deriveUserIdentityRef_ne_panicked {management recovery : List Value} :
    deriveUserIdentityRef provider management recovery ≠ .error .panicked := by
  refine Except.bind_ne_error_of (liftM_ne_panicked _) fun _ hmanagement => ?_
  refine Except.bind_ne_error_of (liftM_ne_panicked _) fun _ hrecovery => ?_
  rw [liftM_eq_ok] at hmanagement hrecovery
  refine Except.bind_ne_error_of (authorityKeyProjection_ne_panicked hmanagement) fun _ _ => ?_
  refine Except.bind_ne_error_of (authorityKeyProjection_ne_panicked hrecovery) fun _ _ => ?_
  exact Except.bind_ne_error_of (liftM_ne_panicked _) fun _ _ => nofun

theorem validateListedDevice_ne_panicked {next : List (FixedBytes 32 × Map)} {epoch : Nat}
    {entry : FixedBytes 32 × Map} :
    validateListedDevice next epoch entry ≠ .error .panicked := by
  refine Except.bind_ne_error_of (liftM_ne_panicked _) fun status _ => ?_
  cases next.lookup entry.1 with
  | none => exact reject_ne_panicked
  | some current =>
    simp only
    split
    · exact reject_ne_panicked
    · refine Except.bind_ne_error_of (liftM_ne_panicked _) fun _ _ => ?_
      split
      · exact reject_ne_panicked
      · split <;> exact reject_ne_panicked

theorem validateNewDevice_ne_panicked {previous : List (FixedBytes 32 × Map)} {epoch : Nat}
    {entry : FixedBytes 32 × Map} :
    validateNewDevice previous epoch entry ≠ .error .panicked := by
  rw [validateNewDevice]
  cases previous.lookup entry.1 with
  | some _ => rintro ⟨⟩
  | none => exact Except.bind_ne_error_of (liftM_ne_panicked _) fun _ _ => reject_ne_panicked

theorem validateRosterTransition_ne_panicked {e e' epoch : Nat}
    {prior current : List (FixedBytes 32 × Map)} (hprior : Roster e prior)
    (hcurrent : Roster e' current) :
    validateRosterTransition (devices prior) (devices current) epoch ≠ .error .panicked := by
  rw [validateRosterTransition, hprior.deviceMap, hcurrent.deviceMap]
  refine Except.bind_ne_error_of (by rintro ⟨⟩) fun _ _ =>
    Except.bind_ne_error_of (by rintro ⟨⟩) fun _ _ => ?_
  exact Except.bind_ne_error_of (Except.forM_ne_error fun _ _ => validateListedDevice_ne_panicked)
    fun _ _ => Except.forM_ne_error fun _ _ => validateNewDevice_ne_panicked

/-- The definition check of a predecessor and nothing after it can panic. -/
theorem previousRecord_ne_panicked {predecessor : Option Value} :
    previousRecord formatFinite predecessor ≠ .error .panicked ↔
      ∀ previous ∈ predecessor, RecordSliceable formatFinite previous := by
  cases predecessor with
  | none => exact iff_of_true (by rintro ⟨⟩) (by rintro _ ⟨⟩)
  | some previous =>
    rw [previousRecord, Except.bind_ne_error, validateDefinitionRecord_ne_panicked]
    simp only [Option.mem_some_iff, forall_eq']
    refine and_iff_left fun _ _ => ?_
    exact Except.bind_ne_error_of (liftM_ne_panicked _) fun _ _ => (by rintro ⟨⟩)

theorem previousRecord_read {predecessor : Option Value} {previous : Value} {prior : Map}
    (h : previousRecord formatFinite predecessor = .ok (some (previous, prior))) :
    validateDefinitionRecord formatFinite previous = .ok () ∧ previous = .object prior := by
  cases predecessor with
  | none => cases h
  | some p =>
    simp only [previousRecord, Except.bind_eq_ok, liftM_eq_ok, members_eq_ok, Except.pure_eq,
      Except.ok.injEq] at h
    obtain ⟨_, hdefinition, record, rfl, heq⟩ := h
    cases heq
    exact ⟨hdefinition, rfl⟩

theorem AuthorityRecord.signingKeys_ne_panicked (r : AuthorityRecord record)
    {predecessor : Option Value} {previous : Option (Value × Map)}
    (hread : previousRecord formatFinite predecessor = .ok previous) :
    signingKeys formatFinite provider record r.epoch r.user r.transition r.management r.recovery
      previous ≠ .error .panicked := by
  cases previous with
  | none =>
    refine Except.bind_ne_error_of reject_ne_panicked fun _ _ => ?_
    refine Except.bind_ne_error_of deriveUserIdentityRef_ne_panicked fun _ _ => ?_
    exact Except.bind_ne_error_of reject_ne_panicked fun _ _ => nofun
  | some previous =>
    obtain ⟨previous, prior⟩ := previous
    obtain ⟨hdefinition, rfl⟩ := previousRecord_read hread
    have hdigest : userAuthorityStateDigest formatFinite provider (.object prior) ≠
        .error .panicked := by
      rw [userAuthorityStateDigest_ne_panicked, ← validateDefinitionRecord_ne_panicked, hdefinition]
      exact nofun
    refine Except.bind_ne_error_of reject_ne_panicked fun _ _ => ?_
    refine Except.bind_ne_error_of hdigest fun digest hdigest => ?_
    obtain ⟨_, heq, ⟨q⟩⟩ := userAuthorityStateDigest_record hdigest
    cases heq
    refine Except.bind_ne_error_of (liftM_ne_panicked _) fun _ _ => ?_
    refine Except.bind_ne_error_of reject_ne_panicked fun _ _ => ?_
    refine Except.bind_ne_error_of reject_ne_panicked fun _ _ => ?_
    refine Except.bind_ne_error_of reject_ne_panicked fun _ _ => ?_
    refine Except.bind_ne_error_of (liftM_ne_panicked _) fun before hbefore => ?_
    refine Except.bind_ne_error_of (liftM_ne_panicked _) fun after hafter => ?_
    rw [liftM_eq_ok, array_eq_ok, q.get_devices, Option.some.injEq, Value.array.injEq] at hbefore
    rw [liftM_eq_ok, array_eq_ok, r.get_devices, Option.some.injEq, Value.array.injEq] at hafter
    subst hbefore hafter
    refine Except.bind_ne_error_of (validateRosterTransition_ne_panicked q.roster r.roster)
      fun _ _ => ?_
    exact liftM_ne_panicked _

theorem AuthorityRecord.signingKeys_decode (r : AuthorityRecord record)
    {predecessor : Option Value} {previous : Option (Value × Map)} {keys : List Value}
    (hread : previousRecord formatFinite predecessor = .ok previous)
    (h : signingKeys formatFinite provider record r.epoch r.user r.transition r.management
      r.recovery previous = .ok keys) : KeysDecode keys := by
  cases previous with
  | none =>
    simp only [signingKeys, genesisKeys, Except.bind_eq_ok, Except.pure_eq, Except.ok.injEq] at h
    obtain ⟨_, _, _, _, _, _, rfl⟩ := h
    exact keysDecode_of_valid r.management_keys
  | some previous =>
    obtain ⟨previous, prior⟩ := previous
    obtain ⟨hdefinition, rfl⟩ := previousRecord_read hread
    simp only [signingKeys, successorKeys, Except.bind_eq_ok, liftM_eq_ok, array_eq_ok] at h
    obtain ⟨_, _, digest, hdigest, _, _, _, _, _, _, _, _, _, _, _, _, _, _, hkeys⟩ := h
    obtain ⟨_, heq, ⟨q⟩⟩ := userAuthorityStateDigest_record hdigest
    cases heq
    split at hkeys
    · rw [q.get_management, Option.some.injEq, Value.array.injEq] at hkeys
      exact hkeys ▸ keysDecode_of_valid q.management_keys
    · rw [q.get_recovery, Option.some.injEq, Value.array.injEq] at hkeys
      exact hkeys ▸ keysDecode_of_valid q.recovery_keys

theorem AuthorityRecord.devicePossessionInput_ne_panicked (r : AuthorityRecord record)
    {epoch : Nat} {item : Map} {endpoint : FixedBytes 32}
    (hitem : DeviceRecord epoch item endpoint) :
    devicePossessionInput (.object record) (.object item) ≠ .error .panicked := by
  obtain ⟨identity, hidentity⟩ := hitem.identity
  refine Except.bind_ne_error_of (liftM_ne_panicked _) fun record' hrecord => ?_
  rw [liftM_eq_ok, members_eq_ok, Value.object.injEq] at hrecord
  subst hrecord
  refine Except.bind_ne_error_of (liftM_ne_panicked _) fun item' hobject => ?_
  rw [liftM_eq_ok, members_eq_ok, Value.object.injEq] at hobject
  subst hobject
  refine Except.bind_ne_error_of (decodedHex_get r.get_line) fun _ _ => ?_
  refine Except.bind_ne_error_of (decodedHex_get r.get_user) fun _ _ => ?_
  refine Except.bind_ne_error_of (liftM_ne_panicked _) fun _ _ => ?_
  refine Except.bind_ne_error_of (by rw [hitem.endpoint]; exact nofun) fun _ _ => ?_
  refine Except.bind_ne_error_of (decodedHex_get hidentity) fun _ _ => ?_
  exact Except.bind_ne_error_of (liftM_ne_panicked _) fun _ _ => nofun

theorem AuthorityRecord.admitDevice_ne_panicked (r : AuthorityRecord record) {epoch : Nat}
    {genesis : Bool} {priorDevices : List Value} {endpointStates : List EndpointStateKeys}
    {item : Map} {endpoint identity : FixedBytes 32} (hitem : DeviceRecord epoch item endpoint) :
    admitDevice provider (.object record) epoch genesis priorDevices endpointStates (.object item)
      item endpoint identity ≠ .error .panicked := by
  rw [admitDevice]
  split
  · rintro ⟨⟩
  refine Except.bind_ne_error_of (liftM_ne_panicked _) fun _ _ => ?_
  refine Except.bind_ne_error_of okOr_ne_panicked fun keys _ => ?_
  refine Except.bind_ne_error_of (liftM_ne_panicked _) fun _ _ => ?_
  refine Except.bind_ne_error_of (liftM_ne_panicked _) fun _ _ => ?_
  refine Except.bind_ne_error_of (r.devicePossessionInput_ne_panicked hitem) fun _ _ => ?_
  refine Except.bind_ne_error_of ?_ fun _ _ => liftM_ne_panicked _
  exact verifySignaturePair_ne_panicked (keysDecode_endpoint keys)

theorem AuthorityRecord.loop_ne_panicked (r : AuthorityRecord record) {genesis : Bool}
    {priorDevices : List Value} {endpointStates : List EndpointStateKeys} :
    (devices r.entries).foldlM (validateAuthorizedDevice provider (.object record) r.epoch genesis
      priorDevices endpointStates) none ≠ .error .panicked := by
  rw [Except.foldlM_ne_error_iff]
  intro before device after hsplit previous _
  have hdevice : device ∈ devices r.entries := by simp [hsplit]
  obtain ⟨entry, hentry, rfl⟩ := List.mem_map.mp hdevice
  have hitem := r.roster.valid entry hentry
  obtain ⟨identity, hidentity⟩ := hitem.identity
  refine Except.bind_ne_error_of (liftM_ne_panicked _) fun item hobject => ?_
  rw [liftM_eq_ok, members_eq_ok, Value.object.injEq] at hobject
  subst hobject
  refine Except.bind_ne_error_of (by rw [hitem.endpoint]; exact nofun) fun endpoint hendpoint => ?_
  obtain rfl : entry.1 = endpoint := Except.ok.inj (hitem.endpoint.symm.trans hendpoint)
  refine Except.bind_ne_error_of reject_ne_panicked fun _ _ => ?_
  refine Except.bind_ne_error_of (decodedHex_get hidentity) fun _ _ => ?_
  exact Except.bind_ne_error_of (r.admitDevice_ne_panicked hitem) fun _ _ => nofun

theorem AuthorityRecord.replacementInput_ne_panicked (r : AuthorityRecord record) :
    replacementPossessionInput (.object record) ≠ .error .panicked := by
  refine Except.bind_ne_error_of (liftM_ne_panicked _) fun record' hrecord => ?_
  rw [liftM_eq_ok, members_eq_ok, Value.object.injEq] at hrecord
  subst hrecord
  refine Except.bind_ne_error_of (decodedHex_get r.get_line) fun _ _ => ?_
  refine Except.bind_ne_error_of (decodedHex_get r.get_user) fun _ _ => ?_
  refine Except.bind_ne_error_of (liftM_ne_panicked _) fun _ _ => ?_
  refine Except.bind_ne_error_of (liftM_ne_panicked _) fun management hmanagement => ?_
  rw [liftM_eq_ok, array_eq_ok, r.get_management, Option.some.injEq, Value.array.injEq]
    at hmanagement
  subst hmanagement
  refine Except.bind_ne_error_of (authorityKeyProjection_ne_panicked r.management_keys)
    fun _ _ => ?_
  refine Except.bind_ne_error_of (liftM_ne_panicked _) fun recovery hrecovery => ?_
  rw [liftM_eq_ok, array_eq_ok, r.get_recovery, Option.some.injEq, Value.array.injEq] at hrecovery
  subst hrecovery
  refine Except.bind_ne_error_of (authorityKeyProjection_ne_panicked r.recovery_keys) fun _ _ => ?_
  exact Except.bind_ne_error_of (liftM_ne_panicked _) fun _ _ => nofun

theorem verifyReplacedKeys_ne_panicked {proof : Map} {input : Bytes} {changed : Bool}
    {field keySet purpose : String}
    (h : ∀ keys, record.get keySet = some (.array keys) → KeysDecode keys) :
    verifyReplacedKeys provider record proof input changed field keySet purpose ≠
      .error .panicked := by
  rw [verifyReplacedKeys]
  split
  · refine Except.bind_ne_error_of okOr_ne_panicked fun _ _ => ?_
    refine Except.bind_ne_error_of (liftM_ne_panicked _) fun keys hkeys => ?_
    rw [liftM_eq_ok, array_eq_ok] at hkeys
    exact verifySignaturePair_ne_panicked (h keys hkeys)
  · exact reject_ne_panicked

theorem AuthorityRecord.verifyReplacementPossession_ne_panicked (r : AuthorityRecord record)
    {managementChanged recoveryChanged : Bool} :
    verifyReplacementPossession provider (.object record) record managementChanged
      recoveryChanged ≠ .error .panicked := by
  refine Except.bind_ne_error_of reject_ne_panicked fun _ _ => ?_
  refine Except.bind_ne_error_of okOr_ne_panicked fun _ _ => ?_
  refine Except.bind_ne_error_of r.replacementInput_ne_panicked fun _ _ => ?_
  refine Except.bind_ne_error_of (verifyReplacedKeys_ne_panicked fun keys hkeys => ?_) fun _ _ =>
    verifyReplacedKeys_ne_panicked fun keys hkeys => ?_
  · rw [r.get_management, Option.some.injEq, Value.array.injEq] at hkeys
    exact hkeys ▸ keysDecode_of_valid r.management_keys
  · rw [r.get_recovery, Option.some.injEq, Value.array.injEq] at hkeys
    exact hkeys ▸ keysDecode_of_valid r.recovery_keys

theorem AuthorityRecord.validateReplacement_ne_panicked (r : AuthorityRecord record)
    {transition : String} {previous : Option (Value × Map)} :
    validateReplacement provider (.object record) record transition previous ≠
      .error .panicked := by
  cases previous with
  | none => rintro ⟨⟩
  | some previous =>
    simp only [validateReplacement]
    split
    · exact r.verifyReplacementPossession_ne_panicked
    · split
      · rintro ⟨⟩
      · split
        · exact r.verifyReplacementPossession_ne_panicked
        · rintro ⟨⟩

/-- A state that its own checks and the expected line let through to its predecessor. -/
def Admissible (formatFinite : Rat → String) (state : Value) (line : FixedBytes 32) : Prop :=
  validateDefinitionRecord formatFinite state = .ok () ∧ ∃ record : Map, state = .object record ∧
    record.get "recordType" = some (.string "userAuthorityState") ∧
    decodedHex 32 record "protocolLineId" = .ok line

theorem Admissible.parsed {state : Value} {line : FixedBytes 32}
    (h : Admissible formatFinite state line) :
    ∃ (record : Map) (r : AuthorityRecord record), state = .object record ∧ r.line = line := by
  obtain ⟨hdefinition, record, rfl, htype, hline⟩ := h
  simp only [validateDefinitionRecord, Except.bind_eq_ok, liftM_eq_ok, text_eq_ok] at hdefinition
  obtain ⟨record', hsizes, recordType, htype', hrecord⟩ := hdefinition
  cases validateSizes_members hsizes
  obtain rfl := text_unique htype htype'
  obtain ⟨r⟩ := validateUserAuthorityRecord_eq_ok.mp hrecord
  exact ⟨record, r, rfl, Except.ok.inj ((decodedHex_of_get r.get_line).symm.trans hline)⟩

theorem validateUserAuthorityState_ne_panicked {state : Value} {predecessor : Option Value}
    {line : FixedBytes 32} {endpointStates : List EndpointStateKeys} :
    validateUserAuthorityState formatFinite provider state predecessor line endpointStates ≠
        .error .panicked ↔
      RecordSliceable formatFinite state ∧ (Admissible formatFinite state line →
        ∀ previous ∈ predecessor, RecordSliceable formatFinite previous) := by
  rw [validateUserAuthorityState]
  constructor
  · intro h
    refine ⟨validateDefinitionRecord_ne_panicked.mp (Except.bind_ne_error.mp h).1, fun hstate => ?_⟩
    obtain ⟨record, r, rfl, rfl⟩ := hstate.parsed
    have h := Except.ne_error_of_bind h hstate.1
    have h := Except.ne_error_of_bind h (liftM_eq_ok.mpr (members_eq_ok.mpr rfl))
    have h := Except.ne_error_of_bind h (liftM_eq_ok.mpr r.get_epoch)
    have h := Except.ne_error_of_bind h (decodedHex_of_get r.get_user)
    have h := Except.ne_error_of_bind h (decodedHex_of_get r.get_line)
    have h := Except.ne_error_of_bind h (reject_of_not _ (not_not.mpr rfl))
    have h := Except.ne_error_of_bind h (liftM_eq_ok.mpr (text_eq_ok.mpr r.get_transition))
    have h := Except.ne_error_of_bind h (liftM_eq_ok.mpr (array_eq_ok.mpr r.get_management))
    have h := Except.ne_error_of_bind h (liftM_eq_ok.mpr (array_eq_ok.mpr r.get_recovery))
    have h := Except.ne_error_of_bind h (liftM_eq_ok.mpr r.management_keys)
    have h := Except.ne_error_of_bind h (liftM_eq_ok.mpr r.recovery_keys)
    exact previousRecord_ne_panicked.mp (Except.bind_ne_error.mp h).1
  · rintro ⟨hstate, hprevious⟩
    refine Except.bind_ne_error_of (validateDefinitionRecord_ne_panicked.mpr hstate)
      fun _ hdefinition => ?_
    refine Except.bind_ne_error_of (liftM_ne_panicked _) fun record hrecord => ?_
    rw [liftM_eq_ok, members_eq_ok] at hrecord
    subst hrecord
    refine Except.bind_ne_error_of (liftM_ne_panicked _) fun epoch hepoch => ?_
    have huser : decodedHex 32 record "userIdentityRef" ≠ .error .panicked := by
      rcases validateDefinitionRecord_cases hdefinition with ⟨_, ⟨r⟩⟩ | hother
      · exact decodedHex_get r.get_user
      · rw [decodedHex_ne_panicked, hother.user]
        rintro _ ⟨⟩
    refine Except.bind_ne_error_of huser fun user huser => ?_
    obtain ⟨_, hget, _⟩ := decodedHex_eq_ok.mp huser
    obtain ⟨htype, ⟨r⟩⟩ := validateDefinitionRecord_eq_ok hdefinition (by rw [hget]; rintro ⟨⟩)
    obtain rfl : r.epoch = epoch := Except.ok.inj (r.get_epoch.symm.trans (liftM_eq_ok.mp hepoch))
    obtain rfl : r.user = user := Except.ok.inj ((decodedHex_of_get r.get_user).symm.trans huser)
    refine Except.bind_ne_error_of (decodedHex_get r.get_line) fun line' hline => ?_
    refine Except.bind_ne_error_of reject_ne_panicked fun _ hexpected => ?_
    rw [reject_eq_ok, not_not] at hexpected
    subst hexpected
    refine Except.bind_ne_error_of (liftM_ne_panicked _) fun transition htransition => ?_
    obtain rfl := text_unique r.get_transition (text_eq_ok.mp (liftM_eq_ok.mp htransition))
    refine Except.bind_ne_error_of (liftM_ne_panicked _) fun management hmanagement => ?_
    rw [liftM_eq_ok, array_eq_ok, r.get_management, Option.some.injEq, Value.array.injEq]
      at hmanagement
    subst hmanagement
    refine Except.bind_ne_error_of (liftM_ne_panicked _) fun recovery hrecovery => ?_
    rw [liftM_eq_ok, array_eq_ok, r.get_recovery, Option.some.injEq, Value.array.injEq]
      at hrecovery
    subst hrecovery
    refine Except.bind_ne_error_of (liftM_ne_panicked _) fun _ _ => ?_
    refine Except.bind_ne_error_of (liftM_ne_panicked _) fun _ _ => ?_
    have hread := previousRecord_ne_panicked.mpr
      (hprevious ⟨hdefinition, record, rfl, htype, hline⟩)
    refine Except.bind_ne_error_of hread fun previous hread => ?_
    refine Except.bind_ne_error_of (r.signingKeys_ne_panicked hread) fun keys hkeys => ?_
    refine Except.bind_ne_error_of (userAuthorityStateDigest_ne_panicked.mpr hstate) fun _ _ => ?_
    refine Except.bind_ne_error_of (liftM_ne_panicked _) fun _ _ => ?_
    refine Except.bind_ne_error_of
      (verifySignaturePair_ne_panicked (r.signingKeys_decode hread hkeys)) fun _ _ => ?_
    refine Except.bind_ne_error_of (liftM_ne_panicked _) fun values hvalues => ?_
    rw [liftM_eq_ok, array_eq_ok, r.get_devices, Option.some.injEq, Value.array.injEq] at hvalues
    subst hvalues
    refine Except.bind_ne_error_of reject_ne_panicked fun _ _ => ?_
    refine Except.bind_ne_error_of (liftM_ne_panicked _) fun _ _ => ?_
    refine Except.bind_ne_error_of r.loop_ne_panicked fun _ _ => ?_
    exact Except.bind_ne_error_of r.validateReplacement_ne_panicked fun _ _ => (by rintro ⟨⟩)

end State

section Entries

variable {formatFinite : Rat → String} {provider : Provider}

/-- The predecessor digest that the catch-up loop decodes before it checks the snapshot. -/
def ParentSliceable (snapshot : Value) : Prop :=
  ∀ record : Map, snapshot = .object record →
    ∀ t, record.get "previousUserAuthorityStateDigest" = some (.string t) → Sliceable t

def ParentDecodes (snapshot : Value) : Prop :=
  ∃ (record : Map) (parent : Option (FixedBytes 32)), snapshot = .object record ∧
    previousDigest record = .ok parent

theorem map_ne_panicked {α β : Type} {f : α → β} {x : Except Fault α} :
    f <$> x ≠ .error .panicked ↔ x ≠ .error .panicked := by
  cases x with
  | ok a => exact iff_of_true nofun nofun
  | error fault =>
    refine not_congr ⟨fun h => ?_, fun h => ?_⟩
    · exact congrArg Except.error (Except.error.inj h)
    · exact congrArg Except.error (Except.error.inj h)

theorem previousDigest_ne_panicked {record : Map} :
    previousDigest record ≠ .error .panicked ↔
      ∀ t, record.get "previousUserAuthorityStateDigest" = some (.string t) → Sliceable t := by
  rw [previousDigest]
  split
  · rename_i hget
    rw [hget]
    exact iff_of_true (by rintro ⟨⟩) fun _ => (by rintro ⟨⟩)
  · rw [map_ne_panicked, decodedHex_ne_panicked]

theorem catchUpSnapshot_ne_panicked {line : FixedBytes 32} {endpointStates : List EndpointStateKeys}
    {seen : Option AcceptedUserAuthority × (Option (FixedBytes 32) → Option (FixedBytes 32))}
    {snapshot : Value} :
    catchUpSnapshot formatFinite provider line endpointStates seen snapshot ≠ .error .panicked ↔
      ParentSliceable snapshot ∧ (ParentDecodes snapshot → RecordSliceable formatFinite snapshot) ∧
      ∀ (record : Map) (parent : Option (FixedBytes 32)) (digest : FixedBytes 32),
        snapshot = .object record → previousDigest record = .ok parent →
        userAuthorityStateDigest formatFinite provider snapshot = .ok digest →
        (∀ prior ∈ seen.2 parent, prior = digest) → Admissible formatFinite snapshot line →
        ∀ accepted ∈ seen.1, RecordSliceable formatFinite accepted.state := by
  rw [catchUpSnapshot, Except.bind_ne_error]
  constructor
  · rintro ⟨_, h⟩
    have hafter : ∀ (record : Map), snapshot = .object record →
        previousDigest record ≠ .error .panicked := fun record hrecord =>
      (Except.bind_ne_error.mp (h record (liftM_eq_ok.mpr (members_eq_ok.mpr hrecord)))).1
    refine ⟨fun record hrecord => previousDigest_ne_panicked.mp (hafter record hrecord), ?_, ?_⟩
    · rintro ⟨record, parent, hrecord, hparent⟩
      have h := h record (liftM_eq_ok.mpr (members_eq_ok.mpr hrecord))
      have h := Except.ne_error_of_bind h hparent
      exact userAuthorityStateDigest_ne_panicked.mp (Except.bind_ne_error.mp h).1
    · intro record parent digest hrecord hparent hdigest hprior hstate accepted haccepted
      have h := h record (liftM_eq_ok.mpr (members_eq_ok.mpr hrecord))
      have h := Except.ne_error_of_bind h hparent
      have h := Except.ne_error_of_bind h hdigest
      have hnew : ¬((seen.2 parent).any fun prior => prior ≠ digest) := by
        simpa [Option.any_eq_true] using hprior
      have h := Except.ne_error_of_bind h (reject_of_not _ hnew)
      have h := (Except.bind_ne_error.mp h).1
      refine (validateUserAuthorityState_ne_panicked.mp h).2 hstate accepted.state ?_
      rw [Option.mem_def.mp haccepted]
      rfl
  · rintro ⟨hparent, hrecord, hprevious⟩
    refine ⟨liftM_ne_panicked _, fun record hmembers => ?_⟩
    rw [liftM_eq_ok, members_eq_ok] at hmembers
    refine Except.bind_ne_error_of (previousDigest_ne_panicked.mpr (hparent record hmembers))
      fun parent hdecoded => ?_
    have hsliceable := hrecord ⟨record, parent, hmembers, hdecoded⟩
    refine Except.bind_ne_error_of (userAuthorityStateDigest_ne_panicked.mpr hsliceable)
      fun digest hdigest => ?_
    refine Except.bind_ne_error_of reject_ne_panicked fun _ hnew => ?_
    have hprior : ∀ prior ∈ seen.2 parent, prior = digest := by
      rw [reject_eq_ok] at hnew
      simpa [Option.any_eq_true] using hnew
    refine Except.bind_ne_error_of ?_ fun _ _ => nofun
    refine validateUserAuthorityState_ne_panicked.mpr ⟨hsliceable, fun hstate previous hmem => ?_⟩
    obtain ⟨accepted, haccepted, rfl⟩ := Option.mem_map.mp hmem
    exact hprevious record parent digest hmembers hdecoded hdigest hprior hstate accepted haccepted

theorem catchUpSnapshot_checked {line : FixedBytes 32} {endpointStates : List EndpointStateKeys}
    {seen next : Option AcceptedUserAuthority × (Option (FixedBytes 32) → Option (FixedBytes 32))}
    {snapshot : Value}
    (h : catchUpSnapshot formatFinite provider line endpointStates seen snapshot = .ok next) :
    ∀ accepted ∈ next.1, RecordSliceable formatFinite accepted.state := by
  simp only [catchUpSnapshot, Except.bind_eq_ok, Except.pure_eq, Except.ok.injEq] at h
  obtain ⟨_, _, _, _, digest, hdigest, _, _, accepted, haccepted, rfl⟩ := h
  obtain ⟨record, r, _, _, rfl, _, rfl⟩ := validateUserAuthorityState_eq_ok.mp haccepted
  rintro _ ⟨⟩
  have hreturns : userAuthorityStateDigest formatFinite provider (.object record) ≠
      .error .panicked := by
    rw [hdigest]
    rintro ⟨⟩
  exact userAuthorityStateDigest_ne_panicked.mp hreturns

theorem foldlM_catchUpSnapshot_checked {line : FixedBytes 32}
    {endpointStates : List EndpointStateKeys} {snapshots : List Value}
    {seen last : Option AcceptedUserAuthority × (Option (FixedBytes 32) → Option (FixedBytes 32))}
    (h : snapshots.foldlM (catchUpSnapshot formatFinite provider line endpointStates) seen =
      .ok last)
    (hseen : snapshots = [] → ∀ accepted ∈ seen.1, RecordSliceable formatFinite accepted.state) :
    ∀ accepted ∈ last.1, RecordSliceable formatFinite accepted.state := by
  induction snapshots generalizing seen with
  | nil =>
    cases h
    exact hseen rfl
  | cons snapshot snapshots ih =>
    rw [List.foldlM_cons, Except.bind_eq_ok] at h
    obtain ⟨next, hnext, hrest⟩ := h
    exact ih hrest fun _ => catchUpSnapshot_checked hnext

/-- The texts that a catch-up decodes unchecked: of each snapshot that the loop reaches, and of the
accepted state that its first snapshot is checked against. -/
def CatchUpSliceable (formatFinite : Rat → String) (provider : Provider)
    (accepted : Option AcceptedUserAuthority) (snapshots : List Value) (line : FixedBytes 32)
    (endpointStates : List EndpointStateKeys) : Prop :=
  snapshots.length ≤ maxChainRecords →
    (∀ before snapshot after, snapshots = before ++ snapshot :: after →
      (∃ last, before.foldlM (catchUpSnapshot formatFinite provider line endpointStates)
        (accepted, fun _ => none) = .ok last) →
      ParentSliceable snapshot ∧ (ParentDecodes snapshot → RecordSliceable formatFinite snapshot)) ∧
    ∀ first ∈ snapshots.head?, Admissible formatFinite first line →
      (∃ digest, userAuthorityStateDigest formatFinite provider first = .ok digest) →
      ∀ current ∈ accepted, RecordSliceable formatFinite current.state

theorem Admissible.parentDecodes {state : Value} {line : FixedBytes 32}
    (h : Admissible formatFinite state line) : ParentDecodes state := by
  obtain ⟨record, r, rfl, _⟩ := h.parsed
  cases hget : record.get "previousUserAuthorityStateDigest" with
  | none => exact ⟨record, none, rfl, by rw [previousDigest, hget]⟩
  | some value =>
    obtain ⟨digest, rfl⟩ := r.previous value hget
    refine ⟨record, some digest, rfl, ?_⟩
    rw [previousDigest, hget]
    simp only [decodedHex_of_get hget]
    rfl

theorem applyUserAuthorityCatchUp_ne_panicked {accepted : Option AcceptedUserAuthority}
    {snapshots : List Value} {line : FixedBytes 32} {endpointStates : List EndpointStateKeys} :
    applyUserAuthorityCatchUp formatFinite provider accepted snapshots line endpointStates ≠
        .error .panicked ↔
      CatchUpSliceable formatFinite provider accepted snapshots line endpointStates := by
  rw [applyUserAuthorityCatchUp, Except.bind_ne_error]
  constructor
  · rintro ⟨_, h⟩ hlength
    by_cases hempty : snapshots = []
    · subst hempty
      exact ⟨by simp, by simp⟩
    have h := h () (reject_of_not _ (by rw [not_or]; exact ⟨hempty, by omega⟩))
    have h := Except.foldlM_ne_error_iff.mp (Except.bind_ne_error.mp h).1
    constructor
    · rintro before snapshot after hsplit ⟨last, hlast⟩
      have hsnapshot := catchUpSnapshot_ne_panicked.mp (h before snapshot after hsplit last hlast)
      exact ⟨hsnapshot.1, hsnapshot.2.1⟩
    · intro first hfirst hstate ⟨digest, hdigest⟩ current hcurrent
      obtain ⟨rest, rfl⟩ := List.head?_eq_some_iff.mp hfirst
      have hsnapshot := catchUpSnapshot_ne_panicked.mp (h [] first rest rfl _ rfl)
      obtain ⟨record, parent, hrecord, hparent⟩ := hstate.parentDecodes
      exact hsnapshot.2.2 record parent digest hrecord hparent hdigest nofun hstate current hcurrent
  · intro h
    refine ⟨reject_ne_panicked, fun _ hlength => Except.bind_ne_error_of ?_ fun _ _ =>
      okOr_ne_panicked⟩
    rw [reject_eq_ok, not_or, not_lt] at hlength
    obtain ⟨hreached, hfirst⟩ := h hlength.2
    rw [Except.foldlM_ne_error_iff]
    intro before snapshot after hsplit last hlast
    obtain ⟨hparent, hrecord⟩ := hreached before snapshot after hsplit ⟨last, hlast⟩
    refine catchUpSnapshot_ne_panicked.mpr ⟨hparent, hrecord, ?_⟩
    intro record parent digest _ _ hdigest _ hstate current hcurrent
    refine foldlM_catchUpSnapshot_checked hlast (fun hempty => ?_) current hcurrent
    subst hempty
    exact hfirst snapshot (by simp [hsplit]) hstate ⟨digest, hdigest⟩

def LineSliceable (state : Value) : Prop :=
  ∀ record : Map, state = .object record →
    ∀ t, record.get "protocolLineId" = some (.string t) → Sliceable t

theorem acceptedLine_ne_panicked {state : Value} :
    acceptedLine state ≠ .error .panicked ↔ LineSliceable state := by
  rw [acceptedLine]
  cases state with
  | object record =>
    simp only [Value.asObject]
    rw [map_ne_panicked, decodedHex_ne_panicked]
    exact ⟨fun h _ heq => by cases heq; exact h, fun h => h record rfl⟩
  | _ => exact iff_of_true (by rintro ⟨⟩) (by rintro _ ⟨⟩)

/-- The texts that an admission decodes unchecked: of the state, of the accepted state that it
repeats, and of the accepted state that it is checked against. -/
def AdmissionSliceable (formatFinite : Rat → String) (provider : Provider)
    (accepted : Option AcceptedUserAuthority) (session : AuthenticatedAuthoritySession)
    (state : Value) (line : FixedBytes 32) : Prop :=
  session.authenticated = true → RecordSliceable formatFinite state ∧
    ∀ digest, userAuthorityStateDigest formatFinite provider state = .ok digest →
      ∀ current ∈ accepted,
        (current.stateDigest = digest → session.authorityStateDigest = digest →
          LineSliceable current.state) ∧
        (current.stateDigest ≠ digest → Admissible formatFinite state line →
          RecordSliceable formatFinite current.state)

theorem admitProtectedAuthorityPayload_ne_panicked {accepted : Option AcceptedUserAuthority}
    {session : AuthenticatedAuthoritySession} {state : Value} {line : FixedBytes 32}
    {endpointStates : List EndpointStateKeys} :
    admitProtectedAuthorityPayload formatFinite provider accepted session state line
        endpointStates ≠ .error .panicked ↔
      AdmissionSliceable formatFinite provider accepted session state line := by
  rw [admitProtectedAuthorityPayload, Except.bind_ne_error]
  constructor
  · rintro ⟨_, h⟩ hsession
    have h := h () (reject_of_not _ (by simp [hsession]))
    have hdigest := (Except.bind_ne_error.mp h).1
    refine ⟨userAuthorityStateDigest_ne_panicked.mp hdigest, fun digest hdigest current hcurrent =>
      ?_⟩
    rw [Option.mem_def] at hcurrent
    subst hcurrent
    have h := Except.ne_error_of_bind h hdigest
    constructor
    · intro hrepeat hexpected
      have hsame : admittedAuthority formatFinite provider (some current) state digest line
          endpointStates = .ok current := by simp [admittedAuthority, Option.filter, hrepeat]
      have h := Except.ne_error_of_bind h hsame
      have h := Except.ne_error_of_bind h (reject_of_not _ (by simp [hrepeat, hexpected]))
      exact acceptedLine_ne_panicked.mp (Except.bind_ne_error.mp h).1
    · intro hnew hstate
      have h := (Except.bind_ne_error.mp h).1
      simp only [admittedAuthority, Option.filter, hnew, decide_false, Bool.false_eq_true, if_false,
        Option.map_some] at h
      exact (validateUserAuthorityState_ne_panicked.mp h).2 hstate current.state rfl
  · intro h
    refine ⟨reject_ne_panicked, fun _ hsession => ?_⟩
    rw [reject_eq_ok, not_not] at hsession
    obtain ⟨hsliceable, h⟩ := h hsession
    refine Except.bind_ne_error_of (userAuthorityStateDigest_ne_panicked.mpr hsliceable)
      fun digest hdigest => ?_
    have h := h digest hdigest
    refine Except.bind_ne_error_of ?_ fun result hresult => ?_
    · rw [admittedAuthority]
      split
      · exact nofun
      · rename_i hfilter
        refine validateUserAuthorityState_ne_panicked.mpr
          ⟨hsliceable, fun hstate previous hmem => ?_⟩
        obtain ⟨current, hcurrent, rfl⟩ := Option.mem_map.mp hmem
        refine (h current hcurrent).2 (fun hrepeat => ?_) hstate
        rw [Option.mem_def] at hcurrent
        subst hcurrent
        simp [Option.filter, hrepeat] at hfilter
    · refine Except.bind_ne_error_of reject_ne_panicked fun _ hexpected => ?_
      rw [reject_eq_ok, not_or, not_not, not_not] at hexpected
      refine Except.bind_ne_error_of (acceptedLine_ne_panicked.mpr ?_) fun _ _ => ?_
      · rw [admittedAuthority] at hresult
        split at hresult
        · rename_i current hfilter
          cases hresult
          rw [Option.filter_eq_some_iff] at hfilter
          exact (h _ hfilter.1).1 (by simpa using hfilter.2) hexpected.1.symm
        · obtain ⟨record, r, _, _, rfl, _, rfl⟩ := validateUserAuthorityState_eq_ok.mp hresult
          rintro _ ⟨⟩ t ht
          rw [r.get_line] at ht
          cases ht
          exact sliceable_hexBytes _
      · refine Except.bind_ne_error_of reject_ne_panicked fun _ _ => ?_
        refine Except.bind_ne_error_of okOr_ne_panicked fun _ _ => ?_
        exact Except.bind_ne_error_of reject_ne_panicked fun _ _ => nofun

/-- Each entry point of the identity layer returns exactly where no text that it decodes unchecked
is cut inside a character. -/
theorem identity_panics (formatFinite : Rat → String) (provider : Provider)
    (accepted : Option AcceptedUserAuthority) (session : AuthenticatedAuthoritySession)
    (state : Value) (predecessor : Option Value) (snapshots : List Value) (line : FixedBytes 32)
    (endpointStates : List EndpointStateKeys) :
    (validateDefinitionRecord formatFinite state ≠ .error .panicked ↔
      RecordSliceable formatFinite state) ∧
    (userAuthorityStateDigest formatFinite provider state ≠ .error .panicked ↔
      RecordSliceable formatFinite state) ∧
    (validateUserAuthorityState formatFinite provider state predecessor line endpointStates ≠
        .error .panicked ↔
      RecordSliceable formatFinite state ∧ (Admissible formatFinite state line →
        ∀ previous ∈ predecessor, RecordSliceable formatFinite previous)) ∧
    (applyUserAuthorityCatchUp formatFinite provider accepted snapshots line endpointStates ≠
        .error .panicked ↔
      CatchUpSliceable formatFinite provider accepted snapshots line endpointStates) ∧
    (admitProtectedAuthorityPayload formatFinite provider accepted session state line
        endpointStates ≠ .error .panicked ↔
      AdmissionSliceable formatFinite provider accepted session state line) :=
  ⟨validateDefinitionRecord_ne_panicked, userAuthorityStateDigest_ne_panicked,
    validateUserAuthorityState_ne_panicked, applyUserAuthorityCatchUp_ne_panicked,
    admitProtectedAuthorityPayload_ne_panicked⟩

theorem AuthorityData.head {data : AuthorityData} (h : data.WellFormed) {roster : List Value}
    (hroster : roster ≠ [] ∧ roster.length ≤ 16) :
    validateAuthorityHead (data.record roster) = .ok (data.epoch, roster) := by
  have hclosed : closed (data.record roster) authorityMembers requiredAuthorityMembers =
      .ok () := by
    rw [closed_eq_ok, AuthorityData.record]
    cases data.previous <;>
      simp [authorityMembers, requiredAuthorityMembers, Map.get, List.lookup]
  have hline : (data.record roster).get "protocolLineId" = some (hexText data.line) := by
    rw [AuthorityData.record]
    cases data.previous <;> rfl
  have huser : (data.record roster).get "userIdentityRef" = some (hexText data.user) := by
    rw [AuthorityData.record]
    cases data.previous <;> rfl
  have hprevious : (data.record roster).get "previousUserAuthorityStateDigest" =
      data.previous.map hexText := by
    rw [AuthorityData.record]
    cases data.previous <;> rfl
  have hrecovery : (data.record roster).get "recoverySigningKeys" =
      some (.array (KeySet.print data.recovery "recovery")) := by
    rw [AuthorityData.record]
    cases data.previous <;> rfl
  simp only [validateAuthorityHead, Except.bind_eq_ok, text_eq_ok, array_eq_ok, hexField_eq_ok,
    optionalHex_eq_ok, reject_eq_ok]
  refine ⟨(), hclosed, (), ⟨data.line, hline⟩, (), ⟨data.user, huser⟩, data.epoch,
    unsigned_natural h.epoch rfl, data.transition, rfl, (), ?_, (), ?_, _, rfl, (),
    KeySet.valid _ _, _, hrecovery, (), KeySet.valid _ _, roster, rfl, (), ?_, rfl⟩
  · rw [Map.containsKey, hprevious]
    rcases h.transition with ⟨hepoch, htransition, hnone⟩ | ⟨hepoch, htransition, hsome⟩
    · simp [hepoch, htransition, hnone]
    · obtain ⟨digest, hdigest⟩ := Option.ne_none_iff_exists'.mp hsome
      have hgenesis : data.transition ≠ "genesis" := by
        rintro heq
        rw [heq] at htransition
        exact absurd htransition (by decide)
      simp [hepoch, hgenesis, hdigest]
  · intro value hvalue
    rw [hprevious] at hvalue
    obtain ⟨digest, _, rfl⟩ := Option.mem_map.mp hvalue
    exact ⟨digest, rfl⟩
  · rw [not_or, not_lt]
    exact hroster

/-- A device whose endpoint has a character of two bytes at an odd position. -/
def cutDevice : Map :=
  [("admittedAuthorityEpoch", natural 0), ("deviceStatus", natural 0),
    ("endpointIdentityRef", .string "aéa"), ("identityStateDigest", natural 0),
    ("possessionProof", natural 0)]

theorem within_cutDevice {levels : Nat} : Within (levels + 1) 390 (.object cutDevice) := by
  have hnatural : Within levels 17 (natural 0) := within_natural (by decide)
  have htext : Within levels 66 (.string "aéa") := within_text (by decide) (by decide)
  have hnil : EntriesWithin levels 0 [] := entriesWithin_nil
  have hproof := hnil.cons "possessionProof" hnatural (by decide)
  have hidentity := hproof.cons "identityStateDigest" hnatural (by decide)
  have hendpoint := hidentity.cons "endpointIdentityRef" htext (by decide)
  have hstatus := hendpoint.cons "deviceStatus" hnatural (by decide)
  have hentries := hstatus.cons "admittedAuthorityEpoch" hnatural (by decide)
  exact (hentries.object (by simp)).mono (by omega)

theorem cutDevice_panics :
    validateDefinitionRecord (fun _ => "") (.object
      ((sampleState 0 [sampleDevice 1 0 none]).record [.object cutDevice])) =
        .error .panicked := by
  have hvalid : (sampleState 0 [sampleDevice 1 0 none]).WellFormed :=
    sampleState_valid (by decide) (by simp) (by simp) (by simp [sampleDevice])
      (by simp [sampleDevice])
  have hdevice : Within 14 390 (.object cutDevice) := within_cutDevice
  have hitems := itemsWithin_nil.cons hdevice
  by_contra hreturns
  have hsliceable := validateDefinitionRecord_ne_panicked.mp hreturns _
    (AuthorityData.sizes hvalid ((hitems.array (by simp)).mono (by omega)))
    AuthorityData.get_recordType 0 _ (AuthorityData.head hvalid (by simp)) [] _ [] rfl ⟨none, rfl⟩
    cutDevice rfl (by decide) "aéa" rfl
  rw [Sliceable] at hsliceable
  exact absurd hsliceable (by decide +kernel)

end Entries

end Identity

end LicoArc
