import LicoArc.IdentityLaws

/-!
# The parsed user authority record

A record that the validator accepts, read into its members: the entries of the
roster in ascending order, the two key sets and the signatures, each with what
the validator checked of it.
-/

namespace LicoArc

namespace Identity

open Json

section Roster

def deviceMembers : List String := ["endpointIdentityRef", "identityStateDigest", "deviceStatus",
  "admittedAuthorityEpoch", "revokedAuthorityEpoch", "possessionProof"]

def requiredDeviceMembers : List String := ["endpointIdentityRef", "identityStateDigest",
  "deviceStatus", "admittedAuthorityEpoch", "possessionProof"]

structure DeviceRecord (epoch : Nat) (item : Map) (endpoint : FixedBytes 32) : Prop where
  closed : closed item deviceMembers requiredDeviceMembers = .ok ()
  endpoint : decodedHex 32 item "endpointIdentityRef" = .ok endpoint
  identity : ∃ v : FixedBytes 32,
    item.get "identityStateDigest" = some (.string (hexBytes v.toList))
  admitted : ∃ n ≤ epoch, unsigned item "admittedAuthorityEpoch" = .ok n ∧
    validateDeviceStatus item epoch n = .ok ()
  proof : ∃ proof, item.get "possessionProof" = some (.array proof) ∧
    validateSignatureArray proof = .ok ()

variable {epoch : Nat}

theorem validateDevice_eq_ok {prior next : Option (FixedBytes 32)} {device : Value} :
    validateDevice epoch prior device = .ok next ↔ ∃ (item : Map) (endpoint : FixedBytes 32),
      device = .object item ∧ DeviceRecord epoch item endpoint ∧
      (∀ p ∈ prior, p.toList < endpoint.toList) ∧ next = some endpoint := by
  simp only [validateDevice, Except.bind_eq_ok, liftM_eq_ok, members_eq_ok, reject_eq_ok,
    array_eq_ok, Except.pure_eq, Except.ok.injEq]
  constructor
  · rintro ⟨item, rfl, _, hclosed, endpoint, hendpoint, _, hprior, _, hidentity, n, hadmitted, _,
      hle, _, hstatus, proof, hproof, _, hsignatures, rfl⟩
    refine ⟨item, endpoint, rfl, ⟨hclosed, hendpoint, hexField_eq_ok.mp hidentity,
      ⟨n, not_lt.mp hle, hadmitted, hstatus⟩, proof, hproof, hsignatures⟩, ?_, rfl⟩
    intro p hp
    rw [Option.mem_def] at hp
    subst hp
    simpa using hprior
  · rintro ⟨item, endpoint, rfl, h, hprior, rfl⟩
    obtain ⟨n, hle, hadmitted, hstatus⟩ := h.admitted
    obtain ⟨proof, hproof, hsignatures⟩ := h.proof
    refine ⟨item, rfl, (), h.closed, endpoint, h.endpoint, (), ?_, (),
      hexField_eq_ok.mpr h.identity, n, hadmitted, (), not_lt.mpr hle, (), hstatus, proof, hproof,
      (), hsignatures, rfl⟩
    cases prior with
    | none => simp
    | some p => simpa using hprior p rfl

/-- The entries of a roster: accepted devices in ascending order of their endpoints. -/
structure Roster (epoch : Nat) (entries : List (FixedBytes 32 × Map)) : Prop where
  valid : ∀ entry ∈ entries, DeviceRecord epoch entry.2 entry.1
  ascending : entries.Pairwise fun a b => a.1.toList < b.1.toList

def devices (entries : List (FixedBytes 32 × Map)) : List Value :=
  entries.map fun entry => .object entry.2

theorem foldlM_validateDevice {values : List Value} {prior last : Option (FixedBytes 32)}
    (h : values.foldlM (validateDevice epoch) prior = .ok last) :
    ∃ entries, values = devices entries ∧ Roster epoch entries ∧
      ∀ p ∈ prior, ∀ entry ∈ entries, p.toList < entry.1.toList := by
  induction values generalizing prior with
  | nil => exact ⟨[], rfl, ⟨nofun, .nil⟩, by simp⟩
  | cons value values ih =>
    rw [List.foldlM_cons, Except.bind_eq_ok] at h
    obtain ⟨next, hdevice, hrest⟩ := h
    obtain ⟨item, endpoint, rfl, hitem, hprior, rfl⟩ := validateDevice_eq_ok.mp hdevice
    obtain ⟨entries, rfl, hroster, hlater⟩ := ih hrest
    have habove := hlater endpoint rfl
    refine ⟨(endpoint, item) :: entries, rfl, ⟨?_, ?_⟩, fun p hp => ?_⟩
    · exact List.forall_mem_cons.mpr ⟨hitem, hroster.valid⟩
    · exact List.pairwise_cons.mpr ⟨habove, hroster.ascending⟩
    · refine List.forall_mem_cons.mpr ⟨hprior p hp, fun entry hentry => ?_⟩
      exact List.lt_trans (hprior p hp) (habove entry hentry)

theorem Roster.foldlM {entries : List (FixedBytes 32 × Map)} (h : Roster epoch entries)
    {p : Option (FixedBytes 32)}
    (hprior : ∀ q ∈ p, ∀ entry ∈ entries, q.toList < entry.1.toList) :
    ∃ last, (devices entries).foldlM (validateDevice epoch) p = .ok last := by
  induction entries generalizing p with
  | nil => exact ⟨p, rfl⟩
  | cons entry entries ih =>
    obtain ⟨habove, hascending⟩ := List.pairwise_cons.mp h.ascending
    obtain ⟨hvalid, hrest⟩ := List.forall_mem_cons.mp h.valid
    have habove' : ∀ p ∈ some entry.1, ∀ other ∈ entries, p.toList < other.1.toList := by
      simpa using habove
    obtain ⟨last, hlast⟩ := ih ⟨hrest, hascending⟩ habove'
    refine ⟨last, ?_⟩
    rw [devices, List.map_cons, List.foldlM_cons, validateDevice_eq_ok.mpr ⟨entry.2, entry.1, rfl,
      hvalid, fun q hq => hprior q hq entry List.mem_cons_self, rfl⟩]
    exact hlast

theorem insertDevice_append {endpoint : FixedBytes 32} {item : Map}
    {entries : List (FixedBytes 32 × Map)}
    (h : ∀ entry ∈ entries, entry.1.toList < endpoint.toList) :
    insertDevice endpoint item entries = entries ++ [(endpoint, item)] := by
  induction entries with
  | nil => rfl
  | cons entry entries ih =>
    obtain ⟨hfirst, hrest⟩ := List.forall_mem_cons.mp h
    rw [insertDevice, if_neg (List.lt_asymm hfirst), if_neg, ih hrest]
    · rfl
    · rintro rfl
      exact absurd hfirst (List.lt_irrefl _)

theorem foldl_insertDevice {b entries : List (FixedBytes 32 × Map)}
    (h : (b ++ entries).Pairwise fun a b => a.1.toList < b.1.toList) :
    entries.foldl (fun map entry => insertDevice entry.1 entry.2 map) b = b ++ entries := by
  induction entries generalizing b with
  | nil => rw [List.foldl_nil, List.append_nil]
  | cons entry entries ih =>
    have hlast : ∀ other ∈ b, other.1.toList < entry.1.toList := fun other hother =>
      (List.pairwise_append.mp h).2.2 other hother entry List.mem_cons_self
    rw [List.foldl_cons, insertDevice_append hlast, ih]
    · rw [List.append_assoc, List.singleton_append]
    · rwa [List.append_assoc, List.singleton_append]

theorem Roster.deviceMap {entries : List (FixedBytes 32 × Map)} (h : Roster epoch entries) :
    deviceMap (devices entries) = .ok entries := by
  have hentries : (devices entries).mapM deviceEntry = .ok entries := by
    rw [Except.mapM_eq_ok, devices, List.forall₂_map_left_iff, List.forall₂_same]
    intro entry hentry
    simp [deviceEntry, Except.bind_eq_ok, (h.valid entry hentry).endpoint]
  have hfold := foldl_insertDevice (b := []) h.ascending
  rw [Identity.deviceMap, hentries, Except.ok_bind, hfold]
  rfl

theorem Roster.lookup {entries : List (FixedBytes 32 × Map)} (h : Roster epoch entries)
    {endpoint : FixedBytes 32} {item : Map} :
    entries.lookup endpoint = some item ↔ (endpoint, item) ∈ entries := by
  have hascending := h.ascending
  clear h
  induction entries with
  | nil => simp
  | cons entry entries ih =>
    obtain ⟨habove, hrest⟩ := List.pairwise_cons.mp hascending
    obtain ⟨first, other⟩ := entry
    rw [List.lookup_cons, List.mem_cons, Prod.mk.injEq]
    by_cases heq : endpoint = first
    · subst heq
      simp only [BEq.rfl, Option.some.injEq, true_and]
      refine ⟨fun hitem => .inl hitem.symm, ?_⟩
      rintro (hitem | hmem)
      · exact hitem.symm
      · exact absurd (habove _ hmem) (List.lt_irrefl _)
    · simp [beq_eq_false_iff_ne.mpr heq, heq, ih hrest]

theorem validateRosterTransition_eq_ok {e e' : Nat} {prior current : List (FixedBytes 32 × Map)}
    {u : Unit} (hprior : Roster e prior) (hcurrent : Roster e' current) :
    validateRosterTransition (devices prior) (devices current) epoch = .ok u ↔
      (∀ entry ∈ prior, validateListedDevice current epoch entry = .ok ()) ∧
      ∀ entry ∈ current, validateNewDevice prior epoch entry = .ok () := by
  rw [validateRosterTransition, hprior.deviceMap, hcurrent.deviceMap]
  simp only [Except.ok_bind, Except.bind_eq_ok]
  constructor
  · rintro ⟨_, hlisted, hnew⟩
    exact ⟨Except.forM_eq_ok.mp hlisted, Except.forM_eq_ok.mp hnew⟩
  · rintro ⟨hlisted, hnew⟩
    exact ⟨(), Except.forM_eq_ok.mpr hlisted, Except.forM_eq_ok.mpr hnew⟩

end Roster

def authorityMembers : List String := ["recordType", "protocolLineId", "userIdentityRef",
  "authorityEpoch", "previousUserAuthorityStateDigest", "authorityTransitionKind",
  "managementSigningKeys", "recoverySigningKeys", "authorizedDevices", "possessionProof",
  "authoritySignatures"]

def requiredAuthorityMembers : List String := ["protocolLineId", "userIdentityRef",
  "authorityEpoch", "authorityTransitionKind", "managementSigningKeys", "recoverySigningKeys",
  "authorizedDevices", "authoritySignatures"]

structure AuthorityRecord (record : Map) where
  line : FixedBytes 32
  user : FixedBytes 32
  epoch : Nat
  transition : String
  management : List Value
  recovery : List Value
  entries : List (FixedBytes 32 × Map)
  signatures : List Value
  closed : closed record authorityMembers requiredAuthorityMembers = .ok ()
  get_line : record.get "protocolLineId" = some (.string (hexBytes line.toList))
  get_user : record.get "userIdentityRef" = some (.string (hexBytes user.toList))
  get_epoch : unsigned record "authorityEpoch" = .ok epoch
  get_transition : record.get "authorityTransitionKind" = some (.string transition)
  genesis : epoch = 0 ↔ transition = "genesis"
  linked : epoch = 0 ↔ record.get "previousUserAuthorityStateDigest" = none
  previous : ∀ value ∈ record.get "previousUserAuthorityStateDigest",
    ∃ digest : FixedBytes 32, value = .string (hexBytes digest.toList)
  get_management : record.get "managementSigningKeys" = some (.array management)
  management_keys : validateAuthorityKeys management "management" = .ok ()
  get_recovery : record.get "recoverySigningKeys" = some (.array recovery)
  recovery_keys : validateAuthorityKeys recovery "recovery" = .ok ()
  get_devices : record.get "authorizedDevices" = some (.array (devices entries))
  bounded : entries ≠ [] ∧ entries.length ≤ 16
  roster : Roster epoch entries
  proof : validateReplacementProof record = .ok ()
  get_signatures : record.get "authoritySignatures" = some (.array signatures)
  signed : validateSignatureArray signatures = .ok ()

section Record

variable {record : Map}

theorem validateUserAuthorityRecord_eq_ok {u : Unit} :
    validateUserAuthorityRecord record = .ok u ↔ Nonempty (AuthorityRecord record) := by
  simp only [validateUserAuthorityRecord, validateAuthorityHead, Except.bind_eq_ok, liftM_eq_ok,
    reject_eq_ok, text_eq_ok, array_eq_ok, hexField_eq_ok, optionalHex_eq_ok, Except.pure_eq,
    Except.ok.injEq]
  constructor
  · rintro ⟨⟨epoch, values⟩, ⟨_, hclosed, _, ⟨line, hline⟩, _, ⟨user, huser⟩, epoch', hepoch,
      transition, htransition, _, hkind, _, hprevious, management, hmanagement, _, hmkeys, recovery,
      hrecovery, _, hrkeys, values', hdevices, _, hbounded, heq⟩, last, hfold, _, hproof,
      signatures, hsignatures, hsigned⟩
    cases heq
    obtain ⟨entries, rfl, hroster, _⟩ := foldlM_validateDevice hfold
    rw [not_or] at hkind
    obtain ⟨hgenesis, hlinked⟩ := hkind
    refine ⟨⟨line, user, epoch, transition, management, recovery, entries, signatures,
      hclosed, hline, huser, hepoch, htransition, ?_, ?_, hprevious, hmanagement, hmkeys, hrecovery,
      hrkeys, hdevices, ?_, hroster, hproof, hsignatures, hsigned⟩⟩
    · simp only [bne_iff_ne, ne_eq, not_not] at hgenesis
      rw [← beq_iff_eq, hgenesis, beq_iff_eq]
    · rw [Map.containsKey] at hlinked
      rw [← beq_iff_eq]
      cases h : record.get "previousUserAuthorityStateDigest" <;> simp_all
    · simpa [devices] using hbounded
  · rintro ⟨r⟩
    obtain ⟨last, hlast⟩ := r.roster.foldlM (p := none) (by rintro _ ⟨⟩)
    refine ⟨(r.epoch, devices r.entries), ⟨(), r.closed, (), ⟨r.line, r.get_line⟩, (),
      ⟨r.user, r.get_user⟩, r.epoch, r.get_epoch, r.transition, r.get_transition, (), ?_, (),
      r.previous, r.management, r.get_management, (), r.management_keys, r.recovery, r.get_recovery,
      (), r.recovery_keys, devices r.entries, r.get_devices, (), ?_, rfl⟩, last, hlast, (), r.proof,
      r.signatures, r.get_signatures, r.signed⟩
    · have hgenesis := r.genesis
      have hlinked := r.linked
      rw [Map.containsKey, not_or]
      cases h : record.get "previousUserAuthorityStateDigest" <;> simp_all
    · simpa [devices] using r.bounded

end Record

section Definition

variable {formatFinite : Rat → String} {state : Value} {record : Map}

theorem validateSizes_members (h : validateSizes formatFinite state = .ok record) :
    state = .object record := by
  simp only [validateSizes, Except.bind_eq_ok] at h
  obtain ⟨_, _, _, _, _, _, h⟩ := h
  exact members_eq_ok.mp h

/-- What the records of the other types have in common: they are closed against the members of a
user authority state, and their line, where they have one, is a digest. -/
structure OtherRecord (record : Map) : Prop where
  user : record.get "userIdentityRef" = none
  previous : record.get "previousUserAuthorityStateDigest" = none
  proof : record.get "possessionProof" = none
  line : ∀ value ∈ record.get "protocolLineId",
    ∃ line : FixedBytes 32, value = .string (hexBytes line.toList)

theorem OtherRecord.of_closed {allowed required : List String}
    (h : Identity.closed record allowed required = .ok ())
    (hallowed : "userIdentityRef" ∉ allowed ∧ "previousUserAuthorityStateDigest" ∉ allowed ∧
      "possessionProof" ∉ allowed)
    (hline : "protocolLineId" ∉ allowed ∨ hexField record "protocolLineId" 32 = .ok ()) :
    OtherRecord record where
  user := get_eq_none h hallowed.1
  previous := get_eq_none h hallowed.2.1
  proof := get_eq_none h hallowed.2.2
  line := by
    rcases hline with hnot | hfield
    · rw [get_eq_none h hnot]
      exact nofun
    · obtain ⟨line, hget⟩ := hexField_eq_ok.mp hfield
      rw [hget]
      rintro _ ⟨⟩
      exact ⟨line, rfl⟩

theorem validateDefinitionRecord_cases {u : Unit}
    (h : validateDefinitionRecord formatFinite (.object record) = .ok u) :
    record.get "recordType" = some (.string "userAuthorityState") ∧
      Nonempty (AuthorityRecord record) ∨ OtherRecord record := by
  simp only [validateDefinitionRecord, Except.bind_eq_ok, liftM_eq_ok, text_eq_ok] at h
  obtain ⟨record', hsizes, recordType, htype, h⟩ := h
  cases validateSizes_members hsizes
  split at h
  case h_1 =>
    simp only [liftM_eq_ok, validateIdentityUpdate, Except.bind_eq_ok] at h
    obtain ⟨_, hclosed, _, hline, _⟩ := h
    exact .inr (.of_closed hclosed (by decide) (.inr hline))
  case h_2 =>
    simp only [liftM_eq_ok, validateAffiliationUpdate, Except.bind_eq_ok] at h
    obtain ⟨_, hclosed, _, hline, _⟩ := h
    exact .inr (.of_closed hclosed (by decide) (.inr hline))
  case h_3 =>
    simp only [liftM_eq_ok, validateRouteUpdate, Except.bind_eq_ok, Except.forM_eq_ok] at h
    obtain ⟨_, hclosed, _, hfields, _⟩ := h
    exact .inr (.of_closed hclosed (by decide) (.inr (hfields _ List.mem_cons_self)))
  case h_4 =>
    simp only [liftM_eq_ok, validateFirstContact, Except.bind_eq_ok] at h
    obtain ⟨_, hclosed, _⟩ := h
    exact .inr (.of_closed hclosed (by decide) (.inl (by decide)))
  case h_5 =>
    simp only [liftM_eq_ok, validateDiscovery, Except.bind_eq_ok] at h
    obtain ⟨_, hclosed, _⟩ := h
    exact .inr (.of_closed hclosed (by decide) (.inl (by decide)))
  case h_6 =>
    simp only [liftM_eq_ok, validateTransparency, Except.bind_eq_ok] at h
    obtain ⟨_, hclosed, _⟩ := h
    exact .inr (.of_closed hclosed (by decide) (.inl (by decide)))
  case h_7 => exact .inl ⟨htype, validateUserAuthorityRecord_eq_ok.mp h⟩
  case h_8 =>
    simp only [liftM_eq_ok, validateStationDescriptor, Except.bind_eq_ok] at h
    obtain ⟨_, hclosed, _⟩ := h
    exact .inr (.of_closed hclosed (by decide) (.inl (by decide)))
  case h_9 => cases h

theorem validateDefinitionRecord_eq_ok {u : Unit}
    (h : validateDefinitionRecord formatFinite (.object record) = .ok u)
    (huser : record.get "userIdentityRef" ≠ none) :
    record.get "recordType" = some (.string "userAuthorityState") ∧
      Nonempty (AuthorityRecord record) :=
  (validateDefinitionRecord_cases h).resolve_right fun hother => huser hother.user

end Definition

end Identity

end LicoArc
