import LicoArc.AuthorityAccepted
import LicoArc.Membership
import LicoArc.TableProvider

/-!
# Chains of user authority states

A genesis state and its successors, each accepted with its predecessor. The
links and signatures hold along the whole chain; the roster entry of every
endpoint has the history of a member of a list with revocation.
-/

namespace LicoArc

namespace Identity

open Json

section Moves

/-- What an entry keeps of the admission of a device. -/
structure Evidence where
  identityStateDigest : Option Value
  admittedAuthorityEpoch : Option Value
  possessionProof : Option Value

def evidence (item : Map) : Evidence where
  identityStateDigest := item.get "identityStateDigest"
  admittedAuthorityEpoch := item.get "admittedAuthorityEpoch"
  possessionProof := item.get "possessionProof"

def standing (item : Map) : Listing Evidence :=
  if item.get "deviceStatus" = some (.string "revoked") then .revoked (evidence item)
  else .active (evidence item)

def listing (entries : List (FixedBytes 32 × Map)) (endpoint : FixedBytes 32) :
    Listing Evidence :=
  match entries.lookup endpoint with
  | none => .absent
  | some item => standing item

theorem standing_revoked {item : Map} (h : item.get "deviceStatus" = some (.string "revoked")) :
    standing item = .revoked (evidence item) := if_pos h

theorem standing_active {item : Map} (h : item.get "deviceStatus" = some (.string "active")) :
    standing item = .active (evidence item) := if_neg (by rw [h]; decide)

theorem DeviceRecord.status {epoch : Nat} {item : Map} {endpoint : FixedBytes 32}
    (h : DeviceRecord epoch item endpoint) :
    item.get "deviceStatus" = some (.string "active") ∨
      item.get "deviceStatus" = some (.string "revoked") := by
  obtain ⟨n, _, _, hstatus⟩ := h.admitted
  simp only [validateDeviceStatus, Except.bind_eq_ok, text_eq_ok] at hstatus
  obtain ⟨status, hget, hstatus⟩ := hstatus
  split at hstatus
  · rename_i hactive
    exact .inl (hactive.1 ▸ hget)
  · split at hstatus
    · rename_i hrevoked
      exact .inr (hrevoked.1 ▸ hget)
    · cases hstatus

variable {provider : Provider} {epoch : Nat} {prior current : List (FixedBytes 32 × Map)}
  {endpoint : FixedBytes 32} {item : Map}

theorem unchanged_lookup {e : Nat} (hprior : Roster e prior)
    (hendpoint : decodedHex 32 item "endpointIdentityRef" = .ok endpoint)
    (h : unchangedDevice (devices prior) item) :
    ∃ p, prior.lookup endpoint = some p ∧
      p.get "identityStateDigest" = item.get "identityStateDigest" := by
  simp only [unchangedDevice, devices, List.any_map, List.any_eq_true, Function.comp,
    Value.asObject, Option.any_some, Bool.and_eq_true, beq_iff_eq] at h
  obtain ⟨⟨first, p⟩, hmem, href, hdigest⟩ := h
  have hfirst := (hprior.valid _ hmem).endpoint
  rw [decodedHex_eq_ok] at hfirst hendpoint
  obtain ⟨t, hget, hdecoded⟩ := hfirst
  obtain ⟨t', hget', hdecoded'⟩ := hendpoint
  rw [href] at hget
  obtain rfl := text_unique hget hget'
  obtain rfl := FixedBytes.toList_injective (Except.ok.inj (hdecoded.symm.trans hdecoded'))
  exact ⟨p, hprior.lookup.mpr hmem, hdigest⟩

/-- A device of the roster that is admitted in the epoch of its state, with a proof. -/
def Admitted (provider : Provider) (record : Map) (endpointStates : List EndpointStateKeys)
    (epoch : Nat) (entries : List (FixedBytes 32 × Map)) (endpoint : FixedBytes 32)
    (e : Evidence) : Prop :=
  ∃ item, (endpoint, item) ∈ entries ∧ evidence item = e ∧
    (item.get "admittedAuthorityEpoch").bind Value.asU64 = some epoch ∧
    Possessed provider record endpointStates endpoint item

variable {record : Map} {endpointStates : List EndpointStateKeys}

theorem listedDevice_moves {e : Nat} {p : Map} (hcurrent : Roster epoch current)
    (hp : DeviceRecord e p endpoint)
    (h : validateListedDevice current epoch (endpoint, p) = .ok ())
    (hproof : ∀ c, (endpoint, c) ∈ current →
      p.get "identityStateDigest" ≠ c.get "identityStateDigest" →
      Possessed provider record endpointStates endpoint c) :
    Listing.Move (Admitted provider record endpointStates epoch current endpoint) (standing p)
      (listing current endpoint) := by
  simp only [validateListedDevice, Except.bind_eq_ok, liftM_eq_ok, text_eq_ok] at h
  obtain ⟨status, hstatus, h⟩ := h
  rw [listing]
  cases hlookup : current.lookup endpoint with
  | none =>
    simp only [hlookup, reject_eq_ok] at h
    rcases hp.status with hactive | hrevoked
    · exact absurd (text_unique hstatus hactive) h
    · rw [standing_revoked hrevoked]
      exact .drop _
  | some c =>
    have hmem := hcurrent.lookup.mp hlookup
    simp only [hlookup] at h
    split at h
    · rename_i hrevoked
      rw [reject_eq_ok, not_not] at h
      subst h
      simp only [standing_revoked (hrevoked ▸ hstatus)]
      exact .frozen _
    · rename_i hnot
      have hactive := hp.status.resolve_right fun hrevoked => hnot (text_unique hstatus hrevoked)
      rw [standing_active hactive]
      simp only [Except.bind_eq_ok, liftM_eq_ok, text_eq_ok] at h
      obtain ⟨status', hstatus', h⟩ := h
      split at h
      · rename_i hrevoked
        rw [reject_eq_ok] at h
        push Not at h
        have hsame : evidence c = evidence p := by
          rw [evidence, evidence, h.1, h.2.1, h.2.2.1]
        simp only [standing_revoked (hrevoked ▸ hstatus'), hsame]
        exact .revoke _
      · rename_i hnot'
        have hactive' := (hcurrent.valid _ hmem).status.resolve_right
          fun hrevoked => hnot' (text_unique hstatus' hrevoked)
        simp only [standing_active hactive']
        split at h
        · rename_i hdigest
          rw [reject_eq_ok] at h
          push Not at h
          have hsame : evidence c = evidence p := by
            rw [evidence, evidence, hdigest, h.1, h.2]
          rw [hsame]
          exact .keep _
        · rename_i hdigest
          rw [reject_eq_ok, not_not] at h
          exact .renew _ _ ⟨c, hmem, rfl, h, hproof c hmem fun heq => hdigest heq.symm⟩

/-- The entry of every endpoint moves as a member of a list with revocation does. -/
theorem roster_moves {e : Nat} (hprior : Roster e prior) (hcurrent : Roster epoch current)
    (h : validateRosterTransition (devices prior) (devices current) epoch = .ok ())
    (hloop : ∀ entry ∈ current, unchangedDevice (devices prior) entry.2 ∨
      Possessed provider record endpointStates entry.1 entry.2) (endpoint : FixedBytes 32) :
    Listing.Move (Admitted provider record endpointStates epoch current endpoint)
      (listing prior endpoint) (listing current endpoint) := by
  obtain ⟨hlisted, hnew⟩ := (validateRosterTransition_eq_ok hprior hcurrent).mp h
  have hproof : ∀ c, (endpoint, c) ∈ current →
      (∀ p, prior.lookup endpoint = some p →
        p.get "identityStateDigest" ≠ c.get "identityStateDigest") →
      Possessed provider record endpointStates endpoint c := by
    intro c hmem hchanged
    refine (hloop _ hmem).resolve_left fun hunchanged => ?_
    obtain ⟨p, hp, hdigest⟩ := unchanged_lookup hprior (hcurrent.valid _ hmem).endpoint hunchanged
    exact hchanged p hp hdigest
  cases hlookup : prior.lookup endpoint with
  | none =>
    rw [show listing prior endpoint = .absent by rw [listing, hlookup], listing]
    cases hafter : current.lookup endpoint with
    | none => exact .stay
    | some c =>
      have hmem := hcurrent.lookup.mp hafter
      have hadmitted := hnew _ hmem
      simp only [validateNewDevice, hlookup, Except.bind_eq_ok, liftM_eq_ok, text_eq_ok,
        reject_eq_ok, not_or, not_not] at hadmitted
      obtain ⟨status, hstatus, rfl, hepoch⟩ := hadmitted
      simp only [standing_active hstatus]
      exact .enlist _ ⟨c, hmem, rfl, hepoch, hproof c hmem (by simp [hlookup])⟩
  | some p =>
    have hmem := hprior.lookup.mp hlookup
    rw [show listing prior endpoint = standing p by rw [listing, hlookup]]
    refine listedDevice_moves hcurrent (hprior.valid _ hmem) (hlisted _ hmem) fun c hc hne => ?_
    refine hproof c hc fun p' hp' => ?_
    rw [hlookup, Option.some.injEq] at hp'
    exact hp' ▸ hne

theorem genesis_moves (hcurrent : Roster epoch current)
    (hloop : ∀ entry ∈ current, Possessed provider record endpointStates entry.1 entry.2 ∧
      entry.2.get "deviceStatus" = some (.string "active") ∧
      (entry.2.get "admittedAuthorityEpoch").bind Value.asU64 = some epoch)
    (endpoint : FixedBytes 32) :
    Listing.Move (Admitted provider record endpointStates epoch current endpoint) .absent
      (listing current endpoint) := by
  rw [listing]
  cases hafter : current.lookup endpoint with
  | none => exact .stay
  | some c =>
    have hmem := hcurrent.lookup.mp hafter
    obtain ⟨hproof, hactive, hepoch⟩ := hloop _ hmem
    simp only [standing_active hactive]
    exact .enlist _ ⟨c, hmem, rfl, hepoch, hproof⟩

end Moves

section Chain

/-- The arguments of one call of `validate_user_authority_state`, its predecessor apart. -/
structure Submission where
  state : Value
  expectedProtocolLineId : FixedBytes 32
  endpointStates : List EndpointStateKeys

variable (formatFinite : Rat → String) (provider : Provider)

def Accepted (predecessor : Option Value) (submission : Submission) : Prop :=
  ∃ accepted, validateUserAuthorityState formatFinite provider submission.state predecessor
    submission.expectedProtocolLineId submission.endpointStates = .ok accepted

/-- A sequence of states, the first accepted alone and every other one with its predecessor. -/
structure Chain (submissions : List Submission) : Prop where
  genesis : ∀ h : 0 < submissions.length, Accepted formatFinite provider none submissions[0]
  step : ∀ (i : Nat) (h : i + 1 < submissions.length),
    Accepted formatFinite provider (some submissions[i].state) submissions[i + 1]

def rosterOf (state : Value) : List (FixedBytes 32 × Map) :=
  match (do deviceMap (← array (← members state) "authorizedDevices") : Except Fault _) with
  | .ok entries => entries
  | .error _ => []

def ListsDevice (state : Value) (endpoint : FixedBytes 32) (item : Map) : Prop :=
  ∃ (record : Map) (values : List Value), state = .object record ∧
    array record "authorizedDevices" = .ok values ∧ .object item ∈ values ∧
    decodedHex 32 item "endpointIdentityRef" = .ok endpoint

variable {formatFinite provider} {submissions : List Submission} {record : Map}

theorem AuthorityRecord.roster_eq (r : AuthorityRecord record) :
    rosterOf (.object record) = r.entries := by
  have hroster : (do deviceMap (← array (← members (.object record)) "authorizedDevices") :
      Except Fault _) = .ok r.entries := by
    simp only [Except.bind_eq_ok, liftM_eq_ok, members_eq_ok, array_eq_ok]
    exact ⟨record, rfl, _, r.get_devices, r.roster.deviceMap⟩
  rw [rosterOf, hroster]

theorem AuthorityRecord.listsDevice (r : AuthorityRecord record) {endpoint : FixedBytes 32}
    {item : Map} : ListsDevice (.object record) endpoint item ↔ (endpoint, item) ∈ r.entries := by
  constructor
  · rintro ⟨_, values, heq, hvalues, hitem, hendpoint⟩
    cases heq
    rw [array_eq_ok, r.get_devices, Option.some.injEq, Value.array.injEq] at hvalues
    subst hvalues
    obtain ⟨⟨first, other⟩, hmem, heq⟩ := List.mem_map.mp hitem
    cases heq
    obtain rfl := Except.ok.inj ((r.roster.valid _ hmem).endpoint.symm.trans hendpoint)
    exact hmem
  · intro hmem
    exact ⟨record, _, rfl, array_eq_ok.mpr r.get_devices,
      List.mem_map.mpr ⟨(endpoint, item), hmem, rfl⟩, (r.roster.valid _ hmem).endpoint⟩

theorem Chain.state_record (h : Chain formatFinite provider submissions) {i : Nat}
    (hi : i < submissions.length) :
    ∃ (record : Map) (r : AuthorityRecord record), submissions[i].state = .object record ∧
      r.epoch = i := by
  induction i with
  | zero =>
    obtain ⟨accepted, haccepted⟩ := h.genesis hi
    obtain ⟨record, r, previous, digest, hstate, hvalid, _⟩ :=
      validateUserAuthorityState_eq_ok.mp haccepted
    exact ⟨record, r, hstate, hvalid.genesis.1⟩
  | succ i ih =>
    obtain ⟨prior, q, hprior, hepoch⟩ := ih (by omega)
    obtain ⟨accepted, haccepted⟩ := h.step i hi
    obtain ⟨record, r, previous, digest, hstate, hvalid, _⟩ :=
      validateUserAuthorityState_eq_ok.mp haccepted
    obtain ⟨prior', q', hprior', _, _, hnext, _⟩ := hvalid.successor
    cases hprior.symm.trans hprior'
    have hsame : q.epoch = q'.epoch := Except.ok.inj (q.get_epoch.symm.trans q'.get_epoch)
    exact ⟨record, r, hstate, by omega⟩

theorem Chain.continues (h : Chain formatFinite provider submissions) {i : Nat}
    (hi : i + 1 < submissions.length) :
    ∃ previous next : Map, submissions[i].state = .object previous ∧
      submissions[i + 1].state = .object next ∧ Continues formatFinite provider previous next := by
  obtain ⟨accepted, haccepted⟩ := h.step i hi
  obtain ⟨next, r, _, digest, hnext, hvalid, _⟩ := validateUserAuthorityState_eq_ok.mp haccepted
  obtain ⟨previous, q, hprevious, _, hcontinues, _⟩ := hvalid.successor
  exact ⟨previous, next, hprevious, hnext, hcontinues⟩

theorem Chain.constant (h : Chain formatFinite provider submissions) {i : Nat}
    (hi : i < submissions.length) :
    ∃ record first : Map, submissions[i].state = .object record ∧
      submissions[0].state = .object first ∧
      record.get "userIdentityRef" = first.get "userIdentityRef" ∧
      record.get "protocolLineId" = first.get "protocolLineId" := by
  induction i with
  | zero =>
    obtain ⟨first, _, hfirst, _⟩ := h.state_record hi
    exact ⟨first, first, hfirst, hfirst, rfl, rfl⟩
  | succ i ih =>
    obtain ⟨record, first, hrecord, hfirst, huser, hline⟩ := ih (by omega)
    obtain ⟨previous, next, hprevious, hnext, hcontinues⟩ := h.continues hi
    cases hrecord.symm.trans hprevious
    exact ⟨next, first, hnext, hfirst, hcontinues.user.trans huser, hcontinues.line.trans hline⟩

/-- Every state of a chain belongs to one user and line, has the epoch of its position, and is
signed by both algorithms under the keys that its predecessor, or at genesis itself, holds for the
transition; recovery keys change at a recovery step, and changed keys have proved possession. -/
theorem authority_continuity (h : Chain formatFinite provider submissions) (i : Nat)
    (hi : i < submissions.length) :
    ∃ record first : Map, submissions[i].state = .object record ∧
      submissions[0].state = .object first ∧
      record.get "userIdentityRef" = first.get "userIdentityRef" ∧
      record.get "protocolLineId" = first.get "protocolLineId" ∧
      unsigned record "authorityEpoch" = .ok i ∧
      (i = 0 → AuthorizedBy formatFinite provider record "managementSigningKeys" record) ∧
      ∀ hnext : i + 1 < submissions.length, ∃ next : Map,
        submissions[i + 1].state = .object next ∧ Continues formatFinite provider record next := by
  obtain ⟨record, first, hrecord, hfirst, huser, hline⟩ := h.constant hi
  obtain ⟨record', r, hrecord', hepoch⟩ := h.state_record hi
  cases hrecord.symm.trans hrecord'
  refine ⟨record, first, hrecord, hfirst, huser, hline, hepoch ▸ r.get_epoch, ?_, fun hnext => ?_⟩
  · rintro rfl
    obtain ⟨accepted, haccepted⟩ := h.genesis hi
    obtain ⟨genesis, q, _, _, hgenesis, hvalid, _⟩ := validateUserAuthorityState_eq_ok.mp haccepted
    cases hrecord.symm.trans hgenesis
    exact hvalid.genesis.2.1
  · obtain ⟨previous, next, hprevious, hstate, hcontinues⟩ := h.continues hnext
    cases hrecord.symm.trans hprevious
    exact ⟨next, hstate, hcontinues⟩

def AuthorityData.submission (data : AuthorityData) : Submission :=
  ⟨.object data.print, data.line, data.endpointStates⟩

theorem printed_chain {digest : FixedBytes 32} {states : List AuthorityData}
    (hprovider : Permissive provider digest) (hvalid : ∀ data ∈ states, data.WellFormed)
    (hgenesis : ∀ h : 0 < states.length, states[0].epoch = 0 ∧ states[0].user = digest ∧
      states[0].signatures.edId = states[0].management.edId ∧
      states[0].signatures.mlId = states[0].management.mlId ∧
      ∀ device ∈ states[0].devices, device.revoked = none ∧ device.admitted = 0)
    (hfollows : ∀ (i : Nat) (h : i + 1 < states.length),
      AuthorityData.Follows digest states[i] states[i + 1]) :
    Chain formatFinite provider (states.map AuthorityData.submission) where
  genesis h := by
    simp only [List.length_map] at h
    obtain ⟨hepoch, huser, hed, hml, hdevices⟩ := hgenesis h
    rw [List.getElem_map]
    exact ⟨_, AuthorityData.genesis_accepted hprovider (hvalid _ (List.getElem_mem h)) hepoch huser
      hed hml hdevices⟩
  step i h := by
    simp only [List.length_map] at h
    rw [List.getElem_map, List.getElem_map]
    exact ⟨_, AuthorityData.successor_accepted hprovider (hvalid _ (List.getElem_mem (by omega)))
      (hvalid _ (List.getElem_mem h)) (hfollows i h)⟩

section Sample

def sampleName (name : UInt8) : FixedBytes 32 := List.Vector.replicate 32 name

def samplePair (edSize mlSize : Nat) : Pair edSize mlSize where
  edId := sampleName 1
  mlId := sampleName 2
  ed := FixedBytes.zero edSize
  ml := FixedBytes.zero mlSize
  distinct := by decide

def sampleDevice (name : UInt8) (admitted : Nat) (revoked : Option Nat) : DeviceData where
  endpoint := sampleName name
  identity := sampleName name
  admitted := admitted
  revoked := revoked
  proof := samplePair 64 3309

def sampleState (epoch : Nat) (devices : List DeviceData) : AuthorityData where
  line := FixedBytes.zero 32
  user := FixedBytes.zero 32
  epoch := epoch
  transition := if epoch = 0 then "genesis" else "management"
  previous := if epoch = 0 then none else some (FixedBytes.zero 32)
  management := samplePair 32 1952
  recovery := samplePair 32 1952
  devices := devices
  signatures := samplePair 64 3309

/-- The first device is revoked, dropped and admitted again beside the second one. -/
def sampleStates : List AuthorityData :=
  [sampleState 0 [sampleDevice 1 0 none, sampleDevice 2 0 none],
    sampleState 1 [sampleDevice 1 0 (some 1), sampleDevice 2 0 none],
    sampleState 2 [sampleDevice 2 0 none],
    sampleState 3 [sampleDevice 1 3 none, sampleDevice 2 0 none]]

theorem sampleState_valid {epoch : Nat} {devices : List DeviceData} (hepoch : epoch ≤ maxEpoch)
    (hbounded : devices ≠ [] ∧ devices.length ≤ 3)
    (hascending : devices.Pairwise fun a b => a.endpoint.toList < b.endpoint.toList)
    (hadmitted : ∀ device ∈ devices, device.admitted ≤ epoch)
    (hrevoked : ∀ device ∈ devices, ∀ e ∈ device.revoked, device.admitted ≤ e ∧ e ≤ epoch) :
    (sampleState epoch devices).WellFormed where
  epoch := hepoch
  transition := by
    simp only [sampleState]
    by_cases hzero : epoch = 0 <;> simp [hzero]
  bounded := hbounded
  ascending := hascending
  admitted := hadmitted
  revoked := hrevoked

theorem sampleStates_valid : ∀ data ∈ sampleStates, data.WellFormed := by
  have hlt : (sampleName 1).toList < (sampleName 2).toList := by decide
  simp only [sampleStates, List.forall_mem_cons, List.not_mem_nil, false_implies, implies_true,
    and_true]
  refine ⟨?_, ?_, ?_, ?_⟩ <;> apply sampleState_valid <;>
    simp [sampleDevice, hlt, maxEpoch]

theorem tableProvider_permissive : Permissive (tableProvider [] []) (FixedBytes.zero 32) :=
  ⟨fun _ => rfl, fun _ _ _ => rfl, fun _ _ _ => rfl⟩

theorem sampleState_follows {epoch : Nat} {prior next : List DeviceData}
    (hlisted : ∀ device ∈ prior, ∀ current ∈ next, current.endpoint = device.endpoint →
      DeviceData.Follows (epoch + 1) device current)
    (hkept : ∀ device ∈ prior, device.revoked = none →
      ∃ current ∈ next, current.endpoint = device.endpoint)
    (hadmitted : ∀ device ∈ next, (∀ p ∈ prior, p.endpoint ≠ device.endpoint) →
      device.revoked = none ∧ device.admitted = epoch + 1) :
    AuthorityData.Follows (FixedBytes.zero 32) (sampleState epoch prior)
      (sampleState (epoch + 1) next) :=
  ⟨rfl, rfl, rfl, rfl, rfl, rfl, rfl, ⟨rfl, rfl⟩, hlisted, hkept, hadmitted⟩

theorem sampleStates_chain :
    Chain (fun _ => "") (tableProvider [] []) (sampleStates.map AuthorityData.submission) := by
  have hne : sampleName 1 ≠ sampleName 2 := by decide
  refine printed_chain tableProvider_permissive sampleStates_valid ?_ ?_
  · intro _
    refine ⟨rfl, rfl, rfl, rfl, ?_⟩
    simp [sampleStates, sampleState, sampleDevice]
  · intro i h
    have hlength : sampleStates.length = 4 := rfl
    have hi : i < 3 := by omega
    interval_cases i <;> apply sampleState_follows <;>
      simp [sampleDevice, DeviceData.Follows, hne, hne.symm]

end Sample

theorem authority_continuity_four_states :
    ∃ first next : Map, (sampleStates.map AuthorityData.submission)[2].state = .object first ∧
      unsigned first "authorityEpoch" = .ok 2 ∧
      (sampleStates.map AuthorityData.submission)[3].state = .object next ∧
      Continues (fun _ => "") (tableProvider [] []) first next := by
  obtain ⟨record, _, hrecord, _, _, _, hepoch, _, hcontinues⟩ :=
    authority_continuity sampleStates_chain 2 (by decide)
  obtain ⟨next, hnext, hlink⟩ := hcontinues (by decide)
  exact ⟨record, next, hrecord, hepoch, hnext, hlink⟩

/-- The listing of an endpoint in the state of a position, absent past the end. -/
def listingAt (submissions : List Submission) (endpoint : FixedBytes 32) (i : Nat) :
    Listing Evidence :=
  match submissions[i]? with
  | none => .absent
  | some submission => listing (rosterOf submission.state) endpoint

def AdmittedAt (provider : Provider) (submissions : List Submission) (endpoint : FixedBytes 32)
    (i : Nat) (e : Evidence) : Prop :=
  ∃ (submission : Submission) (record : Map), submissions[i]? = some submission ∧
    submission.state = .object record ∧
    Admitted provider record submission.endpointStates i (rosterOf submission.state) endpoint e

theorem listingAt_eq {i : Nat} (hi : i < submissions.length) {endpoint : FixedBytes 32} :
    listingAt submissions endpoint i = listing (rosterOf submissions[i].state) endpoint := by
  rw [listingAt, List.getElem?_eq_getElem hi]

theorem Chain.history (h : Chain formatFinite provider submissions) (endpoint : FixedBytes 32)
    {last : Nat} (hlast : last < submissions.length) :
    Listing.History (AdmittedAt provider submissions endpoint) (listingAt submissions endpoint)
      last where
  start := by
    obtain ⟨accepted, haccepted⟩ := h.genesis (by omega)
    obtain ⟨record, r, previous, digest, hstate, hvalid, _⟩ :=
      validateUserAuthorityState_eq_ok.mp haccepted
    obtain ⟨hepoch, _, hloop⟩ := hvalid.genesis
    have hmove := genesis_moves r.roster (by rwa [hepoch]) endpoint
    rw [listingAt_eq (by omega), hstate, r.roster_eq]
    refine hmove.mono fun e he => ?_
    refine ⟨submissions[0], record, List.getElem?_eq_getElem (by omega), hstate, ?_⟩
    rw [hstate, r.roster_eq]
    rwa [hepoch] at he
  step i hi := by
    obtain ⟨accepted, haccepted⟩ := h.step i (by omega)
    obtain ⟨record, r, previous, digest, hstate, hvalid, _⟩ :=
      validateUserAuthorityState_eq_ok.mp haccepted
    obtain ⟨prior, q, hprior, rfl, _, hnext, hroster⟩ := hvalid.successor
    obtain ⟨priorDevices, _, hdevices, hloop⟩ := hvalid.listed
    have hepoch : r.epoch = i + 1 := by
      obtain ⟨record', r', hstate', hepoch⟩ := h.state_record (i := i + 1) (by omega)
      cases hstate.symm.trans hstate'
      rw [← hepoch]
      exact Except.ok.inj (r.get_epoch.symm.trans r'.get_epoch)
    obtain rfl : devices q.entries = priorDevices := by
      simpa [priorRoster, q.get_devices] using hdevices
    have hmove := roster_moves q.roster r.roster hroster (fun entry hentry =>
      (foldlM_validateAuthorizedDevice r.roster hloop entry hentry).imp_right And.left) endpoint
    rw [listingAt_eq (by omega), listingAt_eq (by omega), hstate, hprior, r.roster_eq, q.roster_eq]
    refine hmove.mono fun e he => ?_
    refine ⟨submissions[i + 1], record, List.getElem?_eq_getElem (by omega), hstate, ?_⟩
    rw [hstate, r.roster_eq]
    rwa [hepoch] at he

theorem lists_evidence (item : Map) : Listing.Lists (evidence item) (standing item) := by
  rw [standing]
  split
  · exact .inr rfl
  · exact .inl rfl

theorem Chain.listing_device (h : Chain formatFinite provider submissions) {i : Nat}
    (hi : i < submissions.length) {endpoint : FixedBytes 32} {item : Map} :
    ListsDevice submissions[i].state endpoint item ↔
      (endpoint, item) ∈ rosterOf submissions[i].state := by
  obtain ⟨record, r, hstate, _⟩ := h.state_record hi
  rw [hstate, r.roster_eq, r.listsDevice]

theorem Chain.listingAt_device (h : Chain formatFinite provider submissions) {i : Nat}
    (hi : i < submissions.length) {endpoint : FixedBytes 32} {item : Map}
    (hitem : ListsDevice submissions[i].state endpoint item) :
    listingAt submissions endpoint i = standing item := by
  obtain ⟨record, r, hstate, _⟩ := h.state_record hi
  rw [hstate, r.listsDevice] at hitem
  rw [listingAt_eq hi, hstate, r.roster_eq, listing, r.roster.lookup.mpr hitem]

theorem Chain.listingAt_absent (h : Chain formatFinite provider submissions) {i : Nat}
    (hi : i < submissions.length) {endpoint : FixedBytes 32}
    (habsent : listingAt submissions endpoint i = .absent) (item : Map) :
    ¬ListsDevice submissions[i].state endpoint item := by
  intro hitem
  rw [h.listingAt_device hi hitem] at habsent
  rcases lists_evidence item with hlists | hlists <;> cases habsent.symm.trans hlists

/-- The state that admitted a device, with the proof that it verified. -/
structure AdmissionOf (provider : Provider) (submission : Submission) (epoch : Nat)
    (endpoint : FixedBytes 32) (item : Map) : Prop where
  admitted : unsigned item "admittedAuthorityEpoch" = .ok epoch
  proved : ∃ record device : Map, submission.state = .object record ∧
    unsigned record "authorityEpoch" = .ok epoch ∧
    ListsDevice submission.state endpoint device ∧
    device.get "identityStateDigest" = item.get "identityStateDigest" ∧
    device.get "possessionProof" = item.get "possessionProof" ∧
    Possessed provider record submission.endpointStates endpoint device

theorem Chain.admission (h : Chain formatFinite provider submissions) {i k : Nat}
    (hi : i < submissions.length) (hk : k < submissions.length) {endpoint : FixedBytes 32}
    {item : Map} (hitem : ListsDevice submissions[i].state endpoint item)
    (hadmitted : AdmittedAt provider submissions endpoint k (evidence item)) :
    AdmissionOf provider submissions[k] k endpoint item := by
  obtain ⟨submission, record, hsubmission, hstate, device, hdevice, hevidence, hepoch, hproof⟩ :=
    hadmitted
  rw [List.getElem?_eq_getElem hk, Option.some.injEq] at hsubmission
  subst hsubmission
  obtain ⟨record', r, hrecord, hposition⟩ := h.state_record hk
  cases hstate.symm.trans hrecord
  simp only [evidence, Evidence.mk.injEq] at hevidence
  obtain ⟨hdigest, hsame, hpossession⟩ := hevidence
  refine ⟨?_, record, device, hstate, hposition ▸ r.get_epoch, (h.listing_device hk).mpr hdevice,
    hdigest, hpossession, hproof⟩
  obtain ⟨_, q, hlisted, _⟩ := h.state_record hi
  rw [hlisted, q.listsDevice] at hitem
  obtain ⟨n, _, hunsigned, _⟩ := (q.roster.valid _ hitem).admitted
  have hn := (unsigned_eq_ok.mp hunsigned).1
  rw [hsame] at hepoch
  rw [hn, Option.some.injEq] at hepoch
  exact hepoch ▸ hunsigned

/-- Every device of every state of a chain was admitted by the state of its admission epoch: that
state lists it with the same evidence and has verified its possession proof by both algorithms. -/
theorem device_possession (h : Chain formatFinite provider submissions) {i : Nat}
    (hi : i < submissions.length) {record : Map} {values : List Value} {device : Value}
    (hstate : submissions[i].state = .object record)
    (hvalues : array record "authorizedDevices" = .ok values) (hdevice : device ∈ values) :
    ∃ (item : Map) (endpoint : FixedBytes 32), device = .object item ∧
      decodedHex 32 item "endpointIdentityRef" = .ok endpoint ∧
      ∃ k, ∃ hk : k ≤ i, AdmissionOf provider submissions[k] k endpoint item := by
  obtain ⟨_, r, hrecord, _⟩ := h.state_record hi
  cases hstate.symm.trans hrecord
  rw [array_eq_ok, r.get_devices, Option.some.injEq, Value.array.injEq] at hvalues
  subst hvalues
  obtain ⟨⟨endpoint, item⟩, hmem, rfl⟩ := List.mem_map.mp hdevice
  have hlists : ListsDevice submissions[i].state endpoint item := by
    rw [hstate, r.listsDevice]
    exact hmem
  obtain ⟨k, hki, hadmitted, _⟩ := (h.history endpoint hi).admitted le_rfl
    (h.listingAt_device hi hlists ▸ lists_evidence item)
  exact ⟨item, endpoint, rfl, (r.roster.valid _ hmem).endpoint, k, hki,
    h.admission hi (by omega) hlists hadmitted⟩

theorem device_possession_readmitted :
    ∃ (item : Map) (endpoint : FixedBytes 32) (k : Nat),
      ∃ submission ∈ sampleStates.map AuthorityData.submission,
        Value.object (sampleDevice 1 3 none).print = .object item ∧
        AdmissionOf (tableProvider [] []) submission k endpoint item := by
  obtain ⟨item, endpoint, hitem, _, k, _, hadmission⟩ :=
    device_possession sampleStates_chain (i := 3) (by decide) rfl (array_eq_ok.mpr rfl)
      List.mem_cons_self
  exact ⟨item, endpoint, k, _, List.getElem_mem _, hitem, hadmission⟩

/-- A device that was revoked is active in a later state only where a state in between does not list
its endpoint and a state after that one has admitted it anew. -/
theorem revocation_until_dropped (h : Chain formatFinite provider submissions) {i j : Nat}
    (hij : i ≤ j) (hj : j < submissions.length) {endpoint : FixedBytes 32} {revoked active : Map}
    (hrevoked : ListsDevice submissions[i].state endpoint revoked)
    (hstatus : text revoked "deviceStatus" = .ok "revoked")
    (hactive : ListsDevice submissions[j].state endpoint active)
    (hstatus' : text active "deviceStatus" = .ok "active") :
    ∃ dropped admitted, ∃ (_ : i < dropped) (_ : dropped < admitted) (_ : admitted ≤ j),
      (∀ item, ¬ListsDevice submissions[dropped].state endpoint item) ∧
      AdmissionOf provider submissions[admitted] admitted endpoint active := by
  have hbefore := h.listingAt_device (by omega) hrevoked
  have hafter := h.listingAt_device hj hactive
  rw [standing_revoked (text_eq_ok.mp hstatus)] at hbefore
  rw [standing_active (text_eq_ok.mp hstatus')] at hafter
  obtain ⟨dropped, admitted, hlater, hdropped, hadmitted, habsent, hfresh, _⟩ :=
    (h.history endpoint hj).readmitted hij le_rfl hbefore hafter
  exact ⟨dropped, admitted, hlater, hdropped, hadmitted,
    h.listingAt_absent (by omega) habsent, h.admission hj (by omega) hactive hfresh⟩

theorem sampleStates_lists {i : Nat} (hi : i < (sampleStates.map AuthorityData.submission).length)
    {data : AuthorityData} (hdata : sampleStates[i]? = some data) (device : DeviceData)
    (hdevice : device ∈ data.devices) :
    ListsDevice (sampleStates.map AuthorityData.submission)[i].state device.endpoint
      device.print := by
  obtain ⟨hlength, rfl⟩ := List.getElem?_eq_some_iff.mp hdata
  rw [List.getElem_map]
  refine ⟨_, _, rfl, array_eq_ok.mpr rfl, ?_, decodedHex_of_get rfl⟩
  exact List.mem_map.mpr ⟨(device.endpoint, device.print), List.mem_map_of_mem hdevice, rfl⟩

theorem revocation_until_dropped_readmitted :
    ∃ dropped admitted, ∃ submission ∈ sampleStates.map AuthorityData.submission,
      1 < dropped ∧ dropped < admitted ∧ admitted ≤ 3 ∧
      AdmissionOf (tableProvider [] []) submission admitted (sampleName 1)
        (sampleDevice 1 3 none).print := by
  obtain ⟨dropped, admitted, hdropped, hlater, hadmitted, _, hadmission⟩ :=
    revocation_until_dropped sampleStates_chain (i := 1) (j := 3) (by decide) (by decide)
      (sampleStates_lists (by decide) rfl (sampleDevice 1 0 (some 1)) List.mem_cons_self)
      (text_eq_ok.mpr rfl)
      (sampleStates_lists (by decide) rfl (sampleDevice 1 3 none) List.mem_cons_self)
      (text_eq_ok.mpr rfl)
  exact ⟨dropped, admitted, _, List.getElem_mem _, hdropped, hlater, hadmitted, hadmission⟩

/-- A chain lists a device as revoked and later, with the same identity state, as active. -/
theorem revocation_not_permanent :
    ∃ (submissions : List Submission) (i j : Nat) (hij : i < j) (hj : j < submissions.length)
      (endpoint : FixedBytes 32) (revoked active : Map),
      Chain (fun _ => "") (tableProvider [] []) submissions ∧
      ListsDevice submissions[i].state endpoint revoked ∧
      text revoked "deviceStatus" = .ok "revoked" ∧
      ListsDevice submissions[j].state endpoint active ∧
      text active "deviceStatus" = .ok "active" ∧
      active.get "endpointIdentityRef" = revoked.get "endpointIdentityRef" ∧
      active.get "identityStateDigest" = revoked.get "identityStateDigest" :=
  ⟨sampleStates.map AuthorityData.submission, 1, 3, by decide, by decide, sampleName 1,
    (sampleDevice 1 0 (some 1)).print, (sampleDevice 1 3 none).print, sampleStates_chain,
    sampleStates_lists (by decide) rfl (sampleDevice 1 0 (some 1)) List.mem_cons_self,
    text_eq_ok.mpr rfl,
    sampleStates_lists (by decide) rfl (sampleDevice 1 3 none) List.mem_cons_self,
    text_eq_ok.mpr rfl, rfl, rfl⟩

end Chain

end Identity

end LicoArc
