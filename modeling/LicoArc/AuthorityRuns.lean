import LicoArc.AuthorityChain
import LicoArc.SignedInputs

/-!
# Catch-up and admission over whole runs

A batch of snapshots is accepted exactly as its snapshots are one by one, since
a digest that a snapshot names as its predecessor belongs to one epoch. Over
any calls the accepted authority only moves to a later epoch of the same user.
-/

namespace LicoArc

namespace Identity

open Json

/-! ## One step of an authority -/

def epochOf (state : Value) : Except Fault Nat := do unsigned (← members state) "authorityEpoch"

def userOf (state : Value) : Except Fault (FixedBytes 32) := do
  decodedHex 32 (← members state) "userIdentityRef"

/-- An accepted authority as the validator makes it. -/
structure Genuine (formatFinite : Rat → String) (provider : Provider)
    (accepted : AcceptedUserAuthority) : Prop where
  epoch : epochOf accepted.state = .ok accepted.authorityEpoch
  user : userOf accepted.state = .ok accepted.userIdentityRef
  digest : userAuthorityStateDigest formatFinite provider accepted.state =
    .ok accepted.stateDigest

section

variable {formatFinite : Rat → String} {provider : Provider} {state : Value}
  {line : FixedBytes 32} {endpointStates : List EndpointStateKeys}
  {accepted next : AcceptedUserAuthority}

theorem AuthorityRecord.epochOf {record : Map} (r : AuthorityRecord record) :
    Identity.epochOf (.object record) = .ok r.epoch := by
  simp only [Identity.epochOf, Except.bind_eq_ok, liftM_eq_ok, members_eq_ok]
  exact ⟨record, rfl, r.get_epoch⟩

theorem AuthorityRecord.userOf {record : Map} (r : AuthorityRecord record) :
    Identity.userOf (.object record) = .ok r.user := by
  simp only [Identity.userOf, Except.bind_eq_ok, liftM_eq_ok, members_eq_ok]
  exact ⟨record, rfl, decodedHex_of_get r.get_user⟩

theorem genuine_of_validated {predecessor : Option Value}
    (h : validateUserAuthorityState formatFinite provider state predecessor line endpointStates =
      .ok next) : next.state = state ∧ Genuine formatFinite provider next := by
  obtain ⟨record, r, previous, digest, rfl, hvalid, rfl⟩ := validateUserAuthorityState_eq_ok.mp h
  exact ⟨rfl, r.epochOf, r.userOf, hvalid.hashed⟩

def parentOf (state : Value) : Except Fault (Option (FixedBytes 32)) := do
  previousDigest (← members state)

theorem parentOf_genesis
    (h : validateUserAuthorityState formatFinite provider state none line endpointStates =
      .ok next) : parentOf state = .ok none := by
  obtain ⟨record, r, previous, digest, rfl, hvalid, rfl⟩ := validateUserAuthorityState_eq_ok.mp h
  obtain ⟨keys, hkeys, _⟩ := hvalid.signed
  obtain rfl : none = previous := Except.ok.inj hvalid.read
  simp only [signingKeys, genesisKeys, Except.bind_eq_ok, reject_eq_ok, not_not] at hkeys
  obtain ⟨_, ⟨_, _, hparent, _⟩, _⟩ := hkeys
  have hnone : record.get "previousUserAuthorityStateDigest" = none := by
    simpa [Map.containsKey] using hparent
  simp only [parentOf, Except.bind_eq_ok, liftM_eq_ok, members_eq_ok]
  exact ⟨record, rfl, by rw [previousDigest, hnone]⟩

theorem successor_step {predecessor : Value}
    (h : validateUserAuthorityState formatFinite provider state (some predecessor) line
      endpointStates = .ok next) :
    ∃ digest epoch user, userAuthorityStateDigest formatFinite provider predecessor = .ok digest ∧
      parentOf state = .ok (some digest) ∧
      epochOf predecessor = .ok epoch ∧ next.authorityEpoch = epoch + 1 ∧
      userOf predecessor = .ok user ∧ next.userIdentityRef = user := by
  obtain ⟨record, r, previous, stateDigest, rfl, hvalid, rfl⟩ :=
    validateUserAuthorityState_eq_ok.mp h
  obtain ⟨prior, q, rfl, _, hcontinues, hepoch, _⟩ := hvalid.successor
  obtain ⟨digest, hdigest, hlink⟩ := hcontinues.digest
  rw [text_eq_ok] at hlink
  have huser : r.user = q.user := by
    have hget := hcontinues.user
    rw [r.get_user, q.get_user, Option.some.injEq, Value.string.injEq] at hget
    exact hexBytes_injective hget
  refine ⟨digest, q.epoch, q.user, hdigest, ?_, q.epochOf, hepoch, q.userOf, huser⟩
  simp only [parentOf, Except.bind_eq_ok, liftM_eq_ok, members_eq_ok]
  refine ⟨record, rfl, ?_⟩
  rw [previousDigest, hlink]
  simp only [decodedHex_of_get hlink]
  rfl

/-! ## One snapshot after another -/

section Batches

variable (formatFinite : Rat → String) (provider : Provider) (line : FixedBytes 32)
  (endpointStates : List EndpointStateKeys)

def validateOneByOne : Option AcceptedUserAuthority → List Value →
    Except Fault (Option AcceptedUserAuthority)
  | accepted, [] => .ok accepted
  | accepted, snapshot :: snapshots => do
    let next ← validateUserAuthorityState formatFinite provider snapshot
      (accepted.map (·.state)) line endpointStates
    validateOneByOne (some next) snapshots

def digestInputsOf (states : Set Value) : Set Bytes :=
  {input | ∃ state ∈ states, input ∈ (SignedMessage.authority state).digested provider}

def batchStates (accepted : Option AcceptedUserAuthority) (snapshots : List Value) : Set Value :=
  {state | state ∈ snapshots ∨ ∃ current ∈ accepted, current.state = state}

/-- Every parent that was seen is the digest of a state in an epoch before the current one. -/
def SeenBefore (states : Set Value) (current : Option AcceptedUserAuthority)
    (seen : Option (FixedBytes 32) → Option (FixedBytes 32)) : Prop :=
  match current with
  | none => ∀ parent, seen parent = none
  | some accepted => ∀ epoch, epochOf accepted.state = .ok epoch →
    ∀ parent, seen (some parent) ≠ none → ∃ state ∈ states, ∃ earlier < epoch,
      userAuthorityStateDigest formatFinite provider state = .ok parent ∧
      epochOf state = .ok earlier

end Batches

variable {states : Set Value} {current : Option AcceptedUserAuthority}
  {seen seen' : Option (FixedBytes 32) → Option (FixedBytes 32)} {snapshots : List Value}

theorem validateOneByOne_append {xs ys : List Value} {result : Option AcceptedUserAuthority} :
    validateOneByOne formatFinite provider line endpointStates current (xs ++ ys) = .ok result ↔
      ∃ middle, validateOneByOne formatFinite provider line endpointStates current xs =
          .ok middle ∧
        validateOneByOne formatFinite provider line endpointStates middle ys = .ok result := by
  induction xs generalizing current with
  | nil => simp [validateOneByOne]
  | cons snapshot xs ih =>
    simp only [List.cons_append, validateOneByOne, Except.bind_eq_ok, ih]
    constructor
    · rintro ⟨next, hnext, middle, hxs, hys⟩
      exact ⟨middle, ⟨next, hnext, hxs⟩, hys⟩
    · rintro ⟨middle, ⟨next, hnext, hxs⟩, hys⟩
      exact ⟨next, hnext, middle, hxs, hys⟩

theorem epochOf_of_digest (hfree : Set.InjOn provider.sha256 (digestInputsOf provider states))
    {first second : Value} (hfirst : first ∈ states) (hsecond : second ∈ states)
    {digest : FixedBytes 32}
    (h : userAuthorityStateDigest formatFinite provider first = .ok digest)
    (h' : userAuthorityStateDigest formatFinite provider second = .ok digest) :
    epochOf first = epochOf second := by
  have hsubset : (SignedMessage.authority first).digested provider ∪
      (SignedMessage.authority second).digested provider ⊆ digestInputsOf provider states := by
    rintro input (hinput | hinput)
    · exact ⟨first, hfirst, hinput⟩
    · exact ⟨second, hsecond, hinput⟩
  obtain ⟨fields, hread, hread'⟩ := SignedMessage.digest_fixes_state h h' (hfree.mono hsubset)
  obtain ⟨record, _, hrecord, _, _, _, _, hepoch, _⟩ := hread
  obtain ⟨record', _, hrecord', _, _, _, _, hepoch', _⟩ := hread'
  have hfirst : epochOf first = .ok fields.epoch := by
    simp only [epochOf, Except.bind_eq_ok, liftM_eq_ok]
    exact ⟨record, hrecord, hepoch⟩
  have hsecond : epochOf second = .ok fields.epoch := by
    simp only [epochOf, Except.bind_eq_ok, liftM_eq_ok]
    exact ⟨record', hrecord', hepoch'⟩
  exact hfirst.trans hsecond.symm

theorem catchUpSnapshot_eq_ok {snapshot : Value} {result : Option AcceptedUserAuthority} :
    catchUpSnapshot formatFinite provider line endpointStates (current, seen) snapshot =
        .ok (result, seen') ↔
      ∃ parent digest next, parentOf snapshot = .ok parent ∧
        userAuthorityStateDigest formatFinite provider snapshot = .ok digest ∧
        ¬(seen parent).any (fun prior => prior ≠ digest) = true ∧
        validateUserAuthorityState formatFinite provider snapshot (current.map (·.state)) line
          endpointStates = .ok next ∧
        result = some next ∧ seen' = Function.update seen parent (some digest) := by
  simp only [catchUpSnapshot, parentOf, Except.bind_eq_ok, reject_eq_ok, Except.pure_eq,
    Except.ok.injEq, Prod.mk.injEq]
  constructor
  · rintro ⟨record, hrecord, parent, hparent, digest, hdigest, _, hseen, next, hnext, rfl, rfl⟩
    exact ⟨parent, digest, next, ⟨record, hrecord, hparent⟩, hdigest, hseen, hnext, rfl, rfl⟩
  · rintro ⟨parent, digest, next, ⟨record, hrecord, hparent⟩, hdigest, hseen, hnext, rfl, rfl⟩
    exact ⟨record, hrecord, parent, hparent, digest, hdigest, (), hseen, next, hnext, rfl, rfl⟩

theorem SeenBefore.fresh (h : SeenBefore formatFinite provider states current seen)
    (hfree : Set.InjOn provider.sha256 (digestInputsOf provider states))
    (hcurrent : ∀ authority ∈ current, authority.state ∈ states) {snapshot : Value}
    (hvalid : validateUserAuthorityState formatFinite provider snapshot (current.map (·.state)) line
      endpointStates = .ok next) {parent : Option (FixedBytes 32)}
    (hparent : parentOf snapshot = .ok parent) : seen parent = none := by
  cases current with
  | none => exact h parent
  | some authority =>
    obtain ⟨digest, epoch, _, hdigest, hnamed, hepoch, _⟩ := successor_step hvalid
    obtain rfl : parent = some digest := Except.ok.inj (hparent.symm.trans hnamed)
    by_contra hseen
    obtain ⟨state, hstate, earlier, hearlier, hdigest', hepoch'⟩ := h epoch hepoch digest hseen
    have hsame := epochOf_of_digest hfree hstate (hcurrent authority rfl) hdigest' hdigest
    rw [hepoch, hepoch', Except.ok.injEq] at hsame
    omega

theorem SeenBefore.step (h : SeenBefore formatFinite provider states current seen)
    (hcurrent : ∀ authority ∈ current, authority.state ∈ states) {snapshot : Value}
    (hvalid : validateUserAuthorityState formatFinite provider snapshot (current.map (·.state)) line
      endpointStates = .ok next) {parent : Option (FixedBytes 32)}
    (hparent : parentOf snapshot = .ok parent) (digest : FixedBytes 32) :
    SeenBefore formatFinite provider states (some next)
      (Function.update seen parent (some digest)) := by
  obtain ⟨hstate, hgenuine⟩ := genuine_of_validated hvalid
  intro epoch hepoch other hother
  obtain rfl : next.authorityEpoch = epoch := Except.ok.inj (hgenuine.epoch.symm.trans hepoch)
  cases current with
  | none =>
    obtain rfl : parent = none := Except.ok.inj (hparent.symm.trans (parentOf_genesis hvalid))
    rw [Function.update_of_ne (by simp)] at hother
    exact absurd (h (some other)) hother
  | some authority =>
    obtain ⟨named, before, _, hnamed, hlink, hbefore, hnext, _⟩ := successor_step hvalid
    obtain rfl : parent = some named := Except.ok.inj (hparent.symm.trans hlink)
    by_cases hsame : other = named
    · subst hsame
      exact ⟨authority.state, hcurrent authority rfl, before, by omega, hnamed, hbefore⟩
    · rw [Function.update_of_ne (by simpa using hsame)] at hother
      obtain ⟨state, hmem, earlier, hearlier, hdigest, hepoch'⟩ := h before hbefore other hother
      exact ⟨state, hmem, earlier, by omega, hdigest, hepoch'⟩

theorem validateOneByOne_of_fold {result : Option AcceptedUserAuthority}
    (h : snapshots.foldlM (catchUpSnapshot formatFinite provider line endpointStates)
      (current, seen) = .ok (result, seen')) :
    validateOneByOne formatFinite provider line endpointStates current snapshots = .ok result := by
  induction snapshots generalizing current seen with
  | nil =>
    simp only [List.foldlM_nil, Except.pure_eq, Except.ok.injEq, Prod.mk.injEq] at h
    exact congrArg Except.ok h.1
  | cons snapshot snapshots ih =>
    simp only [List.foldlM_cons, Except.bind_eq_ok, Prod.exists] at h
    obtain ⟨reached, seen₁, hstep, hrest⟩ := h
    obtain ⟨parent, digest, next, _, _, _, hnext, rfl, rfl⟩ := catchUpSnapshot_eq_ok.mp hstep
    rw [validateOneByOne, hnext]
    exact ih hrest

/-- The map of the parents never stops a batch whose snapshots follow one another. -/
theorem SeenBefore.fold (h : SeenBefore formatFinite provider states current seen)
    (hfree : Set.InjOn provider.sha256 (digestInputsOf provider states))
    (hcurrent : ∀ authority ∈ current, authority.state ∈ states)
    (hsnapshots : ∀ snapshot ∈ snapshots, snapshot ∈ states)
    {result : Option AcceptedUserAuthority}
    (hvalid : validateOneByOne formatFinite provider line endpointStates current snapshots =
      .ok result) :
    ∃ seen', snapshots.foldlM (catchUpSnapshot formatFinite provider line endpointStates)
      (current, seen) = .ok (result, seen') := by
  induction snapshots generalizing current seen with
  | nil =>
    simp only [validateOneByOne, Except.ok.injEq] at hvalid
    exact ⟨seen, by rw [hvalid]; rfl⟩
  | cons snapshot snapshots ih =>
    rw [List.forall_mem_cons] at hsnapshots
    obtain ⟨hsnapshot, hsnapshots⟩ := hsnapshots
    simp only [validateOneByOne, Except.bind_eq_ok] at hvalid
    obtain ⟨next, hnext, hrest⟩ := hvalid
    obtain ⟨hstate, hgenuine⟩ := genuine_of_validated hnext
    have hreached : ∀ authority ∈ some next, authority.state ∈ states := by
      rintro authority ⟨⟩
      rwa [hstate]
    have hdigest := hgenuine.digest
    rw [hstate] at hdigest
    obtain ⟨parent, hparent⟩ : ∃ parent, parentOf snapshot = .ok parent := by
      cases current with
      | none => exact ⟨none, parentOf_genesis hnext⟩
      | some authority =>
        obtain ⟨named, _, _, _, hlink, _⟩ := successor_step hnext
        exact ⟨some named, hlink⟩
    have hfresh := h.fresh hfree hcurrent hnext hparent
    obtain ⟨seen', hfold⟩ := ih (h.step hcurrent hnext hparent next.stateDigest) hreached hsnapshots
      hrest
    simp only [List.foldlM_cons, Except.bind_eq_ok, Prod.exists]
    exact ⟨seen', some next, _, catchUpSnapshot_eq_ok.mpr ⟨parent, next.stateDigest, next, hparent,
      hdigest, by simp [hfresh], hnext, rfl, rfl⟩, hfold⟩

/-- A batch succeeds exactly where its snapshots are accepted one by one, with the same result. -/
theorem catchUp_eq_ok
    (hfree : Set.InjOn provider.sha256 (digestInputsOf provider (batchStates current snapshots)))
    {result : AcceptedUserAuthority} :
    applyUserAuthorityCatchUp formatFinite provider current snapshots line endpointStates =
        .ok result ↔
      snapshots ≠ [] ∧ snapshots.length ≤ maxChainRecords ∧
        validateOneByOne formatFinite provider line endpointStates current snapshots =
          .ok (some result) := by
  have hseen : SeenBefore formatFinite provider (batchStates current snapshots) current
      fun _ => none := by
    cases current with
    | none => exact fun _ => rfl
    | some authority => exact fun _ _ _ hne => absurd rfl hne
  have hcurrent : ∀ authority ∈ current, authority.state ∈ batchStates current snapshots :=
    fun authority hauthority => .inr ⟨authority, hauthority, rfl⟩
  simp only [applyUserAuthorityCatchUp, Except.bind_eq_ok, reject_eq_ok, not_or, not_lt,
    gt_iff_lt, exists_const, Prod.exists, okOr_eq_ok, and_assoc]
  constructor
  · rintro ⟨hsome, hlength, reached, seen', hfold, rfl⟩
    exact ⟨hsome, hlength, validateOneByOne_of_fold hfold⟩
  · rintro ⟨hsome, hlength, hvalid⟩
    obtain ⟨seen', hfold⟩ := hseen.fold hfree hcurrent (fun _ => .inl) hvalid
    exact ⟨hsome, hlength, some result, seen', hfold, rfl⟩

theorem validateOneByOne_last (hsome : snapshots ≠ []) {result : Option AcceptedUserAuthority}
    (h : validateOneByOne formatFinite provider line endpointStates current snapshots =
      .ok result) :
    ∃ authority, result = some authority ∧ authority.state ∈ snapshots := by
  induction snapshots generalizing current with
  | nil => exact absurd rfl hsome
  | cons snapshot snapshots ih =>
    simp only [validateOneByOne, Except.bind_eq_ok] at h
    obtain ⟨next, hnext, hrest⟩ := h
    by_cases hlast : snapshots = []
    · subst hlast
      simp only [validateOneByOne, Except.ok.injEq] at hrest
      rw [← hrest]
      exact ⟨next, rfl, by rw [(genuine_of_validated hnext).1]; exact List.mem_cons_self⟩
    · obtain ⟨authority, hresult, hmem⟩ := ih hlast hrest
      exact ⟨authority, hresult, List.mem_cons_of_mem _ hmem⟩

theorem digestInputsOf_mono {states' : Set Value} (h : states ⊆ states') :
    digestInputsOf provider states ⊆ digestInputsOf provider states' := by
  rintro input ⟨state, hstate, hinput⟩
  exact ⟨state, h hstate, hinput⟩

/-- Catch-up does not depend on how the snapshots are batched. -/
theorem catchUp_batching :
    (∀ xs ys : List Value, xs ≠ [] → ys ≠ [] → xs.length + ys.length ≤ maxChainRecords →
      Set.InjOn provider.sha256 (digestInputsOf provider (batchStates current (xs ++ ys))) →
      ∀ result, applyUserAuthorityCatchUp formatFinite provider current (xs ++ ys) line
          endpointStates = .ok result ↔
        ∃ middle, applyUserAuthorityCatchUp formatFinite provider current xs line endpointStates =
            .ok middle ∧
          applyUserAuthorityCatchUp formatFinite provider (some middle) ys line endpointStates =
            .ok result) ∧
    ∀ snapshots : List Value, snapshots ≠ [] → snapshots.length ≤ maxChainRecords →
      Set.InjOn provider.sha256 (digestInputsOf provider (batchStates current snapshots)) →
      ∀ result, applyUserAuthorityCatchUp formatFinite provider current snapshots line
          endpointStates = .ok result ↔
        validateOneByOne formatFinite provider line endpointStates current snapshots =
          .ok (some result) := by
  constructor
  · intro xs ys hxs hys hlength hfree result
    have hfirst : batchStates current xs ⊆ batchStates current (xs ++ ys) := by
      rintro state (hstate | hstate)
      · exact .inl (List.mem_append_left _ hstate)
      · exact .inr hstate
    have hfree₁ := hfree.mono (digestInputsOf_mono hfirst)
    have hsecond (middle : AcceptedUserAuthority) (hmiddle : middle.state ∈ xs) :
        Set.InjOn provider.sha256 (digestInputsOf provider (batchStates (some middle) ys)) := by
      refine hfree.mono (digestInputsOf_mono ?_)
      rintro state (hstate | ⟨_, ⟨⟩, rfl⟩)
      · exact .inl (List.mem_append_right _ hstate)
      · exact .inl (List.mem_append_left _ hmiddle)
    rw [catchUp_eq_ok hfree, validateOneByOne_append]
    constructor
    · rintro ⟨_, _, middle, hvalid, hvalid'⟩
      obtain ⟨authority, rfl, hmem⟩ := validateOneByOne_last hxs hvalid
      exact ⟨authority, (catchUp_eq_ok hfree₁).mpr ⟨hxs, by omega, hvalid⟩,
        (catchUp_eq_ok (hsecond authority hmem)).mpr ⟨hys, by omega, hvalid'⟩⟩
    · rintro ⟨middle, hmiddle, hresult⟩
      obtain ⟨_, _, hvalid⟩ := (catchUp_eq_ok hfree₁).mp hmiddle
      obtain ⟨authority, hsame, hmem⟩ := validateOneByOne_last hxs hvalid
      cases hsame
      obtain ⟨_, _, hvalid'⟩ := (catchUp_eq_ok (hsecond middle hmem)).mp hresult
      refine ⟨by simp [hxs], ?_, some middle, hvalid, hvalid'⟩
      rw [List.length_append]
      exact hlength
  · intro snapshots hsome hlength hfree result
    rw [catchUp_eq_ok hfree]
    exact ⟨fun h => h.2.2, fun h => ⟨hsome, hlength, h⟩⟩

end

/-! ## Calls on the accepted authority -/

section Calls

inductive AuthorityCall
  | catchUp (snapshots : List Value) (line : FixedBytes 32)
      (endpointStates : List EndpointStateKeys)
  | admitPayload (session : AuthenticatedAuthoritySession) (state : Value) (line : FixedBytes 32)
      (endpointStates : List EndpointStateKeys)

variable (formatFinite : Rat → String) (provider : Provider)

def AuthorityCall.run (accepted : Option AcceptedUserAuthority) :
    AuthorityCall → Except Fault AcceptedUserAuthority
  | catchUp snapshots line endpointStates =>
    applyUserAuthorityCatchUp formatFinite provider accepted snapshots line endpointStates
  | admitPayload session state line endpointStates =>
    admitProtectedAuthorityPayload formatFinite provider accepted session state line endpointStates

/-- The accepted authority after a call: its result, or the one before where it fails. -/
def AuthorityCall.step (accepted : Option AcceptedUserAuthority) (call : AuthorityCall) :
    Option AcceptedUserAuthority :=
  match call.run formatFinite provider accepted with
  | .ok next => some next
  | .error _ => accepted

def acceptedAfter (start : Option AcceptedUserAuthority) (calls : List AuthorityCall) :
    Option AcceptedUserAuthority :=
  calls.foldl (AuthorityCall.step formatFinite provider) start

/-- The same authority, or one of the same user in a later epoch. -/
structure Extends (accepted next : AcceptedUserAuthority) : Prop where
  user : next.userIdentityRef = accepted.userIdentityRef
  later : next = accepted ∨ accepted.authorityEpoch < next.authorityEpoch

variable {formatFinite provider} {accepted next last : AcceptedUserAuthority}
  {current : Option AcceptedUserAuthority} {line : FixedBytes 32}
  {endpointStates : List EndpointStateKeys}

theorem Extends.refl (accepted : AcceptedUserAuthority) : Extends accepted accepted :=
  ⟨rfl, .inl rfl⟩

theorem Extends.trans (h : Extends accepted next) (h' : Extends next last) :
    Extends accepted last := by
  refine ⟨h'.user.trans h.user, ?_⟩
  rcases h'.later with rfl | hlater
  · exact h.later
  · rcases h.later with rfl | hbefore
    · exact .inr hlater
    · exact .inr (hbefore.trans hlater)

theorem extends_of_validated (h : Genuine formatFinite provider accepted) {state : Value}
    (hvalid : validateUserAuthorityState formatFinite provider state (some accepted.state) line
      endpointStates = .ok next) : Extends accepted next := by
  obtain ⟨_, epoch, user, _, _, hepoch, hnext, huser, hsame⟩ := successor_step hvalid
  obtain rfl : accepted.authorityEpoch = epoch := Except.ok.inj (h.epoch.symm.trans hepoch)
  obtain rfl : accepted.userIdentityRef = user := Except.ok.inj (h.user.symm.trans huser)
  exact ⟨hsame, .inr (by omega)⟩

def Advances (formatFinite : Rat → String) (provider : Provider)
    (current : Option AcceptedUserAuthority) (next : AcceptedUserAuthority) : Prop :=
  Genuine formatFinite provider next ∧ ∀ accepted ∈ current, Extends accepted next

theorem advances_of_validated (h : ∀ accepted ∈ current, Genuine formatFinite provider accepted)
    {state : Value} (hvalid : validateUserAuthorityState formatFinite provider state
      (current.map (·.state)) line endpointStates = .ok next) :
    Advances formatFinite provider current next := by
  refine ⟨(genuine_of_validated hvalid).2, ?_⟩
  rintro accepted ⟨⟩
  exact extends_of_validated (h accepted rfl) hvalid

theorem advances_of_oneByOne (h : ∀ accepted ∈ current, Genuine formatFinite provider accepted)
    {snapshots : List Value} (hsome : snapshots ≠ [])
    (hvalid : validateOneByOne formatFinite provider line endpointStates current snapshots =
      .ok (some next)) :
    Advances formatFinite provider current next := by
  induction snapshots generalizing current with
  | nil => exact absurd rfl hsome
  | cons snapshot snapshots ih =>
    simp only [validateOneByOne, Except.bind_eq_ok] at hvalid
    obtain ⟨first, hfirst, hrest⟩ := hvalid
    have hadvanced := advances_of_validated h hfirst
    by_cases hlast : snapshots = []
    · subst hlast
      simp only [validateOneByOne, Except.ok.injEq, Option.some.injEq] at hrest
      rwa [← hrest]
    · have hreached : ∀ accepted ∈ some first, Genuine formatFinite provider accepted := by
        rintro accepted ⟨⟩
        exact hadvanced.1
      obtain ⟨hgenuine, hextends⟩ := ih hreached hlast hrest
      exact ⟨hgenuine, fun accepted haccepted =>
        (hadvanced.2 accepted haccepted).trans (hextends first rfl)⟩

theorem advances_of_admitted (h : ∀ accepted ∈ current, Genuine formatFinite provider accepted)
    {state : Value} {payloadDigest : FixedBytes 32} (hadmitted : admittedAuthority formatFinite
      provider current state payloadDigest line endpointStates = .ok next) :
    Advances formatFinite provider current next := by
  rw [admittedAuthority] at hadmitted
  cases hreplayed : current.filter fun accepted => accepted.stateDigest = payloadDigest with
  | some replayed =>
    rw [hreplayed] at hadmitted
    obtain ⟨hcurrent, _⟩ := Option.filter_eq_some_iff.mp hreplayed
    cases hadmitted
    subst hcurrent
    refine ⟨h next rfl, ?_⟩
    rintro accepted ⟨⟩
    exact .refl _
  | none =>
    rw [hreplayed] at hadmitted
    exact advances_of_validated h hadmitted

theorem AuthorityCall.advances (h : ∀ accepted ∈ current, Genuine formatFinite provider accepted)
    {call : AuthorityCall} (hrun : call.run formatFinite provider current = .ok next) :
    Advances formatFinite provider current next := by
  cases call with
  | catchUp snapshots line endpointStates =>
    simp only [AuthorityCall.run, applyUserAuthorityCatchUp, Except.bind_eq_ok, reject_eq_ok,
      not_or, Prod.exists, okOr_eq_ok] at hrun
    obtain ⟨_, ⟨hsome, _⟩, _, _, hfold, rfl⟩ := hrun
    exact advances_of_oneByOne h hsome (validateOneByOne_of_fold hfold)
  | admitPayload session state line endpointStates =>
    simp only [AuthorityCall.run, admitProtectedAuthorityPayload, Except.bind_eq_ok, Except.pure_eq,
      Except.ok.injEq] at hrun
    obtain ⟨_, _, _, _, _, hadmitted, _, _, _, _, _, _, _, _, _, _, rfl⟩ := hrun
    exact advances_of_admitted h hadmitted

theorem advances_of_step {call : AuthorityCall}
    (h : ∀ accepted ∈ current, Genuine formatFinite provider accepted) :
    call.step formatFinite provider current = current ∨
      ∃ next, call.step formatFinite provider current = some next ∧
        Advances formatFinite provider current next := by
  rw [AuthorityCall.step]
  cases hrun : call.run formatFinite provider current with
  | error fault => exact .inl rfl
  | ok next => exact .inr ⟨next, rfl, call.advances h hrun⟩

theorem acceptedAfter_genuine (h : ∀ accepted ∈ current, Genuine formatFinite provider accepted)
    (calls : List AuthorityCall) :
    ∀ accepted ∈ acceptedAfter formatFinite provider current calls,
      Genuine formatFinite provider accepted := by
  induction calls generalizing current with
  | nil => exact h
  | cons call calls ih =>
    refine ih ?_
    have hstep := @advances_of_step _ _ _ call h
    rcases hstep with hsame | ⟨next, hnext, hgenuine, _⟩
    · rwa [hsame]
    · rw [hnext]
      rintro accepted ⟨⟩
      exact hgenuine

theorem acceptedAfter_extends (h : ∀ accepted ∈ current, Genuine formatFinite provider accepted)
    (calls : List AuthorityCall) {accepted : AcceptedUserAuthority}
    (hcurrent : accepted ∈ current) :
    ∃ last ∈ acceptedAfter formatFinite provider current calls, Extends accepted last := by
  induction calls generalizing current accepted with
  | nil => exact ⟨accepted, hcurrent, .refl accepted⟩
  | cons call calls ih =>
    have hstep := @advances_of_step _ _ _ call h
    rcases hstep with hsame | ⟨next, hnext, hgenuine, hextends⟩
    · rw [acceptedAfter, List.foldl_cons, hsame]
      exact ih h hcurrent
    · have hreached : ∀ accepted ∈ some next, Genuine formatFinite provider accepted := by
        rintro accepted ⟨⟩
        exact hgenuine
      obtain ⟨last, hlast, hlater⟩ := ih hreached rfl
      rw [acceptedAfter, List.foldl_cons, hnext]
      exact ⟨last, hlast, (hextends accepted hcurrent).trans hlater⟩

/-- What a session vouches for: the digest of an authority that lists its endpoint as active. -/
structure Vouches (session : AuthenticatedAuthoritySession) (accepted : AcceptedUserAuthority) :
    Prop where
  authenticated : session.authenticated = true
  digest : session.authorityStateDigest = accepted.stateDigest
  active : ∃ item, ListsDevice accepted.state session.endpointIdentityRef item ∧
    decodedHex 32 item "identityStateDigest" = .ok session.identityStateDigest ∧
    text item "deviceStatus" = .ok "active"

theorem listsActive_iff {devices : List Value} {session : AuthenticatedAuthoritySession} :
    listsActive devices session = true ↔ ∃ item : Map, .object item ∈ devices ∧
      item.get "endpointIdentityRef" =
        some (.string (hexBytes session.endpointIdentityRef.toList)) ∧
      item.get "identityStateDigest" =
        some (.string (hexBytes session.identityStateDigest.toList)) ∧
      item.get "deviceStatus" = some (.string "active") := by
  have htext {item : Map} {key value : String} :
      ((item.get key).bind Value.asStr == some value) = true ↔
        item.get key = some (.string value) := by
    rw [beq_iff_eq, Option.bind_eq_some_iff]
    simp only [Value.asStr_eq_some]
    exact ⟨fun ⟨_, hget, heq⟩ => heq ▸ hget, fun hget => ⟨_, hget, rfl⟩⟩
  simp only [listsActive, List.any_eq_true, Option.any_eq_true, Bool.and_eq_true, htext,
    Value.asObject_eq_some, and_assoc]
  constructor
  · rintro ⟨_, hdevice, item, rfl, hendpoint, hidentity, hstatus⟩
    exact ⟨item, hdevice, hendpoint, hidentity, hstatus⟩
  · rintro ⟨item, hdevice, hendpoint, hidentity, hstatus⟩
    exact ⟨_, hdevice, item, rfl, hendpoint, hidentity, hstatus⟩

theorem vouches_of_admit {session : AuthenticatedAuthoritySession} {state : Value}
    (h : admitProtectedAuthorityPayload formatFinite provider current session state line
      endpointStates = .ok next) : Vouches session next := by
  simp only [admitProtectedAuthorityPayload, Except.bind_eq_ok, Except.pure_eq, Except.ok.injEq,
    reject_eq_ok, not_not, okOr_eq_ok, Option.bind_eq_some_iff, Value.asObject_eq_some,
    Value.asArray_eq_some, not_or] at h
  obtain ⟨_, hauthenticated, payload, _, result, _, _, ⟨_, hdigest⟩, _, _, _, _, devices,
    ⟨_, ⟨record, hrecord, hdevices⟩, rfl⟩, _, hactive, rfl⟩ := h
  obtain ⟨item, hmem, hendpoint, hidentity, hstatus⟩ := listsActive_iff.mp hactive
  exact ⟨hauthenticated, hdigest.symm, item, ⟨record, devices, hrecord, array_eq_ok.mpr hdevices,
    hmem, decodedHex_of_get hendpoint⟩, decodedHex_of_get hidentity, text_eq_ok.mpr hstatus⟩

/-- Over any calls that start without an authority, or with a genuine one, the accepted authority
stays with its user, never goes back an epoch and has one value in an epoch; and an authority that
is admitted is vouched for by its session. -/
theorem authority_never_forks {start : Option AcceptedUserAuthority}
    (hstart : ∀ accepted ∈ start, Genuine formatFinite provider accepted)
    (calls : List AuthorityCall) :
    (∀ i j, i ≤ j → ∀ accepted ∈ acceptedAfter formatFinite provider start (calls.take i),
      ∃ last ∈ acceptedAfter formatFinite provider start (calls.take j),
        last.userIdentityRef = accepted.userIdentityRef ∧
        accepted.authorityEpoch ≤ last.authorityEpoch ∧
        (accepted.authorityEpoch = last.authorityEpoch → accepted = last)) ∧
    ∀ i session state line endpointStates result,
      calls[i]? = some (.admitPayload session state line endpointStates) →
      admitProtectedAuthorityPayload formatFinite provider
        (acceptedAfter formatFinite provider start (calls.take i)) session state line
        endpointStates = .ok result →
      Vouches session result := by
  constructor
  · intro i j hij accepted haccepted
    obtain ⟨k, rfl⟩ := Nat.exists_eq_add_of_le hij
    obtain ⟨last, hlast, hextends⟩ := acceptedAfter_extends (acceptedAfter_genuine hstart _)
      ((calls.drop i).take k) haccepted
    refine ⟨last, ?_, hextends.user, ?_, ?_⟩
    · rw [List.take_add, acceptedAfter, List.foldl_append]
      exact hlast
    · rcases hextends.later with rfl | hlater
      · exact le_rfl
      · exact hlater.le
    · intro hepoch
      rcases hextends.later with rfl | hlater
      · rfl
      · omega
  · intro i session state line endpointStates result _ hadmitted
    exact vouches_of_admit hadmitted

end Calls

/-! ## Two states with digests of their own -/

section Sample

def firstState : AuthorityData := sampleState 0 [sampleDevice 1 0 none, sampleDevice 2 0 none]

def secondState : AuthorityData :=
  sampleState 1 [sampleDevice 1 0 (some 1), sampleDevice 2 0 none]

def printedInput (data : AuthorityData) : Bytes :=
  match authorityStateProjection data.print with
  | .ok projected => domainInput authorityStateDomain (Encoding.encodeInto projected)
  | .error _ => []

/-- A provider that gives the second state a digest of its own. -/
def apartProvider : Provider :=
  { tableProvider [] [] with
    sha256 := fun input => if input = printedInput secondState then sampleName 9 else .zero 32 }

variable {formatFinite : Rat → String} {provider : Provider} {data : AuthorityData}

theorem AuthorityData.fields (h : data.WellFormed) :
    ∃ fields : AuthorityFields, fields.Read (.object data.print) ∧ fields.epoch = data.epoch ∧
      authorityStateProjection data.print = .ok fields.value ∧
      Encoding.encode fields.value = .ok (Encoding.encodeInto fields.value) := by
  obtain ⟨projected, hprojected, hsmall⟩ := AuthorityData.projection h
  have hencoded := Encoding.encode_ok hsmall.fits (hsmall.size_le.trans (by decide))
  obtain ⟨fields, hread, rfl⟩ := @authorityStateProjection_reads (.object data.print) _ _
    (members_eq_ok.mpr rfl) hprojected
  refine ⟨fields, hread, ?_, hprojected, hencoded⟩
  obtain ⟨record, _, hrecord, _, _, _, _, hepoch, _⟩ := hread
  cases members_eq_ok.mp hrecord
  exact Except.ok.inj (hepoch.symm.trans (AuthorityData.parsed h).get_epoch)

theorem printedInput_eq (h : data.WellFormed) : ∃ fields : AuthorityFields,
    fields.epoch = data.epoch ∧
    printedInput data = domainInput authorityStateDomain (Encoding.encodeInto fields.value) ∧
    Encoding.encode fields.value = .ok (Encoding.encodeInto fields.value) ∧
    ∀ input, input ∈ (SignedMessage.authority (.object data.print)).digested provider ↔
      input = printedInput data := by
  obtain ⟨fields, _, hepoch, hprojected, hencoded⟩ := AuthorityData.fields h
  have hinput : printedInput data =
      domainInput authorityStateDomain (Encoding.encodeInto fields.value) := by
    rw [printedInput, hprojected]
  refine ⟨fields, hepoch, hinput, hencoded, fun input => ?_⟩
  constructor
  · rintro ⟨record, projection, hrecord, hprojection, encoded, hencoded', rfl⟩
    cases members_eq_ok.mp hrecord
    cases hprojected.symm.trans hprojection
    cases hencoded.symm.trans hencoded'
    exact hinput.symm
  · rintro rfl
    exact ⟨data.print, fields.value, members_eq_ok.mpr rfl, hprojected, _, hencoded, hinput⟩

theorem printed_digest (h : data.WellFormed) :
    userAuthorityStateDigest formatFinite provider (.object data.print) =
      .ok (provider.sha256 (printedInput data)) := by
  obtain ⟨fields, _, _, hprojected, hencoded⟩ := AuthorityData.fields h
  simp only [userAuthorityStateDigest, Except.bind_eq_ok, liftM_eq_ok, members_eq_ok]
  refine ⟨(), AuthorityData.definition h, data.print, rfl, _, hprojected, _, hencoded, ?_⟩
  rw [printedInput, hprojected]
  rfl

theorem printedInput_ne {other : AuthorityData} (h : data.WellFormed) (h' : other.WellFormed)
    (hepoch : data.epoch ≠ other.epoch) : printedInput data ≠ printedInput other := by
  obtain ⟨fields, hfields, hinput, hencoded, _⟩ := @printedInput_eq apartProvider _ h
  obtain ⟨fields', hfields', hinput', hencoded', _⟩ :=
    @printedInput_eq apartProvider _ h'
  intro heq
  rw [hinput, hinput'] at heq
  have hsame := List.append_cancel_left heq
  rw [hsame] at hencoded
  have hvalue := Encoding.encode_injective fields.value_wellFormed fields'.value_wellFormed
    hencoded hencoded'
  rw [AuthorityFields.value_injective hvalue] at hfields
  exact hepoch (hfields.symm.trans hfields')

theorem sample_valid : firstState.WellFormed ∧ secondState.WellFormed := by
  have hfirst : firstState ∈ sampleStates := List.mem_cons_self
  have hsecond : secondState ∈ sampleStates := List.mem_cons_of_mem _ List.mem_cons_self
  exact ⟨sampleStates_valid _ hfirst, sampleStates_valid _ hsecond⟩

theorem apartProvider_lenient : Lenient apartProvider :=
  ⟨fun _ _ _ => rfl, fun _ _ _ => rfl⟩

theorem apartProvider_sha256 (input : Bytes) : apartProvider.sha256 input =
    if input = printedInput secondState then sampleName 9 else .zero 32 := rfl

theorem apartProvider_digests :
    userAuthorityStateDigest formatFinite apartProvider (.object firstState.print) =
      .ok (.zero 32) ∧
    userAuthorityStateDigest formatFinite apartProvider (.object secondState.print) =
      .ok (sampleName 9) := by
  obtain ⟨hfirst, hsecond⟩ := sample_valid
  have hapart := printedInput_ne hfirst hsecond (by decide)
  constructor
  · rw [printed_digest hfirst, apartProvider_sha256, if_neg hapart]
  · rw [printed_digest hsecond, apartProvider_sha256, if_pos rfl]

theorem apartProvider_user : deriveUserIdentityRef apartProvider
    (KeySet.print firstState.management "management")
    (KeySet.print firstState.recovery "recovery") = .ok firstState.user := by
  obtain ⟨projection, hderived⟩ : ∃ projection, deriveUserIdentityRef apartProvider
      (KeySet.print firstState.management "management")
      (KeySet.print firstState.recovery "recovery") =
      .ok (apartProvider.sha256 (domainInput userIdentityDomain projection)) :=
    AuthorityData.userIdentityRef
  have hother : domainInput userIdentityDomain projection ≠ printedInput secondState := by
    obtain ⟨fields, _, hprinted, _⟩ := @printedInput_eq apartProvider _ sample_valid.2
    rw [hprinted]
    intro heq
    obtain ⟨hlabel, _⟩ := domain_append_inj (by decide) (by decide) heq
    exact absurd hlabel (by decide)
  rw [hderived, apartProvider_sha256, if_neg hother]
  rfl

theorem first_accepted : validateUserAuthorityState formatFinite apartProvider
    (.object firstState.print) none firstState.line firstState.endpointStates =
      .ok ⟨.object firstState.print, firstState.user, firstState.epoch, .zero 32⟩ := by
  refine AuthorityData.genesis_valid apartProvider_lenient sample_valid.1 rfl
    apartProvider_digests.1 apartProvider_user rfl rfl ?_
  simp [firstState, sampleState, sampleDevice]

theorem second_accepted : validateUserAuthorityState formatFinite apartProvider
    (.object secondState.print) (some (.object firstState.print)) secondState.line
    secondState.endpointStates =
      .ok ⟨.object secondState.print, secondState.user, secondState.epoch, sampleName 9⟩ := by
  have hne : sampleName 1 ≠ sampleName 2 := by decide
  refine AuthorityData.successor_valid apartProvider_lenient sample_valid.1 sample_valid.2 ?_
    apartProvider_digests.1 apartProvider_digests.2
  apply sampleState_follows <;> simp [sampleDevice, DeviceData.Follows, hne, hne.symm]

def samples : List Value := [.object firstState.print, .object secondState.print]

theorem oneByOne_pair {provider : Provider} {line : FixedBytes 32}
    {endpointStates : List EndpointStateKeys} {first second : Value}
    {accepted last : AcceptedUserAuthority}
    (h : validateUserAuthorityState formatFinite provider first none line endpointStates =
      .ok accepted)
    (h' : validateUserAuthorityState formatFinite provider second (some first) line
      endpointStates = .ok last) :
    validateOneByOne formatFinite provider line endpointStates none [first, second] =
      .ok (some last) := by
  rw [← (genuine_of_validated h).1] at h'
  simp only [validateOneByOne, Option.map_none, h, Except.ok_bind, Option.map_some, h']

theorem acceptedAfter_catchUp {provider : Provider} {line : FixedBytes 32}
    {endpointStates : List EndpointStateKeys} {current : Option AcceptedUserAuthority}
    {accepted : AcceptedUserAuthority} {snapshots : List Value}
    (h : applyUserAuthorityCatchUp formatFinite provider current snapshots line endpointStates =
      .ok accepted) :
    acceptedAfter formatFinite provider current [.catchUp snapshots line endpointStates] =
      some accepted := by
  rw [acceptedAfter, List.foldl_cons, List.foldl_nil, AuthorityCall.step, AuthorityCall.run, h]

theorem samples_oneByOne : ∃ authority, validateOneByOne formatFinite apartProvider (.zero 32)
    firstState.endpointStates none samples = .ok (some authority) := by
  have hfirst := @first_accepted formatFinite
  have hsecond := @second_accepted formatFinite
  have hkeys : secondState.endpointStates = firstState.endpointStates := by
    simp [firstState, secondState, AuthorityData.endpointStates, sampleState, sampleDevice,
      DeviceData.endpointState, DeviceData.keys]
  rw [hkeys] at hsecond
  exact ⟨_, oneByOne_pair hfirst hsecond⟩

theorem samples_apart :
    Set.InjOn apartProvider.sha256 (digestInputsOf apartProvider (batchStates none samples)) := by
  obtain ⟨hfirst, hsecond⟩ := sample_valid
  have hread : ∀ input ∈ digestInputsOf apartProvider (batchStates none samples),
      input = printedInput firstState ∨ input = printedInput secondState := by
    rintro input ⟨state, hstate | ⟨_, ⟨⟩, _⟩, hinput⟩
    rcases List.mem_cons.mp hstate with rfl | hstate
    · obtain ⟨_, _, _, _, hdigested⟩ := @printedInput_eq apartProvider _ hfirst
      exact .inl ((hdigested input).mp hinput)
    · obtain ⟨_, _, _, _, hdigested⟩ := @printedInput_eq apartProvider _ hsecond
      rw [List.mem_singleton.mp hstate] at hinput
      exact .inr ((hdigested input).mp hinput)
  have hapart := printedInput_ne hfirst hsecond (by decide)
  have hne : sampleName 9 ≠ FixedBytes.zero 32 := by
    intro heq
    have hbyte := congrArg List.Vector.head heq
    revert hbyte
    decide
  intro input hinput input' hinput' hsame
  rw [apartProvider_sha256, apartProvider_sha256] at hsame
  rcases hread input hinput with heq | heq <;> rcases hread input' hinput' with heq' | heq'
  · exact heq.trans heq'.symm
  · rw [heq, heq', if_neg hapart, if_pos rfl] at hsame
    exact absurd hsame.symm hne
  · rw [heq, heq', if_pos rfl, if_neg hapart] at hsame
    exact absurd hsame hne
  · exact heq.trans heq'.symm

/-- Two states in one batch, and each in a batch of its own. -/
theorem catchUp_batching_samples : ∃ middle result,
    applyUserAuthorityCatchUp (fun _ => "") apartProvider none [.object firstState.print]
      (.zero 32) firstState.endpointStates = .ok middle ∧
    applyUserAuthorityCatchUp (fun _ => "") apartProvider (some middle)
      [.object secondState.print] (.zero 32) firstState.endpointStates = .ok result := by
  obtain ⟨result, hvalid⟩ := @samples_oneByOne fun _ => ""
  have hone := (@catchUp_batching (fun _ => "") apartProvider (.zero 32) firstState.endpointStates
    none).2 samples (by simp [samples]) (by decide) samples_apart result
  obtain ⟨middle, hmiddle, hresult⟩ := ((@catchUp_batching (fun _ => "") apartProvider (.zero 32)
    firstState.endpointStates none).1 [.object firstState.print] [.object secondState.print]
    (by simp) (by simp) (by decide) samples_apart result).mp (hone.mpr hvalid)
  exact ⟨middle, result, hmiddle, hresult⟩

def sampleSession : AuthenticatedAuthoritySession :=
  ⟨true, sampleName 9, sampleName 2, sampleName 2⟩

/-- A batch, then a payload that repeats what it accepted. -/
def sampleCalls : List AuthorityCall :=
  [.catchUp samples (.zero 32) firstState.endpointStates,
    .admitPayload sampleSession (.object secondState.print) (.zero 32) firstState.endpointStates]

theorem sampleCalls_accepted : ∃ authority, acceptedAfter (fun _ => "") apartProvider none
    (sampleCalls.take 1) = some authority := by
  obtain ⟨authority, hvalid⟩ := @samples_oneByOne fun _ => ""
  have hrun := (catchUp_eq_ok samples_apart).mpr ⟨by simp [samples], by decide, hvalid⟩
  exact ⟨authority, acceptedAfter_catchUp hrun⟩

theorem authority_never_forks_samples : ∃ accepted last,
    acceptedAfter (fun _ => "") apartProvider none (sampleCalls.take 1) = some accepted ∧
    acceptedAfter (fun _ => "") apartProvider none (sampleCalls.take 2) = some last ∧
    last.userIdentityRef = accepted.userIdentityRef ∧
    accepted.authorityEpoch ≤ last.authorityEpoch := by
  obtain ⟨accepted, haccepted⟩ := sampleCalls_accepted
  obtain ⟨last, hlast, huser, hepoch, _⟩ := (@authority_never_forks (fun _ => "") apartProvider none
    nofun sampleCalls).1 1 2 (by decide) accepted haccepted
  exact ⟨accepted, last, haccepted, hlast, huser, hepoch⟩

end Sample

end Identity

end LicoArc
