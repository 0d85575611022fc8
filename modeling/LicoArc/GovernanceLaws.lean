import LicoArc.Governance

/-!
# Governance adoption over many candidates

Candidates and clock values are folded from a genesis state; a replay and a
rejection keep the state. The adopted states form a chain.
-/

namespace LicoArc

namespace Governance

def genesis (networkRef : FixedBytes 32) : GovernanceState := ⟨networkRef, 0, none, ∅⟩

def version (state : GovernanceState) (role : Role) : Nat := state.roleVersions[role]?.getD 0

/-- The guards of an evaluation that look at the current state alone. -/
structure Admissible (current : GovernanceState) : Prop where
  bounded : current.bundleEpoch ≤ maxSafeInteger
  atMost : current.roleVersions.size ≤ roleCount
  empty : current.bundleEpoch = 0 ↔ current.roleVersions.isEmpty
  full : current.bundleEpoch > 0 → current.roleVersions.size = roleCount
  versions : validVersions current.roleVersions
  digest : current.bundleEpoch = 0 ↔ current.bundleDigest = none

/-- The guards of an evaluation that look at the candidate. -/
structure Placed (current : GovernanceState) (candidate : GovernanceCandidate) (now : Nat) :
    Prop where
  bounded : candidate.bundleEpoch ≤ maxSafeInteger
  expiry : candidate.expiresAt ≤ maxSafeInteger
  clock : now ≤ maxSafeInteger
  seven : candidate.roleVersions.size = roleCount
  versions : validVersions candidate.roleVersions
  authorizations : candidate.authorizations.length ≤ roleCount * maxSignaturesPerRole
  observations : candidate.observations.length ≤ maxObservations
  distinct : candidate.authorizations.Nodup
  observed : ∀ observation ∈ candidate.observations, observation.observedVersion ≤ maxSafeInteger
  nonzero : candidate.bundleEpoch ≠ 0
  recovery : candidate.recoveryEvent = .none ↔ candidate.recoveryPredecessor = none
  predecessor : candidate.recoveryEvent ≠ .none →
    candidate.recoveryPredecessor = current.bundleDigest
  network : candidate.networkRef = current.networkRef
  roots : candidate.activeRootsOnly
  canonical : candidate.canonicalDigestValid
  distribution : candidate.distributionConsistent
  scope : candidate.signatureScopeValid
  endpoint : candidate.endpointAdmissionLocal
  abuse : candidate.abuseAdvisoryOnly
  oneView : ¬candidate.splitView
  live : now < candidate.expiresAt

theorem guarded_iff {current : GovernanceState} {candidate : GovernanceCandidate} {now : Nat} :
    withinBounds current candidate now ∧ wellPlaced current candidate now ↔
      Admissible current ∧ Placed current candidate now := by
  constructor
  · rintro ⟨⟨hcurrent, hepoch, hexpiry, hnow, hatMost, hempty, hfull, hheld, hseven, hvalid, hauth,
      hobs, hdistinct, hobserved⟩, hnonzero, hdigest, hrecovery, hpredecessor, hnetwork, hroots,
      hcanonical, hdistribution, hscope, hendpoint, habuse, hview, hlive⟩
    exact ⟨⟨hcurrent, hatMost, hempty, hfull, hheld, hdigest⟩, ⟨hepoch, hexpiry, hnow, hseven,
      hvalid, hauth, hobs, hdistinct, hobserved, hnonzero, hrecovery, hpredecessor, hnetwork,
      hroots, hcanonical, hdistribution, hscope, hendpoint, habuse, hview, hlive⟩⟩
  · rintro ⟨ha, hp⟩
    exact ⟨⟨ha.bounded, hp.bounded, hp.expiry, hp.clock, ha.atMost, ha.empty, ha.full, ha.versions,
      hp.seven, hp.versions, hp.authorizations, hp.observations, hp.distinct, hp.observed⟩,
      hp.nonzero, ha.digest, hp.recovery, hp.predecessor, hp.network, hp.roots, hp.canonical,
      hp.distribution, hp.scope, hp.endpoint, hp.abuse, hp.oneView, hp.live⟩

structure Complete (state : GovernanceState) : Prop where
  positive : 0 < state.bundleEpoch
  bounded : state.bundleEpoch ≤ maxSafeInteger
  digest : state.bundleDigest ≠ none
  seven : state.roleVersions.size = roleCount
  versions : validVersions state.roleVersions

theorem Complete.admissible {state : GovernanceState} (h : Complete state) : Admissible state where
  bounded := h.bounded
  atMost := h.seven.le
  empty := by
    refine iff_of_false h.positive.ne' fun hempty => ?_
    rw [Std.ExtTreeMap.isEmpty_eq_size_beq_zero, h.seven] at hempty
    cases hempty
  full _ := h.seven
  versions := h.versions
  digest := iff_of_false h.positive.ne' h.digest

theorem genesis_admissible (networkRef : FixedBytes 32) : Admissible (genesis networkRef) where
  bounded := Nat.zero_le _
  atMost := by simp [genesis]
  empty := by simp [genesis]
  full h := absurd h (by simp [genesis])
  versions := by simp [genesis, validVersions]
  digest := by simp [genesis]

theorem mem_roles (role : Role) : role ∈ [Role.membership, .compatibility, .revocation,
    .distribution, .consistency, .recovery, .abuse] := by
  cases role <;> decide

theorem forM_eq_ok {α : Type} {f : α → Except Error Unit} {xs : List α} {u : Unit} :
    xs.forM f = .ok u ↔ ∀ x ∈ xs, f x = .ok () := by
  induction xs with
  | nil => simp
  | cons x xs ih =>
    change (f x >>= fun _ => xs.forM f) = .ok u ↔ _
    rw [Except.bind_eq_ok, List.forall_mem_cons]
    exact ⟨fun ⟨_, hx, hxs⟩ => ⟨hx, ih.mp hxs⟩, fun ⟨hx, hxs⟩ => ⟨(), hx, ih.mpr hxs⟩⟩

section

variable {current next : GovernanceState} {candidate : GovernanceCandidate} {now : Nat}
  {adoption : Adoption}

theorem evaluateCandidate_eq_ok (h : evaluateCandidate current candidate now = .ok adoption) :
    Admissible current ∧ Placed current candidate now ∧
    (∀ role, version current role ≤ (candidate.roleVersions[role]?).getD 0) ∧
    ((candidate.bundleEpoch = current.bundleEpoch ∧
        current.bundleDigest = some candidate.bundleDigest ∧
        current.roleVersions = candidate.roleVersions ∧ adoption = .replay) ∨
      (candidate.bundleEpoch = current.bundleEpoch + 1 ∧
        adoption = .commit ⟨candidate.networkRef, candidate.bundleEpoch,
          some candidate.bundleDigest, candidate.roleVersions⟩)) := by
  simp only [evaluateCandidate, Except.bind_eq_ok, reject_eq_ok, not_not, exists_const] at h
  obtain ⟨hbounds, hplaced, _, hroles, _, _, h⟩ := h
  obtain ⟨hadmissible, hplaced⟩ := guarded_iff.mp ⟨hbounds, hplaced⟩
  refine ⟨hadmissible, hplaced, fun role => ?_, ?_⟩
  · have hrole := forM_eq_ok.mp hroles role (mem_roles role)
    simp only [evaluateRole, Except.bind_eq_ok, reject_eq_ok] at hrole
    obtain ⟨_, _, hversion⟩ := hrole
    cases hentry : candidate.roleVersions[role]? with
    | none => simp [hentry] at hversion
    | some entry => simpa [hentry, version] using hversion
  · split at h
    · rename_i hepoch
      simp only [Except.bind_eq_ok, reject_eq_ok, not_or, not_not, exists_const, Except.pure_eq,
        Except.ok.injEq] at h
      obtain ⟨⟨hdigest, hversions⟩, rfl⟩ := h
      exact .inl ⟨hepoch, hdigest, hversions, rfl⟩
    · simp only [Except.bind_eq_ok, reject_eq_ok, not_not, exists_const, Except.pure_eq,
        Except.ok.injEq] at h
      obtain ⟨hepoch, rfl⟩ := h
      exact .inr ⟨hepoch.symm, rfl⟩

theorem live_of_ok (h : evaluateCandidate current candidate now = .ok adoption) :
    now < candidate.expiresAt ∧ candidate.splitView = false := by
  obtain ⟨_, hplaced, _⟩ := evaluateCandidate_eq_ok h
  exact ⟨hplaced.live, Bool.not_eq_true _ ▸ hplaced.oneView⟩

/-- A commit takes the next epoch of the network and lowers no version. -/
theorem commit_step (h : evaluateCandidate current candidate now = .ok (.commit next)) :
    next.networkRef = current.networkRef ∧ next.bundleEpoch = current.bundleEpoch + 1 ∧
    Complete next ∧ ∀ role, version current role ≤ version next role := by
  obtain ⟨_, hplaced, hversions, ⟨_, _, _, hreplay⟩ | ⟨hnext, hcommit⟩⟩ := evaluateCandidate_eq_ok h
  · cases hreplay
  · cases hcommit
    exact ⟨hplaced.network, hnext, ⟨Nat.pos_of_ne_zero hplaced.nonzero, hplaced.bounded, nofun,
      hplaced.seven, hplaced.versions⟩, hversions⟩

/-- An adoption never contradicts the current state, and never goes back before it. -/
theorem current_of_ok (h : evaluateCandidate current candidate now = .ok adoption) :
    current.bundleEpoch ≤ candidate.bundleEpoch ∧
    (candidate.bundleEpoch = current.bundleEpoch →
      current.bundleDigest = some candidate.bundleDigest ∧
      current.roleVersions = candidate.roleVersions) := by
  obtain ⟨_, _, _, hkind⟩ := evaluateCandidate_eq_ok h
  rcases hkind with ⟨hepoch, hdigest, hversions, _⟩ | ⟨hepoch, _⟩
  · exact ⟨hepoch.ge, fun _ => ⟨hdigest, hversions⟩⟩
  · exact ⟨by omega, fun heq => absurd heq (by omega)⟩

end

/-! ## The chain -/

/-- The current state with the states adopted so far, oldest first. -/
structure Ledger where
  current : GovernanceState
  adopted : List GovernanceState

namespace Ledger

def step (ledger : Ledger) (input : GovernanceCandidate × Nat) : Ledger :=
  match evaluateCandidate ledger.current input.1 input.2 with
  | .ok (.commit next) => ⟨next, ledger.adopted ++ [next]⟩
  | .ok .replay | .error _ => ledger

def run (networkRef : FixedBytes 32) (inputs : List (GovernanceCandidate × Nat)) : Ledger :=
  inputs.foldl step ⟨genesis networkRef, []⟩

structure Sound (networkRef : FixedBytes 32) (ledger : Ledger) : Prop where
  current : ledger.current = ledger.adopted.getLastD (genesis networkRef)
  network (state : GovernanceState) : state ∈ ledger.adopted → state.networkRef = networkRef
  complete (state : GovernanceState) : state ∈ ledger.adopted → Complete state
  epochs : ledger.adopted.map GovernanceState.bundleEpoch = List.range' 1 ledger.adopted.length
  versions : ledger.adopted.Pairwise fun older newer => ∀ role,
    version older role ≤ version newer role

variable {networkRef : FixedBytes 32} {ledger : Ledger}

theorem Sound.currentEpoch (h : ledger.Sound networkRef) :
    ledger.current.bundleEpoch = ledger.adopted.length := by
  rw [h.current]
  rcases List.eq_nil_or_concat' ledger.adopted with hnil | ⟨older, last, hlast⟩
  · rw [hnil]
    rfl
  · have hepochs := congrArg List.getLast? h.epochs
    rw [hlast] at hepochs ⊢
    simpa [List.range'_concat, Nat.add_comm] using hepochs

theorem Sound.currentNetwork (h : ledger.Sound networkRef) :
    ledger.current.networkRef = networkRef := by
  rw [h.current]
  rcases List.eq_nil_or_concat' ledger.adopted with hnil | ⟨older, last, hlast⟩
  · rw [hnil]
    rfl
  · rw [hlast, List.getLastD_concat]
    exact h.network last (by simp [hlast])

theorem Sound.admissible (h : ledger.Sound networkRef) : Admissible ledger.current := by
  rw [h.current]
  rcases List.eq_nil_or_concat' ledger.adopted with hnil | ⟨older, last, hlast⟩
  · rw [hnil]
    exact genesis_admissible networkRef
  · rw [hlast, List.getLastD_concat]
    exact (h.complete last (by simp [hlast])).admissible

theorem Sound.version_le_current (h : ledger.Sound networkRef) {state : GovernanceState}
    (hmem : state ∈ ledger.adopted) (role : Role) :
    version state role ≤ version ledger.current role := by
  rw [h.current]
  obtain ⟨older, last, hlast⟩ := (List.eq_nil_or_concat' ledger.adopted).resolve_left
    (List.ne_nil_of_mem hmem)
  have hversions := h.versions
  rw [hlast] at hmem hversions ⊢
  rw [List.getLastD_concat]
  rcases List.mem_append.mp hmem with hmem | hmem
  · exact (List.pairwise_append.mp hversions).2.2 state hmem last (List.mem_singleton_self _) role
  · rw [List.mem_singleton.mp hmem]

theorem Sound.step (h : ledger.Sound networkRef) (input : GovernanceCandidate × Nat) :
    (ledger.step input).Sound networkRef := by
  rw [Ledger.step]
  split
  · rename_i next hnext
    obtain ⟨hnetwork, hepoch, hcomplete, hversions⟩ := commit_step hnext
    rw [h.currentNetwork] at hnetwork
    rw [h.currentEpoch] at hepoch
    refine ⟨by rw [List.getLastD_concat], fun state hmem => ?_, fun state hmem => ?_, ?_, ?_⟩
    · rcases List.mem_append.mp hmem with hmem | hmem
      · exact h.network state hmem
      · rw [List.mem_singleton.mp hmem, hnetwork]
    · rcases List.mem_append.mp hmem with hmem | hmem
      · exact h.complete state hmem
      · rwa [List.mem_singleton.mp hmem]
    · rw [List.map_append, h.epochs, List.length_append, List.length_singleton, List.range'_concat]
      simp [hepoch, Nat.add_comm]
    · refine List.pairwise_append.mpr ⟨h.versions, List.pairwise_singleton _ _, ?_⟩
      intro state hmem other hother role
      rw [List.mem_singleton.mp hother]
      exact le_trans (h.version_le_current hmem role) (hversions role)
  · exact h
  · exact h

theorem run_sound (networkRef : FixedBytes 32) (inputs : List (GovernanceCandidate × Nat)) :
    (run networkRef inputs).Sound networkRef := by
  induction inputs using List.reverseRecOn with
  | nil => exact ⟨rfl, nofun, nofun, rfl, List.Pairwise.nil⟩
  | append_singleton inputs input ih =>
    rw [run, List.foldl_append]
    exact ih.step input

theorem Sound.state_of_epoch (h : ledger.Sound networkRef) {state : GovernanceState}
    (hmem : state ∈ ledger.adopted) :
    0 < state.bundleEpoch ∧ state.bundleEpoch ≤ ledger.current.bundleEpoch ∧
    (state.bundleEpoch = ledger.current.bundleEpoch → state = ledger.current) := by
  have hrange := List.mem_map_of_mem (f := GovernanceState.bundleEpoch) hmem
  rw [h.epochs, List.mem_range'_1] at hrange
  refine ⟨hrange.1, ?_, fun heq => ?_⟩
  · rw [h.currentEpoch]
    omega
  · have hnodup : (ledger.adopted.map GovernanceState.bundleEpoch).Nodup := by
      rw [h.epochs]
      exact List.nodup_range'
    obtain ⟨older, last, hlast⟩ := (List.eq_nil_or_concat' ledger.adopted).resolve_left
      (List.ne_nil_of_mem hmem)
    have hcurrent : ledger.current = last := by rw [h.current, hlast, List.getLastD_concat]
    have hlastmem : last ∈ ledger.adopted := by simp [hlast]
    rw [hcurrent] at heq ⊢
    exact List.inj_on_of_nodup_map hnodup hmem hlastmem heq

end Ledger

/-- Governance adoption is a monotone chain, whatever candidates arrive at whatever times. -/
theorem adoption_chain (networkRef : FixedBytes 32) (inputs : List (GovernanceCandidate × Nat)) :
    let ledger := Ledger.run networkRef inputs
    ledger.current = ledger.adopted.getLastD (genesis networkRef) ∧
    ledger.current.networkRef = networkRef ∧
    ledger.adopted.map GovernanceState.bundleEpoch = List.range' 1 ledger.adopted.length ∧
    (ledger.adopted.Pairwise fun older newer => ∀ role, version older role ≤ version newer role) ∧
    (∀ state ∈ ledger.adopted, Complete state ∧ Admissible state ∧ state.networkRef = networkRef) ∧
    (∀ candidate now, Placed ledger.current candidate now →
      withinBounds ledger.current candidate now ∧ wellPlaced ledger.current candidate now) ∧
    (∀ state ∈ ledger.adopted, ∀ candidate now adoption,
      candidate.bundleEpoch = state.bundleEpoch →
      evaluateCandidate ledger.current candidate now = .ok adoption →
      state.bundleDigest = some candidate.bundleDigest ∧
        state.roleVersions = candidate.roleVersions) ∧
    ∀ candidate now adoption, evaluateCandidate ledger.current candidate now = .ok adoption →
      now < candidate.expiresAt ∧ candidate.splitView = false := by
  intro ledger
  have hsound : ledger.Sound networkRef := Ledger.run_sound networkRef inputs
  refine ⟨hsound.current, hsound.currentNetwork, hsound.epochs, hsound.versions,
    fun state hmem => ⟨hsound.complete state hmem, (hsound.complete state hmem).admissible,
      hsound.network state hmem⟩,
    fun _ _ hplaced => guarded_iff.mpr ⟨hsound.admissible, hplaced⟩, ?_, fun _ _ _ => live_of_ok⟩
  intro state hmem candidate now adoption hepoch hok
  obtain ⟨_, hle, hsame⟩ := hsound.state_of_epoch hmem
  obtain ⟨hback, hequal⟩ := current_of_ok hok
  have heq : state.bundleEpoch = ledger.current.bundleEpoch := by omega
  rw [hsame heq]
  exact hequal (hepoch.trans heq)

/-! ## Replay -/

def Observed (candidate : GovernanceCandidate) : Prop :=
  2 ≤ candidate.observations.length ∧
  (candidate.observations.map ConsistencyObservation.observerRef).Nodup ∧
  (candidate.observations.map ConsistencyObservation.statementDigest).Nodup ∧
  ∀ observation ∈ candidate.observations, observation.observedVersion = candidate.bundleEpoch ∧
    observation.observedDigest = candidate.bundleDigest

section

variable {current next : GovernanceState} {candidate : GovernanceCandidate} {now : Nat}

theorem observed_of_ok {adoption : Adoption}
    (h : evaluateCandidate current candidate now = .ok adoption) : Observed candidate := by
  simp only [evaluateCandidate, Except.bind_eq_ok, reject_eq_ok, exists_const, not_or, not_lt,
    not_not, not_exists, not_and] at h
  obtain ⟨_, _, _, _, ⟨hcount, hobservers, hstatements, hall⟩, _⟩ := h
  exact ⟨hcount, hobservers, hstatements, hall⟩

theorem roles_of_ok {adoption : Adoption}
    (h : evaluateCandidate current candidate now = .ok adoption) (role : Role) :
    validateRoleThreshold role candidate.authorizations = .ok () ∧
      candidate.roleVersions[role]?.isSome := by
  simp only [evaluateCandidate, Except.bind_eq_ok, reject_eq_ok, exists_const] at h
  obtain ⟨_, _, _, hroles, _⟩ := h
  have hrole := forM_eq_ok.mp hroles role (mem_roles role)
  simp only [evaluateRole, Except.bind_eq_ok, reject_eq_ok] at hrole
  obtain ⟨_, hthreshold, hversion⟩ := hrole
  refine ⟨hthreshold, ?_⟩
  cases hentry : candidate.roleVersions[role]? with
  | none => simp [hentry] at hversion
  | some entry => rfl

/-- A candidate replays where it is the current state itself. -/
theorem evaluateCandidate_eq_replay (hadmissible : Admissible current)
    (hplaced : Placed current candidate now)
    (hroles : ∀ role, validateRoleThreshold role candidate.authorizations = .ok () ∧
      candidate.roleVersions[role]?.isSome)
    (hobserved : Observed candidate) (hepoch : candidate.bundleEpoch = current.bundleEpoch)
    (hdigest : current.bundleDigest = some candidate.bundleDigest)
    (hversions : current.roleVersions = candidate.roleVersions) :
    evaluateCandidate current candidate now = .ok .replay := by
  have hloop : ∀ role, evaluateRole current candidate role = .ok () := by
    intro role
    obtain ⟨hthreshold, hentry⟩ := hroles role
    obtain ⟨entry, hentry⟩ := Option.isSome_iff_exists.mp hentry
    simp [evaluateRole, reject_eq_ok, hthreshold, hversions, hentry]
  obtain ⟨hbounds, hplaced⟩ := guarded_iff.mpr ⟨hadmissible, hplaced⟩
  obtain ⟨hcount, hobservers, hstatements, hall⟩ := hobserved
  simp only [evaluateCandidate, Except.bind_eq_ok, reject_eq_ok, exists_const, not_or, not_lt,
    not_not, not_exists, not_and, if_pos hepoch]
  exact ⟨hbounds, hplaced, (), forM_eq_ok.mpr fun role _ => hloop role,
    ⟨hcount, hobservers, hstatements, hall⟩, hepoch.ge, ⟨hdigest, hversions⟩, rfl⟩

theorem commit_state (h : evaluateCandidate current candidate now = .ok (.commit next)) :
    next = ⟨candidate.networkRef, candidate.bundleEpoch, some candidate.bundleDigest,
      candidate.roleVersions⟩ := by
  obtain ⟨_, _, _, ⟨_, _, _, hreplay⟩ | ⟨_, hcommit⟩⟩ := evaluateCandidate_eq_ok h
  · cases hreplay
  · cases hcommit
    rfl

/-- A committed candidate meets the guards against its own successor, but for the predecessor of a
recovery. -/
theorem commit_placed (h : evaluateCandidate current candidate now = .ok (.commit next))
    {later : Nat} (hlive : later < candidate.expiresAt)
    (hpredecessor : candidate.recoveryEvent ≠ .none →
      candidate.recoveryPredecessor = some candidate.bundleDigest) :
    Placed next candidate later := by
  obtain ⟨_, hplaced, _⟩ := evaluateCandidate_eq_ok h
  have hclock : later ≤ maxSafeInteger := hlive.le.trans hplaced.expiry
  rw [commit_state h]
  exact { hplaced with clock := hclock, predecessor := hpredecessor, network := rfl, live := hlive }

/-- A committed candidate replays until it expires exactly where it names no predecessor, or its
own digest as the predecessor. -/
theorem replay_iff (h : evaluateCandidate current candidate now = .ok (.commit next)) :
    (∀ later, now ≤ later → later < candidate.expiresAt →
      evaluateCandidate next candidate later = .ok .replay) ↔
      candidate.recoveryEvent = .none ∨
        candidate.recoveryPredecessor = some candidate.bundleDigest := by
  constructor
  · intro hreplay
    have hnow := hreplay now le_rfl (live_of_ok h).1
    obtain ⟨_, hplaced, _⟩ := evaluateCandidate_eq_ok hnow
    have hpredecessor := hplaced.predecessor
    rw [commit_state h] at hpredecessor
    exact Classical.or_iff_not_imp_left.mpr hpredecessor
  · intro hrecovery later _ hlive
    have hplaced := commit_placed h hlive (Classical.or_iff_not_imp_left.mp hrecovery)
    obtain ⟨_, _, hcomplete, _⟩ := commit_step h
    have hnext := commit_state h
    apply evaluateCandidate_eq_replay hcomplete.admissible hplaced (roles_of_ok h)
      (observed_of_ok h)
    · rw [hnext]
    · rw [hnext]
    · rw [hnext]

end

namespace Rotation

def versions : RoleVersions :=
  [Role.membership, .compatibility, .revocation, .distribution, .consistency, .recovery,
    .abuse].foldl (fun versions role => versions.insert role 1) ∅

def authorizations : List Authorization :=
  [Role.membership, .compatibility, .revocation, .distribution, .consistency, .recovery,
    .abuse].flatMap fun role =>
    [⟨.replicate 16 1, .replicate 16 1, role⟩, ⟨.replicate 16 1, .replicate 16 2, role⟩,
      ⟨.replicate 16 2, .replicate 16 3, role⟩, ⟨.replicate 16 2, .replicate 16 4, role⟩]

def candidate (epoch : Nat) (event : RecoveryEvent) (predecessor : Option (FixedBytes 32)) :
    GovernanceCandidate where
  networkRef := .replicate 32 1
  bundleEpoch := epoch
  bundleDigest := .replicate 32 epoch.toUInt8
  roleVersions := versions
  expiresAt := 5
  authorizations := authorizations
  activeRootsOnly := true
  canonicalDigestValid := true
  distributionConsistent := true
  signatureScopeValid := true
  recoveryEvent := event
  recoveryPredecessor := predecessor
  observations :=
    [⟨.replicate 32 4, epoch, .replicate 32 epoch.toUInt8, .replicate 32 5⟩,
      ⟨.replicate 32 6, epoch, .replicate 32 epoch.toUInt8, .replicate 32 7⟩]
  splitView := false
  endpointAdmissionLocal := true
  abuseAdvisoryOnly := true

def adopted (epoch : Nat) : GovernanceState :=
  ⟨.replicate 32 1, epoch, some (.replicate 32 epoch.toUInt8), versions⟩

theorem replay_iff_ordinary :
    (∀ later, 1 ≤ later → later < 5 →
      evaluateCandidate (adopted 1) (candidate 1 .none none) later = .ok .replay) ↔
      RecoveryEvent.none = .none ∨ none = some (List.Vector.replicate 32 (1 : UInt8)) :=
  @replay_iff (genesis (.replicate 32 1)) (adopted 1) (candidate 1 .none none) 1
    (by decide +kernel)

/-- A root rotation that follows bundle one is adopted, and refused when it arrives again. -/
theorem rotation_not_replayed :
    ¬∀ current candidate now next, evaluateCandidate current candidate now = .ok (.commit next) →
      ∀ later, now ≤ later → later < candidate.expiresAt →
        evaluateCandidate next candidate later = .ok .replay := by
  intro h
  have hreplay := h (adopted 1) (candidate 2 .rootRotation (some (.replicate 32 1))) 1 (adopted 2)
    (by decide +kernel) 1 le_rfl (by decide)
  exact absurd hreplay (by decide +kernel)

end Rotation

end Governance

end LicoArc
