import LicoArc.Bytes
import LicoArc.Error
import LicoArc.Interaction.Outcome

/-!
# Governance bundle adoption

The reducer that admits a governance candidate over the current bundle, once
the caller has turned its signatures into authorization facts.
-/

namespace LicoArc

namespace Governance

def maxSafeInteger : Nat := 9007199254740991
def roleCount : Nat := 7
def maxSignaturesPerRole : Nat := 64
def maxObservations : Nat := 16

inductive Role
  | membership
  | compatibility
  | revocation
  | distribution
  | consistency
  | recovery
  | abuse
  deriving DecidableEq, Repr

def Role.compare : Role → Role → Ordering := compareOn Role.ctorIdx

instance : Std.TransCmp Role.compare := inferInstanceAs (Std.TransCmp (compareOn Role.ctorIdx))

instance : Std.LawfulEqCmp Role.compare where
  eq_of_compare {a b} h := by
    cases a <;> cases b <;> first | rfl | cases h

abbrev RoleVersions := Std.ExtTreeMap Role Nat Role.compare

structure Authorization where
  root : FixedBytes 16
  key : FixedBytes 16
  role : Role
  deriving DecidableEq

structure ConsistencyObservation where
  observerRef : FixedBytes 32
  observedVersion : Nat
  observedDigest : FixedBytes 32
  statementDigest : FixedBytes 32
  deriving DecidableEq

inductive RecoveryEvent
  | none
  | rootRotation
  | compromiseRecovery
  deriving DecidableEq, Repr

end Governance

structure GovernanceState where
  networkRef : FixedBytes 32
  bundleEpoch : Nat
  bundleDigest : Option (FixedBytes 32)
  roleVersions : Governance.RoleVersions
  deriving DecidableEq

structure GovernanceCandidate where
  networkRef : FixedBytes 32
  bundleEpoch : Nat
  bundleDigest : FixedBytes 32
  roleVersions : Governance.RoleVersions
  expiresAt : Nat
  authorizations : List Governance.Authorization
  activeRootsOnly : Bool
  canonicalDigestValid : Bool
  distributionConsistent : Bool
  signatureScopeValid : Bool
  recoveryEvent : Governance.RecoveryEvent
  recoveryPredecessor : Option (FixedBytes 32)
  observations : List Governance.ConsistencyObservation
  splitView : Bool
  endpointAdmissionLocal : Bool
  abuseAdvisoryOnly : Bool
  deriving DecidableEq

namespace Governance

inductive Adoption
  | commit (state : GovernanceState)
  | replay
  deriving DecidableEq

def Adoption.state (current : GovernanceState) : Adoption → GovernanceState
  | commit state => state
  | replay => current

def validateRoleThreshold (role : Role) (authorizations : List Authorization) :
    Except Error Unit := do
  reject (authorizations.length > roleCount * maxSignaturesPerRole ∨
    (authorizations.filter (·.role = role)).length > maxSignaturesPerRole)
    (.validation .boundExceeded)
  let matching := (authorizations.filter (·.role = role)).dedup
  let roots := (matching.map Authorization.root).dedup
  let signers := fun root => (matching.filter (·.root = root)).length
  reject (matching.length < 4 ∨ roots.length < 2 ∨
    (roots.filter fun root => signers root ≥ 2).length < 2) (.validation .invalidTransition)

def validVersions (versions : RoleVersions) : Bool :=
  versions.toList.all fun entry => entry.2 ≠ 0 ∧ entry.2 ≤ maxSafeInteger

def withinBounds (current : GovernanceState) (candidate : GovernanceCandidate) (now : Nat) : Prop :=
  current.bundleEpoch ≤ maxSafeInteger ∧ candidate.bundleEpoch ≤ maxSafeInteger ∧
  candidate.expiresAt ≤ maxSafeInteger ∧ now ≤ maxSafeInteger ∧
  current.roleVersions.size ≤ roleCount ∧
  (current.bundleEpoch = 0 ↔ current.roleVersions.isEmpty) ∧
  (current.bundleEpoch > 0 → current.roleVersions.size = roleCount) ∧
  validVersions current.roleVersions ∧ candidate.roleVersions.size = roleCount ∧
  validVersions candidate.roleVersions ∧
  candidate.authorizations.length ≤ roleCount * maxSignaturesPerRole ∧
  candidate.observations.length ≤ maxObservations ∧ candidate.authorizations.Nodup ∧
  ∀ observation ∈ candidate.observations, observation.observedVersion ≤ maxSafeInteger

instance (current : GovernanceState) (candidate : GovernanceCandidate) (now : Nat) :
    Decidable (withinBounds current candidate now) := by
  unfold withinBounds
  infer_instance

def wellPlaced (current : GovernanceState) (candidate : GovernanceCandidate) (now : Nat) : Prop :=
  candidate.bundleEpoch ≠ 0 ∧ (current.bundleEpoch = 0 ↔ current.bundleDigest = none) ∧
  (candidate.recoveryEvent = .none ↔ candidate.recoveryPredecessor = none) ∧
  (candidate.recoveryEvent ≠ .none → candidate.recoveryPredecessor = current.bundleDigest) ∧
  candidate.networkRef = current.networkRef ∧ candidate.activeRootsOnly ∧
  candidate.canonicalDigestValid ∧ candidate.distributionConsistent ∧
  candidate.signatureScopeValid ∧ candidate.endpointAdmissionLocal ∧
  candidate.abuseAdvisoryOnly ∧ ¬candidate.splitView ∧ candidate.expiresAt > now

instance (current : GovernanceState) (candidate : GovernanceCandidate) (now : Nat) :
    Decidable (wellPlaced current candidate now) := by
  unfold wellPlaced
  infer_instance

/-- The body of the loop over the seven roles. -/
def evaluateRole (current : GovernanceState) (candidate : GovernanceCandidate) (role : Role) :
    Except Error Unit := do
  validateRoleThreshold role candidate.authorizations
  let currentVersion := current.roleVersions[role]?.getD 0
  reject (candidate.roleVersions[role]?.all (· < currentVersion)) (.validation .invalidTransition)

def evaluateCandidate (current : GovernanceState) (candidate : GovernanceCandidate) (now : Nat) :
    Except Error Adoption := do
  reject (¬withinBounds current candidate now) (.validation .boundExceeded)
  reject (¬wellPlaced current candidate now) (.validation .invalidTransition)
  [Role.membership, .compatibility, .revocation, .distribution, .consistency, .recovery,
    .abuse].forM (evaluateRole current candidate)
  reject (candidate.observations.length < 2 ∨
    ¬(candidate.observations.map ConsistencyObservation.observerRef).Nodup ∨
    ¬(candidate.observations.map ConsistencyObservation.statementDigest).Nodup ∨
    ∃ observation ∈ candidate.observations,
      observation.observedVersion ≠ candidate.bundleEpoch ∨
      observation.observedDigest ≠ candidate.bundleDigest) (.validation .invalidTransition)
  reject (candidate.bundleEpoch < current.bundleEpoch) (.validation .invalidTransition)
  if candidate.bundleEpoch = current.bundleEpoch then
    reject (current.bundleDigest ≠ some candidate.bundleDigest ∨
      current.roleVersions ≠ candidate.roleVersions) (.validation .conflict)
    return .replay
  reject (current.bundleEpoch + 1 ≠ candidate.bundleEpoch) (.validation .invalidTransition)
  return .commit { networkRef := candidate.networkRef, bundleEpoch := candidate.bundleEpoch,
                   bundleDigest := some candidate.bundleDigest,
                   roleVersions := candidate.roleVersions }

end Governance

end LicoArc
