/-!
# Errors

The bounded error of the crate: a code, the stage that raised it and whether
the caller may retry.
-/

namespace LicoArc

inductive ErrorCode
  | invalidAuthorityInput
  | digestMismatch
  | sourceClosureMismatch
  | unsupportedDefinition
  | lineNotEligible
  | contentIdentityMismatch
  | unknownProfile
  | authenticationFailed
  | authorizationFailed
  | providerFailure
  | handshakeRejected
  | prekeyConsumed
  | recordAuthentication
  | replay
  | staleRatchet
  | skipBound
  | counterOverflow
  | stateRollback
  | deleted
  | invalidRepresentation
  | nonCanonicalRepresentation
  | unknownField
  | boundExceeded
  | invalidTransition
  | conflict
  | securityClaimUnproved
  | conformanceMismatch
  | unsupportedConformanceCase
  deriving DecidableEq, Repr

inductive Stage
  | admission
  | representation
  | validation
  | commit
  | provider
  | securityAccounting
  deriving DecidableEq, Repr

structure Error where
  code : ErrorCode
  stage : Stage
  retryable : Bool
  deriving DecidableEq, Repr

namespace Error

def terminal (code : ErrorCode) (stage : Stage) : Error := ⟨code, stage, false⟩

/-- The source's `Error::retryable` constructor. -/
def retry (code : ErrorCode) (stage : Stage) : Error := ⟨code, stage, true⟩

def validation (code : ErrorCode) : Error := terminal code .validation

end Error

end LicoArc
