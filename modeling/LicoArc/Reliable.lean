import LicoArc.Bytes
import LicoArc.Error
import LicoArc.Interaction.Outcome

/-!
# Reliable delivery

The retry step of one intent and the admission of an endpoint confirmation.
-/

namespace LicoArc

namespace Reliable

def maxRetryTransmissions : Nat := 32
def maxRouteMigrations : Nat := 16
def maxStateTransitions : Nat := 256
def maxConfirmationIds : Nat := 32

inductive ConfirmationStage
  | endpointAccepted
  | effectCompleted
  deriving DecidableEq, Repr

inductive ConfirmationOutcome
  | succeeded
  | rejected
  | failed
  deriving DecidableEq, Repr

inductive Outcome
  | pending
  | accepted
  | effectCompleted
  | failed
  deriving DecidableEq, Repr

end Reliable

structure EndpointConfirmation where
  confirmationId : FixedBytes 16
  confirmedMessageIds : List (FixedBytes 16)
  stage : Reliable.ConfirmationStage
  outcome : Reliable.ConfirmationOutcome
  failureCode : Option Nat
  resultDigest : Option (FixedBytes 32)
  deriving DecidableEq

structure AuthorizedSession where
  sessionId : FixedBytes 16
  senderEndpoint : FixedBytes 32
  expectedSenderEndpoint : FixedBytes 32
  authenticated : Bool
  senderAuthorized : Bool
  deriving DecidableEq

inductive FinalityState
  | pending
  | accepted
  | completed
  | rejected
  | failed
  deriving DecidableEq, Repr

def FinalityState.rank : FinalityState → Nat
  | pending => 0
  | accepted => 1
  | completed | rejected | failed => 2

structure ReliableState where
  intentDigest : FixedBytes 32
  routeDigest : FixedBytes 32
  protectedPacketDigest : FixedBytes 32
  retries : Nat
  migrations : Nat
  transitions : Nat
  outcome : Reliable.Outcome
  deriving DecidableEq

namespace Reliable

def validateConfirmationIds (ids : List (FixedBytes 16)) : Except Error Unit := do
  reject (ids = [] ∨ ids.length > maxConfirmationIds) (.validation .boundExceeded)
  reject (¬(ids.map List.Vector.toList).IsChain (· < ·)) (.validation .invalidRepresentation)

def finality : ConfirmationStage → ConfirmationOutcome → FinalityState
  | .endpointAccepted, .succeeded => .accepted
  | .effectCompleted, .succeeded => .completed
  | _, .rejected => .rejected
  | _, .failed => .failed

/-- The binary search of the source runs over identities that are known to ascend. -/
def applyEndpointConfirmation (current : FinalityState) (logicalMessageId : FixedBytes 16)
    (confirmation : EndpointConfirmation) (session : AuthorizedSession)
    (expectedResultDigest : Option (FixedBytes 32)) (attachmentComplete : Bool) :
    Except Error FinalityState := do
  validateConfirmationIds confirmation.confirmedMessageIds
  reject (¬session.authenticated) (.validation .authenticationFailed)
  reject (¬session.senderAuthorized ∨ session.senderEndpoint ≠ session.expectedSenderEndpoint)
    (.validation .authorizationFailed)
  reject (logicalMessageId ∉ confirmation.confirmedMessageIds) (.validation .invalidTransition)
  let failureExpected : Bool :=
    confirmation.outcome = .rejected ∨ confirmation.outcome = .failed
  reject (failureExpected ≠ confirmation.failureCode.isSome ∨
    confirmation.failureCode.any (· > 13) ∨
    (confirmation.outcome = .succeeded ∧ confirmation.failureCode.isSome))
    (.validation .invalidRepresentation)
  if confirmation.stage = .effectCompleted then
    reject (confirmation.outcome ≠ .succeeded) (.validation .invalidTransition)
    let expected ← okOr (.validation .invalidTransition) expectedResultDigest
    reject (confirmation.resultDigest ≠ some expected) (.validation .digestMismatch)
  else
    reject confirmation.resultDigest.isSome (.validation .invalidRepresentation)
  reject (¬attachmentComplete) (.validation .invalidTransition)
  let next := finality confirmation.stage confirmation.outcome
  if current = next then return current
  reject (next.rank ≤ current.rank ∨ current = .completed ∨ current = .rejected ∨
    current = .failed) (.validation .invalidTransition)
  return next

def validateCounters (retries migrations transitions : Nat) : Except Error Unit :=
  reject (retries > maxRetryTransmissions ∨ migrations > maxRouteMigrations ∨
    transitions > maxStateTransitions) (.validation .boundExceeded)

def increment (value maximum : Nat) : Except Error Nat := do
  reject (value + 1 > maximum) (.validation .boundExceeded)
  return value + 1

end Reliable

open Reliable

/-- The retry counter on the same route, the migration counter on another one. -/
def ReliableState.onRoute (self : ReliableState) (route : FixedBytes 32) :
    Except Error ReliableState :=
  if route = self.routeDigest then do
    let retries ← increment self.retries maxRetryTransmissions
    return { self with retries }
  else do
    let migrations ← increment self.migrations maxRouteMigrations
    return { self with migrations, routeDigest := route }

def ReliableState.retry (self : ReliableState) (route intent protectedPacket : FixedBytes 32) :
    Except Error ReliableState := do
  validateCounters self.retries self.migrations self.transitions
  reject (self.outcome = .effectCompleted ∨ self.outcome = .failed ∨
    intent ≠ self.intentDigest ∨
    (route = self.routeDigest ∧ protectedPacket ≠ self.protectedPacketDigest))
    (.validation .invalidTransition)
  let next ← self.onRoute route
  let transitions ← increment next.transitions maxStateTransitions
  return { next with protectedPacketDigest := protectedPacket, transitions }

end LicoArc
