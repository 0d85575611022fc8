import LicoArc.Encoding
import LicoArc.Provider

/-!
# Groups

A group state, its digest, the transition by one operation and the projections
of a message to the members.
-/

namespace LicoArc

namespace Group

def maxGroupMembers : Nat := 64
def maxGroupProjections : Nat := 64
def maxGroupPayloadBytes : Nat := 262144
def maxEpoch : Nat := 9007199254740991

def dGroupTransition : Bytes := domain "LICOARC-GROUP-TRANSITION"
def dGroupState : Bytes := domain "LICOARC-GROUP-STATE"
def dGroupProjection : Bytes := domain "LICOARC-GROUP-PROJECTION"

inductive MemberRole
  | member
  | stateAuthority
  deriving DecidableEq, Repr

def roleValue : MemberRole → Nat
  | .member => 0
  | .stateAuthority => 1

structure Member where
  endpoint : FixedBytes 32
  role : MemberRole
  deriving DecidableEq

end Group

open LicoArc.Group

inductive GroupOperation
  | add (member : Member)
  | remove (endpoint : FixedBytes 32)
  | changeRole (endpoint : FixedBytes 32) (role : MemberRole)
  deriving DecidableEq

structure GroupState where
  groupId : FixedBytes 32
  epoch : Nat
  previousDigest : Option (FixedBytes 32)
  members : List Member
  transitionDigest : FixedBytes 32
  deriving DecidableEq

structure Projection where
  id : FixedBytes 16
  messageId : FixedBytes 16
  groupStateDigest : FixedBytes 32
  recipient : FixedBytes 32
  payload : Bytes
  deriving DecidableEq

namespace Group

def transitionDigest (provider : Provider) (canonicalTransition : CborValue) :
    Except Error (FixedBytes 32) := do
  let encoded ← Encoding.encode canonicalTransition
  return provider.sha256 (dGroupTransition ++ encoded)

def digestPrefix (digest : FixedBytes 32) : FixedBytes 16 := digest.take 16

end Group

namespace GroupState

def validate (self : GroupState) : Except Error Unit := do
  reject (self.members = [] ∨ self.members.length > maxGroupMembers ∨ self.epoch > maxEpoch)
    (.validation .boundExceeded)
  reject (decide (self.epoch = 0) ≠ self.previousDigest.isNone) (.validation .invalidTransition)
  reject (¬(self.members.map fun member => member.endpoint.toList).IsChain (· < ·) ∨
    ¬∃ member ∈ self.members, member.role = .stateAuthority) (.validation .invalidTransition)

def memberValue (member : Member) : CborValue :=
  .map [(0, .bytes member.endpoint.toList), (1, .unsigned (roleValue member.role))]

def digest (self : GroupState) (provider : Provider) : Except Error (FixedBytes 32) := do
  self.validate
  let previous := match self.previousDigest with
    | some previous => [(2, CborValue.bytes previous.toList)]
    | none => []
  let encoded ← Encoding.encode <| .map <|
    [(0, .bytes self.groupId.toList), (1, .unsigned self.epoch)] ++ previous ++
    [(3, .array (self.members.map memberValue)), (4, .bytes self.transitionDigest.toList)]
  return provider.sha256 (dGroupState ++ encoded)

/-- The members after an operation and the record of the operation. -/
def applyOperation (members : List Member) :
    GroupOperation → Except Error (List Member × CborValue)
  | .add member => do
    reject (members.length = maxGroupMembers ∨
      ∃ item ∈ members, item.endpoint = member.endpoint) (.validation .invalidTransition)
    return (members ++ [member], .map [(0, .unsigned 1), (1, .bytes member.endpoint.toList),
      (2, .unsigned (roleValue member.role))])
  | .remove endpoint => do
    let kept := members.filter (·.endpoint ≠ endpoint)
    reject (kept.length = members.length) (.validation .invalidTransition)
    return (kept, .map [(0, .unsigned 2), (1, .bytes endpoint.toList)])
  | .changeRole endpoint role => do
    let member ← okOr (.validation .invalidTransition)
      (members.find? (·.endpoint = endpoint))
    reject (member.role = role) (.validation .conflict)
    let index := members.findIdx (·.endpoint = endpoint)
    return (members.set index { member with role },
      .map [(0, .unsigned 3), (1, .bytes endpoint.toList), (2, .unsigned (roleValue role))])

def applyTransition (self : GroupState) (provider : Provider) (author : FixedBytes 32)
    (operation : GroupOperation) : Except Error GroupState := do
  self.validate
  reject (¬∃ item ∈ self.members, item.endpoint = author ∧ item.role = .stateAuthority)
    (.validation .invalidTransition)
  let (members, operationRecord) ← applyOperation self.members operation
  let members := members.mergeSort fun a b => a.endpoint.toList ≤ b.endpoint.toList
  reject (self.epoch + 1 > maxEpoch) (.validation .boundExceeded)
  let previousDigest ← self.digest provider
  let transitionDigest ← Group.transitionDigest provider <| .map
    [(0, .bytes self.groupId.toList), (1, .bytes previousDigest.toList),
      (2, .unsigned (self.epoch + 1)), (3, .bytes author.toList), (4, operationRecord)]
  let next : GroupState :=
    { groupId := self.groupId, epoch := self.epoch + 1, previousDigest := some previousDigest,
      members, transitionDigest }
  next.validate
  return next

def projections (self : GroupState) (provider : Provider) (messageId : FixedBytes 16)
    (sender : FixedBytes 32) (payload : Bytes) : Except Error (List Projection) := do
  self.validate
  reject (payload.length > maxGroupPayloadBytes) (.validation .boundExceeded)
  reject (¬∃ item ∈ self.members, item.endpoint = sender) (.validation .invalidTransition)
  let recipients := self.members.filter (·.endpoint ≠ sender)
  reject (recipients.length > maxGroupProjections) (.validation .boundExceeded)
  let stateDigest ← self.digest provider
  return recipients.map fun member =>
    { id := digestPrefix (provider.sha256
        (dGroupProjection ++ stateDigest.toList ++ messageId.toList ++ member.endpoint.toList))
      messageId, groupStateDigest := stateDigest, recipient := member.endpoint, payload }

end GroupState

end LicoArc
