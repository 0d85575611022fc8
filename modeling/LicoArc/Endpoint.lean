import LicoArc.Governance
import LicoArc.Group
import LicoArc.Handshake
import LicoArc.Identity
import LicoArc.Messaging
import LicoArc.Reliable
import LicoArc.Transport

/-!
# The Endpoint facade

The phases of an endpoint, the commit that infers its outcome from a second
load, and the operations of both roles. An operation decides on the snapshot
that it loads; `perform` carries the decision out and gives up the caller's
staged handles where the source does.
-/

namespace LicoArc

/-! ## Durable state -/

structure CapabilityRuntime where
  governance : GovernanceState
  identity : Option ChainTip
  reliable : ReliableState
  group : GroupState
  lastMessageId : Option (FixedBytes 16)
  lastTransportOutcome : Option TransportOutcome
  deriving DecidableEq

def CapabilityRuntime.new (governance : GovernanceState) (identity : Option ChainTip)
    (reliable : ReliableState) (group : GroupState) : Except Error CapabilityRuntime := do
  group.validate
  Reliable.validateCounters reliable.retries reliable.migrations reliable.transitions
  return { governance, identity, reliable, group, lastMessageId := none,
           lastTransportOutcome := none }

structure CompleteCapabilityFlow where
  governance : GovernanceCandidate
  identity : ChainTip
  identityPredecessor : Option (FixedBytes 32)
  message : Message
  reliableRouteDigest : FixedBytes 32
  groupAuthor : FixedBytes 32
  groupOperation : GroupOperation
  groupMessageId : FixedBytes 16
  groupPayload : Bytes
  confirmation : EndpointConfirmation
  confirmationSession : AuthorizedSession
  currentFinality : FinalityState
  expectedResultDigest : Option (FixedBytes 32)
  attachmentComplete : Bool
  transportRequest : TransportRequest
  transportStatus : Nat

structure CapabilityReceipt where
  protectedPacket : Bytes
  projections : List Projection
  transportOutcome : TransportOutcome
  deriving DecidableEq

structure ActivePrekey where
  bundle : PrekeyBundle
  x25519Private : SecretHandle .x25519Private
  mlKemPrivate : SecretHandle .mlKem768Private
  deriving DecidableEq

/-- The hash map of the source, in the order of the pair sequences. -/
abbrev ActivePrekeys := Std.ExtTreeMap Nat ActivePrekey

inductive Phase
  | initiatorNew
  | initiatorAwaiting (firstPacket : FirstPacket) (transcriptDigest sessionContext : FixedBytes 32)
      (hybrid : HybridSecrets) (ratchet : RatchetState)
  | responderReady (highWater : Nat) (active : ActivePrekeys)
  | established (session : RatchetState) (replayDigest : Option (FixedBytes 32))
      (retryAccept : Option SessionAccept) (prekeyHighWater : Option Nat)
      (capabilities : Option CapabilityRuntime)
  | deleted (prekeyHighWater : Option Nat)
  deriving DecidableEq

structure EndpointState where
  phase : Phase
  deriving DecidableEq

namespace EndpointState

def initiator : EndpointState := ⟨.initiatorNew⟩

def responder : EndpointState := ⟨.responderReady 0 ∅⟩

end EndpointState

abbrev Snapshot := Versioned EndpointState

def transitionError : Error := .terminal .invalidTransition .validation

def providerError : Error := .terminal .providerFailure .provider

def ensureLive (state : EndpointState) : Except Error Unit :=
  match state.phase with
  | .deleted _ => .error (.terminal .deleted .validation)
  | _ => .ok ()

def dPendingId : Bytes := domain "LICOARC-V1/PENDING-ID"

def label (text : String) : Bytes := text.toUTF8.data.toList

def pendingId (provider : Provider) (kind bytes : Bytes) : PendingId :=
  ⟨fromBigEndian ((provider.sha256 (dPendingId ++ kind ++ bytes)).toList.take 16)⟩

def outcomeValue : TransportOutcome → Nat
  | .accepted => 0
  | .rejected => 1
  | .transient => 2
  | .ambiguous => 3

def capabilityEffect (projections : List Projection) (payload : Bytes)
    (outcome : TransportOutcome) : Except Error Bytes :=
  Encoding.encode <| .map
    [(0, .array (projections.map fun projection => .array
        [.bytes projection.id.toList, .bytes projection.messageId.toList,
          .bytes projection.groupStateDigest.toList, .bytes projection.recipient.toList])),
      (1, .bytes payload), (2, .unsigned (outcomeValue outcome))]

/-! ## Commits -/

def maxEndpointKeyMutations : Nat := maxActivePrekeyPairs * 2

/-- The verdict on a swap that reported an error, from the snapshot of the second load. -/
def reconcile (current : Snapshot) (next : EndpointState) (pending : List PendingItem)
    (successor : Revision) (error : Error) (observed : Snapshot) : Except Error Unit :=
  if observed.revision = successor ∧ observed.state = next ∧ observed.pending = pending then .ok ()
  else if observed.revision = current.revision ∧ observed.state = current.state ∧
      observed.pending = current.pending then .error (.terminal error.code .commit)
  else if observed.revision = successor then .error (.retry .conflict .commit)
  else .error (.retry .providerFailure .commit)

section Operations

variable {m : Type → Type} [Monad m]

def commitReplacingPending (store : AtomicState m EndpointState) (current : Snapshot)
    (next : EndpointState) (mutations : List KeyMutation) (pending : List PendingItem) :
    ExceptT Error m Unit := do
  let successor ← lift current.revision.successor
  let commit ← lift (Commit.bounded next mutations pending maxEndpointKeyMutations 16)
  match ← ExceptT.lift (store.compareAndSwap current.revision commit) with
  | .ok revision => lift (reject (revision ≠ successor) (.retry .providerFailure .commit))
  | .error error =>
    match ← ExceptT.lift store.load with
    | .ok observed => lift (reconcile current next pending successor error observed)
    | .error _ => throw (.retry .providerFailure .commit)

/-- A commit that an operation intends. The source makes the pending items of a receive after it
has given up an unused handle, so they may still fail. -/
structure Plan (α : Type) where
  next : EndpointState
  mutations : List KeyMutation
  pending : Except Error (List PendingItem)
  value : α

/-- What an operation decides on a snapshot, with the staged handle that the decision leaves
unused: it is given up before the decision is carried out. -/
inductive Decision (α : Type)
  | answer (value : α) (unused : Option (StagedSecretHandle .x25519Private))
  | commit (plan : Plan α) (unused : Option (StagedSecretHandle .x25519Private))

structure Endpoint (m : Type → Type) where
  line : RuntimeLine
  provider : Provider
  custody : KeyCustody m
  store : AtomicState m EndpointState

namespace Endpoint

def abortStaged (self : Endpoint m) : Option (StagedSecretHandle .x25519Private) → m Unit
  | some staged => self.custody.abortX25519 staged
  | none => pure ()

/-- The commit of a plan. Handles are given up only where the error leaves nothing open. -/
def execute {α : Type} (self : Endpoint m) (current : Snapshot) (plan : Plan α)
    (abandon : m Unit) (adapt : Error → Error) : m (Except Error α) := do
  match plan.pending with
  | .error error =>
    abandon
    return .error error
  | .ok pending =>
    match ← (commitReplacingPending self.store current plan.next plan.mutations pending).run with
    | .ok () => return .ok plan.value
    | .error error =>
      if ¬error.retryable then abandon
      return .error (adapt error)

def perform {α : Type} (self : Endpoint m) (decide : Snapshot → ExceptT Error m (Decision α))
    (abandon : m Unit) (adapt : Error → Error) : m (Except Error α) := do
  match ← self.store.load with
  | .error error =>
    abandon
    return .error error
  | .ok current =>
    match ← (decide current).run with
    | .error error =>
      abandon
      return .error error
    | .ok (.answer value unused) =>
      self.abortStaged unused
      return .ok value
    | .ok (.commit plan none) => self.execute current plan abandon adapt
    | .ok (.commit plan (some unused)) =>
      self.custody.abortX25519 unused
      self.execute current plan (pure ()) adapt

/-! ## Responder operations -/

def responder (line : RuntimeLine) (provider : Provider) (custody : KeyCustody m)
    (store : AtomicState m EndpointState) : ExceptT Error m (Endpoint m) := do
  let current ← ExceptT.mk store.load
  lift (ensureLive current.state)
  match current.state.phase with
  | .responderReady _ _ => return { line, provider, custody, store }
  | _ => throw transitionError

def decideAdmitPrekey (self : Endpoint m) (identity : IdentityPublic)
    (signing : IdentitySigningHandles) (pairSequence : Nat)
    (x25519Private : StagedSecretHandle .x25519Private)
    (mlKemPrivate : StagedSecretHandle .mlKem768Private) (validFrom validUntil : Nat)
    (current : Snapshot) : ExceptT Error m (Decision PrekeyBundle) := do
  lift (ensureLive current.state)
  lift (reject (validFrom ≥ validUntil ∨ validUntil - validFrom > 604800 ∨
    validUntil > maxSafeInteger ∨ pairSequence = 0 ∨ pairSequence > 9007199254740991)
    (.terminal .boundExceeded .validation))
  lift (validateIdentityShape identity)
  verifyLocalSigning self.custody identity signing
  let .responderReady highWater active := current.state.phase | throw transitionError
  lift (reject (pairSequence ≤ highWater ∨ active.size ≥ maxActivePrekeyPairs)
    (.terminal .prekeyConsumed .validation))
  let x25519Public ← attempt (self.custody.x25519Public (.staged x25519Private))
    fun _ => providerError
  let mlKem768Public ← attempt (self.custody.mlKem768Public (.staged mlKemPrivate))
    fun _ => providerError
  let unsigned : PrekeyBundle :=
    { protocolLineId := self.line.protocolLineId
      protectionProfileId := self.line.protectionProfileId
      responderIdentityStateDigest := identity.stateDigest
      ed25519KeyId := identity.ed25519KeyId, mlDsa65KeyId := identity.mlDsa65KeyId
      pairSequence, x25519Public, mlKem768Public, validFrom, validUntil
      ed25519Signature := .zero 64, mlDsa65Signature := [] }
  let signatureInput ← lift (bundleSignatureInput unsigned)
  let ed25519Signature ← attempt (self.custody.ed25519Sign signing.ed25519 signatureInput)
    fun _ => providerError
  let mlDsa65Signature ← attempt (self.custody.mlDsa65Sign signing.mlDsa65 signatureInput)
    fun _ => providerError
  let bundle := { unsigned with ed25519Signature, mlDsa65Signature }
  let nextActive := active.insert pairSequence
    { bundle, x25519Private := x25519Private.adoptedHandle
      mlKemPrivate := mlKemPrivate.adoptedHandle }
  return .commit
    { next := ⟨.responderReady pairSequence nextActive⟩
      mutations := [.adoptX25519 x25519Private, .adoptMlKem768 mlKemPrivate]
      pending := .ok current.pending
      value := bundle } none

def admitPrekey (self : Endpoint m) (identity : IdentityPublic) (signing : IdentitySigningHandles)
    (pairSequence : Nat) (x25519Private : StagedSecretHandle .x25519Private)
    (mlKemPrivate : StagedSecretHandle .mlKem768Private) (validFrom validUntil : Nat) :
    m (Except Error PrekeyBundle) :=
  self.perform
    (self.decideAdmitPrekey identity signing pairSequence x25519Private mlKemPrivate validFrom
      validUntil)
    (do
      self.custody.abortX25519 x25519Private
      self.custody.abortMlKem768 mlKemPrivate)
    id

/-- The mutations of an acceptance: every private key but the X25519 key of the accepted pair. -/
def acceptMutations (active : ActivePrekeys) (pairSequence : Nat) : List KeyMutation :=
  active.toList.flatMap fun entry =>
    .deleteMlKem768 entry.2.mlKemPrivate ::
      if entry.2.bundle.pairSequence ≠ pairSequence then [.deleteX25519 entry.2.x25519Private]
      else []

def decideAcceptFirstPacket (self : Endpoint m) (initiatorIdentity : TrustedIdentity)
    (responderIdentity : IdentityPublic) (responderUserAuthorityStateDigest : FixedBytes 32)
    (packet : FirstPacket) (clock : Clock m) (current : Snapshot) :
    ExceptT Error m (Decision SessionAccept) := do
  lift (ensureLive current.state)
  lift (validateIdentityShape responderIdentity)
  lift (validateFirstPacketShape packet)
  let now ← ExceptT.mk clock.nowUnixSeconds
  let initiatorIdentity ← lift (initiatorIdentity.forLine self.line)
  match current.state.phase with
  | .established _ (some digest) (some accept) _ _ =>
    let packetDigest ← lift (firstPacketDigest self.provider packet)
    lift (reject (digest ≠ packetDigest) (.terminal .prekeyConsumed .validation))
    return .answer accept none
  | .responderReady highWater active =>
    let prekey ← lift (okOr (.terminal .prekeyConsumed .validation)
      active[packet.prekey.pairSequence]?)
    lift (reject (packet.prekey ≠ prekey.bundle ∨
      packet.protocolLineId ≠ self.line.protocolLineId ∨
      packet.protectionProfileId ≠ self.line.protectionProfileId ∨
      packet.responderIdentityStateDigest ≠ responderIdentity.stateDigest ∨
      packet.responderUserAuthorityStateDigest ≠ responderUserAuthorityStateDigest ∨
      now < prekey.bundle.validFrom ∨ now ≥ prekey.bundle.validUntil ∨
      packet.prekey.pairSequence > highWater) handshakeRejected)
    lift (verifyBundle self.provider responderIdentity packet.prekey)
    let core ← lift (handshakeCore self.provider packet)
    lift (verifyHandshakeAuthentication self.provider initiatorIdentity packet)
    let x ← attempt
      (self.custody.x25519 (.adopted prekey.x25519Private) packet.initiatorX25519Public)
      fun _ => handshakeRejected
    let kem ← attempt
      (self.custody.mlKem768Decapsulate prekey.mlKemPrivate packet.mlKem768Ciphertext)
      fun _ => handshakeRejected
    let prekeyDigest ← lift (prekeyTranscriptDigest self.provider packet)
    let hybrid ← lift ((HybridSecrets.derive self.provider x kem prekeyDigest core).mapError
      fun _ => handshakeRejected)
    lift (hybrid.verifyClientConfirmation self.provider core
      (packet.clientConfirmCiphertext.toList ++ packet.clientConfirmTag.toList))
    let transcript ← lift (firstPacketDigest self.provider packet)
    let context ← lift (sessionContext self.provider self.line transcript packet)
    let ratchet ← lift (RatchetState.responder self.provider hybrid context prekey.x25519Private
      prekey.bundle.x25519Public packet.initiatorX25519Public)
    let unsigned : SessionAccept :=
      { transcriptDigest := transcript, sessionContextDigest := context
        initiatorUserAuthorityStateDigest := packet.initiatorUserAuthorityStateDigest
        responderIdentityStateDigest := responderIdentity.stateDigest
        responderUserAuthorityStateDigest
        pairSequence := packet.prekey.pairSequence, mac := .zero 32 }
    let input ← lift (acceptUnsigned unsigned)
    let mac ← lift (hybrid.sessionAcceptMac self.provider input)
    let accept := { unsigned with mac }
    return .commit
      { next := ⟨.established ratchet (some transcript) (some accept) (some highWater) none⟩
        mutations := acceptMutations active packet.prekey.pairSequence
        pending := .ok current.pending
        value := accept } none
  | _ => throw transitionError

def acceptFirstPacket (self : Endpoint m) (initiatorIdentity : TrustedIdentity)
    (responderIdentity : IdentityPublic) (responderUserAuthorityStateDigest : FixedBytes 32)
    (packet : FirstPacket) (clock : Clock m) : m (Except Error SessionAccept) :=
  self.perform
    (self.decideAcceptFirstPacket initiatorIdentity responderIdentity
      responderUserAuthorityStateDigest packet clock)
    (pure ())
    fun error => if error.code = .conflict then .terminal .prekeyConsumed .commit else error

/-! ## Initiator operations -/

def initiator (line : RuntimeLine) (provider : Provider) (custody : KeyCustody m)
    (store : AtomicState m EndpointState) : ExceptT Error m (Endpoint m) := do
  let current ← ExceptT.mk store.load
  lift (ensureLive current.state)
  match current.state.phase with
  | .initiatorNew => return { line, provider, custody, store }
  | _ => throw transitionError

def decideNewFirstPacket (self : Endpoint m) (initiatorIdentity responderIdentity : IdentityPublic)
    (initiatorUserAuthorityStateDigest responderUserAuthorityStateDigest : FixedBytes 32)
    (signing : IdentitySigningHandles) (prekey : PrekeyBundle) (now : Nat)
    (x25519Private : StagedSecretHandle .x25519Private)
    (mlKemEntropy : SecretHandle .mlKemEncapsulationEntropy) (current : Snapshot) :
    ExceptT Error m (Decision FirstPacket) := do
  lift (reject (now < prekey.validFrom ∨ now ≥ prekey.validUntil ∨
    prekey.protocolLineId ≠ self.line.protocolLineId ∨
    prekey.protectionProfileId ≠ self.line.protectionProfileId) handshakeRejected)
  verifyLocalSigning self.custody initiatorIdentity signing
  lift (verifyBundle self.provider responderIdentity prekey)
  let (ciphertext, kem) ← attempt
    (self.custody.mlKem768Encapsulate prekey.mlKem768Public mlKemEntropy) fun _ => handshakeRejected
  let xPublic ← attempt (self.custody.x25519Public (.staged x25519Private))
    fun _ => handshakeRejected
  let x ← attempt (self.custody.x25519 (.staged x25519Private) prekey.x25519Public)
    fun _ => handshakeRejected
  let unsigned : FirstPacket :=
    { protocolLineId := self.line.protocolLineId
      protectionProfileId := self.line.protectionProfileId
      initiatorIdentityStateDigest := initiatorIdentity.stateDigest
      initiatorUserAuthorityStateDigest
      responderIdentityStateDigest := responderIdentity.stateDigest
      responderUserAuthorityStateDigest, prekey
      initiatorX25519Public := xPublic, mlKem768Ciphertext := ciphertext
      initiatorEd25519KeyId := initiatorIdentity.ed25519KeyId
      initiatorMlDsa65KeyId := initiatorIdentity.mlDsa65KeyId
      initiatorEd25519Signature := .zero 64, initiatorMlDsa65Signature := []
      clientConfirmCiphertext := .zero 36, clientConfirmTag := .zero 16 }
  let core ← lift (handshakeCore self.provider unsigned)
  let input := dInitiatorSign ++ core.toList
  let ed25519Signature ← attempt (self.custody.ed25519Sign signing.ed25519 input)
    fun _ => handshakeRejected
  let mlDsa65Signature ← attempt (self.custody.mlDsa65Sign signing.mlDsa65 input)
    fun _ => handshakeRejected
  let signed := { unsigned with initiatorEd25519Signature := ed25519Signature,
                                initiatorMlDsa65Signature := mlDsa65Signature }
  let prekeyDigest ← lift (prekeyTranscriptDigest self.provider signed)
  let hybrid ← lift (HybridSecrets.derive self.provider x kem prekeyDigest core)
  let confirmation ← lift (hybrid.clientConfirmation self.provider core)
  lift (reject (confirmation.length ≠ 52) handshakeRejected)
  let ciphertext ← lift (okOr handshakeRejected (FixedBytes.ofBytes? 36 (confirmation.take 36)))
  let tag ← lift (okOr handshakeRejected (FixedBytes.ofBytes? 16 (confirmation.drop 36)))
  let packet := { signed with clientConfirmCiphertext := ciphertext, clientConfirmTag := tag }
  let transcript ← lift (firstPacketDigest self.provider packet)
  let context ← lift (sessionContext self.provider self.line transcript packet)
  let ratchet ← lift (RatchetState.initiator self.provider hybrid context
    x25519Private.adoptedHandle xPublic packet.prekey.x25519Public)
  return .commit
    { next := ⟨.initiatorAwaiting packet transcript context hybrid ratchet⟩
      mutations := [.adoptX25519 x25519Private, .deleteMlKemEncapsulationEntropy mlKemEntropy]
      pending := .ok current.pending
      value := packet } none

def decideCreateFirstPacket (self : Endpoint m) (initiatorIdentity : IdentityPublic)
    (responderIdentity : TrustedIdentity)
    (initiatorUserAuthorityStateDigest responderUserAuthorityStateDigest : FixedBytes 32)
    (signing : IdentitySigningHandles) (prekey : PrekeyBundle) (clock : Clock m)
    (x25519Private : StagedSecretHandle .x25519Private)
    (mlKemEntropy : SecretHandle .mlKemEncapsulationEntropy) (current : Snapshot) :
    ExceptT Error m (Decision FirstPacket) := do
  lift (ensureLive current.state)
  lift (validateIdentityShape initiatorIdentity)
  lift (validatePrekeyShape prekey)
  let now ← ExceptT.mk clock.nowUnixSeconds
  let responderIdentity ← lift (responderIdentity.forLine self.line)
  match current.state.phase with
  | .initiatorAwaiting firstPacket _ _ _ _ => return .answer firstPacket (some x25519Private)
  | .initiatorNew =>
    self.decideNewFirstPacket initiatorIdentity responderIdentity
      initiatorUserAuthorityStateDigest responderUserAuthorityStateDigest signing prekey now
      x25519Private mlKemEntropy current
  | _ => throw handshakeRejected

def createFirstPacket (self : Endpoint m) (initiatorIdentity : IdentityPublic)
    (responderIdentity : TrustedIdentity)
    (initiatorUserAuthorityStateDigest responderUserAuthorityStateDigest : FixedBytes 32)
    (signing : IdentitySigningHandles) (prekey : PrekeyBundle) (clock : Clock m)
    (x25519Private : StagedSecretHandle .x25519Private)
    (mlKemEntropy : SecretHandle .mlKemEncapsulationEntropy) : m (Except Error FirstPacket) :=
  self.perform
    (self.decideCreateFirstPacket initiatorIdentity responderIdentity
      initiatorUserAuthorityStateDigest responderUserAuthorityStateDigest signing prekey clock
      x25519Private mlKemEntropy)
    (self.custody.abortX25519 x25519Private) id

def decideVerifySessionAccept (self : Endpoint m) (accept : SessionAccept) (current : Snapshot) :
    ExceptT Error m (Decision Unit) := do
  lift (ensureLive current.state)
  let .initiatorAwaiting firstPacket transcriptDigest sessionContext hybrid ratchet :=
    current.state.phase | throw transitionError
  lift (reject (accept.transcriptDigest ≠ transcriptDigest ∨
    accept.sessionContextDigest ≠ sessionContext ∨
    accept.initiatorUserAuthorityStateDigest ≠ firstPacket.initiatorUserAuthorityStateDigest ∨
    accept.responderUserAuthorityStateDigest ≠ firstPacket.responderUserAuthorityStateDigest)
    handshakeRejected)
  let input ← lift (acceptUnsigned accept)
  lift (hybrid.verifySessionAcceptMac self.provider input accept.mac)
  return .commit
    { next := ⟨.established ratchet none none none none⟩
      mutations := []
      pending := .ok current.pending
      value := () } none

def verifySessionAccept (self : Endpoint m) (accept : SessionAccept) : m (Except Error Unit) :=
  self.perform (self.decideVerifySessionAccept accept) (pure ()) id

/-! ## Operations of both roles -/

def pendingItems (self : Endpoint m) : ExceptT Error m (List PendingItem) := do
  let current ← ExceptT.mk self.store.load
  lift (ensureLive current.state)
  return current.pending

def findPending (self : Endpoint m) (id : PendingId) :
    ExceptT Error m (Revision × PendingItem) := do
  let current ← ExceptT.mk self.store.load
  lift (ensureLive current.state)
  let item ← lift (okOr transitionError (current.pending.find? (·.id = id)))
  return (current.revision, item)

def dispatchPending (self : Endpoint m) (id : PendingId) (carrier : PacketCarrier m)
    (effects : ApplicationEffects m) : ExceptT Error m Unit := do
  let (revision, item) ← self.findPending id
  let _ ← drivePending self.store revision item carrier effects

def releasePendingPlaintext (self : Endpoint m) (id : PendingId) (receiver : PlaintextReceiver m) :
    ExceptT Error m Unit := do
  let (revision, item) ← self.findPending id
  let _ ← releasePlaintext self.store revision item receiver

/-- The ratchet of a send, bootstrapped first where a staged key is given. -/
def sendingRatchet (self : Endpoint m) (session : RatchetState) :
    Option (StagedSecretHandle .x25519Private) → ExceptT Error m RatchetState
  | some staged => session.bootstrapResponder self.provider self.custody staged
  | none => pure session

def rotation (replaced : SecretHandle .x25519Private) :
    Option (StagedSecretHandle .x25519Private) → List KeyMutation
  | some staged => [.adoptX25519 staged, .deleteX25519 replaced]
  | none => []

def decideSendRecord (self : Endpoint m) (plaintext : Bytes)
    (bootstrapPrivate : Option (StagedSecretHandle .x25519Private)) (current : Snapshot) :
    ExceptT Error m (Decision PendingId) := do
  lift (ensureLive current.state)
  let .established session replayDigest retryAccept prekeyHighWater capabilities :=
    current.state.phase | throw transitionError
  lift (reject (current.pending.any PendingItem.isPacket) transitionError)
  let ratchet ← self.sendingRatchet session bootstrapPrivate
  let (nextRatchet, packet) ← lift (ratchet.send self.provider plaintext)
  let pending := pendingId self.provider (label "record-send") packet
  let pendingItem ← lift (PendingItem.packet pending packet)
  return .commit
    { next := ⟨.established nextRatchet replayDigest retryAccept prekeyHighWater capabilities⟩
      mutations := rotation session.localPrivate bootstrapPrivate
      pending := .ok (current.pending ++ [pendingItem])
      value := pending } none

def sendRecord (self : Endpoint m) (plaintext : Bytes)
    (bootstrapPrivate : Option (StagedSecretHandle .x25519Private)) :
    m (Except Error PendingId) :=
  self.perform (self.decideSendRecord plaintext bootstrapPrivate)
    (self.abortStaged bootstrapPrivate) id

def retryRecord (self : Endpoint m) : ExceptT Error m PendingId := do
  let current ← ExceptT.mk self.store.load
  lift (ensureLive current.state)
  match current.state.phase with
  | .established _ _ _ _ _ =>
    let item ← lift (okOr transitionError (current.pending.find? PendingItem.isPacket))
    return item.id
  | _ => throw transitionError

def decideReceiveRecord (self : Endpoint m) (packet : Bytes)
    (freshPrivate : Option (StagedSecretHandle .x25519Private)) (current : Snapshot) :
    ExceptT Error m (Decision PendingId) := do
  lift (ensureLive current.state)
  let .established session replayDigest retryAccept prekeyHighWater capabilities :=
    current.state.phase | throw transitionError
  lift (reject (current.pending.any PendingItem.isPlaintext) transitionError)
  let replaced := session.localPrivate
  let (ratchet, plaintext) ← session.receive self.provider self.custody packet freshPrivate
  let pending := pendingId self.provider (label "record-receive") packet
  let next : EndpointState :=
    ⟨.established ratchet replayDigest retryAccept prekeyHighWater capabilities⟩
  let items := do
    let pendingItem ← PendingItem.plaintext pending plaintext
    return current.pending ++ [pendingItem]
  if ratchet.localPrivate.custodyToken ≠ replaced.custodyToken then
    let staged ← lift (okOr transitionError freshPrivate)
    return .commit { next, mutations := rotation replaced (some staged), pending := items,
                     value := pending } none
  else
    return .commit { next, mutations := [], pending := items, value := pending } freshPrivate

def receiveRecord (self : Endpoint m) (packet : Bytes)
    (freshPrivate : Option (StagedSecretHandle .x25519Private)) : m (Except Error PendingId) :=
  self.perform (self.decideReceiveRecord packet freshPrivate) (self.abortStaged freshPrivate) id

def decideBootstrapCapabilities (runtime : CapabilityRuntime) (current : Snapshot) :
    ExceptT Error m (Decision Unit) := do
  lift (ensureLive current.state)
  let .established session replayDigest retryAccept prekeyHighWater capabilities :=
    current.state.phase | throw transitionError
  lift (reject capabilities.isSome transitionError)
  return .commit
    { next := ⟨.established session replayDigest retryAccept prekeyHighWater (some runtime)⟩
      mutations := []
      pending := .ok current.pending
      value := () } none

def bootstrapCapabilities (self : Endpoint m) (runtime : CapabilityRuntime) :
    m (Except Error Unit) :=
  self.perform (decideBootstrapCapabilities runtime) (pure ()) id

def reduceCapabilities (provider : Provider) (capabilities : CapabilityRuntime)
    (session : RatchetState) (flow : CompleteCapabilityFlow) (now : Nat) :
    Except Error (RatchetState × CapabilityRuntime × CapabilityReceipt) := do
  let adoption ← Governance.evaluateCandidate capabilities.governance flow.governance now
  let governance := adoption.state capabilities.governance
  Identity.validateSuccessor capabilities.identity flow.identity flow.identityPredecessor
  let encodedMessage ← flow.message.encode
  let (ratchet, protectedPacket) ← session.send provider encodedMessage
  let protectedPacketDigest := provider.sha256 protectedPacket
  let reliable ← capabilities.reliable.retry flow.reliableRouteDigest
    capabilities.reliable.intentDigest protectedPacketDigest
  let group ← capabilities.group.applyTransition provider flow.groupAuthor flow.groupOperation
  let projections ← group.projections provider flow.groupMessageId flow.groupAuthor
    flow.groupPayload
  let _finality ← Reliable.applyEndpointConfirmation flow.currentFinality flow.message.id
    flow.confirmation flow.confirmationSession flow.expectedResultDigest flow.attachmentComplete
  Transport.validateEndpointRequest flow.transportRequest
  let transportOutcome ← Transport.classifyStatus flow.transportStatus
  return (ratchet,
    { governance, identity := some flow.identity, reliable, group,
      lastMessageId := some flow.message.id, lastTransportOutcome := some transportOutcome },
    { protectedPacket, projections, transportOutcome })

def decideApplyCompleteCapabilityFlow (self : Endpoint m) (flow : CompleteCapabilityFlow)
    (clock : Clock m) (current : Snapshot) : ExceptT Error m (Decision CapabilityReceipt) := do
  lift (ensureLive current.state)
  let now ← ExceptT.mk clock.nowUnixSeconds
  let .established session replayDigest retryAccept prekeyHighWater (some capabilities) :=
    current.state.phase | throw transitionError
  lift (reject (current.pending.any PendingItem.isPacket ∨
    capabilities.lastMessageId = some flow.message.id) transitionError)
  let (ratchet, nextRuntime, receipt) ← lift
    (reduceCapabilities self.provider capabilities session flow now)
  let effect ← lift (capabilityEffect receipt.projections flow.groupPayload
    receipt.transportOutcome)
  let packetItem ← lift (PendingItem.packet
    (pendingId self.provider (label "capability-send") receipt.protectedPacket)
    receipt.protectedPacket)
  let effectItem ← lift (PendingItem.effect
    (pendingId self.provider (label "capability-effect") effect) effect)
  return .commit
    { next := ⟨.established ratchet replayDigest retryAccept prekeyHighWater (some nextRuntime)⟩
      mutations := []
      pending := .ok (current.pending ++ [packetItem, effectItem])
      value := receipt } none

def applyCompleteCapabilityFlow (self : Endpoint m) (flow : CompleteCapabilityFlow)
    (clock : Clock m) : m (Except Error CapabilityReceipt) :=
  self.perform (self.decideApplyCompleteCapabilityFlow flow clock) (pure ()) id

def deletion : Phase → Option Nat × List KeyMutation
  | .responderReady highWater active =>
    (some highWater, active.toList.flatMap fun entry =>
      [.deleteX25519 entry.2.x25519Private, .deleteMlKem768 entry.2.mlKemPrivate])
  | .established session _ _ prekeyHighWater _ =>
    (prekeyHighWater, [.deleteX25519 session.localPrivate])
  | .initiatorAwaiting _ _ _ _ ratchet => (none, [.deleteX25519 ratchet.localPrivate])
  | .initiatorNew => (none, [])
  | .deleted prekeyHighWater => (prekeyHighWater, [])

def decideDeleteSession (current : Snapshot) : ExceptT Error m (Decision Unit) := do
  lift (ensureLive current.state)
  let (prekeyHighWater, mutations) := deletion current.state.phase
  return .commit
    { next := ⟨.deleted prekeyHighWater⟩, mutations, pending := .ok [], value := () } none

def deleteSession (self : Endpoint m) : m (Except Error Unit) :=
  self.perform decideDeleteSession (pure ()) id

def restart (self : Endpoint m) (persistedGeneration : Nat) : ExceptT Error m Unit := do
  let current ← ExceptT.mk self.store.load
  lift (ensureLive current.state)
  lift (reject (persistedGeneration < current.revision.value)
    (.terminal .stateRollback .validation))
  lift (reject (persistedGeneration > current.revision.value)
    (.terminal .invalidTransition .validation))

end Endpoint

end Operations

end LicoArc
