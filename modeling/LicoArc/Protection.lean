import LicoArc.Encoding
import LicoArc.State

/-!
# Hybrid key schedule and the Double Ratchet

The key schedule of the handshake, the record header and the transitions
`bootstrap_responder`, `send` and `receive` of one ratchet state.
-/

namespace LicoArc

def maxActivePrekeyPairs : Nat := 256
def maxSkipPerRecord : Nat := 256
def maxSkippedKeys : Nat := 1024
def maxPlaintextBytes : Nat := 524224
def maxProtectedPacketBytes : Nat := 524288
def maxSessionAcceptBytes : Nat := 221
def maxFirstPacketBytes : Nat := 9655

def dHybridExtractSalt : Bytes := domain "LICOARC-V1/HYBRID/EXTRACT-SALT"
def dHybridRoot : Bytes := domain "LICOARC-V1/HYBRID/ROOT"
def dClientKey : Bytes := domain "LICOARC-V1/HANDSHAKE/CLIENT-CONFIRM-KEY"
def dClientNonce : Bytes := domain "LICOARC-V1/HANDSHAKE/CLIENT-CONFIRM-NONCE"
def dAcceptKey : Bytes := domain "LICOARC-V1/HANDSHAKE/SESSION-ACCEPT-KEY"
def dInitialRoot : Bytes := domain "LICOARC-V1/RATCHET/ROOT/INITIAL"
def dChainI2R : Bytes := domain "LICOARC-V1/RATCHET/CHAIN/I2R"
def dChainR2I : Bytes := domain "LICOARC-V1/RATCHET/CHAIN/R2I"
def dRootI2R : Bytes := domain "LICOARC-V1/RATCHET/ROOT/I2R"
def dRootR2I : Bytes := domain "LICOARC-V1/RATCHET/ROOT/R2I"
def dMessageKey : Bytes := domain "LICOARC-V1/RATCHET/MESSAGE-KEY"
def dNextChain : Bytes := domain "LICOARC-V1/RATCHET/NEXT-CHAIN"
def dNonce : Bytes := domain "LICOARC-V1/RATCHET/NONCE"
def dRecordAad : Bytes := domain "LICOARC-V1/RECORD/AAD"
def dClientConfirm : Bytes := domain "LICOARC-V1/HANDSHAKE/CLIENT-CONFIRM"
def dSessionAcceptMac : Bytes := domain "LICOARC-V1/HANDSHAKE/SESSION-ACCEPT-MAC"

abbrev Secret := FixedBytes 32

def handshakeRejected : Error := .terminal .handshakeRejected .validation

def recordError (code : ErrorCode) : Error := .terminal code .validation

/-! ## Key schedule -/

structure HybridSecrets where
  hybridRoot : Secret
  clientConfirmKey : Secret
  clientConfirmNonce : FixedBytes 12
  sessionAcceptKey : Secret
  deriving DecidableEq

def expand (provider : Provider) (salt ikm label : Bytes) (digest : FixedBytes 32) (length : Nat) :
    Except Error (FixedBytes length) :=
  provider.hkdfSha256 salt ikm (label ++ digest.toList) length

namespace HybridSecrets

def derive (provider : Provider)
    (x25519Shared mlKemShared prekeyTranscriptDigest handshakeCoreDigest : FixedBytes 32) :
    Except Error HybridSecrets := do
  let salt := (provider.sha256 (dHybridExtractSalt ++ prekeyTranscriptDigest.toList)).toList
  let ikm := x25519Shared.toList ++ mlKemShared.toList
  let hybridRoot ← expand provider salt ikm dHybridRoot handshakeCoreDigest 32
  let clientConfirmKey ← expand provider salt ikm dClientKey handshakeCoreDigest 32
  let clientConfirmNonce ← expand provider salt ikm dClientNonce handshakeCoreDigest 12
  let sessionAcceptKey ← expand provider salt ikm dAcceptKey handshakeCoreDigest 32
  return { hybridRoot, clientConfirmKey, clientConfirmNonce, sessionAcceptKey }

def clientConfirmation (self : HybridSecrets) (provider : Provider)
    (handshakeCoreDigest : FixedBytes 32) : Except Error Bytes :=
  provider.aeadSeal self.clientConfirmKey self.clientConfirmNonce handshakeCoreDigest.toList
    dClientConfirm

def verifyClientConfirmation (self : HybridSecrets) (provider : Provider)
    (handshakeCoreDigest : FixedBytes 32) (confirmation : Bytes) : Except Error Unit := do
  let plaintext ← (provider.aeadOpen self.clientConfirmKey self.clientConfirmNonce
    handshakeCoreDigest.toList confirmation).mapError fun _ => handshakeRejected
  reject (plaintext ≠ dClientConfirm) handshakeRejected

def sessionAcceptMac (self : HybridSecrets) (provider : Provider) (unsignedAccept : Bytes) :
    Except Error (FixedBytes 32) :=
  provider.hmacSha256 self.sessionAcceptKey.toList (dSessionAcceptMac ++ unsignedAccept)

def verifySessionAcceptMac (self : HybridSecrets) (provider : Provider) (unsignedAccept : Bytes)
    (mac : FixedBytes 32) : Except Error Unit :=
  (provider.hmacSha256Verify self.sessionAcceptKey.toList (dSessionAcceptMac ++ unsignedAccept)
    mac).mapError fun _ => handshakeRejected

end HybridSecrets

inductive Direction
  | initiatorToResponder
  | responderToInitiator
  deriving DecidableEq, Repr

namespace Direction

def chainDomain : Direction → Bytes
  | .initiatorToResponder => dChainI2R
  | .responderToInitiator => dChainR2I

def rootDomain : Direction → Bytes
  | .initiatorToResponder => dRootI2R
  | .responderToInitiator => dRootR2I

def opposite : Direction → Direction
  | .initiatorToResponder => .responderToInitiator
  | .responderToInitiator => .initiatorToResponder

end Direction

def initialKeys (provider : Provider) (hybrid : HybridSecrets) (context : FixedBytes 32) :
    Except Error (Secret × Secret) := do
  let root ← provider.hkdfExpandSha256 hybrid.hybridRoot (dInitialRoot ++ context.toList) 32
  let chain ← provider.hkdfExpandSha256 hybrid.hybridRoot (dChainI2R ++ context.toList) 32
  return (root, chain)

def dhKeys (provider : Provider) (root shared : FixedBytes 32) (direction : Direction)
    (context : FixedBytes 32) : Except Error (Secret × Secret) := do
  let nextRoot ← provider.hkdfSha256 root.toList shared.toList
    (direction.rootDomain ++ context.toList) 32
  let chain ← provider.hkdfSha256 root.toList shared.toList
    (direction.chainDomain ++ context.toList) 32
  return (nextRoot, chain)

def dhStep {m : Type → Type} [Monad m] (provider : Provider) (custody : KeyCustody m)
    (root : FixedBytes 32) (privateKey : CustodyRef .x25519Private) (publicKey : FixedBytes 32)
    (direction : Direction) (context : FixedBytes 32) : ExceptT Error m (Secret × Secret) := do
  let shared ← attempt (custody.x25519 privateKey publicKey)
    fun _ => recordError .recordAuthentication
  lift (dhKeys provider root shared direction context)

structure MessageStep where
  key : Secret
  nonce : FixedBytes 12
  next : Secret
  deriving DecidableEq

def messageStep (provider : Provider) (chain : Secret) (number : Nat) :
    Except Error MessageStep := do
  let counter := bigEndian 4 number
  let key ← provider.hkdfExpandSha256 chain (dMessageKey ++ counter) 32
  let nonce ← provider.hkdfExpandSha256 chain (dNonce ++ counter) 12
  let next ← provider.hkdfExpandSha256 chain (dNextChain ++ counter) 32
  return { key, nonce, next }

def recordAad (context : FixedBytes 32) (header : Bytes) : Bytes :=
  dRecordAad ++ context.toList ++ header

/-! ## Record header -/

structure RatchetHeader where
  dh : FixedBytes 32
  pn : Nat
  n : Nat
  deriving DecidableEq

def exact32 : Option CborValue → Except Error (FixedBytes 32)
  | some (.bytes bytes) => okOr (recordError .invalidRepresentation) (FixedBytes.ofBytes? 32 bytes)
  | _ => .error (recordError .invalidRepresentation)

def exactU32 : Option CborValue → Except Error Nat
  | some (.unsigned value) => do
    reject (value ≥ 2 ^ 32) (recordError .boundExceeded)
    return value
  | _ => .error (recordError .invalidRepresentation)

namespace RatchetHeader

def toCbor (self : RatchetHeader) : CborValue :=
  .map [(0, .bytes self.dh.toList), (1, .unsigned self.pn), (2, .unsigned self.n)]

def encode (self : RatchetHeader) : Except Error Bytes := Encoding.encode self.toCbor

def decode (bytes : Bytes) : Except Error RatchetHeader := do
  match ← Encoding.decode bytes with
  | .map entries =>
    reject (entries.length ≠ 3) (recordError .unknownField)
    let dh ← exact32 (Encoding.lookupEntry 0 entries)
    let pn ← exactU32 (Encoding.lookupEntry 1 entries)
    let n ← exactU32 (Encoding.lookupEntry 2 entries)
    return { dh, pn, n }
  | _ => throw (recordError .invalidRepresentation)

end RatchetHeader

/-- The first length in `38..=48` whose prefix decodes as a header. -/
def ratchetHeaderLength (packet : Bytes) : Except Error Nat :=
  okOr (recordError .invalidRepresentation) <|
    (List.range' 38 (min packet.length 48 + 1 - 38)).find? fun length =>
      (RatchetHeader.decode (packet.take length)).isOk

/-! ## Ratchet state -/

abbrev Coordinate := FixedBytes 32 × Nat

def Coordinate.compare : Coordinate → Coordinate → Ordering :=
  compareLex (compareOn fun coordinate => coordinate.1.toList) (compareOn Prod.snd)

instance : Std.TransCmp Coordinate.compare :=
  inferInstanceAs (Std.TransCmp (compareLex
    (compareOn fun coordinate : Coordinate => coordinate.1.toList) (compareOn Prod.snd)))

instance : Std.LawfulEqCmp Coordinate.compare where
  eq_of_compare {a b} h := by
    rw [Coordinate.compare, compareLex_eq_eq] at h
    exact Prod.ext (FixedBytes.toList_injective (Std.LawfulEqOrd.eq_of_compare h.1))
      (Std.LawfulEqOrd.eq_of_compare h.2)

abbrev SkippedKeys := Std.ExtTreeMap Coordinate (Secret × FixedBytes 12) Coordinate.compare

structure RatchetState where
  sessionContext : FixedBytes 32
  root : Secret
  localPrivate : SecretHandle .x25519Private
  localPublic : FixedBytes 32
  peerPublic : FixedBytes 32
  sending : Option Secret
  receiving : Option Secret
  sendDirection : Direction
  pn : Nat
  ns : Nat
  nr : Nat
  skipped : SkippedKeys
  deriving DecidableEq

def nextCounter (value : Nat) : Except Error Nat := do
  reject (value + 1 ≥ 2 ^ 32) (recordError .counterOverflow)
  return value + 1

/-- The skip loops of a receive: `count` message keys of a chain, from `number` on, are retained
under the chain's public key. -/
def retainSkipped (provider : Provider) (dh : FixedBytes 32) :
    (count number : Nat) → Secret → SkippedKeys → Except Error (Secret × SkippedKeys)
  | 0, _, chain, skipped => .ok (chain, skipped)
  | count + 1, number, chain, skipped => do
    let step ← messageStep provider chain number
    retainSkipped provider dh count (number + 1) step.next
      (skipped.insert (dh, number) (step.key, step.nonce))

namespace RatchetState

def initiator (provider : Provider) (hybrid : HybridSecrets) (sessionContext : FixedBytes 32)
    (localPrivate : SecretHandle .x25519Private) (localPublic peerPublic : FixedBytes 32) :
    Except Error RatchetState := do
  let (root, chain) ← initialKeys provider hybrid sessionContext
  return { sessionContext, root, localPrivate, localPublic, peerPublic, sending := some chain,
           receiving := none, sendDirection := .initiatorToResponder,
           pn := 0, ns := 0, nr := 0, skipped := ∅ }

def responder (provider : Provider) (hybrid : HybridSecrets) (sessionContext : FixedBytes 32)
    (localPrivate : SecretHandle .x25519Private) (localPublic peerPublic : FixedBytes 32) :
    Except Error RatchetState := do
  let (root, chain) ← initialKeys provider hybrid sessionContext
  return { sessionContext, root, localPrivate, localPublic, peerPublic, sending := none,
           receiving := some chain, sendDirection := .responderToInitiator,
           pn := 0, ns := 0, nr := 0, skipped := ∅ }

variable {m : Type → Type} [Monad m]

def bootstrapResponder (self : RatchetState) (provider : Provider) (custody : KeyCustody m)
    (freshPrivate : StagedSecretHandle .x25519Private) : ExceptT Error m RatchetState := do
  lift (reject (self.sending.isSome ∨ self.sendDirection ≠ .responderToInitiator)
    (recordError .invalidTransition))
  let freshPublic ← attempt (custody.x25519Public (.staged freshPrivate))
    fun _ => recordError .recordAuthentication
  let (root, chain) ← dhStep provider custody self.root (.staged freshPrivate) self.peerPublic
    self.sendDirection self.sessionContext
  return { self with root, localPrivate := freshPrivate.adoptedHandle, localPublic := freshPublic,
                     sending := some chain }

def send (self : RatchetState) (provider : Provider) (plaintext : Bytes) :
    Except Error (RatchetState × Bytes) := do
  reject (plaintext.length > maxPlaintextBytes) (recordError .boundExceeded)
  let chain ← okOr (recordError .invalidTransition) self.sending
  let nextN ← nextCounter self.ns
  let step ← messageStep provider chain self.ns
  let header ← RatchetHeader.encode { dh := self.localPublic, pn := self.pn, n := self.ns }
  let body ← (provider.aeadSeal step.key step.nonce (recordAad self.sessionContext header)
    plaintext).mapError fun _ => recordError .recordAuthentication
  let packet := header ++ body
  reject (packet.length > maxProtectedPacketBytes) (recordError .boundExceeded)
  return ({ self with sending := some step.next, ns := nextN }, packet)

/-- The loop of `receive_dh_transition` over the superseded receiving chain. -/
def retainPrevious (self : RatchetState) (provider : Provider) (distance : Nat) :
    Except Error SkippedKeys :=
  if distance ≠ 0 then do
    let previousChain ← okOr (recordError .staleRatchet) self.receiving
    let (_, skipped) ← retainSkipped provider self.peerPublic distance self.nr previousChain
      self.skipped
    return skipped
  else return self.skipped

def receiveDhTransition (self : RatchetState) (provider : Provider) (custody : KeyCustody m)
    (header : RatchetHeader) (freshPrivate : Option (StagedSecretHandle .x25519Private)) :
    ExceptT Error m RatchetState := do
  lift (reject (header.pn < self.nr ∨ header.pn - self.nr > maxSkipPerRecord)
    (recordError .staleRatchet))
  let previousDistance := header.pn - self.nr
  lift (reject (self.skipped.size + previousDistance > maxSkippedKeys) (recordError .skipBound))
  let freshPrivate ← lift (okOr (recordError .invalidTransition) freshPrivate)
  let freshPublic ← attempt (custody.x25519Public (.staged freshPrivate))
    fun _ => recordError .recordAuthentication
  let skipped ← lift (self.retainPrevious provider previousDistance)
  let (rootAfterReceive, receiving) ← dhStep provider custody self.root
    (.adopted self.localPrivate) header.dh self.sendDirection.opposite self.sessionContext
  let (rootAfterSend, sending) ← dhStep provider custody rootAfterReceive (.staged freshPrivate)
    header.dh self.sendDirection self.sessionContext
  return { self with
    root := rootAfterSend, peerPublic := header.dh, localPrivate := freshPrivate.adoptedHandle,
    localPublic := freshPublic, receiving := some receiving, sending := some sending,
    pn := self.ns, ns := 0, nr := 0, skipped }

def openRecord (self : RatchetState) (provider : Provider) (key : Secret) (nonce : FixedBytes 12)
    (headerBytes body : Bytes) : Except Error Bytes :=
  (provider.aeadOpen key nonce (recordAad self.sessionContext headerBytes) body).mapError
    fun _ => recordError .recordAuthentication

/-- `receive` from the point where the packet's chain is the receiving chain. -/
def receiveInChain (self : RatchetState) (provider : Provider) (header : RatchetHeader)
    (headerBytes body : Bytes) : Except Error (RatchetState × Bytes) := do
  if header.n < self.nr then
    let (key, nonce) ← okOr (recordError .replay) self.skipped[(header.dh, header.n)]?
    let plaintext ← self.openRecord provider key nonce headerBytes body
    return ({ self with skipped := self.skipped.erase (header.dh, header.n) }, plaintext)
  else
    let distance := header.n - self.nr
    reject (distance > maxSkipPerRecord ∨ self.skipped.size + distance > maxSkippedKeys)
      (recordError .skipBound)
    let chain ← okOr (recordError .staleRatchet) self.receiving
    let (chain, skipped) ← retainSkipped provider header.dh distance self.nr chain self.skipped
    let step ← messageStep provider chain header.n
    let nextNr ← nextCounter header.n
    let plaintext ← self.openRecord provider step.key step.nonce headerBytes body
    return ({ self with skipped, receiving := some step.next, nr := nextNr }, plaintext)

def receive (self : RatchetState) (provider : Provider) (custody : KeyCustody m) (packet : Bytes)
    (freshPrivate : Option (StagedSecretHandle .x25519Private)) :
    ExceptT Error m (RatchetState × Bytes) := do
  lift (reject (packet.length > maxProtectedPacketBytes) (recordError .boundExceeded))
  let headerLength ← lift (ratchetHeaderLength packet)
  let headerBytes := packet.take headerLength
  let body := packet.drop headerLength
  let header ← lift (RatchetHeader.decode headerBytes)
  match self.skipped[(header.dh, header.n)]? with
  | some (key, nonce) =>
    let plaintext ← lift (self.openRecord provider key nonce headerBytes body)
    return ({ self with skipped := self.skipped.erase (header.dh, header.n) }, plaintext)
  | none =>
    let tentative ←
      if header.dh ≠ self.peerPublic then
        self.receiveDhTransition provider custody header freshPrivate
      else pure self
    lift (tentative.receiveInChain provider header headerBytes body)

end RatchetState

end LicoArc
