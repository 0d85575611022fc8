import LicoArc.Backend
import LicoArc.EndpointLaws

/-!
# Calls on an endpoint over the backend

The operations with their arguments, the system of calls that any number of
instances make on one backend, and the rule for `perform`: whatever a decision
was taken on is a snapshot that was durable, and whatever is swapped in was
planned on such a snapshot.
-/

namespace LicoArc

open Backend

/-- The operations that commit. -/
inductive Operation
  | admitPrekey (identity : IdentityPublic) (signing : IdentitySigningHandles) (pairSequence : Nat)
      (x25519Private : StagedSecretHandle .x25519Private)
      (mlKemPrivate : StagedSecretHandle .mlKem768Private) (validFrom validUntil : Nat)
  | acceptFirstPacket (initiatorIdentity : TrustedIdentity) (responderIdentity : IdentityPublic)
      (responderUserAuthorityStateDigest : FixedBytes 32) (packet : FirstPacket)
  | createFirstPacket (initiatorIdentity : IdentityPublic) (responderIdentity : TrustedIdentity)
      (initiatorUserAuthorityStateDigest responderUserAuthorityStateDigest : FixedBytes 32)
      (signing : IdentitySigningHandles) (prekey : PrekeyBundle)
      (x25519Private : StagedSecretHandle .x25519Private)
      (mlKemEntropy : SecretHandle .mlKemEncapsulationEntropy)
  | verifySessionAccept (accept : SessionAccept)
  | sendRecord (plaintext : Bytes) (bootstrapPrivate : Option (StagedSecretHandle .x25519Private))
  | receiveRecord (packet : Bytes) (freshPrivate : Option (StagedSecretHandle .x25519Private))
  | bootstrapCapabilities (runtime : CapabilityRuntime)
  | applyCompleteCapabilityFlow (flow : CompleteCapabilityFlow)
  | deleteSession

namespace Operation

@[reducible] def Value : Operation → Type
  | admitPrekey _ _ _ _ _ _ _ => PrekeyBundle
  | acceptFirstPacket _ _ _ _ => SessionAccept
  | createFirstPacket _ _ _ _ _ _ _ _ => FirstPacket
  | verifySessionAccept _ => Unit
  | sendRecord _ _ => PendingId
  | receiveRecord _ _ => PendingId
  | bootstrapCapabilities _ => Unit
  | applyCompleteCapabilityFlow _ => CapabilityReceipt
  | deleteSession => Unit

variable (self : Endpoint (Program interface))

def program : (operation : Operation) → Program interface (Except Error operation.Value)
  | admitPrekey identity signing pairSequence x25519Private mlKemPrivate validFrom validUntil =>
    self.admitPrekey identity signing pairSequence x25519Private mlKemPrivate validFrom validUntil
  | acceptFirstPacket initiatorIdentity responderIdentity authority packet =>
    self.acceptFirstPacket initiatorIdentity responderIdentity authority packet clock
  | createFirstPacket initiatorIdentity responderIdentity initiatorAuthority responderAuthority
      signing prekey x25519Private mlKemEntropy =>
    self.createFirstPacket initiatorIdentity responderIdentity initiatorAuthority
      responderAuthority signing prekey clock x25519Private mlKemEntropy
  | verifySessionAccept accept => self.verifySessionAccept accept
  | sendRecord plaintext bootstrapPrivate => self.sendRecord plaintext bootstrapPrivate
  | receiveRecord packet freshPrivate => self.receiveRecord packet freshPrivate
  | bootstrapCapabilities runtime => self.bootstrapCapabilities runtime
  | applyCompleteCapabilityFlow flow => self.applyCompleteCapabilityFlow flow clock
  | deleteSession => self.deleteSession

def decide : (operation : Operation) → Snapshot →
    ExceptT Error (Program interface) (Decision operation.Value)
  | admitPrekey identity signing pairSequence x25519Private mlKemPrivate validFrom validUntil =>
    self.decideAdmitPrekey identity signing pairSequence x25519Private mlKemPrivate validFrom
      validUntil
  | acceptFirstPacket initiatorIdentity responderIdentity authority packet =>
    self.decideAcceptFirstPacket initiatorIdentity responderIdentity authority packet clock
  | createFirstPacket initiatorIdentity responderIdentity initiatorAuthority responderAuthority
      signing prekey x25519Private mlKemEntropy =>
    self.decideCreateFirstPacket initiatorIdentity responderIdentity initiatorAuthority
      responderAuthority signing prekey clock x25519Private mlKemEntropy
  | verifySessionAccept accept => self.decideVerifySessionAccept accept
  | sendRecord plaintext bootstrapPrivate => self.decideSendRecord plaintext bootstrapPrivate
  | receiveRecord packet freshPrivate => self.decideReceiveRecord packet freshPrivate
  | bootstrapCapabilities runtime => Endpoint.decideBootstrapCapabilities runtime
  | applyCompleteCapabilityFlow flow => self.decideApplyCompleteCapabilityFlow flow clock
  | deleteSession => Endpoint.decideDeleteSession

def staged : Operation → List (StagedSecretHandle .x25519Private) ×
    List (StagedSecretHandle .mlKem768Private)
  | admitPrekey _ _ _ x25519Private mlKemPrivate _ _ => ([x25519Private], [mlKemPrivate])
  | createFirstPacket _ _ _ _ _ _ x25519Private _ => ([x25519Private], [])
  | sendRecord _ bootstrapPrivate => (bootstrapPrivate.toList, [])
  | receiveRecord _ freshPrivate => (freshPrivate.toList, [])
  | _ => ([], [])

def abandon : Operation → Program interface Unit
  | admitPrekey _ _ _ x25519Private mlKemPrivate _ _ => do
    self.custody.abortX25519 x25519Private
    self.custody.abortMlKem768 mlKemPrivate
  | createFirstPacket _ _ _ _ _ _ x25519Private _ => self.custody.abortX25519 x25519Private
  | sendRecord _ bootstrapPrivate => self.abortStaged bootstrapPrivate
  | receiveRecord _ freshPrivate => self.abortStaged freshPrivate
  | _ => pure ()

def adapt : Operation → Error → Error
  | acceptFirstPacket _ _ _ _, error =>
    if error.code = .conflict then .terminal .prekeyConsumed .commit else error
  | _, error => error

theorem program_eq_perform (operation : Operation) :
    operation.program self =
      self.perform (operation.decide self) (operation.abandon self) operation.adapt := by
  cases operation <;> rfl

end Operation

/-- The operations that read the store or settle a pending item. -/
inductive Service
  | pendingItems
  | dispatchPending (id : PendingId)
  | releasePendingPlaintext (id : PendingId)
  | retryRecord
  | restart (persistedGeneration : Nat)

namespace Service

@[reducible] def Value : Service → Type
  | pendingItems => List PendingItem
  | dispatchPending _ => Unit
  | releasePendingPlaintext _ => Unit
  | retryRecord => PendingId
  | restart _ => Unit

def program (self : Endpoint (Program interface)) :
    (service : Service) → Program interface (Except Error service.Value)
  | pendingItems => self.pendingItems
  | dispatchPending id => self.dispatchPending id carrier effects
  | releasePendingPlaintext id => self.releasePendingPlaintext id receiver
  | retryRecord => self.retryRecord
  | restart generation => self.restart generation

end Service

inductive Call
  | operate (line : RuntimeLine) (operation : Operation)
  | serve (line : RuntimeLine) (service : Service)

namespace Call

@[reducible] def Result : Call → Type
  | operate _ operation => Except Error operation.Value
  | serve _ service => Except Error service.Value

def program (provider : Provider) : (call : Call) → Program interface call.Result
  | operate line operation => operation.program (endpoint line provider)
  | serve line service => service.program (endpoint line provider)

end Call

/-- Any number of instances over one backend that keeps its contract. -/
def system (provider : Provider) : System interface World where
  Call := Call
  Result := Call.Result
  program := Call.program provider
  handles := handles provider
  surroundings := Surroundings

/-! ## Requests of the parts of a call -/

namespace Request

def quiet : Request → Prop
  | ed25519Public _ | ed25519Sign _ _ | mlDsa65Public _ | mlDsa65Sign _ _ | x25519Public _
  | x25519 _ _ | mlKem768Public _ | mlKem768Encapsulate _ _ | mlKem768Decapsulate _ _ | now => True
  | _ => False

def isSwap : Request → Bool
  | compareAndSwap _ _ => true
  | _ => false

end Request

section Only

variable {property : Request → Prop} {α β : Type}

def OnlyAsks (property : Request → Prop) (x : ExceptT Error (Program interface) α) : Prop :=
  Program.Only property x.run

theorem onlyAsks_pure (a : α) : OnlyAsks property (pure a) := trivial

theorem onlyAsks_throw (e : Error) :
    OnlyAsks property (throw e : ExceptT Error (Program interface) α) := trivial

theorem onlyAsks_lift (x : Except Error α) : OnlyAsks property (lift x) := trivial

theorem onlyAsks_bind {x : ExceptT Error (Program interface) α}
    {f : α → ExceptT Error (Program interface) β} (hx : OnlyAsks property x)
    (hf : ∀ a, OnlyAsks property (f a)) : OnlyAsks property (x >>= f) := by
  refine Program.Only.bind hx fun r => ?_
  cases r with
  | ok a => exact hf a
  | error e => trivial

theorem onlyAsks_attempt {x : Program interface (Except Error α)} {adapt : Error → Error}
    (hx : Program.Only property x) : OnlyAsks property (attempt x adapt) :=
  Program.Only.bind hx fun _ => trivial

end Only

end LicoArc
