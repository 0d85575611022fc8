import LicoArc.Interaction.Outcome
import LicoArc.Provider

/-!
# Durable state, key custody and delivery boundaries

Purpose-typed handles, key mutations, revisions, pending work and commits, the
caller-owned traits over an arbitrary monad, and the two drivers that settle
pending work.
-/

namespace LicoArc

def maxSafeInteger : Nat := 9007199254740991
def maxPendingPayloadBytes : Nat := 524288
def maxPendingPlaintextBytes : Nat := 524224

/-! ## Handles -/

inductive Purpose
  | ed25519Signing
  | mlDsa65Signing
  | x25519Private
  | mlKem768Private
  | mlKemEncapsulationEntropy
  deriving DecidableEq, Repr

@[ext] structure SecretHandle (purpose : Purpose) where
  custodyToken : Nat
  deriving DecidableEq

structure StagedSecretHandle (purpose : Purpose) where
  custodyToken : Nat
  deriving DecidableEq

def StagedSecretHandle.adoptedHandle {purpose : Purpose} (staged : StagedSecretHandle purpose) :
    SecretHandle purpose :=
  ⟨staged.custodyToken⟩

inductive CustodyRef (purpose : Purpose)
  | adopted (handle : SecretHandle purpose)
  | staged (handle : StagedSecretHandle purpose)
  deriving DecidableEq

def CustodyRef.custodyToken {purpose : Purpose} : CustodyRef purpose → Nat
  | .adopted handle => handle.custodyToken
  | .staged handle => handle.custodyToken

inductive KeyMutation
  | adoptX25519 (staged : StagedSecretHandle .x25519Private)
  | adoptMlKem768 (staged : StagedSecretHandle .mlKem768Private)
  | deleteX25519 (handle : SecretHandle .x25519Private)
  | deleteMlKem768 (handle : SecretHandle .mlKem768Private)
  | deleteMlKemEncapsulationEntropy (handle : SecretHandle .mlKemEncapsulationEntropy)
  deriving DecidableEq

def KeyMutation.custodyToken : KeyMutation → Nat
  | .adoptX25519 staged => staged.custodyToken
  | .adoptMlKem768 staged => staged.custodyToken
  | .deleteX25519 handle => handle.custodyToken
  | .deleteMlKem768 handle => handle.custodyToken
  | .deleteMlKemEncapsulationEntropy handle => handle.custodyToken

structure KeyCustody (m : Type → Type) where
  ed25519Public : SecretHandle .ed25519Signing → m (Except Error (FixedBytes 32))
  ed25519Sign : SecretHandle .ed25519Signing → Bytes → m (Except Error (FixedBytes 64))
  mlDsa65Public : SecretHandle .mlDsa65Signing → m (Except Error Bytes)
  mlDsa65Sign : SecretHandle .mlDsa65Signing → Bytes → m (Except Error Bytes)
  x25519Public : CustodyRef .x25519Private → m (Except Error (FixedBytes 32))
  x25519 : CustodyRef .x25519Private → FixedBytes 32 → m (Except Error (FixedBytes 32))
  mlKem768Public : CustodyRef .mlKem768Private → m (Except Error Bytes)
  mlKem768Encapsulate : Bytes → SecretHandle .mlKemEncapsulationEntropy →
    m (Except Error (Bytes × FixedBytes 32))
  mlKem768Decapsulate : SecretHandle .mlKem768Private → Bytes → m (Except Error (FixedBytes 32))
  abortX25519 : StagedSecretHandle .x25519Private → m Unit
  abortMlKem768 : StagedSecretHandle .mlKem768Private → m Unit

structure TrustFacts (m : Type → Type) where
  identityKey : FixedBytes 32 → String → FixedBytes 32 → m (Except Error Bytes)

structure Clock (m : Type → Type) where
  nowUnixSeconds : m (Except Error Nat)

/-! ## Revisions and pending work -/

structure Revision where
  value : Nat
  deriving DecidableEq

namespace Revision

def initial : Revision := ⟨0⟩

def successor (revision : Revision) : Except Error Revision :=
  if revision.value ≥ maxSafeInteger then .error (.terminal .boundExceeded .commit)
  else .ok ⟨revision.value + 1⟩

theorem successor_eq_ok {revision next : Revision} :
    revision.successor = .ok next ↔
      revision.value < maxSafeInteger ∧ next = ⟨revision.value + 1⟩ := by
  simp only [successor]
  split <;> simp_all [eq_comm]

end Revision

structure PendingId where
  token : Nat
  deriving DecidableEq

inductive PendingKind
  | packet (bytes : Bytes)
  | effect (bytes : Bytes)
  | plaintext (bytes : Bytes)
  deriving DecidableEq

structure PendingItem where
  id : PendingId
  kind : PendingKind
  deriving DecidableEq

namespace PendingItem

def bounded (id : PendingId) (kind : PendingKind) : Except Error PendingItem := do
  let (length, maximum) := match kind with
    | .packet bytes | .effect bytes => (bytes.length, maxPendingPayloadBytes)
    | .plaintext bytes => (bytes.length, maxPendingPlaintextBytes)
  reject (length > maximum) (.terminal .boundExceeded .validation)
  return ⟨id, kind⟩

def packet (id : PendingId) (bytes : Bytes) : Except Error PendingItem := bounded id (.packet bytes)

def effect (id : PendingId) (bytes : Bytes) : Except Error PendingItem := bounded id (.effect bytes)

def plaintext (id : PendingId) (bytes : Bytes) : Except Error PendingItem :=
  bounded id (.plaintext bytes)

def isPacket (item : PendingItem) : Bool := match item.kind with
  | .packet _ => true
  | _ => false

def isPlaintext (item : PendingItem) : Bool := match item.kind with
  | .plaintext _ => true
  | _ => false

theorem bounded_eq_ok {id : PendingId} {kind : PendingKind} {item : PendingItem}
    (h : bounded id kind = .ok item) : item = ⟨id, kind⟩ := by
  simp only [bounded, Except.bind_eq_ok, Except.pure_eq, Except.ok.injEq] at h
  obtain ⟨_, _, rfl⟩ := h
  rfl

end PendingItem

structure Versioned (S : Type) where
  revision : Revision
  state : S
  pending : List PendingItem
  deriving DecidableEq

def Versioned.initial {S : Type} (state : S) : Versioned S := ⟨.initial, state, []⟩

structure Commit (S : Type) where
  nextState : S
  keyMutations : List KeyMutation
  pending : List PendingItem
  deriving DecidableEq

namespace Commit

variable {S : Type}

def bounded (nextState : S) (keyMutations : List KeyMutation) (pending : List PendingItem)
    (maximumMutations maximumPending : Nat) : Except Error (Commit S) := do
  reject (keyMutations.length > maximumMutations ∨ pending.length > maximumPending)
    (.terminal .boundExceeded .validation)
  reject (¬(pending.map PendingItem.id).Nodup ∨
    ¬(keyMutations.map KeyMutation.custodyToken).Nodup) (.terminal .boundExceeded .validation)
  return ⟨nextState, keyMutations, pending⟩

def intoVersioned (commit : Commit S) (expected : Revision) : Except Error (Versioned S) := do
  let revision ← expected.successor
  return ⟨revision, commit.nextState, commit.pending⟩

theorem bounded_eq_ok {nextState : S} {keyMutations : List KeyMutation}
    {pending : List PendingItem} {maximumMutations maximumPending : Nat} {commit : Commit S} :
    bounded nextState keyMutations pending maximumMutations maximumPending = .ok commit ↔
      keyMutations.length ≤ maximumMutations ∧ pending.length ≤ maximumPending ∧
      (pending.map PendingItem.id).Nodup ∧ (keyMutations.map KeyMutation.custodyToken).Nodup ∧
      commit = ⟨nextState, keyMutations, pending⟩ := by
  rw [show commit = ⟨nextState, keyMutations, pending⟩ ↔ ⟨nextState, keyMutations, pending⟩ = commit
    from eq_comm]
  simp only [bounded, Except.bind_eq_ok, reject_eq_ok, exists_const, Except.pure_eq,
    Except.ok.injEq, not_or, not_lt, not_not, and_assoc, gt_iff_lt]

theorem bounded_eq_error {nextState : S} {keyMutations : List KeyMutation}
    {pending : List PendingItem} {maximumMutations maximumPending : Nat} {e : Error}
    (h : bounded nextState keyMutations pending maximumMutations maximumPending = .error e) :
    e = .terminal .boundExceeded .validation := by
  simp only [bounded, Except.bind_eq_error, reject_eq_error, Except.pure_eq] at h
  rcases h with ⟨_, rfl⟩ | ⟨_, _, ⟨_, rfl⟩ | ⟨_, _, h⟩⟩
  · rfl
  · rfl
  · cases h

end Commit

structure AtomicState (m : Type → Type) (S : Type) where
  load : m (Except Error (Versioned S))
  compareAndSwap : Revision → Commit S → m (Except Error Revision)
  settle : Revision → PendingId → m (Except Error Revision)

structure PacketCarrier (m : Type → Type) where
  send : Bytes → m (Except Error Unit)

structure ApplicationEffects (m : Type → Type) where
  apply : Bytes → m (Except Error Unit)

structure PlaintextReceiver (m : Type → Type) where
  release : Bytes → m (Except Error Unit)

section Drivers

variable {m : Type → Type} [Monad m] {S : Type}

/-- The two checks that both drivers make on the snapshot they load. -/
def loadPending (store : AtomicState m S) (revision : Revision) (item : PendingItem) :
    ExceptT Error m Unit := do
  let current ← ExceptT.mk store.load
  lift (reject (current.revision ≠ revision) (.terminal .conflict .commit))
  lift (reject (item ∉ current.pending) (.terminal .invalidTransition .commit))

def drivePending (store : AtomicState m S) (revision : Revision) (item : PendingItem)
    (carrier : PacketCarrier m) (effects : ApplicationEffects m) : ExceptT Error m Revision := do
  loadPending store revision item
  match item.kind with
  | .packet packet => ExceptT.mk (carrier.send packet)
  | .effect effect => ExceptT.mk (effects.apply effect)
  | .plaintext _ => throw (.terminal .invalidTransition .commit)
  ExceptT.mk (store.settle revision item.id)

def releasePlaintext (store : AtomicState m S) (revision : Revision) (item : PendingItem)
    (receiver : PlaintextReceiver m) : ExceptT Error m Revision := do
  loadPending store revision item
  match item.kind with
  | .plaintext plaintext => ExceptT.mk (receiver.release plaintext)
  | .packet _ | .effect _ => throw (.terminal .invalidTransition .commit)
  ExceptT.mk (store.settle revision item.id)

end Drivers

end LicoArc
